import Qnetd.Component.Slots
import Qnetd.Component.Steps
import Qnetd.Lib.Outbox

/-!
# Transmitting

What happens to the bytes of a frame between `send_frame` and the socket. A frame is written at once
when nothing waits before it, and what a `write` does not take is queued and flushed by the loop.

* `passedFor`, `writtenFor` : the frames passed to `send_frame` for the connection of a slot, and
  the bytes its socket accepted;
* `Moved` : a `write` as a step of the connection's outbox; `sendFrame_moved`, `flush_moved`;
* `Reached` : what the component does to its connections, in any order, with the connections on
  which a `write` failed;
* `Transmitting` : the invariant, kept by every step (`Reached.transmitting`); `run_reached` : a run
  takes such steps;
* `transmit_exact` : nothing is lost, repeated or reordered, and a connection is sent nothing of an
  earlier one.
-/

namespace Qnetd

/-! ## Bytes of a connection -/

/-- The frame that the event passes to `send_frame` for slot `i`, if any. -/
def LoopEvent.framesTo (i : Slot) : LoopEvent → List Frame
  | .core e => e.framesTo i
  | _ => []

/-- The bytes the socket of slot `i` accepted. -/
def LoopEvent.accepts (i : Slot) : LoopEvent → Bytes
  | .wrote j _ data => if j = i then data else []
  | _ => []

/-- The frames passed to `send_frame` for the slot since a socket was attached to it. -/
def framesFor (i : Slot) (tr : List LoopEvent) : List Frame :=
  History.collected (fun e => (e.attaches i).isSome) (LoopEvent.framesTo i) tr

/-- Their bytes, one frame after the other. -/
def passedFor (i : Slot) (tr : List LoopEvent) : Bytes := (framesFor i tr).flatten

/-- The bytes written for the slot since a socket was attached to it. -/
def writtenFor (i : Slot) (tr : List LoopEvent) : Bytes :=
  History.collected (fun e => (e.attaches i).isSome) (LoopEvent.accepts i) tr

section Collected

variable {i : Slot} {e : LoopEvent} (tr : List LoopEvent)

theorem passedFor_cons (h : e.attaches i = none) :
    passedFor i (e :: tr) = passedFor i tr ++ (e.framesTo i).flatten := by
  have hcons : framesFor i (e :: tr) = framesFor i tr ++ e.framesTo i :=
    History.collected_cons (by rw [h]; rfl) _ _
  rw [passedFor, hcons, List.flatten_append, passedFor]

theorem writtenFor_cons (h : e.attaches i = none) :
    writtenFor i (e :: tr) = writtenFor i tr ++ e.accepts i :=
  History.collected_cons (by rw [h]; rfl) _ _

theorem passedFor_of_attaches {x : Option Socket} (h : e.attaches i = some x) :
    passedFor i (e :: tr) = [] := by
  have hnil : framesFor i (e :: tr) = [] := History.collected_of_reset (by rw [h]; rfl) _ _
  rw [passedFor, hnil, List.flatten_nil]

theorem writtenFor_of_attaches {x : Option Socket} (h : e.attaches i = some x) :
    writtenFor i (e :: tr) = [] :=
  History.collected_of_reset (by rw [h]; rfl) _ _

end Collected

/-- The event is not about the connection of slot `i`. -/
structure LoopEvent.Apart (i : Slot) (e : LoopEvent) : Prop where
  attaches : e.attaches i = none
  framesTo : e.framesTo i = []
  accepts : e.accepts i = []

section Apart

variable {i : Slot} {e : LoopEvent} (h : e.Apart i) (tr : List LoopEvent)
include h

theorem LoopEvent.Apart.passedFor : passedFor i (e :: tr) = Qnetd.passedFor i tr := by
  rw [passedFor_cons tr h.attaches, h.framesTo, List.flatten_nil, List.append_nil]

theorem LoopEvent.Apart.writtenFor : writtenFor i (e :: tr) = writtenFor i tr := by
  rw [writtenFor_cons tr h.attaches, h.accepts, List.append_nil]

theorem LoopEvent.Apart.occupant : occupant i (e :: tr) = Qnetd.occupant i tr := by
  rw [occupant_cons, h.attaches, Option.getD_none]

end Apart

/-- What is written goes to the socket attached to the slot. With what that socket has accepted
before, it was passed to `send_frame` for this connection, in this order. -/
def WroteOwn : LoopEvent → List LoopEvent → Prop
  | .wrote i sock data, past => occupant i past = some sock ∧
  (writtenFor i past ++ data).Sublist (passedFor i past)
  | _, _ => True

/-! ## Writing -/

namespace QnetdComponent

/-- What the socket of the slot has accepted, and what is queued for it. -/
def outbox (c : QnetdComponent) (i : Slot) : Outbox UInt8 := ⟨writtenFor i c.trace, (c.conns i).tx⟩

end QnetdComponent

/-- `data` is queued for the connection of slot `i`, and a `write` may have taken some of the queue.
-/
structure Moved (i : Slot) (sock : Socket) (data : Bytes) (c c' : QnetdComponent) : Prop where
  others : ∀ j, j ≠ i → c'.conns j = c.conns j
  attached : (c'.conns i).sock = (c.conns i).sock
  took : ∃ k, (c'.conns i).tx = ((c.conns i).tx ++ data).drop k ∧
    (c'.trace = .wrote i sock (((c.conns i).tx ++ data).take k) :: c.trace ∨
      (k = 0 ∧ c'.trace = c.trace))

theorem Moved.outbox {i : Slot} {sock : Socket} {data : Bytes} {c c' : QnetdComponent}
    (h : Moved i sock data c c') :
    ∃ k, c'.outbox i = ((c.outbox i).push data).take k := by
  obtain ⟨k, htx, htr | ⟨rfl, htr⟩⟩ := h.took
  · refine ⟨k, ?_⟩
    have hout : writtenFor i c'.trace =
        writtenFor i c.trace ++ ((c.conns i).tx ++ data).take k := by
      rw [htr, writtenFor_cons c.trace rfl, LoopEvent.accepts, if_pos rfl]
    rw [QnetdComponent.outbox, hout, htx]
    rfl
  · refine ⟨0, ?_⟩
    rw [Outbox.take_zero, QnetdComponent.outbox, htr, htx, List.drop_zero]
    rfl

namespace QnetdComponent

variable (w : Writes) {c : QnetdComponent} {i : Slot} {sock : Socket}

theorem moved_of_conns {c' : QnetdComponent} {data : Bytes} {k : Nat}
    (hconns : ∀ j, c'.conns j =
      if j = i then { c.conns i with tx := ((c.conns i).tx ++ data).drop k } else c.conns j)
    (htr : c'.trace = .wrote i sock (((c.conns i).tx ++ data).take k) :: c.trace ∨
      (k = 0 ∧ c'.trace = c.trace)) :
    Moved i sock data c c' where
  others j hj := by rw [hconns, if_neg hj]
  attached := by rw [hconns, if_pos rfl]
  took := ⟨k, by rw [hconns, if_pos rfl], htr⟩

theorem setTx_self (j : Slot) {tx : Bytes} (h : (c.conns i).tx = tx) :
    c.conns j = if j = i then { c.conns i with tx := tx } else c.conns j := by
  split_ifs with hj
  · rw [hj, ← h]
  · rfl

/-- A frame goes to the outbox of the connection, unless the `write` fails. -/
theorem sendFrame_moved (hsock : (c.conns i).sock = some sock) (hused : (c.conns i).used = true)
    (f : Frame) : Moved i sock f c (c.sendFrame w i f) ∨
      ((c.conns i).tx = [] ∧ w c.writes f.length = .failed ∧
        c.sendFrame w i f = { c with writes := c.writes + 1 }) := by
  have hopen : ¬(c.conns i).used = false := by rw [hused]; nofun
  simp only [sendFrame, hsock, if_neg hopen]
  by_cases htx : (c.conns i).tx = []
  · -- nothing waits, so the frame is written at once and what is left of it is queued
    rw [if_pos htx]
    simp only [write]
    cases hw : w c.writes f.length with
    | wrote n =>
      refine Or.inl ?_
      simp only
      split_ifs with hn
      · refine moved_of_conns (k := n) (fun j => ?_) (Or.inl (by rw [htx]; rfl))
        rw [queue, setConn_conns]
        show (if j = i then { c.conns i with tx := (c.conns i).tx ++ f.drop n } else c.conns j) = _
        rw [htx]
        rfl
      · have hall : f.drop n = [] := List.drop_eq_nil_of_le (by omega)
        refine moved_of_conns (k := n) (fun j => ?_) (Or.inl (by rw [htx]; rfl))
        exact setTx_self (c := c) j (by rw [htx, List.nil_append, hall])
    | wouldBlock =>
      exact Or.inl (moved_of_conns (k := 0) (fun j => setConn_conns _ i _ j) (Or.inr ⟨rfl, rfl⟩))
    | failed => exact Or.inr ⟨htx, rfl, rfl⟩
  · rw [if_neg htx]
    exact Or.inl (moved_of_conns (k := 0) (fun j => setConn_conns c i _ j) (Or.inr ⟨rfl, rfl⟩))

/-- A flush adds nothing to the outbox. When the `write` fails, the queue stays. -/
theorem flush_moved : Moved i sock [] c (c.flush w i sock) := by
  have hkeep : ∀ {c' : QnetdComponent}, c'.conns = c.conns → c'.trace = c.trace →
      Moved i sock [] c c' := by
    intro c' hconns htr
    refine moved_of_conns (k := 0) (fun j => ?_) (Or.inr ⟨rfl, htr⟩)
    rw [hconns]
    exact setTx_self j (List.append_nil _).symm
  unfold flush
  by_cases htx : (c.conns i).tx = []
  · rw [if_pos htx]
    exact hkeep rfl rfl
  · rw [if_neg htx]
    simp only [write]
    cases w c.writes (c.conns i).tx.length with
    | wrote n =>
      refine moved_of_conns (k := n) (fun j => ?_) (Or.inl (by rw [List.append_nil]; rfl))
      rw [setConn_conns, List.append_nil]
      rfl
    | wouldBlock => exact hkeep rfl rfl
    | failed => exact hkeep rfl rfl

end QnetdComponent

/-! ## Steps -/

namespace QnetdComponent

/-- The slot whose frame is lost with the event because its `write` fails. -/
def breaks (w : Writes) (c : QnetdComponent) (e : Event) : List Slot :=
  match e.call with
  | some (.sendFrame i f) =>
    match (c.conns i).tx, w c.writes f.length with
    | [], .failed => [i]
    | _, _ => []
  | _ => []

end QnetdComponent

/-- The component can be in this state, and a `write` of `send_frame` has failed on these
connections. The server's events reach the transport, sockets are attached, flushed and dropped, all
in any order. -/
inductive Reached (w : Writes) : QnetdComponent → List Slot → Prop
  | setup (listening : Bool) : Reached w (.setup listening) []
  | deliver {c : QnetdComponent} {broken : List Slot} (e : Event) : Reached w c broken →
      Reached w (c.deliver w e) (c.breaks w e ++ broken)
  | attach {c : QnetdComponent} {broken : List Slot} (i : Slot) (sock : Socket) :
      Reached w c broken → Reached w (c.attach i sock) (broken.filter (· ≠ i))
  | flush {c : QnetdComponent} {broken : List Slot} {i : Slot} {sock : Socket} :
      Reached w c broken →
      (c.conns i).sock = some sock → (c.conns i).used = true → Reached w (c.flush w i sock) broken
  | drop {c : QnetdComponent} {broken : List Slot} (i : Slot) : Reached w c broken →
      Reached w ((c.closeConnection i).note (.lost i)) broken
  | outside {c : QnetdComponent} {broken : List Slot} {e : LoopEvent} : Reached w c broken →
      e.outside = true → Reached w (c.note e) broken
  /-- The server and the clock are not part of the transport. -/
  | inside {c c' : QnetdComponent} {broken : List Slot} : Reached w c broken → c'.conns = c.conns →
      c'.writes = c.writes → c'.trace = c.trace → Reached w c' broken

/-! ## The invariant -/

/-- The slot has its socket, and what was passed for it is out, queued or still owed to the queue,
in this order. Frames may be missing from it on a broken connection only. -/
structure Line (i : Slot) (owed : Bytes) (broken : Prop) (c : QnetdComponent) : Prop where
  attached : ∃ sock, (c.conns i).sock = some sock ∧ occupant i c.trace = some sock
  ordered : ((c.outbox i).total ++ owed).Sublist (passedFor i c.trace)
  exact : ¬broken → (c.outbox i).total ++ owed = passedFor i c.trace

namespace Line

variable {i : Slot} {owed : Bytes} {broken broken' : Prop} {c c' : QnetdComponent}

theorem mono (h : Line i owed broken c) (hb : broken → broken') : Line i owed broken' c :=
  ⟨h.attached, h.ordered, fun hb' => h.exact (mt hb hb')⟩

theorem congr (h : Line i owed broken c) (hconn : c'.conns i = c.conns i)
    (htr : c'.trace = c.trace) : Line i owed broken c' := by
  have hout : c'.outbox i = c.outbox i := by
    rw [QnetdComponent.outbox, hconn, htr, QnetdComponent.outbox]
  exact ⟨by rw [hconn, htr]; exact h.attached, by rw [hout, htr]; exact h.ordered,
    by rw [hout, htr]; exact h.exact⟩

theorem apart (h : Line i owed broken c) {e : LoopEvent} (he : e.Apart i)
    (hconn : c'.conns i = c.conns i) (htr : c'.trace = e :: c.trace) : Line i owed broken c' := by
  have hout : c'.outbox i = c.outbox i := by
    rw [QnetdComponent.outbox, hconn, htr, he.writtenFor, QnetdComponent.outbox]
  refine ⟨?_, ?_, ?_⟩
  · rw [hconn, htr, he.occupant]
    exact h.attached
  · rw [hout, htr, he.passedFor]
    exact h.ordered
  · rw [hout, htr, he.passedFor]
    exact h.exact

theorem passes (h : Line i [] broken c) {e : LoopEvent} (hattach : e.attaches i = none)
    (haccept : e.accepts i = []) : Line i (e.framesTo i).flatten broken (c.note e) := by
  have htr : (c.note e).trace = e :: c.trace := rfl
  have hout : (c.note e).outbox i = c.outbox i := by
    rw [QnetdComponent.outbox, htr, writtenFor_cons _ hattach, haccept, List.append_nil]
    rfl
  refine ⟨?_, ?_, fun hb => ?_⟩
  · rw [htr, occupant_cons, hattach]
    exact h.attached
  · rw [hout, htr, passedFor_cons _ hattach]
    exact (List.append_nil (c.outbox i).total ▸ h.ordered).append_right (e.framesTo i).flatten
  · rw [hout, htr, passedFor_cons _ hattach, ← h.exact hb, List.append_nil]

theorem loses (h : Line i owed broken c) (hb : broken') (hconn : c'.conns = c.conns)
    (htr : c'.trace = c.trace) : Line i [] broken' c' := by
  have hsub : (c.outbox i).total.Sublist ((c.outbox i).total ++ owed) :=
    List.sublist_append_left _ _
  refine Line.congr ⟨h.attached, ?_, absurd hb⟩ (congrFun hconn i) htr
  rw [List.append_nil]
  exact hsub.trans h.ordered

end Line

namespace Moved

variable {i : Slot} {sock : Socket} {data : Bytes} {c c' : QnetdComponent}

theorem total (h : Moved i sock data c c') : (c'.outbox i).total = (c.outbox i).total ++ data := by
  obtain ⟨k, hk⟩ := h.outbox
  rw [hk, Outbox.total_take, Outbox.total_push]

theorem wrote_apart {j : Slot} (hj : j ≠ i) (sock : Socket) (b : Bytes) :
    (LoopEvent.wrote i sock b).Apart j :=
  ⟨rfl, rfl, if_neg (Ne.symm hj)⟩

theorem line (h : Moved i sock data c c') {broken : Prop} (hl : Line i data broken c) :
    Line i [] broken c' := by
  have hsame : passedFor i c'.trace = passedFor i c.trace ∧
      occupant i c'.trace = occupant i c.trace := by
    obtain ⟨k, -, htr | ⟨-, htr⟩⟩ := h.took
    · rw [htr, passedFor_cons c.trace rfl, occupant_cons]
      exact ⟨List.append_nil _, rfl⟩
    · rw [htr]
      exact ⟨rfl, rfl⟩
  refine ⟨?_, ?_, fun hb => ?_⟩
  · rw [h.attached, hsame.2]
    exact hl.attached
  · rw [List.append_nil, h.total, hsame.1]
    exact hl.ordered
  · rw [List.append_nil, h.total, hsame.1]
    exact hl.exact hb

theorem line_of_ne (h : Moved i sock data c c') {j : Slot} (hj : j ≠ i) {broken : Prop}
    (hl : Line j [] broken c) : Line j [] broken c' := by
  obtain ⟨k, -, htr | ⟨-, htr⟩⟩ := h.took
  · exact hl.apart (wrote_apart hj sock _) (h.others j hj) htr
  · exact hl.congr (h.others j hj) htr

theorem wrote (h : Moved i sock data c c') {broken : Prop} (hl : Line i data broken c)
    (hsock : (c.conns i).sock = some sock)
    (hw : History.Always WroteOwn c.trace) : History.Always WroteOwn c'.trace := by
  obtain ⟨k, -, htr | ⟨-, htr⟩⟩ := h.took
  · rw [htr]
    refine .cons ⟨?_, ?_⟩ hw
    · obtain ⟨sock', hsock', hocc⟩ := hl.attached
      rw [hocc, ← hsock', hsock]
    · have hout := Outbox.out_take_prefix ((c.outbox i).push data) k
      rw [Outbox.total_push] at hout
      exact hout.sublist.trans hl.ordered
  · rw [htr]
    exact hw

end Moved

/-- The connections in use, and the bytes written so far. -/
structure Transmitting (c : QnetdComponent) (broken : List Slot) : Prop where
  lines : ∀ i, (c.conns i).used = true → Line i [] (i ∈ broken) c
  wrote : History.Always WroteOwn c.trace

namespace Transmitting

variable {w : Writes} {c c' : QnetdComponent} {broken : List Slot}

theorem note (h : Transmitting c broken) {e : LoopEvent} (he : ∀ i, e.Apart i)
    (hown : WroteOwn e c.trace) : Transmitting (c.note e) broken :=
  ⟨fun i hused => (h.lines i hused).apart (he i) rfl rfl, .cons hown h.wrote⟩

theorem detach (h : Transmitting c broken) {i : Slot} {e : LoopEvent} (he : ∀ j, j ≠ i → e.Apart j)
    (hown : WroteOwn e c.trace) : Transmitting ((c.closeConnection i).note e) broken := by
  refine ⟨fun j hused => ?_, .cons hown h.wrote⟩
  have hconn : ((c.closeConnection i).note e).conns j = if j = i then {} else c.conns j :=
    c.setConn_conns i {} j
  by_cases hj : j = i
  · rw [hconn, if_pos hj] at hused
    cases hused
  · rw [hconn, if_neg hj] at hused
    exact (h.lines j hused).apart (he j hj) (by rw [hconn, if_neg hj]) rfl

theorem attach (h : Transmitting c broken) (i : Slot) (sock : Socket) :
    Transmitting (c.attach i sock) (broken.filter (· ≠ i)) := by
  refine ⟨fun j hused => ?_, .cons trivial h.wrote⟩
  have hconn : (c.attach i sock).conns j =
      if j = i then { sock := some sock, tx := [], used := true } else c.conns j :=
        c.setConn_conns i _ j
  have htr : (c.attach i sock).trace = .accepted i sock :: c.trace := rfl
  by_cases hj : j = i
  · subst hj
    have hattach : (LoopEvent.accepted j sock).attaches j = some (some sock) := if_pos rfl
    have hout : (c.attach j sock).outbox j = ⟨[], []⟩ := by
      rw [QnetdComponent.outbox, hconn, if_pos rfl, htr, writtenFor_of_attaches _ hattach]
    have hpassed : passedFor j (c.attach j sock).trace = [] := by
      rw [htr, passedFor_of_attaches _ hattach]
    refine ⟨⟨sock, ?_, ?_⟩, ?_, fun _ => ?_⟩
    · rw [hconn, if_pos rfl]
    · rw [htr, occupant_cons, hattach, Option.getD_some]
    · rw [hout, hpassed]
      exact List.Sublist.refl _
    · rw [hout, hpassed]
      rfl
  · rw [hconn, if_neg hj] at hused
    have hapart : (LoopEvent.accepted i sock).Apart j := ⟨if_neg (Ne.symm hj), rfl, rfl⟩
    refine ((h.lines j hused).apart hapart (by rw [hconn, if_neg hj]) htr).mono fun hb => ?_
    exact List.mem_filter.mpr ⟨hb, by simpa using hj⟩

theorem moved {i : Slot} {sock : Socket} {data : Bytes} (hm : Moved i sock data c c')
    (h : ∀ j, j ≠ i → (c.conns j).used = true → Line j [] (j ∈ broken) c)
    (hl : Line i data (i ∈ broken) c)
    (hsock : (c.conns i).sock = some sock) (hw : History.Always WroteOwn c.trace) :
    Transmitting c' broken := by
  refine ⟨fun j hused => ?_, hm.wrote hl hsock hw⟩
  by_cases hj : j = i
  · subst hj
    exact hm.line hl
  · rw [hm.others j hj] at hused
    exact hm.line_of_ne hj (h j hj hused)

theorem core_apart {e : Event} (hcall : e.call = none) (i : Slot) : (LoopEvent.core e).Apart i := by
  cases e with
  | send | vote | close => cases hcall
  | _ => exact ⟨rfl, rfl, rfl⟩

theorem core_sendFrame {e : Event} {i : Slot} {f : Frame} (hcall : e.call = some (.sendFrame i f)) :
    (LoopEvent.core e).framesTo i = [f] ∧ (LoopEvent.core e).attaches i = none ∧
      (LoopEvent.core e).accepts i = [] ∧ ∀ j, j ≠ i → (LoopEvent.core e).Apart j := by
  cases e with
  | send k g | vote k g =>
    cases hcall
    exact ⟨if_pos rfl, rfl, rfl, fun j hj => ⟨rfl, if_neg (Ne.symm hj), rfl⟩⟩
  | _ => cases hcall

theorem sendFrame_of_unused {i : Slot} (h : (c.conns i).used = false) (f : Frame) :
    c.sendFrame w i f = c := by
  unfold QnetdComponent.sendFrame
  cases (c.conns i).sock with
  | none => rfl
  | some sock => exact if_pos h

theorem breaks_of_failed {e : Event} {i : Slot} {f : Frame} (hcall : e.call = some (.sendFrame i f))
    (htx : (c.conns i).tx = []) (hfail : w c.writes f.length = .failed) : c.breaks w e = [i] := by
  simp only [QnetdComponent.breaks, hcall, htx, hfail]

theorem sendFrame (h : Transmitting c broken) {e : Event} {i : Slot} {f : Frame}
    (hcall : e.call = some (.sendFrame i f)) :
    Transmitting ((c.note (.core e)).sendFrame w i f) (c.breaks w e ++ broken) := by
  obtain ⟨hpass, hattach, haccept, hapart⟩ := core_sendFrame hcall
  have hothers : ∀ j, j ≠ i → (c.conns j).used = true →
      Line j [] (j ∈ c.breaks w e ++ broken) (c.note (.core e)) :=
    fun j hj hused => by
      have hline : Line j [] (j ∈ broken) (c.note (.core e)) :=
        (h.lines j hused).apart (hapart j hj) rfl rfl
      exact hline.mono (List.mem_append_right _)
  have hw : History.Always WroteOwn (c.note (.core e)).trace := .cons trivial h.wrote
  cases hused : (c.conns i).used with
  | false =>
    -- there is no connection the frame could be for
    rw [sendFrame_of_unused (c := c.note (.core e)) hused]
    refine ⟨fun j hj => hothers j (fun heq => ?_) hj, hw⟩
    rw [heq, show ((c.note (.core e)).conns i).used = false from hused] at hj
    cases hj
  | true =>
    have hl := (h.lines i hused).passes hattach haccept
    rw [hpass, List.flatten_singleton] at hl
    obtain ⟨sock, hsock, -⟩ := (h.lines i hused).attached
    rcases QnetdComponent.sendFrame_moved w (c := c.note (.core e)) hsock hused f
      with hm | ⟨htx, hfail, heq⟩
    · exact moved hm hothers (hl.mono (List.mem_append_right _)) hsock hw
    · rw [heq]
      refine ⟨fun j hj => ?_, hw⟩
      by_cases hji : j = i
      · subst hji
        have hlost : j ∈ c.breaks w e ++ broken := by
          rw [breaks_of_failed (c := c) hcall htx hfail]
          exact List.mem_append_left _ (List.mem_singleton_self j)
        exact hl.loses hlost rfl rfl
      · exact (hothers j hji hj).congr rfl rfl

theorem deliver (h : Transmitting c broken) (e : Event) :
    Transmitting (c.deliver w e) (c.breaks w e ++ broken) := by
  unfold QnetdComponent.deliver
  cases hcall : e.call with
  | none =>
    rw [show c.breaks w e = [] by simp only [QnetdComponent.breaks, hcall]]
    exact h.note (core_apart hcall) trivial
  | some k =>
    cases k with
    | sendFrame i f => exact h.sendFrame hcall
    | closeConnection i =>
      obtain rfl : e = .close i := by cases e <;> simp [Event.call] at hcall; rw [hcall]
      exact h.detach (e := .core (.close i)) (fun j hj => ⟨if_neg (Ne.symm hj), rfl, rfl⟩) trivial

theorem flush (h : Transmitting c broken) {i : Slot} {sock : Socket}
    (hsock : (c.conns i).sock = some sock)
    (hused : (c.conns i).used = true) : Transmitting (c.flush w i sock) broken :=
  moved (QnetdComponent.flush_moved w) (fun j _ hj => h.lines j hj) (h.lines i hused) hsock h.wrote

end Transmitting

/-- Every step keeps the invariant. -/
theorem Reached.transmitting {w : Writes} {c : QnetdComponent} {broken : List Slot}
    (h : Reached w c broken) : Transmitting c broken := by
  induction h with
  | setup listening => exact ⟨fun _ hused => absurd hused nofun, .nil⟩
  | deliver e _ ih => exact ih.deliver e
  | attach i sock _ ih => exact ih.attach i sock
  | flush _ hsock hused ih => exact ih.flush hsock hused
  | drop i _ ih => exact ih.detach (fun j hj => ⟨if_neg (Ne.symm hj), rfl, rfl⟩) trivial
  | @outside c broken e _ he ih =>
    cases e with
    | fed | refused => exact ih.note (fun _ => ⟨rfl, rfl, rfl⟩) trivial
    | _ => cases he
  | inside _ hconns _ htr ih =>
    refine ⟨fun i hused => ?_, htr ▸ ih.wrote⟩
    rw [hconns] at hused
    exact (ih.lines i hused).congr (congrFun hconns i) htr

/-! ## Runs -/

theorem breaks_eq_nil {w : Writes} (hw : ∀ k len, w k len ≠ .failed) (c : QnetdComponent)
    (e : Event) : c.breaks w e = [] := by
  unfold QnetdComponent.breaks
  split
  · split
    · next hfail => exact absurd hfail (hw _ _)
    · rfl
  · rfl

/-- The steps of the loop are such steps. If no `write` fails, no connection breaks. -/
theorem Reached.step {w : Writes} {c c' : QnetdComponent} {broken : List Slot}
    (h : Reached w c broken) (hstep : LoopStep w c c') :
    ∃ broken', Reached w c' broken' ∧
    ((∀ k len, w k len ≠ .failed) → broken = [] → broken' = []) := by
  cases hstep with
  | server k => exact ⟨broken, h.inside rfl rfl rfl, fun _ => id⟩
  | deliver e => exact ⟨_, h.deliver e, fun hw hb => by rw [breaks_eq_nil hw, hb]; rfl⟩
  | attach i sock => exact ⟨_, h.attach i sock, fun _ hb => by rw [hb]; rfl⟩
  | flush hsock hused => exact ⟨broken, h.flush hsock hused, fun _ => id⟩
  | drop i => exact ⟨broken, h.drop i, fun _ => id⟩
  | outside he => exact ⟨broken, h.outside he, fun _ => id⟩

theorem Reached.steps {w : Writes} {c c' : QnetdComponent} {broken : List Slot}
    (h : Reached w c broken) (hsteps : Relation.ReflTransGen (LoopStep w) c c') :
    ∃ broken', Reached w c' broken' ∧
    ((∀ k len, w k len ≠ .failed) → broken = [] → broken' = []) := by
  induction hsteps with
  | refl => exact ⟨broken, h, fun _ => id⟩
  | tail _ hstep ih =>
    obtain ⟨broken₁, h₁, hb₁⟩ := ih
    obtain ⟨broken₂, h₂, hb₂⟩ := h₁.step hstep
    exact ⟨broken₂, h₂, fun hw hb => hb₂ hw (hb₁ hw hb)⟩

/-- A run of the component takes such steps. -/
theorem run_reached (w : Writes) (listening : Bool) (its : List Iteration) :
    ∃ broken, Reached w (.run w listening its) broken ∧
    ((∀ k len, w k len ≠ .failed) → broken = []) := by
  induction its using List.reverseRecOn with
  | nil => exact ⟨[], .setup listening, fun _ => rfl⟩
  | append_singleton its it ih =>
    obtain ⟨broken, h, hb⟩ := ih
    rw [QnetdComponent.run_concat]
    rcases QnetdComponent.loop_steps w (.run w listening its) it with ⟨-, hloop⟩ | ⟨-, hsteps⟩
    · rw [hloop]
      exact ⟨broken, h, hb⟩
    · have hclock : Reached w ((QnetdComponent.run w listening its).nowMs it.millis).2 broken :=
        h.inside rfl rfl rfl
      obtain ⟨broken', h', hb'⟩ := hclock.steps hsteps
      exact ⟨broken', h', fun hw => hb' hw (hb hw)⟩

/-- The transmit path loses, repeats and reorders nothing. At every moment, whatever has happened on
the other slots:
* for a connection in use on which no `write` of `send_frame` has failed, the bytes its socket has
  accepted followed by the queue are the frames passed to `send_frame` for it, in order;
* whatever was written went to the socket attached to the slot, and was passed for that connection.

Runs of the component are among these histories, and no connection breaks in them if the socket
layer accepts some of the bytes or would block. -/
theorem transmit_exact (w : Writes) :
    (∀ c broken, Reached w c broken →
      (∀ i, (c.conns i).used = true → i ∉ broken →
        writtenFor i c.trace ++ (c.conns i).tx = passedFor i c.trace) ∧
      History.Always WroteOwn c.trace) ∧
    ∀ listening its, ∃ broken, Reached w (.run w listening its) broken ∧
      ((∀ k len, w k len ≠ .failed) → broken = []) := by
  refine ⟨fun c broken h => ⟨fun i hused hi => ?_, h.transmitting.wrote⟩, run_reached w⟩
  have hexact := (h.transmitting.lines i hused).exact hi
  rwa [List.append_nil] at hexact

/-- A socket that takes up to three bytes at a time. -/
def trickle : Writes := fun _ len => .wrote ⟨min 3 len, Nat.lt_succ_of_le (Nat.min_le_right 3 len)⟩

theorem transmit_exact_trickle :
    (writtenFor 0 (QnetdComponent.run trickle true twoPeers).trace).length = 3 ∧
    ((QnetdComponent.run trickle true twoPeers).conns 0).tx ≠ [] ∧
    writtenFor 0 (QnetdComponent.run trickle true twoPeers).trace ++
        ((QnetdComponent.run trickle true twoPeers).conns 0).tx =
      passedFor 0 (QnetdComponent.run trickle true twoPeers).trace := by
  have hrun : ((QnetdComponent.run trickle true twoPeers).conns 0).used = true ∧
      (writtenFor 0 (QnetdComponent.run trickle true twoPeers).trace).length = 3 ∧
      ((QnetdComponent.run trickle true twoPeers).conns 0).tx ≠ [] := by decide +kernel
  obtain ⟨hexact, hreached⟩ := transmit_exact trickle
  obtain ⟨broken, h, hnone⟩ := hreached true twoPeers
  have hbroken : broken = [] := hnone fun _ _ => nofun
  exact ⟨hrun.2.1, hrun.2.2,
    (hexact _ broken h).1 0 hrun.1 (by rw [hbroken]; exact List.not_mem_nil)⟩

end Qnetd
