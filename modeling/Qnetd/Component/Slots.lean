import Qnetd.Component.Steps
import Qnetd.Host.Client
import Qnetd.Invariant.Lifetime

/-!
# Transport and server agree on the slots

The connection table and the session table are updated from both sides: the loop accepts, reads and
drops connections, the server closes them from inside its calls.

* `LoopEvent.next` : the life of a slot in the history of the component, where a lost connection
  ends the session too;
* `Boundary`, `boundaries` : where the sessions of a slot begin and end; `occupant` : the socket
  attached to it;
* `Carried` : what a sequence of server events does to the connections and to the history;
  `call_carried`;
* `Attached` : a socket is read while it is attached, and attached to a session that has none;
* `Agrees` : the invariant, kept by every act (`Act.agrees`);
* `slots_agree` : the two tables agree after every iteration, and the history is as it should be.
-/

namespace Qnetd

/-! ## The history of a slot -/

/-- What the event does to slot `i`, `none` when it is not allowed there. -/
def LoopEvent.next (i : Slot) : LoopEvent → Life → Option Life
  | .core e, l => Life.next i e l
  | .lost j, l => if j = i then (if l = .live then some .idle else none) else some l
  | _, l => some l

/-- How a session ends: the server calls `close_connection`, or it is called with `on_disconnected`.
-/
inductive Ending where
  | closed | lost
  deriving DecidableEq

inductive Boundary where
  | opened
  | ended (how : Ending)
  deriving DecidableEq

/-- The event begins or ends a session of slot `i`. -/
def LoopEvent.boundary (i : Slot) : LoopEvent → Option Boundary
  | .core (.connect j) => if j = i then some .opened else none
  | .core (.close j) => if j = i then some (.ended .closed) else none
  | .lost j => if j = i then some (.ended .lost) else none
  | _ => none

/-- Where the sessions of the slot begin and end, oldest first. -/
def boundaries (i : Slot) (tr : List LoopEvent) : List Boundary :=
  (tr.filterMap (LoopEvent.boundary i)).reverse

/-- The event attaches a socket to slot `i`, or detaches it. -/
def LoopEvent.attaches (i : Slot) : LoopEvent → Option (Option Socket)
  | .accepted j sock => if j = i then some (some sock) else none
  | .lost j => if j = i then some none else none
  | .core (.close j) => if j = i then some none else none
  | _ => none

/-- The socket attached to the slot. -/
def occupant (i : Slot) (tr : List LoopEvent) : Option Socket :=
  (History.last (LoopEvent.attaches i) tr).getD none

def LoopEvent.sendsTo (i : Slot) : LoopEvent → Prop
  | .core (.send j _) | .core (.vote j _) => j = i
  | _ => False

/-- The slot has a session, and its disconnect is not being processed. -/
def Live (i : Slot) (tr : List LoopEvent) : Prop :=
  History.after (LoopEvent.next i) .idle tr = some .live

/-- What was read from a socket is passed on for the slot it is attached to, and a socket is
attached to a session that has none yet. -/
def Attached : LoopEvent → List LoopEvent → Prop
  | .fed i sock _, past => occupant i past = some sock
  | .accepted i _, past => Live i past ∧ occupant i past = none
  | _, _ => True

/-- One event begins a session in a free slot, ends the one that is there, or does neither. -/
theorem boundary_cases {i : Slot} {e : LoopEvent} {a b : Life} (h : e.next i a = some b) :
    (e.boundary i = some .opened ∧ a = .idle ∧ b ≠ .idle) ∨
    (∃ how, e.boundary i = some (.ended how) ∧ a ≠ .idle ∧ b = .idle) ∨
    (e.boundary i = none ∧ (b = .idle ↔ a = .idle)) := by
  cases e with
  | core e =>
    cases e with
    | connect j =>
      simp only [LoopEvent.next, Life.next] at h
      split_ifs at h with hj ha
      · cases h
        exact Or.inl ⟨if_pos hj, ha, by simp⟩
      · cases h
        exact Or.inr (Or.inr ⟨if_neg hj, Iff.rfl⟩)
    | close j =>
      simp only [LoopEvent.next, Life.next] at h
      split_ifs at h with hj ha
      · cases h
        exact Or.inr (Or.inl ⟨.closed, if_pos hj, ha, rfl⟩)
      · cases h
        exact Or.inr (Or.inr ⟨if_neg hj, Iff.rfl⟩)
    | leave j c =>
      cases h
      refine Or.inr (Or.inr ⟨rfl, ?_⟩)
      split_ifs with hj
      · simp [hj.2]
      · exact Iff.rfl
    | send j f | vote j f =>
      simp only [LoopEvent.next, Life.next] at h
      split_ifs at h with hj
      cases h
      exact Or.inr (Or.inr ⟨rfl, Iff.rfl⟩)
    | _ =>
      cases h
      exact Or.inr (Or.inr ⟨rfl, Iff.rfl⟩)
  | lost j =>
    simp only [LoopEvent.next] at h
    split_ifs at h with hj ha
    · cases h
      exact Or.inr (Or.inl ⟨.lost, if_pos hj, by simp [ha], rfl⟩)
    · cases h
      exact Or.inr (Or.inr ⟨if_neg hj, Iff.rfl⟩)
  | _ =>
    cases h
    exact Or.inr (Or.inr ⟨rfl, Iff.rfl⟩)

theorem boundaries_cons (i : Slot) (e : LoopEvent) (tr : List LoopEvent) :
    boundaries i (e :: tr) = boundaries i tr ++ (e.boundary i).toList := by
  unfold boundaries
  cases h : e.boundary i <;> simp [h]

/-- The sessions of a slot: each begins once and ends once, and the last may not have ended. -/
theorem boundaries_of_after {i : Slot} : ∀ {tr : List LoopEvent} {l : Life},
    History.after (LoopEvent.next i) .idle tr = some l →
    ∃ ends : List Ending, boundaries i tr =
      ends.flatMap (fun how => [.opened, .ended how]) ++ if l = .idle then [] else [.opened]
  | [], l, h => by
    cases h
    exact ⟨[], rfl⟩
  | e :: tr, l, h => by
    obtain ⟨a, ha, hstep⟩ := Option.bind_eq_some_iff.mp h
    obtain ⟨ends, hends⟩ := boundaries_of_after ha
    rw [boundaries_cons, hends]
    rcases boundary_cases hstep with ⟨hb, hidle, hl⟩ | ⟨how, hb, hidle, hl⟩ | ⟨hb, hiff⟩
    · exact ⟨ends, by rw [hb, if_pos hidle, if_neg hl, List.append_nil]; rfl⟩
    · exact ⟨ends ++ [how], by rw [hb, if_neg hidle, if_pos hl]; simp⟩
    · exact ⟨ends, by rw [hb, Option.toList_none, List.append_nil]; simp only [hiff]⟩

theorem live_of_sendsTo {i : Slot} {tr : List LoopEvent} {l : Life}
    (h : History.after (LoopEvent.next i) .idle tr = some l) :
    History.Always (fun e past => e.sendsTo i → Live i past) tr := by
  intro new e old htr hsend
  obtain ⟨a, b, ha, hab⟩ := History.after_always h new e old htr
  cases e with
  | core e =>
    cases e with
    | send j f | vote j f =>
      by_cases hlive : a = .live
      · rw [Live, ha, hlive]
      · have hstop : (if j = i ∧ a ≠ .live then none else some a) = some b := hab
        rw [if_pos ⟨hsend, hlive⟩] at hstop
        cases hstop
    | _ => exact hsend.elim
  | _ => exact hsend.elim

/-! ## Server events at the transport -/

def LoopEvent.core? : LoopEvent → Option Event
  | .core e => some e
  | _ => none

/-- An event of the server, or bytes written. -/
def LoopEvent.inward : LoopEvent → Bool
  | .core _ | .wrote _ _ _ => true
  | _ => false

def Event.closes (i : Slot) : Event → Bool
  | .close j => j = i
  | _ => false

/-- The events `new` of the server have reached the transport: the connections they close are
detached, the others are as before except for what is queued, and the history has these events, with
what was written meanwhile. -/
structure Carried (c c' : QnetdComponent) (new : List Event) : Prop where
  server : c'.server = c.server
  sock : ∀ i, (c'.conns i).sock = if new.any (Event.closes i) then none else (c.conns i).sock
  used : ∀ i, (c'.conns i).used = if new.any (Event.closes i) then false else (c.conns i).used
  trace : ∃ added, c'.trace = added ++ c.trace ∧ added.filterMap LoopEvent.core? = new ∧
    ∀ e ∈ added, e.inward = true

theorem Carried.refl (c : QnetdComponent) : Carried c c [] :=
  ⟨rfl, fun _ => rfl, fun _ => rfl, [], rfl, rfl, by simp⟩

theorem Carried.trans {c c' c'' : QnetdComponent} {n₁ n₂ : List Event} (h₁ : Carried c c' n₁)
    (h₂ : Carried c' c'' n₂) : Carried c c'' (n₂ ++ n₁) := by
  obtain ⟨a₁, ht₁, hc₁, hi₁⟩ := h₁.trace
  obtain ⟨a₂, ht₂, hc₂, hi₂⟩ := h₂.trace
  refine ⟨h₂.server.trans h₁.server, fun i => ?_, fun i => ?_, a₂ ++ a₁,
    by rw [ht₂, ht₁, List.append_assoc],
    by rw [List.filterMap_append, hc₂, hc₁], List.forall_mem_append.mpr ⟨hi₂, hi₁⟩⟩
  · rw [h₂.sock, h₁.sock, List.any_append]
    cases n₂.any (Event.closes i) <;> simp
  · rw [h₂.used, h₁.used, List.any_append]
    cases n₂.any (Event.closes i) <;> simp

namespace QnetdComponent

theorem setConn_conns (c : QnetdComponent) (i : Slot) (k : Conn) (j : Slot) :
    (c.setConn i k).conns j = if j = i then k else c.conns j := Function.update_apply ..

theorem setTx_carried (c : QnetdComponent) (i : Slot) (tx : Bytes) :
    Carried c (c.setConn i { c.conns i with tx := tx }) [] := by
  refine ⟨rfl, fun j => ?_, fun j => ?_, [], rfl, rfl, by simp⟩
  · show ((c.setConn i { c.conns i with tx := tx }).conns j).sock = (c.conns j).sock
    rw [setConn_conns]
    split_ifs with hj
    · rw [hj]
    · rfl
  · show ((c.setConn i { c.conns i with tx := tx }).conns j).used = (c.conns j).used
    rw [setConn_conns]
    split_ifs with hj
    · rw [hj]
    · rfl

theorem write_carried (w : Writes) (c : QnetdComponent) (i : Slot) (sock : Socket) (data : Bytes) :
    Carried c (c.write w i sock data).2 [] := by
  unfold write
  cases w c.writes data.length with
  | wrote n => exact ⟨rfl, fun _ => rfl, fun _ => rfl, [_], rfl, rfl, by simp [LoopEvent.inward]⟩
  | wouldBlock => exact ⟨rfl, fun _ => rfl, fun _ => rfl, [], rfl, rfl, by simp⟩
  | failed => exact ⟨rfl, fun _ => rfl, fun _ => rfl, [], rfl, rfl, by simp⟩

theorem sendFrame_carried (w : Writes) (c : QnetdComponent) (i : Slot) (f : Frame) :
    Carried c (c.sendFrame w i f) [] := by
  unfold sendFrame
  cases (c.conns i).sock with
  | none => exact .refl c
  | some sock =>
    have hw := write_carried w c i sock f
    simp only
    split_ifs
    · exact .refl c
    · generalize c.write w i sock f = r at hw ⊢
      obtain ⟨r, c'⟩ := r
      cases r with
      | wrote n =>
        simp only
        split_ifs
        · exact hw.trans (setTx_carried c' i _)
        · exact hw
      | wouldBlock => exact hw.trans (setTx_carried c' i _)
      | failed => exact hw
    · exact setTx_carried c i _

theorem flush_carried (w : Writes) (c : QnetdComponent) (i : Slot) (sock : Socket) :
    Carried c (c.flush w i sock) [] := by
  unfold flush
  split_ifs
  · exact .refl c
  · have hw := write_carried w c i sock (c.conns i).tx
    generalize c.write w i sock (c.conns i).tx = r at hw ⊢
    obtain ⟨r, c'⟩ := r
    cases r with
    | wrote n => exact hw.trans (setTx_carried c' i _)
    | _ => exact hw

theorem deliver_carried (w : Writes) (c : QnetdComponent) (e : Event) :
    Carried c (c.deliver w e) [e] := by
  have hnote : e.call = none ∨ (∃ i f, e.call = some (.sendFrame i f)) →
      Carried c (c.note (.core e)) [e] := by
    intro he
    have hc : ∀ i, e.closes i = false := by
      intro i
      cases e <;> simp [Event.call] at he <;> rfl
    exact ⟨rfl, fun i => by simp [hc, note], fun i => by simp [hc, note], [.core e], rfl, rfl,
      by simp [LoopEvent.inward]⟩
  unfold deliver
  cases hcall : e.call with
  | none => exact hnote (Or.inl hcall)
  | some k =>
    cases k with
    | sendFrame i f =>
      exact (hnote (Or.inr ⟨i, f, hcall⟩)).trans (sendFrame_carried w _ i f)
    | closeConnection i =>
      obtain rfl : e = .close i := by cases e <;> simp [Event.call] at hcall; rw [hcall]
      have hconn : ∀ j, ((c.note (.core (.close i))).closeConnection i).conns j =
          if j = i then {} else c.conns j :=
        fun j => setConn_conns _ i {} j
      have hany : ∀ j, [Event.close i].any (Event.closes j) = decide (i = j) :=
        fun j => by simp [Event.closes]
      refine ⟨rfl, fun j => ?_, fun j => ?_, [.core (.close i)], rfl, rfl,
        by simp [LoopEvent.inward]⟩
      · show (((c.note (.core (.close i))).closeConnection i).conns j).sock = _
        rw [hconn, hany]
        by_cases hj : j = i
        · simp [hj]
        · simp [hj, Ne.symm hj]
      · show (((c.note (.core (.close i))).closeConnection i).conns j).used = _
        rw [hconn, hany]
        by_cases hj : j = i
        · simp [hj]
        · simp [hj, Ne.symm hj]

theorem foldl_deliver_carried (w : Writes) : ∀ (es : List Event) (c : QnetdComponent),
    Carried c (es.foldl (deliver w) c) es.reverse
  | [], c => .refl c
  | e :: es, c => by
    rw [List.reverse_cons]
    exact (deliver_carried w c e).trans (foldl_deliver_carried w es (c.deliver w e))

theorem call_carried (w : Writes) (c : QnetdComponent) (k : Call) :
    Carried { c with server := c.server.call k } (c.call w k) (c.server.newEvents k) := by
  have h :=
    foldl_deliver_carried w (c.server.newEvents k).reverse { c with server := c.server.call k }
  rw [List.reverse_reverse] at h
  exact h

end QnetdComponent

/-! ## Following the slots -/

theorem after_inward (i : Slot) (l : Life) :
    ∀ {added : List LoopEvent}, (∀ e ∈ added, e.inward = true) →
    History.after (LoopEvent.next i) l added =
      History.after (Life.next i) l (added.filterMap LoopEvent.core?)
  | [], _ => rfl
  | e :: added, h => by
    rw [History.after, after_inward i l fun x hx => h x (List.mem_cons_of_mem e hx)]
    cases e with
    | core e => rfl
    | wrote j sock data => exact Option.bind_fun_some _
    | _ => cases h _ (List.mem_cons_self ..)

theorem occupant_cons (i : Slot) (e : LoopEvent) (tr : List LoopEvent) :
    occupant i (e :: tr) = (e.attaches i).getD (occupant i tr) := by
  unfold occupant History.last
  rw [List.findSome?_cons]
  cases e.attaches i <;> rfl

theorem occupant_inward (i : Slot) (tr : List LoopEvent) :
    ∀ {added : List LoopEvent}, (∀ e ∈ added, e.inward = true) → occupant i (added ++ tr) =
      if (added.filterMap LoopEvent.core?).any (Event.closes i) then none else occupant i tr
  | [], _ => rfl
  | e :: added, h => by
    have ih := occupant_inward i tr fun x hx => h x (List.mem_cons_of_mem e hx)
    rw [List.cons_append, occupant_cons, ih]
    cases e with
    | core e =>
      have hcons : (LoopEvent.core e :: added).filterMap LoopEvent.core? =
          e :: added.filterMap LoopEvent.core? :=
        rfl
      rw [hcons, List.any_cons]
      cases e with
      | close j => by_cases hj : j = i <;> simp [LoopEvent.attaches, Event.closes, hj]
      | _ => rfl
    | wrote j sock data => rfl
    | _ => cases h _ (List.mem_cons_self ..)

theorem core_boundary (i : Slot) (e : Event) :
    (∃ j, e = .connect j) ∨
    (LoopEvent.core e).boundary i = if e.closes i then some (.ended .closed) else none := by
  cases e with
  | connect j => exact Or.inl ⟨j, rfl⟩
  | close j => exact Or.inr (by by_cases hj : j = i <;> simp [LoopEvent.boundary, Event.closes, hj])
  | _ => exact Or.inr rfl

/-- While no session begins, one that was there is closed if and only if it has ended; nothing else
is closed. -/
theorem closes_of_after {i : Slot} :
    ∀ {new : List Event} {l l' : Life}, (∀ e ∈ new, ∀ j, e ≠ .connect j) →
    History.after (Life.next i) l new = some l' →
    (l' = .idle ↔ l = .idle ∨ new.any (Event.closes i) = true) ∧
    (l = .idle → new.any (Event.closes i) = false)
  | [], l, l', _, h => by
    cases h
    simp
  | e :: new, l, l', hconn, h => by
    obtain ⟨m, hm, hstep⟩ := Option.bind_eq_some_iff.mp h
    obtain ⟨hidle, hnone⟩ := closes_of_after (fun x hx => hconn x (List.mem_cons_of_mem e hx)) hm
    have hcore : (LoopEvent.core e).next i m = some l' := hstep
    have hb := (core_boundary i e).resolve_left fun ⟨j, hj⟩ => hconn e (List.mem_cons_self ..) j hj
    rw [List.any_cons]
    cases hcl : e.closes i with
    | false =>
      rw [hcl, if_neg Bool.false_ne_true] at hb
      rcases boundary_cases hcore with ⟨hb', -, -⟩ | ⟨how, hb', -, -⟩ | ⟨-, hiff⟩
      · rw [hb] at hb'
        cases hb'
      · rw [hb] at hb'
        cases hb'
      · rw [hiff, Bool.false_or]
        exact ⟨hidle, hnone⟩
    | true =>
      rw [hcl, if_pos rfl] at hb
      rcases boundary_cases hcore with ⟨hb', -, -⟩ | ⟨how, -, hne, hl⟩ | ⟨hb', -⟩
      · rw [hb] at hb'
        cases hb'
      · -- a free slot stays free, and cannot be closed
        exact ⟨iff_of_true hl (Or.inr rfl), fun h0 => absurd (hidle.mpr (Or.inl h0)) hne⟩
      · rw [hb] at hb'
        cases hb'

theorem attached_of_inward {e : LoopEvent} (h : e.inward = true) (past : List LoopEvent) :
    Attached e past := by
  cases e with
  | fed | accepted => cases h
  | _ => trivial

/-! ## The invariant -/

/-- The connections and the history have every slot where `life` has it. -/
structure Tracks (c : QnetdComponent) (life : Slot → Life) : Prop where
  used : ∀ i, (c.conns i).used = true ↔ life i ≠ .idle
  sock : ∀ i, (c.conns i).sock.isSome = (c.conns i).used
  after : ∀ i, History.after (LoopEvent.next i) .idle c.trace = some (life i)
  occupant : ∀ i, occupant i c.trace = (c.conns i).sock
  attached : History.Always Attached c.trace

/-- The two tables agree, and no close is pending. -/
structure Agrees (c : QnetdComponent) : Prop where
  quiescent : Quiescent c.server
  tracks : Tracks c c.server.life

theorem Carried.tracks {c c' : QnetdComponent} {new : List Event} {life life' : Slot → Life}
    (h : Carried c c' new) (ht : Tracks c life) (hconn : ∀ e ∈ new, ∀ j, e ≠ .connect j)
    (hlife : ∀ i, History.after (Life.next i) (life i) new = some (life' i)) : Tracks c' life' := by
  obtain ⟨added, htr, hcore, hin⟩ := h.trace
  refine ⟨fun i => ?_, fun i => ?_, fun i => ?_, fun i => ?_, ?_⟩
  · obtain ⟨hidle, hnone⟩ := closes_of_after hconn (hlife i)
    rw [h.used, ne_eq, hidle]
    cases hcl : new.any (Event.closes i) with
    | true => simp
    | false => simpa using ht.used i
  · rw [h.used, h.sock]
    split_ifs
    · rfl
    · exact ht.sock i
  · rw [htr, History.after_append_of_eq (ht.after i), after_inward i _ hin, hcore, hlife]
  · rw [htr, occupant_inward i _ hin, hcore, h.sock, ht.occupant]
  · rw [htr]
    exact ht.attached.append_of_forall fun e he => attached_of_inward (hin e he)

theorem Agrees.clock {c : QnetdComponent} (h : Agrees c) (millis : UInt32) :
    Agrees (c.nowMs millis).2 where
  quiescent := h.quiescent
  tracks := ⟨h.tracks.used, h.tracks.sock, h.tracks.after, h.tracks.occupant, h.tracks.attached⟩

theorem call_agrees (w : Writes) {c : QnetdComponent} {k : Call} {life : Slot → Life}
    (hq : Quiescent c.server)
    (ht : Tracks c life) (hl : Lives c.server (c.server.call k) life) : Agrees (c.call w k) := by
  obtain ⟨new, htr, hconn, hlife⟩ := hl
  have hc := QnetdComponent.call_carried w c k
  rw [Server.newEvents_eq htr] at hc
  have hs : (c.call w k).server = c.server.call k := hc.server
  have ht' : Tracks { c with server := c.server.call k } life :=
    ⟨ht.used, ht.sock, ht.after, ht.occupant, ht.attached⟩
  refine ⟨?_, ?_⟩
  · rw [hs]
    exact (Server.call_steps k hq).2
  · rw [hs]
    exact hc.tracks ht' hconn hlife

/-- A socket is attached to the slot in which the server has begun a session. -/
theorem Carried.tracks_accepted {c c' : QnetdComponent} {i : Slot} {life : Slot → Life}
    (h : Carried c c' [.connect i]) (ht : Tracks c life) (hi : life i = .idle) (sock : Socket) :
    Tracks (c'.attach i sock) (fun j => if j = i then .live else life j) := by
  obtain ⟨added, htr, hcore, hin⟩ := h.trace
  have hconns : ∀ j, (c'.attach i sock).conns j =
      if j = i then { sock := some sock, tx := [], used := true } else c'.conns j :=
    fun j => QnetdComponent.setConn_conns c' i _ j
  have htrace : (c'.attach i sock).trace = .accepted i sock :: (added ++ c.trace) :=
    congrArg _ htr
  have hafter : ∀ j, History.after (LoopEvent.next j) .idle (added ++ c.trace) =
      some (if j = i then .live else life j) := by
    intro j
    rw [History.after_append_of_eq (ht.after j), after_inward j _ hin, hcore]
    by_cases hj : j = i
    · subst hj
      simp [History.after, Life.next, hi]
    · simp [History.after, Life.next, hj, Ne.symm hj]
  have hoccupant : ∀ j, occupant j (added ++ c.trace) = (c.conns j).sock := by
    intro j
    rw [occupant_inward j _ hin, hcore]
    exact ht.occupant j
  -- the slot was free, so no socket is attached to it yet
  have hfree : (c.conns i).sock = none := by
    have hused : (c.conns i).used = false := by
      rw [← Bool.not_eq_true, ht.used i, hi]
      exact fun hne => hne rfl
    exact Option.isNone_iff_eq_none.mp (by rw [← Option.not_isSome, ht.sock, hused]; rfl)
  refine ⟨fun j => ?_, fun j => ?_, fun j => ?_, fun j => ?_, ?_⟩
  · rw [hconns]
    split_ifs
    · simp
    · rw [h.used]
      exact ht.used j
  · rw [hconns]
    split_ifs
    · rfl
    · rw [h.used, h.sock]
      exact ht.sock j
  · rw [htrace, History.after, hafter]
    rfl
  · rw [htrace, occupant_cons, hoccupant, hconns]
    by_cases hj : j = i
    · simp [LoopEvent.attaches, hj]
    · rw [if_neg hj, h.sock, LoopEvent.attaches, if_neg (Ne.symm hj)]
      rfl
  · rw [htrace]
    refine .cons ⟨?_, (hoccupant i).trans hfree⟩
      (ht.attached.append_of_forall fun e he => attached_of_inward (hin e he))
    rw [Live, hafter, if_pos rfl]

theorem Tracks.note {c : QnetdComponent} {life : Slot → Life} (h : Tracks c life) {e : LoopEvent}
    (hnext : ∀ j l, e.next j l = some l) (hattach : ∀ j, e.attaches j = none)
    (hattached : Attached e c.trace) : Tracks (c.note e) life where
  used := h.used
  sock := h.sock
  after j := by
    show (History.after (LoopEvent.next j) .idle c.trace).bind _ = _
    rw [h.after, Option.bind_some, hnext]
  occupant j := by
    show Qnetd.occupant j (e :: c.trace) = (c.conns j).sock
    rw [occupant_cons, hattach, Option.getD_none, h.occupant]
  attached := .cons hattached h.attached

theorem Tracks.lost_note {c : QnetdComponent} {life : Slot → Life} (h : Tracks c life) {i : Slot}
    (hi : life i = .live) :
    Tracks ((c.closeConnection i).note (.lost i)) (Function.update life i .idle) := by
  have hconns : ∀ j, ((c.closeConnection i).note (.lost i)).conns j =
      if j = i then {} else c.conns j := fun j =>
    QnetdComponent.setConn_conns c i _ j
  refine ⟨fun j => ?_, fun j => ?_, fun j => ?_, fun j => ?_, .cons trivial h.attached⟩
  · rw [hconns, Function.update_apply]
    split_ifs
    · simp
    · exact h.used j
  · rw [hconns]
    split_ifs
    · rfl
    · exact h.sock j
  · show (History.after (LoopEvent.next j) .idle c.trace).bind _ = _
    rw [h.after, Option.bind_some, Function.update_apply, LoopEvent.next]
    by_cases hj : j = i
    · subst hj
      rw [if_pos rfl, if_pos rfl, if_pos hi]
    · rw [if_neg (Ne.symm hj), if_neg hj]
  · rw [hconns]
    refine (occupant_cons j _ c.trace).trans ?_
    by_cases hj : j = i
    · simp [LoopEvent.attaches, hj]
    · rw [if_neg hj, LoopEvent.attaches, if_neg (Ne.symm hj)]
      exact h.occupant j

/-! ## The acts of the loop -/

theorem Act.agrees {w : Writes} {c c' : QnetdComponent} {socks : List Socket} (h : Act w c socks c')
    (hc : Agrees c) : Agrees c' := by
  cases h with
  | @flush i sock hsock hused =>
    have hcarry := c.flush_carried w i sock
    refine ⟨hcarry.server ▸ hc.quiescent, ?_⟩
    rw [hcarry.server]
    exact hcarry.tracks hc.tracks (by simp) fun _ => rfl
  | fed data now hsock =>
    refine call_agrees w hc.quiescent (hc.tracks.note (fun _ _ => rfl) (fun _ => rfl) ?_)
      (Server.onData_lives _ data now hc.quiescent)
    exact (hc.tracks.occupant _).trans hsock
  | @lost i now hused =>
    have hlive : c.server.life i = .live := by
      rw [Server.life_eq_live]
      exact mt Server.life_eq_idle.mpr ((hc.tracks.used i).mp hused)
    exact call_agrees w hc.quiescent (hc.tracks.lost_note hlive)
      (Server.onDisconnected_lives i hc.quiescent)
  | tick now => exact call_agrees w hc.quiescent hc.tracks (Server.tick_lives now hc.quiescent)
  | accept now a =>
    rcases c.server.onConnect_lives now a.2 with hfull | ⟨i, hslot, hfree, htr, hlife⟩
    · have hslot : (c.server.onConnect now a.2).1 = -1 := by rw [hfull]
      have hserver : c.server.call (.onConnect now a.2) = c.server := congrArg Prod.snd hfull
      have hcall : Agrees (c.call w (.onConnect now a.2)) :=
        call_agrees w hc.quiescent hc.tracks (by rw [hserver]; exact Lives.refl _)
      have hdo : c.acceptOne w now a = (c.call w (.onConnect now a.2)).note (.refused a.1) := by
        simp [QnetdComponent.acceptOne, hslot]
      rw [hdo]
      exact ⟨hcall.quiescent, hcall.tracks.note (fun _ _ => rfl) (fun _ => rfl) trivial⟩
    · have hnew : c.server.newEvents (.onConnect now a.2) = [.connect i] := Server.newEvents_eq htr
      have hcarry := QnetdComponent.call_carried w c (.onConnect now a.2)
      rw [hnew] at hcarry
      have hdo : c.acceptOne w now a = (c.call w (.onConnect now a.2)).attach i a.1 := by
        simp only [QnetdComponent.acceptOne, hslot, dif_pos (Server.slot_inRange i),
          Int.toNat_natCast, Fin.eta, QnetdComponent.attach]
      have hserver : (c.acceptOne w now a).server = (c.server.onConnect now a.2).2 := by
        rw [hdo]
        exact hcarry.server
      have hlife' : (c.server.onConnect now a.2).2.life =
          fun j => if j = i then .live else c.server.life j :=
        funext hlife
      have ht : Tracks { c with server := c.server.call (.onConnect now a.2) } c.server.life :=
        ⟨hc.tracks.used, hc.tracks.sock, hc.tracks.after, hc.tracks.occupant, hc.tracks.attached⟩
      refine ⟨?_, ?_⟩
      · rw [hserver]
        exact (Server.onConnect_steps now a.2 hc.quiescent).2
      · rw [hserver, hlife', hdo]
        exact hcarry.tracks_accepted ht (if_pos hfree) a.1

namespace QnetdComponent

theorem setup_agrees (listening : Bool) : Agrees (setup listening) where
  quiescent := ⟨rfl, rfl, fun _ => rfl⟩
  tracks :=
    ⟨fun _ => by simp [setup, Server.life, Server.init], fun _ => rfl, fun _ => rfl,
    fun _ => rfl, .nil⟩

theorem run_agrees (w : Writes) (listening : Bool) (its : List Iteration) :
    Agrees (run w listening its) :=
  run_rule w listening (setup_agrees listening)
    (fun _ millis h => h.clock millis) (fun hact h => hact.agrees h) its

end QnetdComponent

/-! ## Sockets -/

def LoopEvent.acceptedSock : LoopEvent → Option Socket
  | .accepted _ sock => some sock
  | _ => none

theorem acceptedSock_of_inward {added : List LoopEvent} (h : ∀ e ∈ added, e.inward = true) :
    added.filterMap LoopEvent.acceptedSock = [] := by
  rw [List.filterMap_eq_nil_iff]
  intro e he
  have hi := h e he
  cases e with
  | accepted => cases hi
  | _ => rfl

def acceptedSocks (c : QnetdComponent) : List Socket :=
  (c.trace.filterMap LoopEvent.acceptedSock).reverse

theorem Carried.acceptedSocks {c c' : QnetdComponent} {new : List Event} (h : Carried c c' new) :
    acceptedSocks c' = acceptedSocks c := by
  obtain ⟨added, htr, -, hin⟩ := h.trace
  rw [Qnetd.acceptedSocks, htr, List.filterMap_append, acceptedSock_of_inward hin, List.nil_append,
    Qnetd.acceptedSocks]

theorem acceptedSocks_note (c : QnetdComponent) (e : LoopEvent) :
    acceptedSocks (c.note e) = acceptedSocks c ++ e.acceptedSock.toList := by
  unfold acceptedSocks QnetdComponent.note
  cases h : e.acceptedSock <;> simp [h]

theorem acceptedSocks_call (w : Writes) (c : QnetdComponent) (k : Call) :
    acceptedSocks (c.call w k) = acceptedSocks c :=
  (QnetdComponent.call_carried w c k).acceptedSocks

theorem Act.acceptedSocks {w : Writes} {c c' : QnetdComponent} {l : List Socket}
    (h : Act w c l c') : (acceptedSocks c').Sublist (acceptedSocks c ++ l) := by
  cases h with
  | @flush i sock hsock hused => rw [(c.flush_carried w i sock).acceptedSocks, List.append_nil]
  | fed data now hsock =>
    rw [acceptedSocks_call, acceptedSocks_note]
    exact List.Sublist.refl _
  | lost now hused =>
    rw [QnetdComponent.dropConn, acceptedSocks_call, acceptedSocks_note]
    exact List.Sublist.refl _
  | tick now => rw [acceptedSocks_call, List.append_nil]
  | accept now a =>
    simp only [QnetdComponent.acceptOne]
    split_ifs
    · rw [acceptedSocks_note]
      exact (acceptedSocks_call w c _) ▸ List.Sublist.refl _
    · rw [acceptedSocks_note, acceptedSocks_call]
      exact List.Sublist.append (List.Sublist.refl _) (List.nil_sublist _)

theorem Acts.acceptedSocks {w : Writes} {c c' : QnetdComponent} {l : List Socket}
    (h : Acts w c l c') : (acceptedSocks c').Sublist (acceptedSocks c ++ l) := by
  induction h with
  | refl => rw [List.append_nil]
  | tail _ hact ih =>
    rw [← List.append_assoc]
    exact hact.acceptedSocks.trans (ih.append (List.Sublist.refl _))

theorem QnetdComponent.run_acceptedSocks (w : Writes) (listening : Bool) (its : List Iteration) :
    (Qnetd.acceptedSocks (run w listening its)).Sublist
      (its.flatMap fun it => it.accepted.map Prod.fst) := by
  induction its using List.reverseRecOn with
  | nil => exact List.Sublist.refl _
  | append_singleton its it ih =>
    rw [run_concat, List.flatMap_append, List.flatMap_singleton]
    rcases loop_acts w (run w listening its) it with ⟨-, hloop⟩ | ⟨-, hacts⟩
    · rw [hloop]
      exact ih.trans (List.sublist_append_left _ _)
    · exact hacts.acceptedSocks.trans (ih.append (List.Sublist.refl _))

theorem run_nodup (w : Writes) (listening : Bool) (its : List Iteration)
    (hfresh : (its.flatMap fun it => it.accepted.map Prod.fst).Nodup) :
    ((QnetdComponent.run w listening its).trace.filterMap LoopEvent.acceptedSock).Nodup :=
  List.nodup_reverse.mp (hfresh.sublist (QnetdComponent.run_acceptedSocks w listening its))

theorem accepted_of_attaches {i : Slot} {e : LoopEvent} {sock : Socket}
    (h : e.attaches i = some (some sock)) : e = .accepted i sock := by
  cases e with
  | accepted j s =>
    simp only [LoopEvent.attaches] at h
    split_ifs at h with hj
    cases h
    rw [hj]
  | lost j =>
    simp only [LoopEvent.attaches] at h
    split_ifs at h
    cases h
  | core e =>
    cases e with
    | close j =>
      simp only [LoopEvent.attaches] at h
      split_ifs at h
      cases h
    | _ => cases h
  | _ => cases h

/-- The attached socket was accepted, and nothing about the slot has happened since. -/
theorem since_accepted {i : Slot} {tr : List LoopEvent} {sock : Socket}
    (h : occupant i tr = some sock) :
    ∃ new old, tr = new ++ .accepted i sock :: old ∧ ∀ e ∈ new, e.attaches i = none := by
  have hlast : History.last (LoopEvent.attaches i) tr = some (some sock) := by
    unfold occupant at h
    cases hl : History.last (LoopEvent.attaches i) tr with
    | none => simp [hl] at h
    | some o => rw [hl] at h; exact congrArg some h
  obtain ⟨new, e, old, htr, he, hnew⟩ := History.last_iff_since.mp hlast
  exact ⟨new, old, accepted_of_attaches he ▸ htr, hnew⟩

theorem same_session {tr : List LoopEvent} (hattached : History.Always Attached tr)
    (hn : (tr.filterMap LoopEvent.acceptedSock).Nodup) {i j : Slot} {sock : Socket}
    {data data' : Bytes} {newer mid older : List LoopEvent}
    (htr : tr = newer ++ .fed i sock data :: (mid ++ .fed j sock data' :: older)) :
    i = j ∧ ∀ e ∈ mid, e.attaches i = none := by
  have hi : occupant i (mid ++ .fed j sock data' :: older) = some sock := hattached _ _ _ htr
  have hj : occupant j older = some sock :=
    hattached (newer ++ .fed i sock data :: mid) (.fed j sock data') older (by rw [htr]; simp)
  obtain ⟨n₁, o₁, h₁, hn₁⟩ := since_accepted hi
  obtain ⟨n₂, o₂, h₂, hn₂⟩ := since_accepted hj
  -- the socket was accepted once, so both have been attached by the same event
  have h₂' : mid ++ .fed j sock data' :: older =
      (mid ++ .fed j sock data' :: n₂) ++ .accepted j sock :: o₂ := by
    rw [h₂]
    simp
  have hn' : ((mid ++ .fed j sock data' :: older).filterMap LoopEvent.acceptedSock).Nodup := by
    refine hn.sublist (List.Sublist.filterMap _ ?_)
    rw [htr]
    exact (List.sublist_cons_self ..).trans (List.sublist_append_right ..)
  obtain ⟨hnew, hev, -⟩ := History.eq_of_nodup hn' h₁ h₂' rfl rfl
  cases hev
  exact ⟨rfl, fun e he => hn₁ e (hnew ▸ List.mem_append_left _ he)⟩

/-- Between the boundaries of a slot its socket stays: one that is there is not detached, and a
second one is not attached. -/
theorem occupant_of_no_boundary {i : Slot} {sock : Socket} {older : List LoopEvent} :
    ∀ {mid : List LoopEvent}, History.Always Attached (mid ++ older) →
      (∀ e ∈ mid, e.boundary i = none) → occupant i older = some sock →
      occupant i (mid ++ older) = some sock
  | [], _, _, hold => hold
  | e :: mid, hattached, hmid, hold => by
    have hpast : History.Always Attached (mid ++ older) := fun new x old htr =>
      hattached (e :: new) x old (by rw [List.cons_append, htr, List.cons_append])
    have ih := occupant_of_no_boundary hpast
      (fun x hx => hmid x (List.mem_cons_of_mem e hx)) hold
    have he := hmid e (List.mem_cons_self ..)
    rw [List.cons_append, occupant_cons, ih]
    suffices hnone : e.attaches i = none by rw [hnone, Option.getD_none]
    cases e with
    | accepted j s =>
      refine if_neg fun hj => ?_
      subst hj
      have hfree := (hattached [] (.accepted j s) (mid ++ older) rfl).2
      rw [ih] at hfree
      cases hfree
    | lost j =>
      simp only [LoopEvent.boundary] at he
      split_ifs at he with hj
      exact if_neg hj
    | core x =>
      cases x with
      | close j =>
        simp only [LoopEvent.boundary] at he
        split_ifs at he with hj
        exact if_neg hj
      | _ => rfl
    | _ => rfl

theorem same_socket {tr : List LoopEvent} (hattached : History.Always Attached tr) {i : Slot}
    {sock sock' : Socket} {data data' : Bytes} {newer mid older : List LoopEvent}
    (htr : tr = newer ++ .fed i sock data :: (mid ++ .fed i sock' data' :: older))
    (hmid : ∀ e ∈ mid, e.boundary i = none) : sock = sock' := by
  have hpast : History.Always Attached ((mid ++ [.fed i sock' data']) ++ older) := by
    intro new x old hx
    refine hattached (newer ++ .fed i sock data :: new) x old ?_
    rw [htr, List.append_assoc, List.cons_append, ← hx]
    simp
  have hnew : occupant i (mid ++ .fed i sock' data' :: older) = some sock :=
    hattached _ _ _ htr
  have hold : occupant i older = some sock' :=
    hattached (newer ++ .fed i sock data :: mid) (.fed i sock' data') older (by rw [htr]; simp)
  have hstays := occupant_of_no_boundary hpast
    (List.forall_mem_append.mpr ⟨hmid, List.forall_mem_singleton.mpr rfl⟩) hold
  rw [List.append_assoc, List.singleton_append, hnew] at hstays
  exact Option.some.inj hstays

/-! ## Runs -/

/-- Transport and server agree on the slots. After every iteration of the loop, with any results of
`accept`, `read` and `write` in which no socket is accepted twice:
* a connection is in use if and only if its session is not free;
* a socket is attached to a slot whose session has none yet, the bytes for a slot have been read
  from the socket attached to it, those for one session from one socket, and the bytes of one socket
  are for one session;
* the sessions of a slot begin once and end once each, by one `close_connection` of the server or by
  an `on_disconnected` with none, and the last one has ended if and only if the slot is free;
* the server sends frames to live sessions only, and none to the one whose disconnect it is
  processing. -/
theorem slots_agree (w : Writes) (listening : Bool) (its : List Iteration)
    (hfresh : (its.flatMap fun it => it.accepted.map Prod.fst).Nodup) :
    let c := QnetdComponent.run w listening its
    (∀ i, (c.conns i).used = true ↔ (c.server.sessions i).phase ≠ .free) ∧
    (∀ i sock newer older, c.trace = newer ++ .accepted i sock :: older →
      Live i older ∧ occupant i older = none) ∧
    (∀ i sock data newer older, c.trace = newer ++ .fed i sock data :: older →
      occupant i older = some sock) ∧
    (∀ i sock sock' data data' newer mid older,
      c.trace = newer ++ .fed i sock data :: (mid ++ .fed i sock' data' :: older) →
      (∀ e ∈ mid, e.boundary i = none) → sock = sock') ∧
    (∀ i j sock data data' newer mid older,
      c.trace = newer ++ .fed i sock data :: (mid ++ .fed j sock data' :: older) →
      i = j ∧ ∀ e ∈ mid, e.attaches i = none) ∧
    (∀ i, ∃ ends : List Ending, boundaries i c.trace =
      ends.flatMap (fun how => [.opened, .ended how]) ++
      if (c.server.sessions i).phase = .free then [] else [.opened]) ∧
    (∀ i e newer older, c.trace = newer ++ e :: older → e.sendsTo i → Live i older) ∧
    ∀ (s : Server) (i : Slot), ∃ sent : List (Slot × Frame),
      transportCalls (s.leaveCluster i).trace = transportCalls s.trace ++ sent.map frameTo ∧
      ∀ p ∈ sent, p.1 ≠ i ∧ (s.sessions p.1).phase ≠ .free := by
  intro c
  have ht : Tracks c c.server.life := (QnetdComponent.run_agrees w listening its).tracks
  refine ⟨fun i => ?_, fun i sock newer older htr => ht.attached _ _ _ htr,
    fun i sock data newer older htr => ht.attached _ _ _ htr,
    fun i sock sock' data data' newer mid older htr hmid => same_socket ht.attached htr hmid,
    fun i j sock data data' newer mid older htr =>
      same_session ht.attached (run_nodup w listening its hfresh) htr,
    fun i => ?_, fun i e newer older htr => live_of_sendsTo (ht.after i) newer e older htr,
      fun s i => ?_⟩
  · rw [ht.used i, ne_eq, Server.life_eq_idle]
  · obtain ⟨ends, hends⟩ := boundaries_of_after (ht.after i)
    simp only [Server.life_eq_idle] at hends
    exact ⟨ends, hends⟩
  · rcases s.leaveCluster_sent i with h | ⟨k, sent, hsent, hothers⟩
    · rw [h]
      exact ⟨[], by simp, by simp⟩
    · exact ⟨sent, hsent.calls, hothers⟩

theorem preinit_readable :
    MockClient.preinit 1 [116] ≠ [] ∧ (MockClient.preinit 1 [116]).length ≤ READ_BUF_LEN := by
  decide

/-- Two peers connect. The first sends its PREINIT, the second closes. -/
def twoPeers : List Iteration :=
  [{ millis := 1000, accepted := [(7, "a"), (9, "b")]
     reads := fun i =>
       if i.val = 0 then [.data ⟨MockClient.preinit 1 [116], preinit_readable⟩] else [.eof] }]

theorem slots_agree_twoPeers :
    ((QnetdComponent.run (fun _ _ => .wouldBlock) true twoPeers).server.sessions 0).phase ≠ .free ∧
    ¬((QnetdComponent.run (fun _ _ => .wouldBlock) true twoPeers).server.sessions 1).phase ≠
      .free := by
  have hused : ((QnetdComponent.run (fun _ _ => .wouldBlock) true twoPeers).conns 0).used = true ∧
      ((QnetdComponent.run (fun _ _ => .wouldBlock) true twoPeers).conns 1).used =
        false := by decide +kernel
  have h := (slots_agree (fun _ _ => .wouldBlock) true twoPeers (by decide)).1
  exact ⟨(h 0).mp hused.1, fun hne => absurd ((h 1).mpr hne) (by simp [hused.2])⟩

end Qnetd
