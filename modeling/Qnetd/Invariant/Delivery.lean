import Qnetd.Host.Client
import Qnetd.Invariant.Isolation
import Qnetd.Invariant.Reading

/-!
# Delivery

A client's bytes arrive in chunks the network chooses, and the server keeps what is not a complete
frame yet.

* `received`, `taken` : the bytes that came in on a slot since its connection was opened, and the
  frames taken from them;
* `Framed` : the frames and the buffer are the split of the bytes. It is the business of the slot
  itself: what other sessions do preserves it (`Moves.framed`), and a close ends it;
* `delivery_independent` : the chunks do not matter, and the buffer holds exactly what is not
  consumed.
-/

namespace Qnetd

open Framing (Format)

/-! ## What was received and taken -/

/-- The bytes received on slot `i` after one more call. -/
def Server.receivedNext (s : Server) (i : Slot) (b : Bytes) : Call → Bytes
  | .onConnect now peer => if (s.onConnect now peer).1 = i then [] else b
  | .onData slot data _ => if slot = i then b ++ data else b
  | .onDisconnected _ _ | .tick _ => b

/-- The bytes received on slot `i` since a connection was opened there. -/
def received (maxRxFrame : UInt32) (i : Slot) (calls : List Call) : Bytes :=
  (calls.foldl (fun st c => (st.1.call c, st.1.receivedNext i st.2 c))
    (Server.init maxRxFrame, [])).2

theorem received_concat (n : UInt32) (i : Slot) (calls : List Call) (c : Call) :
    received n i (calls ++ [c]) = (run n calls).receivedNext i (received n i calls) c := by
  have hrun : ∀ (l : List Call) (s : Server) (b : Bytes),
      (l.foldl (fun st c => (st.1.call c, st.1.receivedNext i st.2 c)) (s, b)).1 =
        l.foldl Server.call s := by
    intro l
    induction l with
    | nil => exact fun _ _ => rfl
    | cons c l ih => exact fun s b => ih _ _
  rw [received, List.foldl_append, run, ← hrun calls (Server.init n) []]
  rfl

/-- The frames taken from the buffer of slot `i` since its connection was opened, oldest first. -/
def taken (i : Slot) : List Event → List Frame
  | [] => []
  | .connect j :: tr => if j = i then [] else taken i tr
  | .frame j f :: tr => if j = i then taken i tr ++ [f] else taken i tr
  | _ :: tr => taken i tr

theorem taken_cons {i : Slot} {e : Event} (he : e.receives i = false) (tr : List Event) :
    taken i (e :: tr) = taken i tr := by
  cases e with
  | connect j | frame j _ =>
    have hj : j ≠ i := by simpa [Event.receives] using he
    simp [taken, hj]
  | _ => rfl

theorem taken_append {i : Slot} {new : List Event} (h : ∀ e ∈ new, e.receives i = false)
    (tr : List Event) : taken i (new ++ tr) = taken i tr := by
  induction new with
  | nil => rfl
  | cons e new ih =>
    rw [List.cons_append, taken_cons (h e (by simp))]
    exact ih fun e he => h e (List.mem_cons_of_mem _ he)

/-- The frames of a buffer that leaves the session open are all taken, and none announces too much.
-/
theorem Reading.taken_foldl {i : Slot} {now : UInt64} {s : Server} (h : Reading i now s)
    (l : List Bytes)
    (hopen : ((l.foldl (Server.consume i now) s).sessions i).scheduleDisconnect = false) :
    taken i (l.foldl (Server.consume i now) s).trace = taken i s.trace ++ l ∧
      ∀ f ∈ l, payloadLen f ≤ s.maxRxFrame.toNat := by
  induction l generalizing s with
  | nil => exact ⟨(List.append_nil _).symm, by simp⟩
  | cons f l ih =>
    -- once the session is to be closed it stays so
    have hstill : ((s.consume i now f).sessions i).scheduleDisconnect = false := by
      rw [← Bool.not_eq_true]
      intro hc
      rw [List.foldl_cons, foldl_consume_of_closed hc] at hopen
      rw [hopen] at hc
      cases hc
    obtain ⟨hr, hm⟩ := h.consume f
    obtain ⟨htaken, hlen⟩ := ih hr hopen
    have hmax := Moves.maxRxFrame hm
    unfold Server.consume at hstill
    by_cases h0 : (s.sessions i).scheduleDisconnect = true
    · rw [if_pos h0, h0] at hstill
      cases hstill
    rw [if_neg h0] at hstill
    rw [Bool.not_eq_true] at h0
    by_cases h1 : payloadLen f > s.maxRxFrame.toNat
    · rw [if_pos h1, ((h.sendErr {} .messageTooLong).disconnectClient h0).2.2] at hstill
      cases hstill
    have hdo : s.consume i now f =
        (s.emit (.frame i f)).handleFrame i (MsgType.ofCode (beGet16 f)) f now := by
      rw [Server.consume, if_neg (by rw [h0]; simp), if_neg h1]
    obtain ⟨new, htr, hnew⟩ :=
      ((h.emit (.frame i f)).handled h0 (MsgType.ofCode (beGet16 f)) f).trace
    have hone : taken i (s.consume i now f).trace = taken i s.trace ++ [f] := by
      rw [hdo, htr, taken_append hnew]
      exact if_pos rfl
    refine ⟨?_, fun g hg => ?_⟩
    · rw [List.foldl_cons, htaken, hone, List.append_assoc]
      rfl
    · rcases List.mem_cons.mp hg with rfl | hg
      · exact not_lt.mp h1
      · rw [← hmax]
        exact hlen g hg

/-! ## The invariant -/

/-- While slot `i` is live, the frames taken and the buffer are the split of the bytes `b`, and no
frame announces more than `n`. -/
structure Framed (n : UInt32) (i : Slot) (b : Bytes) (s : Server) : Prop where
  split : (s.sessions i).phase ≠ .free →
    (frameFormat n).split b = (taken i s.trace, (s.sessions i).rx)
  frames : (s.sessions i).phase ≠ .free → ∀ f ∈ taken i s.trace, payloadLen f ≤ n.toNat

theorem framed_of_free {n : UInt32} {i : Slot} {s : Server} (h : (s.sessions i).phase = .free)
    (b : Bytes) : Framed n i b s := ⟨fun hlive => absurd h hlive, fun hlive => absurd h hlive⟩

theorem Moves.grows {i : Slot} {s s' : Server} (hm : Moves i s s') : Grows i s s' := by
  induction hm with
  | refl => exact ⟨[], rfl, by simp⟩
  | tail _ hstep ih => exact ih.trans hstep.grows

theorem Event.ofMove.receives {i j : Slot} (hj : j ≠ i) {e : Event} (he : e.ofMove j) :
    e.receives i = false := by
  cases e with
  | connect k | frame k _ =>
    have hk : k = j := he
    simpa [Event.receives, hk] using hj
  | _ => rfl

theorem Moves.framed {n : UInt32} {i j : Slot} (hj : j ≠ i) {s s' : Server} (hm : Moves j s s')
    (ht : Table s) {b : Bytes} (h : Framed n i b s) : Framed n i b s' := by
  obtain ⟨-, _, hiso⟩ := Moves.isolated hm ht
  obtain ⟨new, htr, hnew⟩ := Moves.grows hm
  have hsame := hiso.votes i hj.symm
  have hphase : (s'.sessions i).phase = (s.sessions i).phase := (congrArg Session.phase hsame :)
  have hrx : (s'.sessions i).rx = (s.sessions i).rx := (congrArg Session.rx hsame :)
  have htaken : taken i s'.trace = taken i s.trace := by
    rw [htr, taken_append fun e he => (hnew e he).receives hj]
  refine ⟨?_, ?_⟩
  · rw [hphase, htaken, hrx]
    exact h.split
  · rw [hphase, htaken]
    exact h.frames

/-! ## Calls -/

section Calls

variable {n : UInt32} {i : Slot} {b : Bytes} {s : Server}

/-- New data extends the stream, unless the session is closed. -/
theorem Framed.onData (h : Framed n i b s) (hs : Quiescent s) (hmax : s.maxRxFrame = n)
    (data : Bytes) (now : UInt64) : Framed n i (b ++ data) (s.onData i data now) := by
  by_cases hfree : (s.sessions i).phase = .free
  · rw [onData_of_free hfree]
    exact framed_of_free hfree _
  have hr : Reading i now (s.opened i now) := hs.opened hfree
  have hmax' : (s.opened i now).maxRxFrame = n := hmax
  rw [onData_eq hs hfree data hr fun _ => rfl]
  unfold Server.delivered
  by_cases hc :
    (((s.opened i now).consumed i now ((s.sessions i).rx ++ data)).sessions i).scheduleDisconnect =
    true
  · rw [if_pos hc]
    exact framed_of_free ((hr.consumed _).1.drainCloses_free hc) _
  · rw [if_neg hc, hmax']
    rw [Bool.not_eq_true] at hc
    obtain ⟨htaken, hlen⟩ := hr.taken_foldl _ hc
    rw [hmax'] at htaken hlen
    have hrest := (frameFormat n).split_append b data
    rw [h.split hfree] at hrest
    refine ⟨fun _ => ?_, fun _ => ?_⟩
    · rw [hrest]
      change _ = (taken i ((s.opened i now).consumed i now ((s.sessions i).rx ++ data)).trace,
        ((Server.withRx _ i _).sessions i).rx)
      rw [Server.withRx_self, Server.consumed, hmax', htaken]
      rfl
    · change ∀ f ∈ taken i ((s.opened i now).consumed i now ((s.sessions i).rx ++ data)).trace, _
      rw [Server.consumed, hmax', htaken]
      intro f hf
      rcases List.mem_append.mp hf with hf | hf
      · exact h.frames hfree f hf
      · exact hlen f hf

theorem Framed.onConnect (h : Framed n i b s) (ht : Table s) (now : UInt64) (peer : String) :
    Framed n i (if (s.onConnect now peer).1 = i then [] else b) (s.onConnect now peer).2 := by
  unfold Server.onConnect
  split
  · rw [if_neg (by omega)]
    exact h
  · next j hf =>
    have hfree : (s.sessions j).phase = .free := by simpa using List.find?_some hf
    simp only
    by_cases hj : j = i
    · subst hj
      have hcut : (frameFormat n).cut [] = none := rfl
      refine ⟨fun _ => ?_, fun _ => by simp [taken]⟩
      rw [if_pos rfl, Format.split_of_none hcut]
      simp [taken]
    · rw [if_neg (by rw [Int.natCast_inj]; exact fun h => hj (Fin.ext h))]
      exact Moves.framed hj (Move.connect now peer hfree).moves ht h

/-- A call about slot `j` ends the stream if it is the slot's own, and leaves it alone otherwise. -/
theorem Framed.closing (h : Framed n i b s) (ht : Table s) {j : Slot} {s' : Server}
    (hm : Moves j s s') (hfree : (s'.sessions j).phase = .free) : Framed n i b s' := by
  by_cases hj : j = i
  · exact framed_of_free (hj ▸ hfree) b
  · exact Moves.framed hj hm ht h

theorem Framed.tickSlot (h : Framed n i b s) (hs : Quiescent s) (ht : Table s) (now : UInt64)
    (j : Slot) :
    Framed n i b (s.tickSlot now j) ∧ Quiescent (s.tickSlot now j) ∧ Table (s.tickSlot now j) := by
  simp only [Server.tickSlot]
  split_ifs
  · exact ⟨h, hs, ht⟩
  · obtain ⟨hm, hq⟩ := Server.disconnectClient_moves j hs
    exact ⟨h.closing ht hm (Server.disconnectClient_free j hs), hq, (Moves.isolated hm ht).1⟩
  · exact ⟨h, hs, ht⟩

theorem Framed.tick (h : Framed n i b s) (hs : Quiescent s) (ht : Table s) (now : UInt64) :
    Framed n i b (s.tick now) := by
  unfold Server.tick
  generalize List.finRange MAX_CLIENTS = l
  induction l generalizing s with
  | nil => exact h
  | cons j l ih =>
    obtain ⟨h', hs', ht'⟩ := h.tickSlot hs ht now j
    exact ih h' hs' ht'

/-- The stream of slot `i` after one more call. -/
theorem Framed.call (h : Framed n i b s) (hs : Quiescent s) (ht : Table s) (hmax : s.maxRxFrame = n)
    (c : Call) : Framed n i (s.receivedNext i b c) (s.call c) := by
  cases c with
  | onConnect now peer => exact h.onConnect ht now peer
  | tick now => exact h.tick hs ht now
  | onData slot data now =>
    simp only [Server.receivedNext, Server.call]
    rcases Server.slot_cases slot with ⟨j, rfl⟩ | ⟨hne, hout⟩
    · by_cases hj : j = i
      · rw [hj, if_pos rfl]
        exact h.onData hs hmax data now
      · rw [if_neg (by rw [Int.natCast_inj]; exact fun h => hj (Fin.ext h))]
        exact Moves.framed hj (Server.onData_moves j data now hs).1 ht h
    · rw [if_neg (hne i), (hout s).1]
      exact h
  | onDisconnected slot now =>
    simp only [Server.receivedNext, Server.call]
    rcases Server.slot_cases slot with ⟨j, rfl⟩ | ⟨-, hout⟩
    · exact h.closing ht (Server.onDisconnected_moves j hs).1 (Server.onDisconnected_free j hs)
    · rw [(hout s).2]
      exact h

end Calls

theorem run_framed (n : UInt32) (i : Slot) (calls : List Call) :
    Framed n i (received n i calls) (run n calls) := by
  induction calls using List.reverseRecOn with
  | nil => exact framed_of_free rfl _
  | append_singleton calls c ih =>
    rw [received_concat, run_concat]
    exact ih.call (run_steps n calls).2 (run_table n calls) (run_maxRxFrame n calls) c

/-! ## Runs -/

theorem onData_flatten {s : Server} (hs : Quiescent s) (i : Slot) (now : UInt64)
    {chunks : List Bytes} (h : chunks ≠ []) :
    chunks.foldl (fun s b => s.onData i b now) s = s.onData i chunks.flatten now := by
  induction chunks generalizing s with
  | nil => exact absurd rfl h
  | cons b chunks ih =>
    cases chunks with
    | nil => simp
    | cons c chunks =>
      rw [List.foldl_cons, ih (Server.onData_moves i b now hs).2 (List.cons_ne_nil _ _),
        onData_append hs, ← List.flatten_cons]

theorem length_of_mem_split {n : UInt32} {b : Bytes} {f : Bytes}
    (hf : f ∈ ((frameFormat n).split b).1)
    (hlen : payloadLen f ≤ n.toNat) : f.length = MSG_HEADER_LEN + payloadLen f := by
  obtain ⟨c, hc⟩ := (frameFormat n).exists_cut_of_mem b f hf
  simp only [frameFormat] at hc
  split_ifs at hc with h0 h1 h2
  · injection hc with hc
    rw [payloadLen_append hc.le] at h1
    exact absurd hlen (not_le.mpr h1)
  · injection hc with hc
    rw [payloadLen_append (by omega)] at hc
    exact hc.symm

/-- Delivery does not depend on fragmentation. The chunks of a byte string, delivered at one time,
do what the string does: the server after them is the same, its history with the calls into the
transport included. And the buffer of a live slot holds the bytes received since its connection was
opened without the complete frames taken from them: it starts neither with a complete frame nor with
a header that announces too much. -/
theorem delivery_independent (n : UInt32) (calls : List Call) (i : Slot) :
    (∀ (chunks : List Bytes) (now : UInt64), chunks ≠ [] →
      chunks.foldl (fun s b => s.onData i b now) (run n calls) =
        (run n calls).onData i chunks.flatten now) ∧
    (((run n calls).sessions i).phase ≠ .free →
      received n i calls = (taken i (run n calls).trace).flatten ++ ((run n calls).sessions i).rx ∧
      (∀ f ∈ taken i (run n calls).trace, f.length = MSG_HEADER_LEN + payloadLen f ∧
        payloadLen f ≤ n.toNat) ∧
      (((run n calls).sessions i).rx.length < MSG_HEADER_LEN ∨
        payloadLen ((run n calls).sessions i).rx ≤ n.toNat ∧
        ((run n calls).sessions i).rx.length <
          MSG_HEADER_LEN + payloadLen ((run n calls).sessions i).rx) ∧
      ((run n calls).sessions i).rx.length < MSG_HEADER_LEN + n.toNat) := by
  refine ⟨fun chunks now hne => onData_flatten (run_steps n calls).2 i now hne, fun hlive => ?_⟩
  have hframed := run_framed n i calls
  have hsplit := hframed.split hlive
  have hflat := (frameFormat n).split_flatten (received n i calls)
  have hcut := (frameFormat n).cut_rest (received n i calls)
  rw [hsplit] at hflat hcut
  have hwait : _ ∨ _ := frameFormat_cut_none (b := ((run n calls).sessions i).rx) hcut
  refine ⟨hflat.symm, fun f hf => ?_, hwait, by omega⟩
  have hlen := hframed.frames hlive f hf
  refine ⟨length_of_mem_split (b := received n i calls) ?_ hlen, hlen⟩
  rw [hsplit]
  exact hf

/-- The PREINIT of a client and the first twenty bytes of its INIT arrive together. -/
def halfInit : List Call :=
  [.onConnect 1000 "test-peer",
    .onData 0 (MockClient.preinit 1 [116] ++ (MockClient.init 2 1 {}).take 20) 1000]

/-- The rest of the INIT arrives byte by byte. -/
theorem delivery_independent_halfInit :
    ((run 32768 halfInit).sessions 0).phase = .waitInit ∧
    ((run 32768 halfInit).sessions 0).rx = (MockClient.init 2 1 {}).take 20 ∧
    received 32768 0 halfInit =
      (taken 0 (run 32768 halfInit).trace).flatten ++ ((run 32768 halfInit).sessions 0).rx ∧
    (((MockClient.init 2 1 {}).drop 20).map fun x => [x]).foldl
    (fun s b => s.onData (0 : Slot) b 1000)
        (run 32768 halfInit) =
      (run 32768 halfInit).onData (0 : Slot)
      (((MockClient.init 2 1 {}).drop 20).map fun x => [x]).flatten 1000 := by
  have h := delivery_independent 32768 halfInit 0
  have hphase : ((run 32768 halfInit).sessions 0).phase = .waitInit := by decide +kernel
  have hrest : ((MockClient.init 2 1 {}).drop 20).map (fun x => [x]) ≠ [] := by decide +kernel
  exact ⟨hphase, by decide +kernel, (h.2 (by rw [hphase]; nofun)).1, h.1 _ 1000 hrest⟩

end Qnetd
