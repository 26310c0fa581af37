import Qnetd.Invariant.Delivery
import Qnetd.Invariant.Message

/-!
# A rule for the acts of the server

The moves say what a call can do to the votes; they forget what a handler answers and the notes it
keeps. For a property of these there is a second rule of induction, over the acts the calls are made
of: a frame that is taken off a buffer, a message that is handled, a session that goes.

* `Rule max I` : `I` holds of a new server, does not depend on buffers and flags, and is kept by
  every act. A message that reaches a handler comes from a complete frame, and what it does is its
  `Outcome`;
* `Rule.run` : what keeps to the rule holds in every run;
* `Acted` : the states between the acts, those inside a call included.
-/

namespace Qnetd

open Framing (Format)

/-- What a property that holds in every run is checked on. -/
structure Rule (max : UInt32) (I : Server → Prop) : Prop where
  init : I (Server.init max)
  plumbing : ∀ {s : Server} (p : Plumbing), I s → I (s.overlay p)
  connect : ∀ {s : Server} {i : Slot} (now : UInt64) (peer : String),
    (s.sessions i).phase = .free → I s →
    I ((s.modify i fun _ =>
      { phase := .waitPreinit, peer := peer, deadlineMs := now + PREACTIVE_TIMEOUT_MS }).emit
      (.connect i))
  reschedule : ∀ {s : Server} (i : Slot) (now : UInt64), I s → I (s.rescheduleDpd i now)
  frame : ∀ {s : Server} (i : Slot) {f : Frame}, Complete max f → I s → I (s.emit (.frame i f))
  refuse : ∀ {s : Server} (i : Slot) (code : ReplyErrorCode), I s → I (s.sendErr i {} code)
  message : ∀ {s : Server} {i : Slot} {f : Frame} {m : MsgDecoded} (now : UInt64),
    (s.sessions i).phase ≠ .free → Complete max f → decodeFrame f = some m → I s →
    I ((s.emit (.recv i (s.sessions i).phase (s.sessions i).nodeId m)).handleMsg i m f now)
  leave : ∀ {s : Server} {i : Slot}, (s.sessions i).phase ≠ .free → I s →
    I ((s.leaveCluster i).reset i)
  close : ∀ {s : Server} (i : Slot), I s → I (s.emit (.close i))

/-- A session that is active in a cluster leaves it, after a decision; any other is only reset. -/
theorem Server.left_cases (s : Server) (i : Slot) :
    (s.leaveCluster i).reset i = s.reset i ∨
      (s.sessions i).phase = .active ∧
      (s.leaveCluster i).reset i = (s.leaving i).removed i (s.sessions i).cluster := by
  by_cases hout : (s.sessions i).phase ≠ .active ∨ (s.sessions i).cluster < 0
  · have hno : s.leaveCluster i = s := by simp only [Server.leaveCluster, if_pos hout]
    exact Or.inl (by rw [hno])
  · rw [not_or, not_not, not_lt] at hout
    exact Or.inr ⟨hout.1, Server.left_eq hout.1 hout.2⟩

namespace Rule

variable {max : UInt32} {I : Server → Prop} {s : Server} {i : Slot}

theorem processing (h : Rule max I) (b : Bool) (hs : I s) : I { s with processing := b } :=
  h.plumbing { s.plumbing with processing := b } hs

theorem withRx (h : Rule max I) (b : Bytes) (hs : I s) : I (s.withRx i b) := by
  rw [Server.withRx_eq_overlay]
  exact h.plumbing _ hs

theorem noted (h : Rule max I) (hp : s.processing = true) (hs : I s) : I (s.disconnectClient i) := by
  have hflag : (s.modify i fun x => { x with scheduleDisconnect := true }) =
      s.overlay { s.plumbing with scheduleDisconnect := Function.update s.plumbing.scheduleDisconnect i true } := by
    simp only [Server.modify, Server.overlay, Server.plumbing, Server.mk.injEq, true_and, and_true]
    funext j
    by_cases hj : j = i
    · subst hj
      simp [Session.overlay]
    · simp [Session.overlay, hj]
  simp only [Server.disconnectClient, Server.modify_processing, hp, if_true]
  split_ifs
  · exact hs
  · have hpush := h.plumbing { s.plumbing with
      scheduleDisconnect := Function.update s.plumbing.scheduleDisconnect i true
      pendingClose := s.pendingClose ++ [i], processing := true } hs
    rw [hflag]
    exact hpush

theorem handleFrame (h : Rule max I) {f : Frame} (now : UInt64) (hp : s.processing = true)
    (hlive : (s.sessions i).phase ≠ .free) (hf : Complete max f) (hs : I s) :
    I (s.handleFrame i (MsgType.ofCode (beGet16 f)) f now) := by
  unfold Server.handleFrame
  cases hm : msgDecode (MsgType.ofCode (beGet16 f)) (f.drop MSG_HEADER_LEN) with
  | none => exact h.noted hp (h.refuse i _ hs)
  | some m => exact h.message now hlive hf hm hs

theorem consume (h : Rule max I) {now : UInt64} {f : Bytes} (hr : Reading i now s)
    (hmax : s.maxRxFrame = max)
    (hlen : payloadLen f ≤ max.toNat → f.length = MSG_HEADER_LEN + payloadLen f) (hs : I s) :
    I (s.consume i now f) := by
  unfold Server.consume
  rw [hmax]
  split_ifs with h0 h1
  · exact hs
  · exact h.noted hr.processing (h.refuse i _ hs)
  · have hf : Complete max f := ⟨hlen (not_lt.mp h1), not_lt.mp h1⟩
    exact h.handleFrame now hr.processing hr.timely.live hf (h.frame i hf hs)

theorem foldl_consume (h : Rule max I) {now : UInt64} (l : List Bytes)
    (hl : ∀ f ∈ l, payloadLen f ≤ max.toNat → f.length = MSG_HEADER_LEN + payloadLen f)
    (hr : Reading i now s)
    (hmax : s.maxRxFrame = max) (hs : I s) : I (l.foldl (Server.consume i now) s) := by
  induction l generalizing s with
  | nil => exact hs
  | cons f l ih =>
    obtain ⟨hr', hm⟩ := hr.consume f
    exact ih (fun g hg => hl g (List.mem_cons_of_mem f hg)) hr' (hm.maxRxFrame.trans hmax)
      (h.consume hr hmax (hl f (List.mem_cons_self ..)) hs)

theorem drained (h : Rule max I) (hq : Queue i s) (hs : I s) : I s.drainCloses := by
  rcases hq with ⟨hq, -⟩ | ⟨hq, hlive, -⟩
  · rw [Server.drainCloses_of_empty hq]
    exact h.processing false hs
  · rw [Server.drainCloses_of_pending hq hlive]
    have hopen : I { s with processing := true, pendingClose := [] } :=
      h.plumbing { s.plumbing with processing := true, pendingClose := [] } hs
    exact h.processing false (h.close i (h.leave hlive hopen))

theorem onData (h : Rule max I) (data : Bytes) (now : UInt64) (hq : Quiescent s)
    (hmax : s.maxRxFrame = max) (hs : I s) : I (s.onData i data now) := by
  by_cases hlive : (s.sessions i).phase = .free
  · rw [onData_of_free hlive]
    exact hs
  have hr : Reading i now (s.opened i now) := hq.opened hlive
  have hopen : I (s.opened i now) := h.processing true (h.reschedule i now hs)
  rw [onData_eq hq hlive data hr fun _ => rfl]
  set b := (s.sessions i).rx ++ data
  have hread : I ((s.opened i now).consumed i now b) :=
    h.foldl_consume _ (fun f hf hle => length_of_mem_split hf (by
      change payloadLen f ≤ s.maxRxFrame.toNat
      rw [hmax]
      exact hle)) hr hmax hopen
  unfold Server.delivered
  split_ifs
  · exact h.drained (hr.consumed b).1.queue (h.processing false hread)
  · exact h.processing false (h.withRx _ hread)

theorem onDisconnected (h : Rule max I) (hq : Quiescent s) (hs : I s) : I (s.onDisconnected i) := by
  rw [Server.onDisconnected_slot]
  split_ifs with hlive
  · exact hs
  · rw [Server.dropClient_eq i hq rfl]
    exact h.processing false (h.leave hlive (h.processing true hs))

theorem disconnectClient (h : Rule max I) (hq : Quiescent s) (hs : I s) :
    I (s.disconnectClient i) := by
  by_cases hlive : (s.sessions i).phase = .free
  · rw [Server.disconnectClient, if_pos (Or.inl hlive)]
    exact hs
  · obtain ⟨-, -, hqueue⟩ :=
      Server.disconnectClient_turn (s := { s with processing := true }) i rfl (hq.queue i) hlive
      (hq.scheduleDisconnect i)
    rw [Server.disconnectClient_of_quiescent i hq hlive]
    exact h.drained hqueue (h.processing false (h.noted rfl (h.processing true hs)))

theorem tick (h : Rule max I) (now : UInt64) (hq : Quiescent s) (hs : I s) : I (s.tick now) := by
  have hfold : ∀ (l : List Slot) {t : Server}, Quiescent t → I t →
      I (l.foldl (Server.tickSlot now) t) := by
    intro l
    induction l with
    | nil => exact fun _ ht => ht
    | cons i l ih =>
      intro t hqt ht
      have hslot : Quiescent (t.tickSlot now i) ∧ I (t.tickSlot now i) := by
        simp only [Server.tickSlot]
        split_ifs
        · exact ⟨hqt, ht⟩
        · exact ⟨(Server.disconnectClient_moves i hqt).2, h.disconnectClient hqt ht⟩
        · exact ⟨hqt, ht⟩
      exact ih hslot.1 hslot.2
  exact hfold _ hq hs

theorem call (h : Rule max I) (k : Call) (hq : Quiescent s) (hmax : s.maxRxFrame = max) (hs : I s) :
    I (s.call k) := by
  cases k with
  | onConnect now peer =>
    change I (s.onConnect now peer).2
    unfold Server.onConnect
    split
    · exact hs
    · next i hfind =>
      have hfree : (s.sessions i).phase = .free := by simpa using List.find?_some hfind
      exact h.connect now peer hfree hs
  | onData slot data now =>
    rcases Server.slot_cases slot with ⟨i, rfl⟩ | ⟨-, hout⟩
    · exact h.onData data now hq hmax hs
    · rw [Server.call, (hout s).1]
      exact hs
  | onDisconnected slot now =>
    rcases Server.slot_cases slot with ⟨i, rfl⟩ | ⟨-, hout⟩
    · exact h.onDisconnected hq hs
    · rw [Server.call, (hout s).2]
      exact hs
  | tick now => exact h.tick now hq hs

/-- What keeps to the rule holds in every run. -/
theorem run (h : Rule max I) (calls : List Call) : I (run max calls) := by
  induction calls using List.reverseRecOn with
  | nil => exact h.init
  | append_singleton calls k ih =>
    rw [run_concat]
    exact h.call k (run_steps max calls).2 (run_maxRxFrame max calls) ih

end Rule

/-- The states the runs go through, those between two acts of one call included: the smallest
property that keeps to the rule. -/
def Acted (max : UInt32) (s : Server) : Prop := ∀ I, Rule max I → I s

theorem acted_rule (max : UInt32) : Rule max (Acted max) where
  init _ h := h.init
  plumbing p hs _ h := h.plumbing p (hs _ h)
  connect now peer hfree hs _ h := h.connect now peer hfree (hs _ h)
  reschedule i now hs _ h := h.reschedule i now (hs _ h)
  frame i _ hf hs _ h := h.frame i hf (hs _ h)
  refuse i code hs _ h := h.refuse i code (hs _ h)
  message now hlive hf hdec hs _ h := h.message now hlive hf hdec (hs _ h)
  leave hlive hs _ h := h.leave hlive (hs _ h)
  close i hs _ h := h.close i (hs _ h)

theorem run_acted (max : UInt32) (calls : List Call) : Acted max (run max calls) :=
  (acted_rule max).run calls

end Qnetd
