import Qnetd.Server.Moves

/-!
# The public calls as moves

* `Quiescent` : no close is pending and none is being processed. It holds between the calls;
* `Queue i` : within a call, at most the close of session `i` is pending;
* `onData_moves`, `onDisconnected_moves`, `tick_steps`, `onConnect_steps` : every public call is a
  sequence of moves, of the one session it is about except for `tick`;
* `run_induction` : what the moves preserve holds in every run.
-/

namespace Qnetd

open Relation (ReflTransGen)

structure Quiescent (s : Server) : Prop where
  processing : s.processing = false
  pendingClose : s.pendingClose = []
  scheduleDisconnect : ∀ j, (s.sessions j).scheduleDisconnect = false

/-- The flag and the queue of closes agree, and are about session `i` alone. -/
def Queue (i : Slot) (s : Server) : Prop :=
  (s.pendingClose = [] ∧ ∀ j, (s.sessions j).scheduleDisconnect = false) ∨
  (s.pendingClose = [i] ∧ (s.sessions i).phase ≠ .free ∧
    ∀ j, (s.sessions j).scheduleDisconnect = decide (j = i))

theorem Quiescent.queue {s : Server} (h : Quiescent s) (i : Slot) : Queue i s :=
  Or.inl ⟨h.pendingClose, h.scheduleDisconnect⟩

theorem Queue.idle {i : Slot} {s : Server} (h : Queue i s)
    (hi : (s.sessions i).scheduleDisconnect = false) :
    s.pendingClose = [] ∧ ∀ j, (s.sessions j).scheduleDisconnect = false := by
  rcases h with h | ⟨-, -, hd⟩
  · exact h
  · rw [hd i, decide_eq_false_iff_not] at hi
    exact absurd rfl hi

theorem Queue.of_plumbing {i : Slot} {s s' : Server} (h : Queue i s)
    (hi : (s.sessions i).scheduleDisconnect = false)
    (hp : s'.plumbing = s.plumbing) : Queue i s' := by
  obtain ⟨hq, hd⟩ := h.idle hi
  refine Or.inl ⟨?_, fun j => ?_⟩
  · exact (congrArg Plumbing.pendingClose hp).trans hq
  · exact (congrFun (congrArg Plumbing.scheduleDisconnect hp) j).trans (hd j)

namespace Server

theorem quiet_of_eq (i : Slot) (s s' : Server) (hs : s'.sessions = s.sessions)
    (hc : s'.clusters = s.clusters)
    (hx : s'.maxRxFrame = s.maxRxFrame) (ht : s'.trace = s.trace) : Quiet i s s' :=
  ⟨by rw [hs]; exact .refl _, fun j _ => by rw [hs], hc, hx, [], ht, by simp⟩

theorem quiet_processing (i : Slot) (s : Server) (b : Bool) :
    Quiet i s { s with processing := b } :=
  quiet_of_eq i s { s with processing := b } rfl rfl rfl rfl

/-! ## Slots -/

theorem slot_inRange (i : Slot) : 0 ≤ ((i : Nat) : Int) ∧ ((i : Nat) : Int) < MAX_CLIENTS :=
  ⟨Int.natCast_nonneg _, by omega⟩

theorem onData_slot (s : Server) (i : Slot) (data : Bytes) (now : UInt64) :
    s.onData i data now =
      if (s.sessions i).phase = .free ∨ (s.sessions i).scheduleDisconnect then s
      else s.feed i data now := by
  simp only [onData, dif_pos (slot_inRange i), Int.toNat_natCast, Fin.eta]

theorem onDisconnected_slot (s : Server) (i : Slot) :
    s.onDisconnected i = if (s.sessions i).phase = .free then s else s.dropClient i := by
  simp only [onDisconnected, dif_pos (slot_inRange i), Int.toNat_natCast, Fin.eta]

theorem slot_cases (slot : Int) :
    (∃ i : Slot, slot = i) ∨ (∀ i : Slot, slot ≠ i) ∧
      ∀ s : Server, (∀ data now, s.onData slot data now = s) ∧ s.onDisconnected slot = s := by
  by_cases h : 0 ≤ slot ∧ slot < MAX_CLIENTS
  · exact Or.inl ⟨⟨slot.toNat, by omega⟩, (Int.toNat_of_nonneg h.1).symm⟩
  · refine Or.inr ⟨fun i hi => h (hi ▸ slot_inRange i), fun s => ⟨fun data now => ?_, ?_⟩⟩
    · rw [onData, dif_neg h]
    · rw [onDisconnected, dif_neg h]

/-! ## Closing -/

/-- While data is being processed the close of a live session is put in the queue. -/
theorem disconnectClient_of_processing (i : Slot) {s : Server} (hp : s.processing = true)
    (hq : Queue i s)
    (hfree : (s.sessions i).phase ≠ .free) (hi : (s.sessions i).scheduleDisconnect = false) :
    s.disconnectClient i =
      { s.modify i (fun x => { x with scheduleDisconnect := true }) with pendingClose := [i] } := by
  simp [disconnectClient, hfree, hi, hp, (hq.idle hi).1]

theorem disconnectClient_turn (i : Slot) {s : Server} (hp : s.processing = true) (hq : Queue i s)
    (hfree : (s.sessions i).phase ≠ .free) (hi : (s.sessions i).scheduleDisconnect = false) :
    Moves i s (s.disconnectClient i) ∧ (s.disconnectClient i).processing = true ∧
    Queue i (s.disconnectClient i) := by
  obtain ⟨hempty, hd⟩ := hq.idle hi
  rw [disconnectClient_of_processing i hp hq hfree hi]
  refine ⟨?_, hp, Or.inr ⟨rfl, ?_, fun j => ?_⟩⟩
  · refine Quiet.moves ⟨?_, fun j hj => ?_, rfl, rfl, [], rfl, by simp⟩
    · simp only [modify_self]
      exact ⟨Iff.rfl, rfl, rfl, rfl, rfl, rfl, fun _ => ⟨rfl, rfl, rfl, rfl, rfl⟩⟩
    · exact modify_of_ne s (fun x => { x with scheduleDisconnect := true }) hj
  · simpa using hfree
  · simp only [modify_apply]
    by_cases hj : j = i
    · simp [hj]
    · simp [hj, hd j]

theorem drainCloses_of_empty {s : Server} (hq : s.pendingClose = []) :
    s.drainCloses = { s with processing := false } := by
  simp [drainCloses, drainLoop, hq]

/-- The pending session leaves its cluster, is reset and closed. -/
theorem drainCloses_of_pending {s : Server} {i : Slot} (hq : s.pendingClose = [i])
    (hfree : (s.sessions i).phase ≠ .free) : s.drainCloses =
      { ((({ s with processing := true, pendingClose := [] } : Server).leaveCluster i).reset i).emit
        (.close i) with processing := false } := by
  simp [drainCloses, drainLoop, hq, hfree]

/-- The queue is served. -/
theorem drainCloses_turn (i : Slot) {s : Server} (hq : Queue i s) :
    Moves i s s.drainCloses ∧ Quiescent s.drainCloses := by
  rcases hq with ⟨hq, hd⟩ | ⟨hq, hfree, hd⟩
  · rw [drainCloses_of_empty hq]
    exact ⟨(quiet_processing i s false).moves, rfl, hq, hd⟩
  · set t : Server := { s with processing := true, pendingClose := [] } with ht
    have hplumb := (leaveCluster_blind i).plumbing t
    rw [drainCloses_of_pending hq hfree, ← ht]
    refine ⟨?_, rfl, ?_, fun j => ?_⟩
    · have h1 : Quiet i s t := quiet_of_eq i s t rfl rfl rfl rfl
      have h2 : Move i t ((t.leaveCluster i).reset i) := Move.leave
      have h3 :
          Quiet i ((t.leaveCluster i).reset i) (((t.leaveCluster i).reset i).emit (.close i)) :=
        quiet_emit _ rfl
      exact ((h1.moves.trans h2.moves).trans h3.moves).trans (quiet_processing i _ false).moves
    · exact congrArg Plumbing.pendingClose hplumb
    · change (((t.leaveCluster i).reset i).sessions j).scheduleDisconnect = false
      rw [reset, modify_apply]
      split_ifs with hj
      · rfl
      · rw [show ((t.leaveCluster i).sessions j).scheduleDisconnect =
          (t.sessions j).scheduleDisconnect from
          congrFun (congrArg Plumbing.scheduleDisconnect hplumb) j]
        exact (hd j).trans (decide_eq_false hj)

/-! ## Receiving -/

theorem handleFrame_turn (i : Slot) {s : Server} (type : MsgType) (frame : Frame) (now : UInt64)
    (hp : s.processing = true) (hq : Queue i s) (hfree : (s.sessions i).phase ≠ .free)
    (hi : (s.sessions i).scheduleDisconnect = false) :
    Moves i s (s.handleFrame i type frame now) ∧
    (s.handleFrame i type frame now).processing = true ∧
      Queue i (s.handleFrame i type frame now) := by
  unfold handleFrame
  cases msgDecode type (frame.drop MSG_HEADER_LEN) with
  | none =>
    obtain ⟨h1, h2, h3⟩ :=
      disconnectClient_turn (s := s.sendErr i {} .errorDecodingMsg) i hp hq hfree hi
    exact ⟨(quiet_sendErr i s {} _).moves.trans h1, h2, h3⟩
  | some m =>
    set t := s.emit (.recv i (s.sessions i).phase (s.sessions i).nodeId m) with ht
    have hplumb : (t.handleMsg i m frame now).plumbing = s.plumbing :=
      (handleMsg_blind i m frame now).plumbing t
    have hrecv : Quiet i s t := quiet_emit s rfl
    refine ⟨?_, ?_, hq.of_plumbing hi hplumb⟩
    · exact hrecv.moves.trans (handleMsg_moves i t m frame now (by simp [ht]))
    · exact (congrArg Plumbing.processing hplumb).trans hp

theorem quiet_rx (i : Slot) (s : Server) (f : Bytes → Bytes) :
    Quiet i s (s.modify i fun x => { x with rx := f x.rx }) :=
  quiet_modify i s ⟨Iff.rfl, rfl, rfl, rfl, rfl, rfl, fun _ => ⟨rfl, rfl, rfl, rfl, rfl⟩⟩

theorem queue_rx {i : Slot} {s : Server} (h : Queue i s) (f : Bytes → Bytes) :
    Queue i (s.modify i fun x => { x with rx := f x.rx }) := by
  have hsame : ∀ j, ((s.modify i fun x => { x with rx := f x.rx }).sessions j).scheduleDisconnect =
      (s.sessions j).scheduleDisconnect := by
    intro j
    rw [modify_apply]
    split_ifs <;> rfl
  rcases h with ⟨hq, hd⟩ | ⟨hq, hfree, hd⟩
  · exact Or.inl ⟨hq, fun j => (hsame j).trans (hd j)⟩
  · exact Or.inr ⟨hq, by simpa using hfree, fun j => (hsame j).trans (hd j)⟩

/-- The loop of `on_data` is a sequence of moves, whatever the buffer holds. -/
theorem onDataLoop_turn (i : Slot) (now : UInt64) :
    ∀ (fuel : Nat) {s : Server}, s.processing = true → Queue i s →
      Moves i s (onDataLoop fuel s i now) ∧ Queue i (onDataLoop fuel s i now)
  | 0, s, _, hq => ⟨.refl, hq⟩
  | fuel + 1, s, hp, hq => by
    simp only [onDataLoop]
    split_ifs with h1 h2 h3 h4
    · exact ⟨.refl, hq⟩
    · exact ⟨.refl, hq⟩
    · obtain ⟨hfree, hi⟩ := not_or.mp h1
      rw [Bool.not_eq_true] at hi
      obtain ⟨hm, -, hq'⟩ :=
        disconnectClient_turn (s := s.sendErr i {} .messageTooLong) i hp hq hfree hi
      exact ⟨(quiet_sendErr i s {} _).moves.trans hm, hq'⟩
    · exact ⟨.refl, hq⟩
    · obtain ⟨hfree, hi⟩ := not_or.mp h1
      rw [Bool.not_eq_true] at hi
      set plen := (beGet32 ((s.sessions i).rx.drop 2)).toNat
      set frame := (s.sessions i).rx.take (MSG_HEADER_LEN + plen)
      obtain ⟨hm, hp', hq'⟩ := handleFrame_turn (s := s.emit (.frame i frame)) i
        (MsgType.ofCode (beGet16 (s.sessions i).rx)) frame now hp hq hfree hi
      have htake : Quiet i s (s.emit (.frame i frame)) := quiet_emit s rfl
      set t :=
        (s.emit (.frame i frame)).handleFrame i
          (MsgType.ofCode (beGet16 (s.sessions i).rx)) frame now
      obtain ⟨hm', hq''⟩ := onDataLoop_turn i now fuel
        (s := t.modify i fun x => { x with rx := x.rx.drop (MSG_HEADER_LEN + plen) }) hp'
          (queue_rx hq' _)
      exact ⟨((htake.moves.trans hm).trans (quiet_rx i t _).moves).trans hm', hq''⟩

/-! ## The calls -/

theorem queue_rescheduleDpd {i : Slot} {s : Server} (hq : Queue i s)
    (hi : (s.sessions i).scheduleDisconnect = false)
    (now : UInt64) : Queue i (s.rescheduleDpd i now) :=
  hq.of_plumbing hi ((rescheduleDpd_blind i now).plumbing s)

theorem queue_fed (i : Slot) {s : Server} (data : Bytes) (now : UInt64) (hs : Quiescent s) :
    Queue i ((s.modify i fun x => { x with rx := x.rx ++ data }).rescheduleDpd i now) := by
  refine queue_rescheduleDpd (queue_rx (hs.queue i) fun rx => rx ++ data) ?_ now
  rw [modify_self]
  exact hs.scheduleDisconnect i

theorem feed_turn (i : Slot) {s : Server} (data : Bytes) (now : UInt64) (hs : Quiescent s) :
    Moves i s (s.feed i data now) ∧ Quiescent (s.feed i data now) := by
  simp only [feed]
  set s₁ := s.modify i fun x => { x with rx := x.rx ++ data }
  set s₂ := s₁.rescheduleDpd i now
  have hq₂ : Queue i s₂ := queue_fed i data now hs
  have h₁ : Quiet i s s₁ := quiet_rx i s fun rx => rx ++ data
  have h₂ : Quiet i s₁ s₂ := quiet_modify i s₁ (Session.rescheduled_alike now _)
  obtain ⟨h₃, hq₃⟩ :=
    onDataLoop_turn i now (s₂.sessions i).rx.length (s := { s₂ with processing := true }) rfl hq₂
  set s₃ := onDataLoop (s₂.sessions i).rx.length { s₂ with processing := true } i now
  obtain ⟨h₄, hq₄⟩ := drainCloses_turn i (s := { s₃ with processing := false }) hq₃
  exact ⟨((((h₁.moves.trans h₂.moves).trans (quiet_processing i s₂ true).moves).trans h₃).trans
    (quiet_processing i s₃ false).moves).trans h₄, hq₄⟩

/-- `on_data` is a sequence of moves of the session it is about. -/
theorem onData_moves (i : Slot) {s : Server} (data : Bytes) (now : UInt64) (hs : Quiescent s) :
    Moves i s (s.onData i data now) ∧ Quiescent (s.onData i data now) := by
  rw [onData_slot]
  split_ifs
  · exact ⟨.refl, hs⟩
  · exact feed_turn i data now hs

/-- `on_disconnected` takes the session out. It leaves no close to be served. -/
theorem dropClient_eq (i : Slot) {s t : Server} (hs : Quiescent s)
    (ht : t = { s with processing := true }) :
    s.dropClient i = { (t.leaveCluster i).reset i with processing := false } := by
  subst ht
  have hplumb := (leaveCluster_blind i).plumbing { s with processing := true }
  have hempty :
      ({ (leaveCluster { s with processing := true } i).reset i with processing := false } :
      Server).pendingClose =
      [] := (congrArg Plumbing.pendingClose hplumb).trans hs.pendingClose
  simp only [dropClient, hs.processing, Bool.false_eq_true, if_false]
  exact drainCloses_of_empty hempty

theorem dropClient_turn (i : Slot) {s : Server} (hs : Quiescent s) :
    Moves i s (s.dropClient i) ∧ Quiescent (s.dropClient i) := by
  set t := { s with processing := true } with ht
  have hplumb := (leaveCluster_blind i).plumbing t
  have hleave : Move i t ((t.leaveCluster i).reset i) := Move.leave
  rw [dropClient_eq i hs ht]
  refine ⟨((quiet_processing i s true).moves.trans hleave.moves).trans
    (quiet_processing i _ false).moves, rfl,
    (congrArg Plumbing.pendingClose hplumb).trans hs.pendingClose, fun j => ?_⟩
  change (((t.leaveCluster i).reset i).sessions j).scheduleDisconnect = false
  rw [reset, modify_apply]
  split_ifs
  · rfl
  · exact (congrFun (congrArg Plumbing.scheduleDisconnect hplumb) j).trans (hs.scheduleDisconnect j)

theorem onDisconnected_moves (i : Slot) {s : Server} (hs : Quiescent s) :
    Moves i s (s.onDisconnected i) ∧ Quiescent (s.onDisconnected i) := by
  rw [onDisconnected_slot]
  split_ifs
  · exact ⟨.refl, hs⟩
  · exact dropClient_turn i hs

/-- Between the calls a disconnect is as in a call in progress, and the queue is served at once. -/
theorem disconnectClient_of_quiescent (i : Slot) {s : Server} (hs : Quiescent s)
    (hfree : (s.sessions i).phase ≠ .free) : s.disconnectClient i =
      drainCloses
      { ({ s with processing := true } : Server).disconnectClient i with processing := false } := by
  have h₁ :=
    disconnectClient_of_processing i (s := { s with processing := true }) rfl (hs.queue i) hfree
    (hs.scheduleDisconnect i)
  have h₂ : s.disconnectClient i =
      drainCloses
        { s.modify i (fun x => { x with scheduleDisconnect := true })
        with pendingClose := [i] } := by
    simp [disconnectClient, hs.processing, hs.pendingClose, hs.scheduleDisconnect i, hfree]
  rw [h₁, h₂]
  rfl

theorem disconnectClient_moves (i : Slot) {s : Server} (hs : Quiescent s) :
    Moves i s (s.disconnectClient i) ∧ Quiescent (s.disconnectClient i) := by
  by_cases hfree : (s.sessions i).phase = .free
  · have hdo : s.disconnectClient i = s := by simp [disconnectClient, hfree]
    rw [hdo]
    exact ⟨.refl, hs⟩
  · set t := { s with processing := true }
    obtain ⟨hm, -, hq⟩ :=
      disconnectClient_turn i (s := t) rfl (hs.queue i) hfree (hs.scheduleDisconnect i)
    obtain ⟨hd, hquiet⟩ :=
      drainCloses_turn i (s := { t.disconnectClient i with processing := false }) hq
    rw [disconnectClient_of_quiescent i hs hfree]
    exact ⟨(((quiet_processing i s true).moves.trans hm).trans
      (quiet_processing i _ false).moves).trans hd, hquiet⟩

theorem disconnectClient_eq (i : Slot) {s t : Server} (hs : Quiescent s) (hfree : (s.sessions i).phase ≠ .free)
    (ht : t = { s.modify i (fun x => { x with scheduleDisconnect := true }) with processing := true, pendingClose := [] }) :
    s.disconnectClient i = { ((t.leaveCluster i).reset i).emit (.close i) with processing := false } := by
  have hdo : s.disconnectClient i =
      drainCloses { s.modify i (fun x => { x with scheduleDisconnect := true }) with pendingClose := [i] } := by
    simp [disconnectClient, hs.processing, hs.pendingClose, hs.scheduleDisconnect i, hfree]
  rw [hdo, drainCloses_of_pending (i := i) rfl (by simpa using hfree), ht]

theorem disconnectClient_cleared {i : Slot} {s : Server} (hs : Quiescent s)
    (hfree : (s.sessions i).phase ≠ .free) : (s.disconnectClient i).sessions i = {} := by
  rw [disconnectClient_eq i hs hfree rfl]
  exact modify_self _ i fun _ => {}

theorem disconnectClient_free (i : Slot) {s : Server} (hs : Quiescent s) :
    ((s.disconnectClient i).sessions i).phase = .free := by
  by_cases hfree : (s.sessions i).phase = .free
  · simp [disconnectClient, hfree]
  · rw [disconnectClient_cleared hs hfree]

theorem dropClient_cleared {i : Slot} {s : Server} (hs : Quiescent s) :
    (s.dropClient i).sessions i = {} := by
  rw [dropClient_eq i hs rfl]
  exact modify_self _ i fun _ => {}

theorem onDisconnected_free (i : Slot) {s : Server} (hs : Quiescent s) :
    ((s.onDisconnected i).sessions i).phase = .free := by
  rw [onDisconnected_slot]
  split_ifs with hfree
  · exact hfree
  · rw [dropClient_cleared hs]

def Step (s s' : Server) : Prop := ∃ i, Move i s s'

theorem steps_of_moves {i : Slot} {s s' : Server} (h : Moves i s s') : ReflTransGen Step s s' := by
  have hle : Move i ≤ Step := fun _ _ hm => ⟨i, hm⟩
  exact ReflTransGen.mono hle s s' h

theorem tick_steps {s : Server} (now : UInt64) (hs : Quiescent s) :
    ReflTransGen Step s (s.tick now) ∧ Quiescent (s.tick now) := by
  have hfold : ∀ (l : List Slot) {t : Server}, Quiescent t →
      ReflTransGen Step t (l.foldl (tickSlot now) t) ∧ Quiescent (l.foldl (tickSlot now) t) := by
    intro l
    induction l with
    | nil => exact fun ht => ⟨.refl, ht⟩
    | cons i l ih =>
      intro t ht
      have hslot : ReflTransGen Step t (tickSlot now t i) ∧ Quiescent (tickSlot now t i) := by
        simp only [tickSlot]
        split_ifs
        · exact ⟨.refl, ht⟩
        · obtain ⟨hm, hq⟩ := disconnectClient_moves i ht
          exact ⟨steps_of_moves hm, hq⟩
        · exact ⟨.refl, ht⟩
      obtain ⟨hm, hq⟩ := ih hslot.2
      exact ⟨hslot.1.trans hm, hq⟩
  exact hfold _ hs

theorem onConnect_steps {s : Server} (now : UInt64) (peer : String) (hs : Quiescent s) :
    ReflTransGen Step s (s.onConnect now peer).2 ∧ Quiescent (s.onConnect now peer).2 := by
  unfold onConnect
  split
  · exact ⟨.refl, hs⟩
  · next i hf =>
    have hfree : (s.sessions i).phase = .free := by simpa using List.find?_some hf
    refine ⟨.single ⟨i, Move.connect now peer hfree⟩, hs.processing, hs.pendingClose, fun j => ?_⟩
    simp only [emit_sessions, modify_apply]
    split_ifs
    · rfl
    · exact hs.scheduleDisconnect j

/-- Every public call is a sequence of moves, and leaves no close pending. -/
theorem call_steps {s : Server} (c : Call) (hs : Quiescent s) :
    ReflTransGen Step s (s.call c) ∧ Quiescent (s.call c) := by
  cases c with
  | onConnect now peer => exact onConnect_steps now peer hs
  | onData slot data now =>
    rcases slot_cases slot with ⟨i, rfl⟩ | ⟨-, hout⟩
    · obtain ⟨hm, hq⟩ := onData_moves i data now hs
      exact ⟨steps_of_moves hm, hq⟩
    · rw [call, (hout s).1]
      exact ⟨.refl, hs⟩
  | onDisconnected slot now =>
    rcases slot_cases slot with ⟨i, rfl⟩ | ⟨-, hout⟩
    · obtain ⟨hm, hq⟩ := onDisconnected_moves i hs
      exact ⟨steps_of_moves hm, hq⟩
    · rw [call, (hout s).2]
      exact ⟨.refl, hs⟩
  | tick now => exact tick_steps now hs

end Server

/-! ## Runs -/

theorem run_concat (n : UInt32) (calls : List Call) (c : Call) :
    run n (calls ++ [c]) = (run n calls).call c := by
  rw [run, List.foldl_append]
  rfl

theorem run_steps (n : UInt32) (calls : List Call) :
    ReflTransGen Server.Step (Server.init n) (run n calls) ∧ Quiescent (run n calls) := by
  induction calls using List.reverseRecOn with
  | nil => exact ⟨.refl, rfl, rfl, fun _ => rfl⟩
  | append_singleton calls c ih =>
    obtain ⟨hm, hq⟩ := Server.call_steps c ih.2
    rw [run_concat]
    exact ⟨ih.1.trans hm, hq⟩

/-- What holds initially and is preserved by the moves holds in every run. -/
theorem run_induction {I : Server → Prop} (hinit : ∀ n, I (Server.init n))
    (hmove : ∀ {i : Slot} {s s' : Server}, Move i s s' → I s → I s') (n : UInt32)
    (calls : List Call) : I (run n calls) := by
  have hsteps : ∀ {s : Server}, ReflTransGen Server.Step (Server.init n) s → I s := by
    intro s h
    induction h with
    | refl => exact hinit n
    | tail _ hstep ih =>
      obtain ⟨i, hm⟩ := hstep
      exact hmove hm ih
  exact hsteps (run_steps n calls).1

end Qnetd
