import Qnetd.Invariant.Reading
import Qnetd.Lib.History
import Qnetd.Invariant.Replies

/-!
# The lifetime of a session

A session begins with `on_connect`. It ends when the server closes it, with `close_connection` as
the last thing, or when the transport reports it gone with `on_disconnected`.

* `Life`, `Life.next` : the life of a slot as a machine on the events of the server. A frame to a
  free slot, or to one whose disconnect is being processed, stops the machine, and so does a second
  close;
* `Talks` : frames to occupied slots and nothing else, which is all a handler does;
* `Lives` : between two states the machine of every slot runs through; `onData_lives`,
  `onDisconnected_lives`, `tick_lives`, `onConnect_lives` : so it does in every public call.
-/

namespace Qnetd

/-! ## The machine -/

inductive Life where
  /-- The slot is free. -/
  | idle
  /-- It has a session. -/
  | live
  /-- The disconnect of its session is being processed. -/
  | going
  deriving DecidableEq

/-- What the event does to slot `i`, `none` when it is not allowed there. -/
def Life.next (i : Slot) : Event → Life → Option Life
  | .connect j, l => if j = i then (if l = .idle then some .live else none) else some l
  | .send j _, l | .vote j _, l => if j = i ∧ l ≠ .live then none else some l
  | .leave j _, l => some (if j = i ∧ l = .live then .going else l)
  | .close j, l => if j = i then (if l = .idle then none else some .idle) else some l
  | _, l => some l

/-- Where the slot is between two calls. -/
def Server.life (s : Server) (i : Slot) : Life :=
  if (s.sessions i).phase = .free then .idle else .live

theorem Server.life_eq_live {s : Server} {i : Slot} :
    s.life i = .live ↔ (s.sessions i).phase ≠ .free := by
  unfold Server.life
  split_ifs with h <;> simp [h]

theorem Server.life_eq_idle {s : Server} {i : Slot} :
    s.life i = .idle ↔ (s.sessions i).phase = .free := by
  unfold Server.life
  split_ifs with h <;> simp [h]

theorem Server.life_congr {s s' : Server} {i : Slot}
    (h : (s'.sessions i).phase = .free ↔ (s.sessions i).phase = .free) : s'.life i = s.life i := by
  unfold Server.life
  simp only [h]

/-- The events between the two states, from where `start` has the slots: each was allowed, and none
began a session. -/
def Lives (s s' : Server) (start : Slot → Life) : Prop :=
  ∃ new, s'.trace = new ++ s.trace ∧ (∀ e ∈ new, ∀ j, e ≠ .connect j) ∧
    ∀ i, History.after (Life.next i) (start i) new = some (s'.life i)

theorem Lives.refl (s : Server) : Lives s s s.life := ⟨[], rfl, by simp, fun _ => rfl⟩

theorem Lives.trans {s t u : Server} {start : Slot → Life} (h₁ : Lives s t start)
    (h₂ : Lives t u t.life) : Lives s u start := by
  obtain ⟨n₁, ht₁, hc₁, hl₁⟩ := h₁
  obtain ⟨n₂, ht₂, hc₂, hl₂⟩ := h₂
  refine ⟨n₂ ++ n₁, by rw [ht₂, ht₁, List.append_assoc], List.forall_mem_append.mpr ⟨hc₂, hc₁⟩,
    fun i => ?_⟩
  rw [History.after_append_of_eq (hl₁ i), hl₂]

/-! ## Talking -/

theorem Sent.life {s s' : Server} {sent : List (Slot × Frame)} (h : Sent s s' sent) :
    ∃ new, s'.trace = new ++ s.trace ∧ (∀ e ∈ new, ∀ j, e ≠ .connect j) ∧
      ∀ i l, (∀ p ∈ sent, p.1 = i → l = .live) → History.after (Life.next i) l new = some l := by
  obtain ⟨new, htr, hinner, hcalls⟩ := h.trace
  have hto : ∀ e ∈ new, ∀ {j f}, e.call = some (.sendFrame j f) → (j, f) ∈ sent := by
    intro e he j f hcall
    have hmem : TransportCall.sendFrame j f ∈ new.filterMap Event.call :=
      List.mem_filterMap.mpr ⟨e, he, hcall⟩
    rw [hcalls, List.mem_reverse] at hmem
    obtain ⟨p, hp, heq⟩ := List.mem_map.mp hmem
    cases heq
    exact hp
  refine ⟨new, htr, fun e he j heq => ?_, fun i l hl => History.after_of_fixed fun e he => ?_⟩
  · have hi := hinner e he
    rw [heq] at hi
    cases hi
  · have hi := hinner e he
    cases e with
    | send j f | vote j f =>
      have hlive : j = i → l = .live := hl (j, _) (hto _ he rfl)
      exact if_neg fun hne => hne.2 (hlive hne.1)
    | connect | leave | close => cases hi
    | _ => rfl

/-- Frames were sent, all of them to occupied slots, and no session began or ended. -/
def Talks (s s' : Server) : Prop :=
  ∃ sent, Sent s s' sent ∧ ∀ p ∈ sent, (s.sessions p.1).phase ≠ .free

theorem Sent.talks {s s' : Server} (h : Sent s s' []) : Talks s s' := ⟨[], h, by simp⟩

theorem Talks.trans {s t u : Server} (h₁ : Talks s t) (h₂ : Talks t u) : Talks s u := by
  obtain ⟨l₁, hs₁, ho₁⟩ := h₁
  obtain ⟨l₂, hs₂, ho₂⟩ := h₂
  refine ⟨l₁ ++ l₂, hs₁.trans hs₂, fun p hp => ?_⟩
  rcases List.mem_append.mp hp with hp | hp
  · exact ho₁ p hp
  · exact mt (hs₁.free p.1).mpr (ho₂ p hp)

theorem Talks.lives {s s' : Server} (h : Talks s s') : Lives s s' s.life := by
  obtain ⟨sent, hs, hocc⟩ := h
  obtain ⟨new, htr, hconn, hlife⟩ := hs.life
  refine ⟨new, htr, hconn, fun i => ?_⟩
  rw [Server.life_congr (hs.free i)]
  exact hlife i (s.life i) fun p hp hpi => Server.life_eq_live.mpr (hpi ▸ hocc p hp)

theorem talks_sendErr {s : Server} {i : Slot} (hocc : (s.sessions i).phase ≠ .free) (m : MsgDecoded)
    (code : ReplyErrorCode) : Talks s (s.sendErr i m code) := by
  refine ⟨[(i, _)], sent_send s i _, fun p hp => ?_⟩
  rw [List.mem_singleton.mp hp]
  exact hocc

theorem Exchange.talks {i : Slot} {s s' : Server} {replies : List Frame}
    (h : Exchange i s s' replies) (hocc : (s.sessions i).phase ≠ .free) : Talks s s' := by
  obtain ⟨votes, hsent, hvotes, -⟩ := h
  refine ⟨_, hsent, fun p hp => ?_⟩
  rcases List.mem_append.mp hp with hp | hp
  · rw [(Server.inCluster_iff.mp (hvotes p hp).1).1]
    simp
  · obtain ⟨f, -, rfl⟩ := List.mem_map.mp hp
    exact hocc

namespace Server

theorem handleMsg_talks {i : Slot} {s : Server} {m : MsgDecoded} {request : Frame}
    (hdec : decodeFrame request = some m)
    (hocc : (s.sessions i).phase ≠ .free) (now : UInt64) :
    Talks s (s.handleMsg i m request now) := by
  have h := handleMsg_exchange hdec hocc now
  split_ifs at h
  · exact h.talks hocc
  · obtain ⟨f, hex, -⟩ := h
    exact hex.talks hocc

theorem disconnectClient_talks {i : Slot} {s : Server} (hp : s.processing = true) (hq : Queue i s)
    (hocc : (s.sessions i).phase ≠ .free) (hi : (s.sessions i).scheduleDisconnect = false) :
    Talks s (s.disconnectClient i) := by
  rw [disconnectClient_of_processing i hp hq hocc hi]
  have h : Sent s (s.modify i fun x => { x with scheduleDisconnect := true }) [] :=
    sent_modify s i Iff.rfl
  exact Sent.talks ⟨h.free, h.trace⟩

theorem handleFrame_talks {i : Slot} {s : Server} (frame : Frame) (now : UInt64)
    (hp : s.processing = true)
    (hq : Queue i s) (hocc : (s.sessions i).phase ≠ .free)
    (hi : (s.sessions i).scheduleDisconnect = false) :
    Talks s (s.handleFrame i (frameType frame) frame now) := by
  cases hdec : decodeFrame frame with
  | none =>
    have hdo : s.handleFrame i (frameType frame) frame now =
        (s.sendErr i {} .errorDecodingMsg).disconnectClient i := by
      rw [decodeFrame] at hdec
      rw [handleFrame, hdec]
    rw [hdo]
    exact (talks_sendErr hocc {} _).trans
      (disconnectClient_talks (s := s.sendErr i {} .errorDecodingMsg) hp hq hocc hi)
  | some m =>
    rw [handleFrame_of_decode hdec]
    set t := s.emit (.recv i (s.sessions i).phase (s.sessions i).nodeId m)
    have hrecv : Talks s t := (sent_emit s rfl rfl).talks
    exact hrecv.trans (handleMsg_talks (s := t) hdec hocc now)

/-- The loop of `on_data` talks. -/
theorem onDataLoop_talks (i : Slot) (now : UInt64) :
    ∀ (fuel : Nat) {s : Server}, s.processing = true → Queue i s → Talks s (onDataLoop fuel s i now)
  | 0, s, _, _ => (Sent.refl s).talks
  | fuel + 1, s, hp, hq => by
    simp only [onDataLoop]
    split_ifs with h1 h2 h3 h4
    · exact (Sent.refl s).talks
    · exact (Sent.refl s).talks
    · obtain ⟨hocc, hi⟩ := not_or.mp h1
      rw [Bool.not_eq_true] at hi
      exact (talks_sendErr hocc {} _).trans
        (disconnectClient_talks (s := s.sendErr i {} .messageTooLong) hp hq hocc hi)
    · exact (Sent.refl s).talks
    · obtain ⟨hocc, hi⟩ := not_or.mp h1
      rw [Bool.not_eq_true] at hi
      set plen := (beGet32 ((s.sessions i).rx.drop 2)).toNat
      set frame := (s.sessions i).rx.take (MSG_HEADER_LEN + plen) with hframe
      have htype : MsgType.ofCode (beGet16 (s.sessions i).rx) = frameType frame := by
        rw [frameType, hframe, beGet16_take _ (Nat.le_add_right ..)]
      rw [htype]
      obtain ⟨-, hp', hq'⟩ :=
        handleFrame_turn (s := s.emit (.frame i frame)) i (frameType frame) frame now hp hq hocc hi
      have htake : Talks s (s.emit (.frame i frame)) := (sent_emit s rfl rfl).talks
      have hhandle := handleFrame_talks (s := s.emit (.frame i frame)) frame now hp hq hocc hi
      set t := (s.emit (.frame i frame)).handleFrame i (frameType frame) frame now
      have hrx : Talks t (t.modify i fun x => { x with rx := x.rx.drop (MSG_HEADER_LEN + plen) }) :=
        (sent_modify t i Iff.rfl).talks
      exact ((htake.trans hhandle).trans hrx).trans
        (onDataLoop_talks i now fuel hp' (queue_rx hq' _))

/-! ## Leaving -/

theorem inWalk_of_ballot {s : Server} {tv : TriggerView} {j : Slot} {f : Frame}
    (h : TransportCall.sendFrame j f ∈ (s.decided tv).ballots tv) : s.inWalk tv j = true := by
  obtain ⟨i, hi, heq⟩ := List.mem_map.mp h
  cases heq
  rw [← inWalk_congr (decided_sameButVotes s tv)]
  exact (target_iff.mp (mem_targets.mp hi)).1

theorem leaving_sent (s : Server) (i : Slot) :
    ∃ sent, Sent (s.emit (.leave i (s.sessions i).cluster)) (s.leaving i) sent ∧
      ∀ p ∈ sent, p.1 ≠ i ∧ (s.sessions p.1).phase ≠ .free := by
  set t := s.emit (.leave i (s.sessions i).cluster)
  obtain ⟨sent, hsent, hvotes⟩ := (leaving_within (s := s) i).sent
  have hcalls : sent.map frameTo = if t.ffsplitIsStable (s.storedView i true) then
      (t.decided (s.storedView i true)).ballots (s.storedView i true) else [] :=
    List.append_cancel_left
      (hsent.calls.symm.trans (transportCalls_ffsplitDo t (s.storedView i true)))
  refine ⟨sent, hsent, fun p hp => ⟨?_, ?_⟩⟩
  · -- a walk skips the session that has the leaving one's node id
    rintro rfl
    have hmem : frameTo p ∈ sent.map frameTo := List.mem_map_of_mem hp
    rw [hcalls] at hmem
    split_ifs at hmem
    · have hwalk := inWalk_of_ballot hmem
      simp [inWalk, skipInClusterWalk, storedView] at hwalk
    · cases hmem
  · have hact : (s.sessions p.1).phase = .active := (inCluster_iff.mp (hvotes p hp).1).1
    simp [hact]

/-- How a session leaves its cluster: not at all, or with votes for others. -/
theorem leaveCluster_sent (s : Server) (i : Slot) :
    s.leaveCluster i = s ∨
    ∃ c sent, Sent (s.emit (.leave i c)) (s.leaveCluster i) sent ∧
      ∀ p ∈ sent, p.1 ≠ i ∧ (s.sessions p.1).phase ≠ .free := by
  by_cases h0 : (s.sessions i).phase ≠ .active ∨ (s.sessions i).cluster < 0
  · exact Or.inl (by simp only [leaveCluster, if_pos h0])
  · obtain ⟨sent, hsent, hothers⟩ := s.leaving_sent i
    refine Or.inr ⟨(s.sessions i).cluster, sent, ?_, hothers⟩
    have hclusters : ∀ (t : Server) c f, Sent t (t.modifyCluster c f) [] := fun t c f =>
      ⟨fun _ => Iff.rfl, [], rfl, by simp, rfl⟩
    have hview : (s.emit (.leave i (s.sessions i).cluster)).storedView i true =
        s.storedView i true :=
      rfl
    have hdo : ((s.emit (.leave i (s.sessions i).cluster)).ffsplitDo (s.storedView i true)).2.2 =
        s.leaving i :=
      rfl
    have hrest : Sent (s.leaving i) (s.leaveCluster i) [] := by
      simp only [leaveCluster, if_neg h0, hview, hdo]
      split_ifs
      · exact ((hclusters _ _ _).trans (hclusters _ _ _)).trans (sent_modify _ i Iff.rfl)
      · exact (hclusters _ _ _).trans (sent_modify _ i Iff.rfl)
    simpa using hsent.trans hrest

/-- Leaving neither begins nor ends a session, and sends the leaving one nothing: whatever its life
is, only a live one goes on to be leaving. -/
theorem leaveCluster_life (s : Server) (i : Slot) :
    (∀ j, ((s.leaveCluster i).sessions j).phase = .free ↔ (s.sessions j).phase = .free) ∧
    ∃ new, (s.leaveCluster i).trace = new ++ s.trace ∧ (∀ e ∈ new, ∀ j, e ≠ .connect j) ∧
      (∀ j, j ≠ i → History.after (Life.next j) (s.life j) new = some (s.life j)) ∧
      ∀ l, ∃ l', History.after (Life.next i) l new = some l' ∧ (l' = .idle ↔ l = .idle) := by
  rcases s.leaveCluster_sent i with h | ⟨c, sent, hsent, hothers⟩
  · rw [h]
    exact ⟨fun _ => Iff.rfl, [], rfl, by simp, fun _ _ => rfl, fun l => ⟨l, rfl, Iff.rfl⟩⟩
  · obtain ⟨new, htr, hconn, hlife⟩ := hsent.life
    refine ⟨hsent.free, new ++ [.leave i c], by rw [htr]; simp, fun e he j => ?_, fun j hj => ?_,
      fun l => ?_⟩
    · rcases List.mem_append.mp he with he | he
      · exact hconn e he j
      · rw [List.mem_singleton.mp he]
        simp
    · have hleave : History.after (Life.next j) (s.life j) [.leave i c] = some (s.life j) :=
        congrArg some (if_neg fun h => hj h.1.symm)
      rw [History.after_append_of_eq hleave]
      exact hlife j (s.life j) fun p hp hpj => life_eq_live.mpr (hpj ▸ (hothers p hp).2)
    · have hleave : History.after (Life.next i) l [.leave i c] =
          some (if i = i ∧ l = .live then .going else l) :=
        rfl
      refine ⟨if i = i ∧ l = .live then .going else l, ?_, ?_⟩
      · rw [History.after_append_of_eq hleave]
        exact hlife i _ fun p hp hpi => absurd hpi (hothers p hp).1
      · cases l <;> simp

/-! ## The calls -/

theorem reset_life (s : Server) (i j : Slot) :
    (s.reset i).life j = if j = i then .idle else s.life j := by
  unfold life reset
  rw [modify_apply]
  split_ifs <;> first | rfl | contradiction

/-- The transport has lost the connection: the session is taken out of its slot, and nothing is
closed. -/
theorem lost_lives (s : Server) (i : Slot) :
    Lives s ((s.leaveCluster i).reset i) (Function.update s.life i .idle) := by
  obtain ⟨hfree, new, htr, hconn, hothers, hself⟩ := s.leaveCluster_life i
  refine ⟨new, htr, hconn, fun j => ?_⟩
  rw [reset_life]
  by_cases hj : j = i
  · subst hj
    obtain ⟨l, hl, hidle⟩ := hself .idle
    rw [Function.update_self, if_pos rfl, hl, hidle.mpr rfl]
  · rw [Function.update_of_ne hj, if_neg hj, life_congr (hfree j)]
    exact hothers j hj

/-- The server ends a session: it is closed once, as the last thing. -/
theorem closed_lives {s : Server} {i : Slot} (hocc : (s.sessions i).phase ≠ .free) :
    Lives s (((s.leaveCluster i).reset i).emit (.close i)) s.life := by
  obtain ⟨hfree, new, htr, hconn, hothers, hself⟩ := s.leaveCluster_life i
  refine ⟨.close i :: new, congrArg (Event.close i :: ·) htr, ?_, fun j => ?_⟩
  · rintro e (_ | ⟨_, he⟩) k
    · simp
    · exact hconn e he k
  · have hend : (((s.leaveCluster i).reset i).emit (.close i)).life j =
        if j = i then .idle else (s.leaveCluster i).life j :=
      reset_life (s.leaveCluster i) i j
    rw [hend, History.after]
    by_cases hj : j = i
    · subst hj
      obtain ⟨l, hl, hidle⟩ := hself (s.life j)
      have hlive : l ≠ .idle := by
        rw [ne_eq, hidle, life_eq_live.mpr hocc]
        simp
      rw [hl, if_pos rfl]
      simp [Life.next, hlive]
    · rw [hothers j hj, if_neg hj, life_congr (hfree j)]
      exact if_neg fun h => hj h.symm

theorem drainCloses_lives {s : Server} {i : Slot} (hq : Queue i s) :
    Lives s s.drainCloses s.life := by
  rcases hq with ⟨hempty, -⟩ | ⟨hpend, hocc, -⟩
  · rw [drainCloses_of_empty hempty]
    exact Lives.refl s
  · rw [drainCloses_of_pending hpend hocc]
    exact closed_lives (s := { s with processing := true, pendingClose := [] }) hocc

theorem talks_processing (s : Server) (b : Bool) : Talks s { s with processing := b } :=
  Sent.talks ⟨fun _ => Iff.rfl, [], rfl, by simp, rfl⟩

theorem feed_lives {s : Server} (i : Slot) (data : Bytes) (now : UInt64) (hs : Quiescent s) :
    Lives s (s.feed i data now) s.life := by
  simp only [feed]
  set s₁ := s.modify i fun x => { x with rx := x.rx ++ data }
  set s₂ := s₁.rescheduleDpd i now
  have hq₂ : Queue i s₂ := queue_fed i data now hs
  have h₁ : Talks s s₁ := (sent_modify s i Iff.rfl).talks
  have h₂ : Talks s₁ s₂ := (sent_rescheduleDpd s₁ i now).talks
  have h₃ :=
    onDataLoop_talks i now (s₂.sessions i).rx.length (s := { s₂ with processing := true }) rfl hq₂
  obtain ⟨-, hq₃⟩ :=
    onDataLoop_turn i now (s₂.sessions i).rx.length (s := { s₂ with processing := true }) rfl hq₂
  exact (((h₁.trans h₂).trans (talks_processing s₂ true)).trans h₃).lives.trans
    (drainCloses_lives (s := { onDataLoop _ _ i now with processing := false }) hq₃)

/-- The life of the slots in `on_data`. -/
theorem onData_lives {s : Server} (slot : Int) (data : Bytes) (now : UInt64) (hs : Quiescent s) :
    Lives s (s.onData slot data now) s.life := by
  simp only [onData]
  split_ifs
  · exact Lives.refl s
  · exact feed_lives _ data now hs
  · exact Lives.refl s

/-- The life of the slots in `on_disconnected`, for which the session is gone from the start. -/
theorem onDisconnected_lives {s : Server} (i : Slot) (hs : Quiescent s) :
    Lives s (s.onDisconnected i) (Function.update s.life i .idle) := by
  rw [onDisconnected_slot]
  split_ifs with hfree
  · have hidle : s.life i = .idle := if_pos hfree
    rw [← hidle, Function.update_eq_self]
    exact Lives.refl s
  · rw [dropClient_eq i hs rfl]
    exact lost_lives { s with processing := true } i

theorem disconnectClient_lives {s : Server} (i : Slot) (hs : Quiescent s) :
    Lives s (s.disconnectClient i) s.life := by
  by_cases hfree : (s.sessions i).phase = .free
  · have hdo : s.disconnectClient i = s := by simp [disconnectClient, hfree]
    rw [hdo]
    exact Lives.refl s
  · set t := { s with processing := true }
    have ht : Talks s (t.disconnectClient i) := (talks_processing s true).trans
      (disconnectClient_talks (s := t) rfl (hs.queue i) hfree (hs.scheduleDisconnect i))
    obtain ⟨-, -, hq⟩ :=
      disconnectClient_turn i (s := t) rfl (hs.queue i) hfree (hs.scheduleDisconnect i)
    rw [disconnectClient_of_quiescent i hs hfree]
    exact ht.lives.trans
      (drainCloses_lives (s := { t.disconnectClient i with processing := false }) hq)

theorem tick_lives {s : Server} (now : UInt64) (hs : Quiescent s) :
    Lives s (s.tick now) s.life := by
  have hfold : ∀ (l : List Slot) {t : Server}, Quiescent t →
      Lives t (l.foldl (tickSlot now) t) t.life := by
    intro l
    induction l with
    | nil => exact fun {t} _ => Lives.refl t
    | cons i l ih =>
      intro t ht
      have hslot : Lives t (tickSlot now t i) t.life ∧ Quiescent (tickSlot now t i) := by
        simp only [tickSlot]
        split_ifs
        · exact ⟨Lives.refl t, ht⟩
        · exact ⟨disconnectClient_lives i ht, (disconnectClient_moves i ht).2⟩
        · exact ⟨Lives.refl t, ht⟩
      exact hslot.1.trans (ih hslot.2)
  exact hfold _ hs

/-- The life of the slots in `on_connect`: a free one begins, or there is none. -/
theorem onConnect_lives (s : Server) (now : UInt64) (peer : String) :
    s.onConnect now peer = (-1, s) ∨
    ∃ i : Slot, (s.onConnect now peer).1 = i ∧ (s.sessions i).phase = .free ∧
      (s.onConnect now peer).2.trace = .connect i :: s.trace ∧
      ∀ j, (s.onConnect now peer).2.life j = if j = i then .live else s.life j := by
  unfold onConnect
  split
  · exact Or.inl rfl
  · next i hf =>
    refine Or.inr ⟨i, rfl, by simpa using List.find?_some hf, rfl, fun j => ?_⟩
    unfold life
    simp only [emit_sessions, modify_apply]
    split_ifs <;> first | rfl | contradiction

end Server

end Qnetd
