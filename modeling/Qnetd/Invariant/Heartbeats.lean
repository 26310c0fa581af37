import Qnetd.Invariant.Reading

/-!
# Heartbeats

The heartbeat of an active session is within the limits, whatever its client has sent. An INIT
stores the heartbeat before it is known whether the session is admitted, and SET_OPTION changes it
later.

* `Session.Beating`, `Beats` : the property, and that something keeps it;
* `Outcome.beats` : every message keeps it;
* `onData_timely` : after `on_data` the session is gone, or has a fresh deadline and such a
  heartbeat.
-/

namespace Qnetd

/-- An active session has a heartbeat within the limits. -/
def Session.Beating (x : Session) : Prop :=
  x.phase = .active → HEARTBEAT_MIN_MS ≤ x.heartbeatMs ∧ x.heartbeatMs ≤ HEARTBEAT_MAX_MS

theorem Session.Beating.congr {x y : Session} (h : x.Beating) (hp : y.phase = x.phase)
    (hb : y.heartbeatMs = x.heartbeatMs) : y.Beating := by
  unfold Session.Beating
  rw [hp, hb]
  exact h

theorem Session.beating_of_not_active {x : Session} (h : x.phase ≠ .active) : x.Beating :=
  fun hact => absurd hact h

/-- The session of slot `i` keeps a heartbeat within the limits. -/
def Beats (i : Slot) (s s' : Server) : Prop := (s.sessions i).Beating → (s'.sessions i).Beating

namespace Beats

variable {i : Slot} {s t u : Server}

theorem refl (i : Slot) (s : Server) : Beats i s s := id

theorem trans (h₁ : Beats i s t) (h₂ : Beats i t u) : Beats i s u := h₂ ∘ h₁

theorem emit (s : Server) (e : Event) : Beats i s (s.emit e) := id

theorem modify (s : Server) {f : Session → Session}
    (hf : (s.sessions i).Beating → (f (s.sessions i)).Beating) : Beats i s (s.modify i f) := by
  unfold Beats
  rw [Server.modify_self]
  exact hf

end Beats

theorem Server.SameButVotes.beats {s s' : Server} (h : Server.SameButVotes s s') (i : Slot) :
    Beats i s s' := fun hx =>
  hx.congr (h.phase i) (congrArg Session.heartbeatMs (h i) :)

namespace Server

variable (i : Slot) (now : UInt64) (s : Server) (m : MsgDecoded)

/-- A check of a later field leaves the heartbeat alone, and does not take a complaint back. -/
structure Checks (f : ReplyErrorCode × Session → ReplyErrorCode × Session) : Prop where
  code : ∀ r, (f r).1 = .noError → r.1 = .noError
  heartbeatMs : ∀ r, (f r).2.heartbeatMs = r.2.heartbeatMs

theorem initTieBreaker_checks : Checks (initTieBreaker m) := by
  refine ⟨fun r h => ?_, fun r => ?_⟩
  · unfold initTieBreaker at h
    split_ifs at h with h0
    · exact h0
    · exact h
  · unfold initTieBreaker
    split_ifs <;> rfl

theorem initAlgorithm_checks : Checks (initAlgorithm m) := by
  refine ⟨fun r h => ?_, fun r => ?_⟩
  · unfold initAlgorithm at h
    split_ifs at h with h0
    · exact h0
    · exact h
  · unfold initAlgorithm
    split_ifs <;> rfl

theorem initHeartbeat_range {r : ReplyErrorCode × Session} (h : (initHeartbeat m r).1 = .noError) :
    HEARTBEAT_MIN_MS ≤ (initHeartbeat m r).2.heartbeatMs ∧
    (initHeartbeat m r).2.heartbeatMs ≤ HEARTBEAT_MAX_MS := by
  unfold initHeartbeat at h ⊢
  split_ifs at h ⊢ with h0 h1 h2
  · exact ⟨UInt32.not_lt.mp (not_or.mp h2).1, UInt32.not_lt.mp (not_or.mp h2).2⟩
  · exact absurd h h0

/-- An INIT without complaint has brought a heartbeat within the limits. -/
theorem initFields_range {x : Session} (h : (initFields m x).1 = .noError) :
    HEARTBEAT_MIN_MS ≤ (initFields m x).2.heartbeatMs ∧
    (initFields m x).2.heartbeatMs ≤ HEARTBEAT_MAX_MS := by
  simp only [initFields] at h ⊢
  have htie := (initAlgorithm_checks m).code _ h
  rw [(initAlgorithm_checks m).heartbeatMs, (initTieBreaker_checks m).heartbeatMs]
  exact initHeartbeat_range m ((initTieBreaker_checks m).code _ htie)

/-- A session that is not active may store any heartbeat, an active one none. -/
theorem initFields_beating {x : Session} (hx : x.Beating) : (initFields m x).2.Beating := by
  by_cases hphase : x.phase = .active
  · rw [initFields_of_active m hphase]
    exact hx.congr rfl rfl
  · rw [initFields_withInit]
    generalize (initFields m x).2 = y
    exact Session.beating_of_not_active hphase

theorem optioned_beating {x : Session} (hx : x.Beating)
    (hrange : m.heartbeatIntervalSet = true →
      HEARTBEAT_MIN_MS ≤ m.heartbeatInterval ∧ m.heartbeatInterval ≤ HEARTBEAT_MAX_MS) :
    (optioned m now x).Beating := by
  have hbeat : (if m.heartbeatIntervalSet then
      { x with heartbeatMs := m.heartbeatInterval }.rescheduled now else x).Beating := by
    split_ifs with hset
    · obtain ⟨d, hd⟩ := Session.rescheduled_eq now { x with heartbeatMs := m.heartbeatInterval }
      rw [hd]
      exact fun _ => hrange hset
    · exact hx
  unfold optioned
  by_cases hkeep : m.keepActivePartitionTieBreakerSet = true
  · rw [if_pos hkeep]
    exact hbeat.congr rfl rfl
  · rw [if_neg hkeep]
    exact hbeat

theorem initStored_beats : Beats i s (s.initStored i m) := by
  unfold initStored
  exact .modify s (initFields_beating m)

theorem admitted_beating
    (h : HEARTBEAT_MIN_MS ≤ (s.sessions i).heartbeatMs ∧
      (s.sessions i).heartbeatMs ≤ HEARTBEAT_MAX_MS) :
    ((s.admitted i now).sessions i).Beating := by
  obtain ⟨c, hc⟩ := admitted_self s i now
  obtain ⟨d, hd⟩ := Session.rescheduled_eq now { s.sessions i with cluster := c, phase := .active }
  rw [hc, hd]
  exact fun _ => h

/-- A message keeps the heartbeat of an active session within the limits. -/
theorem Outcome.beats {i : Slot} {now : UInt64} {s s' : Server} {m : MsgDecoded} {f : Frame}
    (h : Outcome i m f now s s') : Beats i s s' := by
  cases h with
  | refused code _ => exact .emit s _
  | greeted _ _ =>
    exact (Beats.modify s fun _ => Session.beating_of_not_active (by nofun)).trans (.emit _ _)
  | turnedAway code _ _ _ => exact (initStored_beats i s m).trans (.emit _ _)
  | joined _ _ hfields _ _ =>
    -- the phase changes only here, and the heartbeat has just been checked
    intro _
    apply admitted_beating
    rw [initStored_self]
    exact initFields_range m hfields
  | configured _ _ hrange =>
    exact (Beats.modify s fun hx => optioned_beating now m hx hrange).trans (.emit _ _)
  | echoed _ _ => exact .emit s _
  | reported r _ _ =>
    have hnote : ∀ x : Session, x.Beating → (noteReport m (s.reportVote i r m) r x).Beating := by
      intro x hx
      obtain ⟨_, _, _, _, _, _, _, heq⟩ := noteReport_eq m (s.reportVote i r m) r x
      rw [heq]
      exact hx.congr rfl rfl
    exact (((ranReport_sameButVotes s i r m).beats i).trans (.modify _ (hnote _))).trans (.emit _ _)
  | replied _ hact hseq =>
    exact (handleVoteInfoReply_within s m hseq (inCluster_iff.mpr ⟨hact, rfl⟩)).same.beats i

theorem disconnectClient_beats {i : Slot} {s : Server} (hp : s.processing = true) :
    Beats i s (s.disconnectClient i) := by
  unfold disconnectClient
  simp only [modify_processing, hp, if_true]
  split_ifs
  · exact .refl i s
  · exact Beats.modify (f := fun x => { x with scheduleDisconnect := true }) s fun hx =>
      hx.congr rfl rfl

theorem handleFrame_beats {i : Slot} {s : Server} (hp : s.processing = true) (type : MsgType)
    (frame : Frame) (now : UInt64) : Beats i s (s.handleFrame i type frame now) := by
  unfold handleFrame
  cases msgDecode type (frame.drop MSG_HEADER_LEN) with
  | none => exact (Beats.emit s _).trans (disconnectClient_beats hp)
  | some m => exact (Beats.emit s _).trans (handleMsg_outcome i m frame now _).beats

end Server

/-! ## Reading -/

section Reading

variable {i : Slot} {now : UInt64} {s : Server}

theorem Reading.consume_beats (h : Reading i now s) (f : Bytes) :
    Beats i s (s.consume i now f) := by
  unfold Server.consume
  split_ifs
  · exact .refl i s
  · exact (Beats.emit s _).trans (Server.disconnectClient_beats h.processing)
  · exact (Beats.emit s _).trans
      (Server.handleFrame_beats (s := s.emit (.frame i f)) h.processing _ f now)

theorem Reading.consumed_beats (h : Reading i now s) (b : Bytes) :
    Beats i s (s.consumed i now b) := by
  have hfold : ∀ (l : List Bytes) {t : Server}, Reading i now t →
      Beats i t (l.foldl (Server.consume i now) t) := by
    intro l
    induction l with
    | nil => exact fun {t} _ => .refl i t
    | cons f l ih => exact fun ht => (ht.consume_beats f).trans (ih (ht.consume f).1)
  exact hfold _ h

/-- After `on_data` the session is gone, or it has a fresh deadline. -/
theorem onData_timely (hs : Quiescent s) (hfree : (s.sessions i).phase ≠ .free)
    (hb : (s.sessions i).Beating) (data : Bytes) :
    ((s.onData i data now).sessions i).phase = .free ∨
      ((s.onData i data now).sessions i).Timely now ∧
      ((s.onData i data now).sessions i).Beating := by
  have hopen : Reading i now (s.opened i now) := hs.opened hfree
  have hself : (s.opened i now).sessions i = (s.sessions i).rescheduled now :=
    Server.modify_self _ _ _
  have hbeat : ((s.opened i now).sessions i).Beating := by
    obtain ⟨d, hd⟩ := Session.rescheduled_eq now (s.sessions i)
    rw [hself, hd]
    exact hb.congr rfl rfl
  rw [onData_eq hs hfree data hopen fun _ => rfl, Server.delivered]
  set b := (s.sessions i).rx ++ data
  have hread := (hopen.consumed b).1
  split_ifs with hc
  · exact Or.inl (hread.drainCloses_free hc)
  · refine Or.inr ?_
    change (((Server.withRx _ _ _).sessions i).Timely now) ∧
      ((Server.withRx _ _ _).sessions i).Beating
    rw [Server.withRx_self]
    exact ⟨hread.timely.congr rfl rfl rfl, (hopen.consumed_beats b hbeat).congr rfl rfl⟩

end Reading

end Qnetd
