import Qnetd.Lib.History
import Qnetd.Server.Calls

/-!
# What the algorithm does to the state

Closed forms of the loops and of `ffsplit_do`, so that nothing above has to unfold them.

* `Session.sansVotes`, `SameButVotes` : a session without the four fields a vote writes; every pure
  function of the algorithm reads only the rest (`inWalk_congr`, `others_congr`);
* `ffsplitSendVotes_eq` : a pass over the votes updates exactly its targets and appends one event
  for each;
* `ffsplitVotes_cases`, `ffsplitDo_cases`, `handleVoteInfoReply_cases` : the ways a decision or a
  reply can end;
* `Within c` : a change to the votes of cluster `c` and to nothing else (`ffsplitDo_within`,
  `handleVoteInfoReply_within`).
-/

namespace Qnetd

/-- The session with the fields a decision may write set back to their defaults. -/
def Session.sansVotes (x : Session) : Session :=
  { x with ffState := .waitingForChange, voteInfoSeq := 0, lastSentVote := .undefined, lastAckNack := .undefined }

@[simp] theorem Session.sansVotes_voted (v : Vote) (x : Session) : (x.voted v).sansVotes = x.sansVotes := rfl

/-- An event of the algorithm in cluster `c`, whose sessions are `mem`. -/
def Event.within (c : Int) (mem : Slot → Bool) : Event → Prop
  | .vote j v => mem j = true ∧ v.cluster = c
  | .reply j _ _ _ _ => mem j = true
  | .phase c' _ | .unstable c' => c' = c
  | .decide d => d.cluster = c
  | _ => False

namespace Server

/-! ## What the algorithm reads -/

/-- The two servers' sessions differ at most in what votes write. -/
def SameButVotes (s s' : Server) : Prop := ∀ i, (s'.sessions i).sansVotes = (s.sessions i).sansVotes

theorem SameButVotes.refl (s : Server) : SameButVotes s s := fun _ => rfl

theorem SameButVotes.trans {s t u : Server} (h₁ : SameButVotes s t) (h₂ : SameButVotes t u) :
    SameButVotes s u :=
  fun i => (h₂ i).trans (h₁ i)

theorem SameButVotes.phase {s s' : Server} (h : SameButVotes s s') (i : Slot) :
    (s'.sessions i).phase = (s.sessions i).phase := (congrArg Session.phase (h i) :)

theorem SameButVotes.cluster {s s' : Server} (h : SameButVotes s s') (i : Slot) :
    (s'.sessions i).cluster = (s.sessions i).cluster := (congrArg Session.cluster (h i) :)

theorem SameButVotes.nodeId {s s' : Server} (h : SameButVotes s s') (i : Slot) :
    (s'.sessions i).nodeId = (s.sessions i).nodeId := (congrArg Session.nodeId (h i) :)

theorem SameButVotes.lastRingId {s s' : Server} (h : SameButVotes s s') (i : Slot) :
    (s'.sessions i).lastRingId = (s.sessions i).lastRingId := (congrArg Session.lastRingId (h i) :)

theorem SameButVotes.configList {s s' : Server} (h : SameButVotes s s') (i : Slot) :
    (s'.sessions i).configList = (s.sessions i).configList := (congrArg Session.configList (h i) :)

theorem SameButVotes.membershipList {s s' : Server} (h : SameButVotes s s') (i : Slot) :
    (s'.sessions i).membershipList = (s.sessions i).membershipList :=
  (congrArg Session.membershipList (h i) :)

theorem SameButVotes.lastHeuristics {s s' : Server} (h : SameButVotes s s') (i : Slot) :
    (s'.sessions i).lastHeuristics = (s.sessions i).lastHeuristics :=
  (congrArg Session.lastHeuristics (h i) :)

theorem SameButVotes.tieBreaker {s s' : Server} (h : SameButVotes s s') (i : Slot) :
    (s'.sessions i).tieBreaker = (s.sessions i).tieBreaker := (congrArg Session.tieBreaker (h i) :)

theorem SameButVotes.keepActivePartitionTb {s s' : Server} (h : SameButVotes s s') (i : Slot) :
    (s'.sessions i).keepActivePartitionTb = (s.sessions i).keepActivePartitionTb :=
  (congrArg Session.keepActivePartitionTb (h i) :)

theorem inCluster_congr {s s' : Server} (h : SameButVotes s s') (c : Int) (i : Slot) :
    s'.inCluster c i = s.inCluster c i := by
  simp only [inCluster, h.phase i, h.cluster i]

theorem tvCluster_congr {s s' : Server} (h : SameButVotes s s') (tv : TriggerView) :
    s'.tvCluster tv = s.tvCluster tv := h.cluster tv.slot

theorem skipInClusterWalk_congr {s s' : Server} (h : SameButVotes s s') (tv : TriggerView)
    (i : Slot) : s'.skipInClusterWalk tv i = s.skipInClusterWalk tv i := by
  simp only [skipInClusterWalk, h.nodeId]

theorem inWalk_congr {s s' : Server} (h : SameButVotes s s') (tv : TriggerView) (i : Slot) :
    s'.inWalk tv i = s.inWalk tv i := by
  simp only [inWalk, inCluster_congr h, tvCluster_congr h, skipInClusterWalk_congr h]

theorem inWalk_iff {s : Server} {tv : TriggerView} {i : Slot} :
    s.inWalk tv i = true ↔ s.inCluster (s.tvCluster tv) i = true ∧
    s.skipInClusterWalk tv i = false := by
  rw [inWalk, Bool.and_eq_true, Bool.not_eq_true']

theorem inCluster_of_inWalk {s : Server} {tv : TriggerView} {i : Slot} (h : s.inWalk tv i = true) :
    s.inCluster (s.tvCluster tv) i = true := (inWalk_iff.mp h).1

theorem inWalk_storedView (s : Server) {i : Slot} {c : Int} (hc : (s.sessions i).cluster = c)
    (j : Slot) : s.inWalk (s.storedView i false) j = s.inCluster c j := by
  rw [← hc]
  exact Bool.and_true _

theorem others_congr {s s' : Server} (h : SameButVotes s s') (tv : TriggerView) (i : Slot) :
    s'.others tv i = s.others tv i := by
  simp only [others, inCluster_congr h, tvCluster_congr h]

theorem effRing_congr {s s' : Server} (h : SameButVotes s s') (tv : TriggerView) (i : Slot) :
    s'.effRing tv i = s.effRing tv i := by
  simp only [effRing, h.lastRingId]

/-! ## A pass over the votes -/

/-- The state a session waits in for the votes of a pass. -/
def dueState (sendAcks : Bool) : FfClientState := if sendAcks then .sendingAck else .sendingNack

def passVote (sendAcks : Bool) : Vote := if sendAcks then .ack else .nack

theorem voteFor_eq (sendAcks : Bool) (st : FfClientState) :
    voteFor sendAcks st = if st = dueState sendAcks then passVote sendAcks else .undefined := by
  cases sendAcks <;> cases st <;> rfl

theorem passVote_ne_undefined (sendAcks : Bool) : passVote sendAcks ≠ .undefined := by
  cases sendAcks <;> decide

def target (s : Server) (tv : TriggerView) (sendAcks : Bool) (i : Slot) : Bool :=
  s.inWalk tv i && (s.sessions i).ffState = dueState sendAcks

theorem target_iff {s : Server} {tv : TriggerView} {sendAcks : Bool} {i : Slot} :
    s.target tv sendAcks i = true ↔ s.inWalk tv i = true ∧
    (s.sessions i).ffState = dueState sendAcks := by
  simp [target]

def targets (s : Server) (tv : TriggerView) (sendAcks : Bool) : List Slot :=
  (List.finRange MAX_CLIENTS).filter (s.target tv sendAcks)

def voteTo (s : Server) (tv : TriggerView) (sendAcks : Bool) (i : Slot) : VoteInfo where
  cluster := s.tvCluster tv
  seq := (s.sessions i).voteInfoSeq + 1
  ring := s.effRing tv i
  vote := passVote sendAcks

/-- The server when a pass has walked the slots of `l`. -/
def afterPass (s : Server) (tv : TriggerView) (sendAcks : Bool) (l : List Slot) : Server :=
  { s with
    sessions := fun i =>
      if i ∈ l ∧ s.target tv sendAcks i = true then (s.sessions i).voted (passVote sendAcks)
        else s.sessions i
    trace :=
      ((l.filter (s.target tv sendAcks)).map fun i => Event.vote i
      (s.voteTo tv sendAcks i)).reverse ++ s.trace }

theorem afterPass_sameButVotes (s : Server) (tv : TriggerView) (sendAcks : Bool) (l : List Slot) :
    SameButVotes s (s.afterPass tv sendAcks l) := by
  intro i
  simp only [afterPass]
  split_ifs <;> rfl

theorem afterPass_of_not_mem (s : Server) (tv : TriggerView) (sendAcks : Bool) {l : List Slot}
    {i : Slot} (h : i ∉ l) : (s.afterPass tv sendAcks l).sessions i = s.sessions i := by
  simp [afterPass, h]

theorem afterPass_snoc_target (s : Server) (tv : TriggerView) (sendAcks : Bool) {l : List Slot}
    {i : Slot} (hi : i ∉ l) (ht : s.target tv sendAcks i = true) :
    s.afterPass tv sendAcks (l ++ [i]) =
      ((s.afterPass tv sendAcks l).modify i (Session.voted (passVote sendAcks))).emit
        (.vote i (s.voteTo tv sendAcks i)) := by
  simp only [afterPass, modify, emit, Server.mk.injEq, true_and]
  constructor
  · funext j
    by_cases hj : j = i
    · subst hj; simp [hi, ht]
    · simp [hj]
  · simp [ht]

theorem afterPass_snoc_of_not_target (s : Server) (tv : TriggerView) (sendAcks : Bool)
    {l : List Slot} {i : Slot}
    (ht : s.target tv sendAcks i = false) :
    s.afterPass tv sendAcks (l ++ [i]) = s.afterPass tv sendAcks l := by
  simp only [afterPass, Server.mk.injEq, true_and]
  constructor
  · funext j
    by_cases hj : j = i
    · subst hj; simp [ht]
    · simp [hj]
  · simp [ht]

theorem sendVote_afterPass (s : Server) (tv : TriggerView) (sendAcks : Bool) {l : List Slot} {i : Slot} (hi : i ∉ l)
    (n : Nat) :
    ffsplitSendVote tv sendAcks (n, s.afterPass tv sendAcks l) i =
      (n + if s.target tv sendAcks i then 1 else 0, s.afterPass tv sendAcks (l ++ [i])) := by
  have hsame := afterPass_sameButVotes s tv sendAcks l
  have hself := afterPass_of_not_mem s tv sendAcks hi
  unfold ffsplitSendVote
  simp only [inWalk_congr hsame, hself, voteFor_eq]
  by_cases hw : s.inWalk tv i = true
  · by_cases hd : (s.sessions i).ffState = dueState sendAcks
    · have ht : s.target tv sendAcks i = true := target_iff.mpr ⟨hw, hd⟩
      have hvoted : SameButVotes s ((s.afterPass tv sendAcks l).modify i (Session.voted (passVote sendAcks))) := by
        intro j
        rw [modify_apply]
        split_ifs
        · exact hsame j
        · exact hsame j
      rw [afterPass_snoc_target s tv sendAcks hi ht]
      simp only [hw, hd, ht, Bool.not_true, if_true, passVote_ne_undefined, modify_self, hself, effRing_congr hsame,
        tvCluster_congr hvoted, voteTo]
      rfl
    · have ht : s.target tv sendAcks i = false := by
        rw [← Bool.not_eq_true, target_iff]
        exact fun h => hd h.2
      rw [afterPass_snoc_of_not_target s tv sendAcks ht]
      simp [hw, hd, ht]
  · have ht : s.target tv sendAcks i = false := by
      rw [← Bool.not_eq_true, target_iff]
      exact fun h => hw h.1
    rw [afterPass_snoc_of_not_target s tv sendAcks ht]
    simp [hw, ht]

theorem foldl_sendVote (s : Server) (tv : TriggerView) (sendAcks : Bool) :
    ∀ (l done : List Slot) (n : Nat), (done ++ l).Nodup →
      l.foldl (ffsplitSendVote tv sendAcks) (n, s.afterPass tv sendAcks done) =
        (n + (l.filter (s.target tv sendAcks)).length, s.afterPass tv sendAcks (done ++ l))
  | [], done, n, _ => by simp
  | i :: l, done, n, hnd => by
    have hi : i ∉ done := by
      intro hm
      exact (List.nodup_append.mp hnd).2.2 i hm i (by simp) rfl
    rw [List.foldl_cons, sendVote_afterPass s tv sendAcks hi,
      foldl_sendVote s tv sendAcks l (done ++ [i]) _ (by simpa using hnd)]
    by_cases ht : s.target tv sendAcks i = true
    · simp [ht]; omega
    · simp [ht]

def passed (s : Server) (tv : TriggerView) (sendAcks : Bool) : Server :=
  s.afterPass tv sendAcks (List.finRange MAX_CLIENTS)

theorem afterPass_nil (s : Server) (tv : TriggerView) (sendAcks : Bool) :
    s.afterPass tv sendAcks [] = s := by
  simp [afterPass]

/-- A pass over the votes updates its targets, and sends one vote to each. -/
theorem ffsplitSendVotes_eq (s : Server) (tv : TriggerView) (sendAcks : Bool) :
    s.ffsplitSendVotes tv sendAcks = ((s.targets tv sendAcks).length, s.passed tv sendAcks) := by
  have h :=
    foldl_sendVote s tv sendAcks (List.finRange MAX_CLIENTS) [] 0
      (by simpa using List.nodup_finRange _)
  rw [afterPass_nil, Nat.zero_add, List.nil_append] at h
  exact h

theorem mem_targets {s : Server} {tv : TriggerView} {sendAcks : Bool} {i : Slot} :
    i ∈ s.targets tv sendAcks ↔ s.target tv sendAcks i = true := by
  simp [targets]

theorem targets_eq_nil {s : Server} {tv : TriggerView} {sendAcks : Bool} :
    s.targets tv sendAcks = [] ↔ ∀ i, s.target tv sendAcks i = false := by
  simp [targets, List.filter_eq_nil_iff]

theorem passed_sessions (s : Server) (tv : TriggerView) (sendAcks : Bool) (i : Slot) :
    (s.passed tv sendAcks).sessions i =
      if s.target tv sendAcks i then (s.sessions i).voted (passVote sendAcks)
      else s.sessions i := by
  simp [passed, afterPass]

theorem passed_trace (s : Server) (tv : TriggerView) (sendAcks : Bool) :
    (s.passed tv sendAcks).trace =
      ((s.targets tv sendAcks).map fun i => Event.vote i
        (s.voteTo tv sendAcks i)).reverse ++ s.trace :=
  rfl

@[simp] theorem passed_clusters (s : Server) (tv : TriggerView) (sendAcks : Bool) :
    (s.passed tv sendAcks).clusters = s.clusters := rfl

theorem passed_sameButVotes (s : Server) (tv : TriggerView) (sendAcks : Bool) :
    SameButVotes s (s.passed tv sendAcks) := afterPass_sameButVotes s tv sendAcks _

theorem passed_ffState (s : Server) (tv : TriggerView) (sendAcks : Bool) (i : Slot) :
    ((s.passed tv sendAcks).sessions i).ffState = (s.sessions i).ffState := by
  rw [passed_sessions]
  split_ifs <;> rfl

theorem passed_of_targets_nil {s : Server} {tv : TriggerView} {sendAcks : Bool} (h : s.targets tv sendAcks = []) :
    s.passed tv sendAcks = s := by
  have hs : (s.passed tv sendAcks).sessions = s.sessions := by
    funext i
    rw [passed_sessions, targets_eq_nil.mp h i]
    rfl
  have ht : (s.passed tv sendAcks).trace = s.trace := by
    rw [passed_trace, h]
    rfl
  calc s.passed tv sendAcks
      = { s with sessions := (s.passed tv sendAcks).sessions, trace := (s.passed tv sendAcks).trace } := rfl
    _ = s := by rw [hs, ht]

/-! ## The votes of a decision -/

@[simp] theorem setState_tvCluster (s : Server) (c : Int) (st : FfClusterState) (tv : TriggerView) :
    (s.setState c st).tvCluster tv = s.tvCluster tv := rfl

/-- How the votes of a decision end: waiting for NACK replies, waiting for ACK replies, or with
nobody to ask. -/
theorem ffsplitVotes_cases (s : Server) (tv : TriggerView) :
    (s.targets tv false ≠ [] ∧
      s.ffsplitVotes tv = (s.setState (s.tvCluster tv) .sendingNacks).passed tv false) ∨
    (s.targets tv false = [] ∧ s.targets tv true ≠ [] ∧ s.ffsplitVotes tv =
      ((s.setState (s.tvCluster tv) .sendingNacks).setState (s.tvCluster tv)
        .sendingAcks).passed tv true) ∨
    (s.targets tv false = [] ∧ s.targets tv true = [] ∧ s.ffsplitVotes tv =
      ((s.setState (s.tvCluster tv) .sendingNacks).setState (s.tvCluster tv) .sendingAcks).setState
        (s.tvCluster tv) .waitingForChange) := by
  have hn : (s.setState (s.tvCluster tv) .sendingNacks).targets tv false = s.targets tv false := rfl
  have ha :
      ((s.setState (s.tvCluster tv) .sendingNacks).setState (s.tvCluster tv)
      .sendingAcks).targets tv true =
      s.targets tv true := rfl
  simp only [ffsplitVotes, ffsplitSendVotes_eq]
  by_cases h0 : s.targets tv false = []
  · rw [if_pos (by rw [hn, h0]; rfl), passed_of_targets_nil (hn.trans h0), setState_tvCluster]
    by_cases h1 : s.targets tv true = []
    · rw [if_pos (by rw [ha, h1]; rfl), passed_of_targets_nil (ha.trans h1)]
      exact Or.inr (Or.inr ⟨h0, h1, rfl⟩)
    · rw [if_neg (by rw [ha]; exact fun h => h1 (List.length_eq_zero_iff.mp h))]
      exact Or.inr (Or.inl ⟨h0, h1, rfl⟩)
  · rw [if_neg (by rw [hn]; exact fun h => h0 (List.length_eq_zero_iff.mp h))]
    exact Or.inl ⟨h0, rfl⟩

theorem ffsplitVotes_ffState (s : Server) (tv : TriggerView) (i : Slot) :
    ((s.ffsplitVotes tv).sessions i).ffState = (s.sessions i).ffState := by
  rcases ffsplitVotes_cases s tv with ⟨-, h⟩ | ⟨-, -, h⟩ | ⟨-, -, h⟩
  · rw [h, passed_ffState]
    rfl
  · rw [h, passed_ffState]
    rfl
  · rw [h]
    rfl

/-! ## The decision -/

/-- The decision `ffsplit_do` takes in `s` when the views are stable. -/
def verdict (s : Server) (tv : TriggerView) : Decision where
  cluster := s.tvCluster tv
  winner := (s.ffsplitScan tv).map fun c => (c.slot, c.membership)
  voters := fun i =>
    if s.others tv i then
      some { config := s.effConfig tv i, membership := s.effMembership tv i, ring := s.effRing tv i
             state := s.putState tv (s.ffsplitSelectPartition tv) i }
    else none

/-- The server when the decision is taken and no vote sent yet. -/
def decided (s : Server) (tv : TriggerView) : Server :=
  (s.setState (s.tvCluster tv) .waitingForStableMembership).ffsplitDecide tv

theorem ffsplitScan_setState (s : Server) (tv : TriggerView) (st : FfClusterState) :
    (s.setState (s.tvCluster tv) st).ffsplitScan tv = s.ffsplitScan tv := by
  have hq : ((s.setState (s.tvCluster tv) st).clusters (s.tvCluster tv)).quoratePartition =
      (s.clusters (s.tvCluster tv)).quoratePartition := by simp
  have hstep : (s.setState (s.tvCluster tv) st).ffsplitScanStep tv = s.ffsplitScanStep tv := by
    funext best i
    unfold ffsplitScanStep
    rw [show (s.setState (s.tvCluster tv) st).tvCluster tv = s.tvCluster tv from rfl, hq]
    rfl
  unfold ffsplitScan
  rw [hstep]
  rfl

theorem ffsplitSelectPartition_setState (s : Server) (tv : TriggerView) (st : FfClusterState) :
    (s.setState (s.tvCluster tv) st).ffsplitSelectPartition tv = s.ffsplitSelectPartition tv := by
  unfold ffsplitSelectPartition
  rw [ffsplitScan_setState]

theorem decided_sessions (s : Server) (tv : TriggerView) (i : Slot) :
    (s.decided tv).sessions i =
      if s.inCluster (s.tvCluster tv) i then
        { s.sessions i with ffState := s.putState tv (s.ffsplitSelectPartition tv) i }
      else s.sessions i := by
  rw [← ffsplitSelectPartition_setState s tv .waitingForStableMembership]
  rfl

theorem decided_sameButVotes (s : Server) (tv : TriggerView) : SameButVotes s (s.decided tv) := by
  intro i
  rw [decided_sessions]
  split_ifs <;> rfl

theorem decided_trace (s : Server) (tv : TriggerView) :
    (s.decided tv).trace =
      .decide (s.verdict tv) :: .phase (s.tvCluster tv) .waitingForStableMembership :: s.trace := by
  set s₁ := s.setState (s.tvCluster tv) .waitingForStableMembership with hs₁
  set s₂ :=
    ffsplitUpdateStates { s₁ with decisions := s₁.decisions + 1 } tv
      (s₁.ffsplitSelectPartition tv) with hs₂
  have hsame : SameButVotes s s₂ := fun i => decided_sameButVotes s tv i
  have htr : (s.decided tv).trace = .decide (s₂.decision tv (s₁.ffsplitScan tv)) :: s₂.trace := rfl
  have hd : s₂.decision tv (s₁.ffsplitScan tv) = s.verdict tv := by
    rw [hs₁, ffsplitScan_setState]
    unfold decision verdict
    rw [tvCluster_congr hsame]
    congr 1
    funext i
    rw [others_congr hsame]
    by_cases ho : s.others tv i = true
    · have hc : s.inCluster (s.tvCluster tv) i = true := by
        unfold others at ho
        exact (Bool.and_eq_true_iff.mp ho).1
      have hst : (s₂.sessions i).ffState = s.putState tv (s.ffsplitSelectPartition tv) i := by
        have := decided_sessions s tv i
        rw [if_pos hc] at this
        exact congrArg Session.ffState this
      have hcfg : s₂.effConfig tv i = s.effConfig tv i := by simp only [effConfig, hsame.configList]
      have hmem : s₂.effMembership tv i = s.effMembership tv i := by
        simp only [effMembership, hsame.membershipList]
      rw [if_pos ho, if_pos ho, hst, hcfg, hmem, effRing_congr hsame]
    · rw [if_neg ho, if_neg ho]
  rw [htr, hd]
  rfl

theorem decided_clusters_self (s : Server) (tv : TriggerView) :
    (s.decided tv).clusters (s.tvCluster tv) =
      { s.clusters (s.tvCluster tv) with
        state := .waitingForStableMembership,
          quoratePartition := (s.ffsplitSelectPartition tv).getD {} } := by
  have ht := tvCluster_congr (decided_sameButVotes s tv) tv
  have hw := ffsplitSelectPartition_setState s tv .waitingForStableMembership
  set s₁ := s.setState (s.tvCluster tv) .waitingForStableMembership with hs₁
  have h : (s.decided tv).clusters = Function.update s₁.clusters ((s.decided tv).tvCluster tv)
      { s₁.clusters ((s.decided tv).tvCluster tv)
        with quoratePartition := (s₁.ffsplitSelectPartition tv).getD {} } := rfl
  rw [h, ht, hw, Function.update_self, hs₁, setState_self]

theorem decided_clusters_of_ne (s : Server) (tv : TriggerView) {c : Int} (h : c ≠ s.tvCluster tv) :
    (s.decided tv).clusters c = s.clusters c := by
  have ht := tvCluster_congr (decided_sameButVotes s tv) tv
  change Function.update (s.setState (s.tvCluster tv) .waitingForStableMembership).clusters
    ((s.decided tv).tvCluster tv) _ c = _
  rw [ht, Function.update_of_ne h, setState_of_ne _ _ h]

/-- The two ends of `ffsplit_do`. Both return `NO_ERROR`. -/
theorem ffsplitDo_cases (s : Server) (tv : TriggerView) :
    (s.ffsplitIsStable tv = false ∧ s.ffsplitDo tv = (.noError, .waitForReply,
      (s.setState (s.tvCluster tv) .waitingForStableMembership).emit
      (.unstable (s.tvCluster tv)))) ∨
    (s.ffsplitIsStable tv = true ∧
      s.ffsplitDo tv = (.noError, .noChange, (s.decided tv).ffsplitVotes tv)) := by
  have hst : (s.setState (s.tvCluster tv) .waitingForStableMembership).ffsplitIsStable tv =
      s.ffsplitIsStable tv :=
    rfl
  unfold ffsplitDo
  simp only [hst]
  cases h : s.ffsplitIsStable tv with
  | false => exact Or.inl ⟨rfl, rfl⟩
  | true => exact Or.inr ⟨rfl, rfl⟩

theorem ffsplitVotes_sameButVotes (s : Server) (tv : TriggerView) :
    SameButVotes s (s.ffsplitVotes tv) := by
  rcases ffsplitVotes_cases s tv with ⟨-, h⟩ | ⟨-, -, h⟩ | ⟨-, -, h⟩
  · rw [h]
    exact passed_sameButVotes (s.setState (s.tvCluster tv) .sendingNacks) tv false
  · rw [h]
    exact passed_sameButVotes
      ((s.setState (s.tvCluster tv) .sendingNacks).setState (s.tvCluster tv) .sendingAcks) tv true
  · rw [h]
    exact SameButVotes.refl s

theorem ffsplitDo_server (s : Server) (tv : TriggerView) :
    (s.ffsplitIsStable tv = false ∧ (s.ffsplitDo tv).2.2 =
      (s.setState (s.tvCluster tv) .waitingForStableMembership).emit (.unstable (s.tvCluster tv))) ∨
    (s.ffsplitIsStable tv = true ∧ (s.ffsplitDo tv).2.2 = (s.decided tv).ffsplitVotes tv) := by
  rcases ffsplitDo_cases s tv with ⟨hst, h⟩ | ⟨hst, h⟩
  · exact Or.inl ⟨hst, by rw [h]⟩
  · exact Or.inr ⟨hst, by rw [h]⟩

theorem ffsplitVotes_quoratePartition (s : Server) (tv : TriggerView) :
    ((s.ffsplitVotes tv).clusters (s.tvCluster tv)).quoratePartition =
      (s.clusters (s.tvCluster tv)).quoratePartition := by
  rcases ffsplitVotes_cases s tv with ⟨-, h⟩ | ⟨-, -, h⟩ | ⟨-, -, h⟩
  · rw [h, passed_clusters, setState_self]
  · rw [h, passed_clusters, setState_self, setState_self]
  · rw [h, setState_self, setState_self, setState_self]

theorem ffsplitDo_of_unstable {s : Server} {tv : TriggerView} (hst : s.ffsplitIsStable tv = false) :
    (s.ffsplitDo tv).2.2.sessions = s.sessions := by
  rcases ffsplitDo_server s tv with ⟨-, h⟩ | ⟨hyes, -⟩
  · rw [h]
    rfl
  · rw [hst] at hyes
    cases hyes

/-- What a decision leaves behind: its winner, and the states it puts the sessions in. -/
theorem ffsplitDo_of_stable {s : Server} {tv : TriggerView} (hst : s.ffsplitIsStable tv = true) :
    ((s.ffsplitDo tv).2.2.clusters (s.tvCluster tv)).quoratePartition =
      (s.ffsplitSelectPartition tv).getD {} ∧
      ∀ i, ((s.ffsplitDo tv).2.2.sessions i).ffState =
        if s.inCluster (s.tvCluster tv) i then s.putState tv (s.ffsplitSelectPartition tv) i
        else (s.sessions i).ffState := by
  rcases ffsplitDo_server s tv with ⟨hno, -⟩ | ⟨-, h⟩
  · rw [hst] at hno
    cases hno
  · rw [h]
    have hcl : (s.decided tv).tvCluster tv = s.tvCluster tv :=
      tvCluster_congr (decided_sameButVotes s tv) tv
    have hq := ffsplitVotes_quoratePartition (s.decided tv) tv
    rw [hcl, decided_clusters_self] at hq
    refine ⟨hq, fun i => ?_⟩
    rw [ffsplitVotes_ffState, decided_sessions]
    split_ifs
    · rfl
    · rfl

/-- A decision writes nothing of a session but its votes. -/
theorem ffsplitDo_sameButVotes (s : Server) (tv : TriggerView) :
    SameButVotes s (s.ffsplitDo tv).2.2 := by
  rcases ffsplitDo_server s tv with ⟨-, h⟩ | ⟨-, h⟩
  · rw [h]
    exact SameButVotes.refl s
  · rw [h]
    exact (decided_sameButVotes s tv).trans (ffsplitVotes_sameButVotes _ tv)

theorem ffsplitDo_code (s : Server) (tv : TriggerView) : (s.ffsplitDo tv).1 = .noError := by
  rcases ffsplitDo_cases s tv with ⟨-, h⟩ | ⟨-, h⟩ <;> rw [h]

/-- No decision grants an ACK by the reply. -/
theorem ffsplitDo_vote_ne_ack (s : Server) (tv : TriggerView) : (s.ffsplitDo tv).2.1 ≠ .ack := by
  rcases ffsplitDo_cases s tv with ⟨-, h⟩ | ⟨-, h⟩ <;> rw [h] <;> nofun

theorem ffsplitDo_vote_ne_nack (s : Server) (tv : TriggerView) : (s.ffsplitDo tv).2.1 ≠ .nack := by
  rcases ffsplitDo_cases s tv with ⟨-, h⟩ | ⟨-, h⟩ <;> rw [h] <;> nofun

/-! ## The frames of a decision -/

def passFrames (s : Server) (tv : TriggerView) (sendAcks : Bool) : List TransportCall :=
  (s.targets tv sendAcks).map fun i => .sendFrame i (s.voteTo tv sendAcks i).frame

/-- The votes a decision sends: the NACKs, or the ACKs if there is no NACK to send. -/
def ballots (s : Server) (tv : TriggerView) : List TransportCall :=
  s.passFrames tv (decide (s.targets tv false = []))

theorem transportCalls_passed (s : Server) (tv : TriggerView) (sendAcks : Bool) :
    transportCalls (s.passed tv sendAcks).trace =
      transportCalls s.trace ++ s.passFrames tv sendAcks := by
  rw [passed_trace, transportCalls, List.filterMap_append, List.reverse_append,
    List.filterMap_reverse, List.reverse_reverse, List.filterMap_map]
  exact congrArg _ (congrFun (List.filterMap_eq_map (f := fun i =>
    TransportCall.sendFrame i (s.voteTo tv sendAcks i).frame)) _)

theorem transportCalls_setState (s : Server) (c : Int) (st : FfClusterState) :
    transportCalls (s.setState c st).trace = transportCalls s.trace := by
  rw [setState_trace, transportCalls, List.filterMap_cons_none rfl, transportCalls]

theorem transportCalls_ffsplitVotes (s : Server) (tv : TriggerView) :
    transportCalls (s.ffsplitVotes tv).trace = transportCalls s.trace ++ s.ballots tv := by
  unfold ballots
  rcases ffsplitVotes_cases s tv with ⟨hn, h⟩ | ⟨hn, -, h⟩ | ⟨hn, ha, h⟩
  · rw [h, transportCalls_passed, transportCalls_setState, decide_eq_false hn]
    rfl
  · rw [h, transportCalls_passed, transportCalls_setState, transportCalls_setState,
      decide_eq_true hn]
    rfl
  · rw [h, transportCalls_setState, transportCalls_setState, transportCalls_setState,
      decide_eq_true hn, passFrames, ha, List.map_nil, List.append_nil]

/-- The frames `ffsplit_do` sends. -/
theorem transportCalls_ffsplitDo (s : Server) (tv : TriggerView) :
    transportCalls (s.ffsplitDo tv).2.2.trace =
      transportCalls s.trace ++ if s.ffsplitIsStable tv then (s.decided tv).ballots tv else [] := by
  rcases ffsplitDo_server s tv with ⟨hst, h⟩ | ⟨hst, h⟩
  · rw [h, hst, emit_trace, transportCalls, List.filterMap_cons_none rfl, ← transportCalls,
      transportCalls_setState]
    simp
  · rw [h, hst, transportCalls_ffsplitVotes, decided_trace, transportCalls,
      List.filterMap_cons_none rfl, List.filterMap_cons_none rfl, ← transportCalls]
    rfl

/-! ## Replies -/

/-- The server after a reply numbered as expected, before the cluster's state is looked at. -/
def answered (s : Server) (i : Slot) (seq : UInt32) : Server :=
  (s.emit (.reply i seq (s.sessions i).voteInfoSeq (s.sessions i).ffState
    (s.clusters (s.sessions i).cluster).state)).modify i fun x => { x with ffState :=
      .waitingForChange }

theorem answered_ffState_self (s : Server) (i : Slot) (seq : UInt32) :
    ((s.answered i seq).sessions i).ffState = .waitingForChange := by
  rw [answered, modify_self]

theorem answered_of_ne (s : Server) {i j : Slot} (seq : UInt32) (h : j ≠ i) :
    (s.answered i seq).sessions j = s.sessions j := modify_of_ne _ _ h

@[simp] theorem answered_clusters (s : Server) (i : Slot) (seq : UInt32) :
    (s.answered i seq).clusters = s.clusters := rfl

theorem answered_trace (s : Server) (i : Slot) (seq : UInt32) :
    (s.answered i seq).trace = .reply i seq (s.sessions i).voteInfoSeq (s.sessions i).ffState
      (s.clusters (s.sessions i).cluster).state :: s.trace := rfl

theorem answered_sameButVotes (s : Server) (i : Slot) (seq : UInt32) :
    SameButVotes s (s.answered i seq) := by
  intro j
  rw [answered, modify_apply]
  split_ifs <;> rfl

/-- The targets of the ACKs a reply releases: nobody is leaving. -/
def released (s : Server) (i : Slot) (seq : UInt32) : List Slot :=
  (s.answered i seq).targets ((s.answered i seq).storedView i false) true

section Replies

variable {s : Server} {i : Slot} {m : MsgDecoded}

theorem handleVoteInfoReply_of_waiting (hset : m.seqNumberSet = true)
    (hseq : m.seqNumber = (s.sessions i).voteInfoSeq)
    (hn : (s.clusters (s.sessions i).cluster).state ≠ .sendingNacks)
    (ha : (s.clusters (s.sessions i).cluster).state ≠ .sendingAcks) :
    s.handleVoteInfoReply i m = s.answered i m.seqNumber := by
  simp only [handleVoteInfoReply, hset, hseq, ne_eq, not_true_eq_false, if_false,
    Bool.true_eq_false]
  split
  · next h => exact absurd h hn
  · next h => exact absurd h ha
  · rfl

/-- A reply to the last vote sent, while the NACKs are: the last one releases the ACKs. -/
theorem handleVoteInfoReply_of_nacks (hset : m.seqNumberSet = true)
    (hseq : m.seqNumber = (s.sessions i).voteInfoSeq)
    (hst : (s.clusters (s.sessions i).cluster).state = .sendingNacks) :
    s.handleVoteInfoReply i m =
      if (s.answered i m.seqNumber).ffsplitCountState (s.sessions i).cluster .sendingNack = 0 then
        if s.released i m.seqNumber = [] then
          ((s.answered i m.seqNumber).setState (s.sessions i).cluster .sendingAcks).setState
          (s.sessions i).cluster
            .waitingForChange
        else ((s.answered i m.seqNumber).setState (s.sessions i).cluster .sendingAcks).passed
          ((s.answered i m.seqNumber).storedView i false) true
      else s.answered i m.seqNumber := by
  set t := (s.answered i m.seqNumber).setState (s.sessions i).cluster .sendingAcks with ht
  have hrel : t.targets (t.storedView i false) true = s.released i m.seqNumber := rfl
  have hdo : s.handleVoteInfoReply i m =
      if (s.answered i m.seqNumber).ffsplitCountState (s.sessions i).cluster .sendingNack = 0 then
        if (t.ffsplitSendVotes (t.storedView i false) true).1 = 0 then
          (t.ffsplitSendVotes (t.storedView i false) true).2.setState (s.sessions i).cluster
            .waitingForChange
        else (t.ffsplitSendVotes (t.storedView i false) true).2
      else s.answered i m.seqNumber := by
    simp only [handleVoteInfoReply, hset, hseq, ne_eq, not_true_eq_false, if_false,
      Bool.true_eq_false]
    split
    · rw [ht, hseq]
      rfl
    · next h => exact absurd (hst.symm.trans h) (by decide)
    · next h _ => exact absurd hst h
  rw [hdo, ffsplitSendVotes_eq, hrel]
  split_ifs with h0 hlen hnil hnil
  · rw [passed_of_targets_nil (hrel.trans hnil)]
  · exact absurd (List.length_eq_zero_iff.mp hlen) hnil
  · exact absurd (List.length_eq_zero_iff.mpr hnil) hlen
  · rfl
  · rfl

/-- A reply to the last vote sent, while the ACKs are: the last one ends the round. -/
theorem handleVoteInfoReply_of_acks (hset : m.seqNumberSet = true)
    (hseq : m.seqNumber = (s.sessions i).voteInfoSeq)
    (hst : (s.clusters (s.sessions i).cluster).state = .sendingAcks) :
    s.handleVoteInfoReply i m =
      if (s.answered i m.seqNumber).ffsplitCountState (s.sessions i).cluster .sendingAck = 0 then
        (s.answered i m.seqNumber).setState (s.sessions i).cluster .waitingForChange
      else s.answered i m.seqNumber := by
  simp only [handleVoteInfoReply, hset, hseq, ne_eq, not_true_eq_false, if_false,
    Bool.true_eq_false]
  split
  · next h => exact absurd (hst.symm.trans h) (by decide)
  · rfl
  · next h => exact absurd hst h

end Replies

/-- What a reply can do: nothing if it is stale, else answer for its session, and perhaps end the
round the cluster is in: the NACKs by releasing the ACKs, the ACKs by waiting for the next change.
-/
theorem handleVoteInfoReply_cases (s : Server) (i : Slot) (m : MsgDecoded)
    (hset : m.seqNumberSet = true) {c : Int} (hc : (s.sessions i).cluster = c) :
    (m.seqNumber ≠ (s.sessions i).voteInfoSeq ∧ s.handleVoteInfoReply i m =
      s.emit (.reply i m.seqNumber (s.sessions i).voteInfoSeq (s.sessions i).ffState
        (s.clusters c).state)) ∨
    (m.seqNumber = (s.sessions i).voteInfoSeq ∧
      ((s.handleVoteInfoReply i m = s.answered i m.seqNumber ∧
          ((s.clusters c).state = .sendingNacks →
            (s.answered i m.seqNumber).ffsplitCountState c .sendingNack ≠ 0) ∧
          ((s.clusters c).state = .sendingAcks →
            (s.answered i m.seqNumber).ffsplitCountState c .sendingAck ≠ 0)) ∨
       ((s.clusters c).state = .sendingNacks ∧
         (s.answered i m.seqNumber).ffsplitCountState c .sendingNack = 0 ∧
          s.released i m.seqNumber ≠ [] ∧ s.handleVoteInfoReply i m =
            ((s.answered i m.seqNumber).setState c .sendingAcks).passed
              ((s.answered i m.seqNumber).storedView i false) true) ∨
       ((s.clusters c).state = .sendingNacks ∧
         (s.answered i m.seqNumber).ffsplitCountState c .sendingNack = 0 ∧
          s.released i m.seqNumber = [] ∧ s.handleVoteInfoReply i m =
            ((s.answered i m.seqNumber).setState c .sendingAcks).setState c .waitingForChange) ∨
       ((s.clusters c).state = .sendingAcks ∧
         (s.answered i m.seqNumber).ffsplitCountState c .sendingAck = 0 ∧
          s.handleVoteInfoReply i m =
            (s.answered i m.seqNumber).setState c .waitingForChange))) := by
  subst hc
  by_cases hseq : m.seqNumber = (s.sessions i).voteInfoSeq
  · refine Or.inr ⟨hseq, ?_⟩
    cases hst : (s.clusters (s.sessions i).cluster).state with
    | waitingForChange =>
      exact Or.inl ⟨handleVoteInfoReply_of_waiting hset hseq (by simp [hst]) (by simp [hst]),
        by simp, by simp⟩
    | waitingForStableMembership =>
      exact Or.inl ⟨handleVoteInfoReply_of_waiting hset hseq (by simp [hst]) (by simp [hst]),
        by simp, by simp⟩
    | sendingNacks =>
      have hdo := handleVoteInfoReply_of_nacks hset hseq hst
      split_ifs at hdo with h0 hnil
      · exact Or.inr (Or.inr (Or.inl ⟨rfl, h0, hnil, hdo⟩))
      · exact Or.inr (Or.inl ⟨rfl, h0, hnil, hdo⟩)
      · exact Or.inl ⟨hdo, fun _ => h0, by simp⟩
    | sendingAcks =>
      have hdo := handleVoteInfoReply_of_acks hset hseq hst
      split_ifs at hdo with h0
      · exact Or.inr (Or.inr (Or.inr ⟨rfl, h0, hdo⟩))
      · exact Or.inl ⟨hdo, by simp, fun _ => h0⟩
  · refine Or.inl ⟨hseq, ?_⟩
    simp only [handleVoteInfoReply, hset, Bool.true_eq_false, if_false, if_pos hseq]

theorem ffsplitCountState_eq_zero {s : Server} {c : Int} {st : FfClientState} :
    s.ffsplitCountState c st = 0 ↔ ∀ i, s.inCluster c i = true → (s.sessions i).ffState ≠ st := by
  simp [ffsplitCountState, List.filter_eq_nil_iff]

/-! ## Changes within one cluster -/

/-- Only votes of sessions of cluster `c`, and its state and quorate partition, have changed. -/
structure Within (c : Int) (s s' : Server) : Prop where
  same : SameButVotes s s'
  outside : ∀ j, s.inCluster c j = false → s'.sessions j = s.sessions j
  clusters : ∀ c', c' ≠ c → s'.clusters c' = s.clusters c'
  cluster : ∃ st q, s'.clusters c = { s.clusters c with state := st, quoratePartition := q }
  maxRxFrame : s'.maxRxFrame = s.maxRxFrame
  trace : ∃ new, s'.trace = new ++ s.trace ∧ ∀ e ∈ new, e.within c (s.inCluster c)

theorem Within.refl (c : Int) (s : Server) : Within c s s :=
  ⟨.refl s, fun _ _ => rfl, fun _ _ => rfl, ⟨_, _, rfl⟩, rfl, [], rfl, by simp⟩

theorem Within.inCluster {c : Int} {s s' : Server} (h : Within c s s') (c' : Int) (i : Slot) :
    s'.inCluster c' i = s.inCluster c' i := inCluster_congr h.same c' i

theorem Within.trans {c : Int} {s t u : Server} (h₁ : Within c s t) (h₂ : Within c t u) :
    Within c s u := by
  obtain ⟨st₁, q₁, hc₁⟩ := h₁.cluster
  obtain ⟨st₂, q₂, hc₂⟩ := h₂.cluster
  have hmem : t.inCluster c = s.inCluster c := funext fun j => h₁.inCluster c j
  have htr := h₂.trace
  rw [hmem] at htr
  refine ⟨h₁.same.trans h₂.same, fun j hj => ?_, fun c' hc' => ?_, ⟨st₂, q₂, ?_⟩,
    h₂.maxRxFrame.trans h₁.maxRxFrame, History.grown_trans h₁.trace htr⟩
  · rw [h₂.outside j (by rw [h₁.inCluster, hj]), h₁.outside j hj]
  · rw [h₂.clusters c' hc', h₁.clusters c' hc']
  · rw [hc₂, hc₁]

theorem Within.trace_suffix {c : Int} {s s' : Server} (h : Within c s s') :
    s.trace <:+ s'.trace := by
  obtain ⟨new, ht, -⟩ := h.trace
  exact ⟨new, ht.symm⟩

theorem setState_within (s : Server) (c : Int) (st : FfClusterState) :
    Within c s (s.setState c st) :=
  ⟨.refl s, fun _ _ => rfl, fun _ h => setState_of_ne s st h, ⟨st, _, setState_self s c st⟩, rfl,
    [_], rfl, by simp [Event.within]⟩

theorem emit_within (s : Server) {c : Int} {e : Event} (he : e.within c (s.inCluster c)) :
    Within c s (s.emit e) :=
  ⟨.refl s, fun _ _ => rfl, fun _ _ => rfl, ⟨_, _, rfl⟩, rfl, [e], rfl, by simpa using he⟩

theorem target_inCluster {s : Server} {tv : TriggerView} {sendAcks : Bool} {i : Slot}
    (h : s.target tv sendAcks i = true) : s.inCluster (s.tvCluster tv) i = true :=
  inCluster_of_inWalk (target_iff.mp h).1

theorem passed_within (s : Server) (tv : TriggerView) (sendAcks : Bool) :
    Within (s.tvCluster tv) s (s.passed tv sendAcks) := by
  refine ⟨passed_sameButVotes s tv sendAcks, fun j hj => ?_, fun _ _ => rfl, ⟨_, _, rfl⟩, rfl, _,
    passed_trace s tv sendAcks, fun e he => ?_⟩
  · have hnot : s.target tv sendAcks j = false := by
      rw [← Bool.not_eq_true]
      intro ht
      rw [target_inCluster ht] at hj
      cases hj
    rw [passed_sessions, hnot]
    rfl
  · rw [List.mem_reverse, List.mem_map] at he
    obtain ⟨i, hi, rfl⟩ := he
    exact ⟨target_inCluster (mem_targets.mp hi), rfl⟩

theorem decided_within (s : Server) (tv : TriggerView) :
    Within (s.tvCluster tv) s (s.decided tv) := by
  refine ⟨decided_sameButVotes s tv, fun j hj => ?_, fun _ h => decided_clusters_of_ne s tv h,
    ⟨_, _, decided_clusters_self s tv⟩, rfl, [_, _], decided_trace s tv, ?_⟩
  · rw [decided_sessions, hj]
    rfl
  · simp [Event.within, verdict]

theorem ffsplitVotes_within (s : Server) (tv : TriggerView) :
    Within (s.tvCluster tv) s (s.ffsplitVotes tv) := by
  have h₁ := setState_within s (s.tvCluster tv) .sendingNacks
  have h₂ := h₁.trans (setState_within _ (s.tvCluster tv) .sendingAcks)
  rcases ffsplitVotes_cases s tv with ⟨-, h⟩ | ⟨-, -, h⟩ | ⟨-, -, h⟩
  · rw [h]
    exact h₁.trans (passed_within (s.setState (s.tvCluster tv) .sendingNacks) tv false)
  · rw [h]
    exact h₂.trans
      (passed_within
        ((s.setState (s.tvCluster tv) .sendingNacks).setState (s.tvCluster tv)
        .sendingAcks) tv true)
  · rw [h]
    exact h₂.trans (setState_within _ _ _)

/-- A decision stays within its cluster. -/
theorem ffsplitDo_within (s : Server) (tv : TriggerView) :
    Within (s.tvCluster tv) s (s.ffsplitDo tv).2.2 := by
  rcases ffsplitDo_server s tv with ⟨-, h⟩ | ⟨-, h⟩
  · rw [h]
    exact (setState_within s _ _).trans (emit_within _ rfl)
  · have hv := ffsplitVotes_within (s.decided tv) tv
    rw [tvCluster_congr (decided_sameButVotes s tv)] at hv
    rw [h]
    exact (decided_within s tv).trans hv

theorem answered_within (s : Server) {i : Slot} (seq : UInt32) {c : Int}
    (hi : s.inCluster c i = true) : Within c s (s.answered i seq) := by
  refine ⟨answered_sameButVotes s i seq, fun j hj => ?_, fun _ _ => rfl, ⟨_, _, rfl⟩, rfl, [_],
    answered_trace s i seq, ?_⟩
  · refine answered_of_ne s seq fun h => ?_
    rw [h, hi] at hj
    cases hj
  · simpa [Event.within] using hi

/-- A reply stays within its cluster. -/
theorem handleVoteInfoReply_within (s : Server) {i : Slot} (m : MsgDecoded)
    (hset : m.seqNumberSet = true) {c : Int}
    (hi : s.inCluster c i = true) : Within c s (s.handleVoteInfoReply i m) := by
  have ha := answered_within s m.seqNumber hi
  have hview :
      (s.answered i m.seqNumber).tvCluster ((s.answered i m.seqNumber).storedView i false) = c :=
    ((answered_sameButVotes s i m.seqNumber).cluster i).trans (inCluster_iff.mp hi).2
  rcases handleVoteInfoReply_cases s i m hset (inCluster_iff.mp hi).2 with
    ⟨-, h⟩ | ⟨-, ⟨h, -⟩ | ⟨-, -, -, h⟩ | ⟨-, -, -, h⟩ | ⟨-, -, h⟩⟩
  · rw [h]
    exact emit_within s hi
  · rw [h]
    exact ha
  · have hp := passed_within ((s.answered i m.seqNumber).setState c .sendingAcks)
      ((s.answered i m.seqNumber).storedView i false) true
    rw [setState_tvCluster, hview] at hp
    rw [h]
    exact (ha.trans (setState_within _ c _)).trans hp
  · rw [h]
    exact (ha.trans (setState_within _ c _)).trans (setState_within _ c _)
  · rw [h]
    exact ha.trans (setState_within _ c _)

end Server

end Qnetd
