import Mathlib.Logic.Basic
import Qnetd.Server.Effects

/-!
# What a message does

The handlers are read once, here: for each thing that a message can do there is a constructor of
`Outcome`, with the checks that the code has made by then. What the later modules say about messages
they say by cases on the outcome.

* `reportView`, `ranReport`, `answerReport` : a report of any type as one function;
* `initStored`, `admitted` : the server when INIT has stored its fields, and when the session has
  joined its cluster;
* `handleInit_eq`, `handleNodeList_eq` and the like : each handler is its checks, then one of these
  functions or an error;
* `Outcome` : what a message can do, with `handleMsg_outcome` : the dispatch does one of these.
-/

namespace Qnetd

theorem Session.rescheduled_eq (now : UInt64) (x : Session) :
    ∃ d, x.rescheduled now = { x with deadlineMs := d } := by
  unfold Session.rescheduled
  split_ifs
  · exact ⟨_, rfl⟩
  · exact ⟨_, rfl⟩
  · exact ⟨x.deadlineMs, rfl⟩

/-- The event belongs to the admission of session `i`. -/
def Event.admits (i : Slot) : Event → Prop
  | .join j _ => j = i
  | .phase _ _ => True
  | _ => False

namespace Server

/-! ## Reports -/

/-- Whether a report makes the server run the algorithm. -/
def runs (x : Session) : Report → Bool
  | .list .initialConfig | .list .quorum => false
  | .list .changedConfig => !x.membershipList.empty
  | .list .membership => !x.configList.empty
  | .heuristics => !(x.configList.empty || x.membershipList.empty)

/-- A reported config or membership list names its sender. -/
def Fits (m : MsgDecoded) (x : Session) : Report → Prop
  | .list .quorum | .heuristics => True
  | .list _ => (m.nodes.find x.nodeId).isSome = true

/-- The view of the session with the report taken into account. -/
def reportView (s : Server) (i : Slot) (m : MsgDecoded) : Report → TriggerView
  | .list .initialConfig | .list .changedConfig => { s.storedView i false with config := m.nodes }
  | .list .membership =>
    { s.storedView i false with membership := m.nodes, ringId := m.ringId, heuristics := m.heuristics }
  | .list .quorum => s.storedView i false
  | .heuristics => { s.storedView i false with heuristics := m.heuristics }

/-- The session with that view stored. -/
def stored (tv : TriggerView) (x : Session) : Session :=
  { x with
    configList := tv.config, membershipList := tv.membership, lastRingId :=
      tv.ringId, lastHeuristics := tv.heuristics }

/-- The server when the report was accepted and the algorithm has run, if it runs. -/
def ranReport (s : Server) (i : Slot) (r : Report) (m : MsgDecoded) : Server :=
  if runs (s.sessions i) r then ((s.emit (.accept i r)).ffsplitDo (s.reportView i m r)).2.2
    else s.emit (.accept i r)

def reported (s : Server) (i : Slot) (r : Report) (m : MsgDecoded) : Server :=
  (s.ranReport i r m).modify i (stored (s.reportView i m r))

theorem ranReport_sameButVotes (s : Server) (i : Slot) (r : Report) (m : MsgDecoded) :
    SameButVotes s (s.ranReport i r m) := by
  unfold ranReport
  split_ifs
  · exact ffsplitDo_sameButVotes (s.emit (.accept i r)) _
  · exact SameButVotes.refl s

theorem fits_of_nodeListError {m : MsgDecoded} {x : Session} (h : nodeListError m x = none) :
    Fits m x (.list m.nodeListType) := by
  have hfind : ¬(m.nodes.empty = true ∨ (m.nodes.find x.nodeId).isNone = true) →
      (m.nodes.find x.nodeId).isSome = true := by
    intro h
    rw [Option.isSome_iff_ne_none]
    exact fun hn => h (Or.inr (by rw [hn]; rfl))
  cases ht : m.nodeListType with
  | initialConfig =>
    simp only [nodeListError, ht] at h
    split_ifs at h with h0 h1
    exact hfind h1
  | changedConfig =>
    simp only [nodeListError, ht] at h
    split_ifs at h with h0 h1
    exact hfind h1
  | membership =>
    simp only [nodeListError, ht] at h
    split_ifs at h with h0 h1 h2
    exact hfind h2
  | quorum => trivial

def reportVote (s : Server) (i : Slot) (r : Report) (m : MsgDecoded) : Vote :=
  if runs (s.sessions i) r then ((s.emit (.accept i r)).ffsplitDo (s.reportView i m r)).2.1
  else if r = .list .quorum then .noChange
  else .askLater

theorem reportVote_ne_ack (s : Server) (i : Slot) (r : Report) (m : MsgDecoded) :
    s.reportVote i r m ≠ .ack := by
  unfold reportVote
  split_ifs
  · exact ffsplitDo_vote_ne_ack _ _
  · nofun
  · nofun

theorem reportVote_ne_nack (s : Server) (i : Slot) (r : Report) (m : MsgDecoded) :
    s.reportVote i r m ≠ .nack := by
  unfold reportVote
  split_ifs
  · exact ffsplitDo_vote_ne_nack _ _
  · nofun
  · nofun

/-- The session after a report that was answered with the vote `v`. -/
def noteReport (m : MsgDecoded) (v : Vote) (r : Report) (x : Session) : Session :=
  noteVote v (match r with
    | .list _ => storeNodeList m x
    | .heuristics => { x with lastHeuristics := m.heuristics })

theorem noteReport_eq (m : MsgDecoded) (v : Vote) (r : Report) (x : Session) :
    ∃ config versionSet version membership ring heuristics quorum, noteReport m v r x =
      noteVote v { x with
        configList := config, configVersionSet := versionSet, configVersion := version,
          membershipList := membership
        lastRingId := ring, lastHeuristics := heuristics, quorumList := quorum } := by
  unfold noteReport storeNodeList
  cases r with
  | list type => cases m.nodeListType <;> exact ⟨_, _, _, _, _, _, _, rfl⟩
  | heuristics => exact ⟨_, _, _, _, _, _, _, rfl⟩

def reportReply (m : MsgDecoded) (ring : RingId) (v : Vote) : Report → Frame
  | .list type => buildNodeListReply m.seqNumber type ring v
  | .heuristics => buildHeuristicsChangeReply m.seqNumberSet m.seqNumber v

/-- The server when the report is stored and its vote noted, before the answer. -/
def noted (s : Server) (i : Slot) (r : Report) (m : MsgDecoded) : Server :=
  (s.ranReport i r m).modify i (noteReport m (s.reportVote i r m) r)

def answerReport (s : Server) (i : Slot) (r : Report) (m : MsgDecoded) : Server :=
  (s.noted i r m).send i
    (reportReply m ((s.noted i r m).sessions i).lastRingId (s.reportVote i r m) r)

/-- The message makes the report, and it passes the checks. -/
def Reports (m : MsgDecoded) (x : Session) : Report → Prop
  | .list type => m.type = .nodeList ∧ m.nodeListType = type ∧ nodeListError m x = none
  | .heuristics => m.type = .heuristicsChange ∧ m.seqNumberSet = true ∧ m.heuristics ≠ .undefined

/-! ## The handshake -/

/-- `x` with what `handle_init` may store taken from `y`. -/
def withInit (x y : Session) : Session :=
  { x with
    nodeId := y.nodeId, lastRingId := y.lastRingId, heartbeatMs := y.heartbeatMs, tieBreaker :=
      y.tieBreaker
    algorithm := y.algorithm }

theorem phase_withInit (x y : Session) : (withInit x y).phase = x.phase := rfl

theorem withInit_trans {x y z : Session} (h₁ : y = withInit x y) (h₂ : z = withInit y z) :
    z = withInit x z := by
  rw [h₁] at h₂
  exact h₂

/-- `handle_init` stores nothing else. -/
theorem initFields_withInit (m : MsgDecoded) (x : Session) :
    (initFields m x).2 = withInit x (initFields m x).2 := by
  have hnode : ∀ r, (initNodeId m r).2 = withInit r.2 (initNodeId m r).2 := by
    intro r
    unfold initNodeId
    split_ifs <;> rfl
  have hring : ∀ r, (initRingId m r).2 = withInit r.2 (initRingId m r).2 := by
    intro r
    unfold initRingId
    split_ifs <;> rfl
  have hbeat : ∀ r, (initHeartbeat m r).2 = withInit r.2 (initHeartbeat m r).2 := by
    intro r
    unfold initHeartbeat
    split_ifs <;> rfl
  have htie : ∀ r, (initTieBreaker m r).2 = withInit r.2 (initTieBreaker m r).2 := by
    intro r
    unfold initTieBreaker
    split_ifs <;> rfl
  have halg : ∀ r, (initAlgorithm m r).2 = withInit r.2 (initAlgorithm m r).2 := by
    intro r
    unfold initAlgorithm
    split_ifs <;> rfl
  unfold initFields
  exact withInit_trans
    (withInit_trans (withInit_trans (withInit_trans (hnode _) (hring _)) (hbeat _))
    (htie _)) (halg _)

/-- On an active session the code is set from the start, and only the two unguarded fields are
stored. -/
theorem initFields_of_active (m : MsgDecoded) {x : Session} (h : x.phase = .active) :
    initFields m x =
      (.unexpectedMessage, { x with nodeId := m.nodeId, lastRingId := m.ringId }) := by
  simp [initFields, initNodeId, initRingId, initHeartbeat, initTieBreaker, initAlgorithm, h]

theorem not_active_of_initFields {m : MsgDecoded} {x : Session}
    (h : (initFields m x).1 = .noError) : x.phase ≠ .active := by
  intro hact
  rw [initFields_of_active m hact] at h
  cases h

/-- The cluster of a name: the used one, a fresh one, or none when the table is full. -/
theorem findOrCreateCluster_cases (s : Server) (name : Bytes) :
    (∃ c ∈ clusterIndices, (s.clusters c).used = true ∧ (s.clusters c).name = name ∧
      s.findOrCreateCluster name = (c, s)) ∨
    (∃ c ∈ clusterIndices, (s.clusters c).used = false ∧
      (∀ c' ∈ clusterIndices, (s.clusters c').used = true → (s.clusters c').name ≠ name) ∧
      s.findOrCreateCluster name = (c, s.modifyCluster c fun _ => { used := true, name := name })) ∨
    s.findOrCreateCluster name = (-1, s) := by
  unfold findOrCreateCluster
  cases hf :
    clusterIndices.find? (fun c => (s.clusters c).used && decide ((s.clusters c).name = name)) with
  | some c =>
    have hp := List.find?_some hf
    simp only [Bool.and_eq_true, decide_eq_true_eq] at hp
    exact Or.inl ⟨c, List.mem_of_find?_eq_some hf, hp.1, hp.2, rfl⟩
  | none =>
    have hnone : ∀ c' ∈ clusterIndices, (s.clusters c').used = true →
        (s.clusters c').name ≠ name := by
      intro c' hc' hu hn
      have := List.find?_eq_none.mp hf c' hc'
      simp [hu, hn] at this
    cases hg : clusterIndices.find? (fun c => !(s.clusters c).used) with
    | some c =>
      have hp := List.find?_some hg
      simp only [Bool.not_eq_true'] at hp
      exact Or.inr (Or.inl ⟨c, List.mem_of_find?_eq_some hg, hp, hnone, rfl⟩)
    | none => exact Or.inr (Or.inr rfl)

theorem mem_clusterIndices {c : Int} : c ∈ clusterIndices ↔ 0 ≤ c ∧ c < MAX_CLUSTERS := by
  constructor
  · intro h
    obtain ⟨n, hn, rfl⟩ := List.mem_map.mp h
    have := List.mem_range.mp hn
    exact ⟨Int.natCast_nonneg n, Int.ofNat_lt.mpr this⟩
  · rintro ⟨h0, h1⟩
    exact List.mem_map.mpr ⟨c.toNat, List.mem_range.mpr (by omega), Int.toNat_of_nonneg h0⟩

theorem findOrCreateCluster_sessions (s : Server) (name : Bytes) :
    (s.findOrCreateCluster name).2.sessions = s.sessions := by
  rcases findOrCreateCluster_cases s name with ⟨c, -, -, -, h⟩ | ⟨c, -, -, -, h⟩ | h <;> rw [h]
  rfl

theorem findOrCreateCluster_trace (s : Server) (name : Bytes) :
    (s.findOrCreateCluster name).2.trace = s.trace := by
  rcases findOrCreateCluster_cases s name with ⟨c, -, -, -, h⟩ | ⟨c, -, -, -, h⟩ | h <;> rw [h]
  rfl

theorem enterCluster_self (t : Server) (i : Slot) (c : Int) (now : UInt64) :
    (t.enterCluster i c now).sessions i =
      Session.rescheduled now { t.sessions i with cluster := c, phase := .active } := by
  simp only [enterCluster, rescheduleDpd, emit_sessions, modify_self, modifyCluster_sessions]
  split_ifs
  · simp
  · simp

theorem enterCluster_of_ne (t : Server) {i j : Slot} (c : Int) (now : UInt64) (h : j ≠ i) :
    (t.enterCluster i c now).sessions j = t.sessions j := by
  simp only [enterCluster, rescheduleDpd, emit_sessions, modifyCluster_sessions, modify_of_ne _ _ h]
  split_ifs <;> simp [modify_of_ne _ _ h]

theorem enterCluster_clusters_of_ne (t : Server) (i : Slot) {c c' : Int} (now : UInt64)
    (h : c' ≠ c) : (t.enterCluster i c now).clusters c' = t.clusters c' := by
  by_cases hm : (t.clusters c).members = 0
  · simp [enterCluster, rescheduleDpd, hm, modifyCluster_of_ne _ _ h, setState_of_ne _ _ h]
  · simp [enterCluster, rescheduleDpd, hm, modifyCluster_of_ne _ _ h]

theorem enterCluster_of_members (t : Server) (i : Slot) {c : Int} (now : UInt64)
    (h : (t.clusters c).members ≠ 0) :
    (t.enterCluster i c now).clusters c =
      { t.clusters c with members := (t.clusters c).members + 1 } ∧
      (t.enterCluster i c now).trace = .join i c :: t.trace := by
  simp [enterCluster, rescheduleDpd, h]

theorem enterCluster_of_fresh (t : Server) (i : Slot) {c : Int} (now : UInt64)
    (h : (t.clusters c).members = 0) : (t.enterCluster i c now).clusters c =
        { t.clusters c with state := .waitingForChange, quoratePartition := {}, members := 1 } ∧
      (t.enterCluster i c now).trace = .join i c :: .phase c .waitingForChange :: t.trace := by
  simp [enterCluster, rescheduleDpd, h]

/-- The server with what `handle_init` stores, whatever the answer. -/
def initStored (s : Server) (i : Slot) (m : MsgDecoded) : Server :=
  s.modify i fun _ => (initFields m (s.sessions i)).2

theorem initStored_self (s : Server) (i : Slot) (m : MsgDecoded) :
    (s.initStored i m).sessions i = (initFields m (s.sessions i)).2 := modify_self s i _

theorem initStored_of_active {s : Server} {i : Slot} (m : MsgDecoded)
    (h : (s.sessions i).phase = .active) :
    s.initStored i m =
      s.modify i fun x => { x with nodeId := m.nodeId, lastRingId := m.ringId } := by
  rw [initStored, initFields_of_active m h, modify, modify]

theorem initStored_phase (s : Server) (i : Slot) (m : MsgDecoded) :
    ((s.initStored i m).sessions i).phase = (s.sessions i).phase := by
  rw [initStored_self, initFields_withInit, phase_withInit]

/-- The session has joined the cluster of its name. -/
def admitted (s : Server) (i : Slot) (now : UInt64) : Server :=
  (s.findOrCreateCluster (s.sessions i).clusterName).2.enterCluster i
    (s.findOrCreateCluster (s.sessions i).clusterName).1 now

theorem admitted_self (s : Server) (i : Slot) (now : UInt64) : ∃ c,
    (s.admitted i now).sessions i =
      Session.rescheduled now { s.sessions i with cluster := c, phase := .active } := by
  refine ⟨(s.findOrCreateCluster (s.sessions i).clusterName).1, ?_⟩
  rw [admitted, enterCluster_self, findOrCreateCluster_sessions]

theorem admitted_of_ne (s : Server) {i j : Slot} (now : UInt64) (h : j ≠ i) :
    (s.admitted i now).sessions j = s.sessions j := by
  rw [admitted, enterCluster_of_ne _ _ now h, findOrCreateCluster_sessions]

theorem admitted_trace (s : Server) (i : Slot) (now : UInt64) : ∃ new,
    (s.admitted i now).trace = new ++ s.trace ∧ ∀ e ∈ new, e.admits i := by
  have htr := findOrCreateCluster_trace s (s.sessions i).clusterName
  generalize hp : s.findOrCreateCluster (s.sessions i).clusterName = p at htr
  by_cases hm : (p.2.clusters p.1).members = 0
  · exact ⟨[.join i p.1, .phase p.1 .waitingForChange],
      by rw [admitted, hp, (enterCluster_of_fresh p.2 i now hm).2, htr]; rfl,
        by simp [Event.admits]⟩
  · exact ⟨[.join i p.1], by rw [admitted, hp, (enterCluster_of_members p.2 i now hm).2, htr]; rfl,
      by simp [Event.admits]⟩

theorem admitted_decisions (s : Server) (i : Slot) (now : UInt64) :
    (s.admitted i now).decisions = s.decisions := by
  have henter : ∀ (t : Server) (c : Int), (t.enterCluster i c now).decisions = t.decisions := by
    intro t c
    simp only [enterCluster]
    split_ifs <;> rfl
  rw [admitted, henter]
  rcases findOrCreateCluster_cases s (s.sessions i).clusterName with ⟨c, -, -, -, h⟩ | ⟨c, -, -, -,
    h⟩ | h <;> rw [h]
  rfl

def sendInitReply (s : Server) (i : Slot) (m : MsgDecoded) (code : ReplyErrorCode) : Server :=
  s.send i (buildInitReply m.seqNumberSet m.seqNumber code m.supportedMessagesPresent
    m.supportedOptionsPresent s.maxRxFrame s.maxRxFrame)

def optioned (m : MsgDecoded) (now : UInt64) (x : Session) : Session :=
  let x :=
    if m.heartbeatIntervalSet then { x with heartbeatMs := m.heartbeatInterval }.rescheduled now
    else x
  if m.keepActivePartitionTieBreakerSet then
    { x with keepActivePartitionTb := m.keepActivePartitionTieBreaker ≠ 0 }
  else x

theorem optioned_eq (m : MsgDecoded) (now : UInt64) (x : Session) : ∃ hb deadline keep,
    optioned m now x =
      { x with heartbeatMs := hb, deadlineMs := deadline, keepActivePartitionTb := keep } := by
  unfold optioned Session.rescheduled
  split_ifs <;> exact ⟨_, _, _, rfl⟩

def setOptions (s : Server) (i : Slot) (m : MsgDecoded) (now : UInt64) : Server :=
  (s.modify i (optioned m now)).send i
    (buildSetOptionReply m.seqNumberSet m.seqNumber m.heartbeatIntervalSet
      (optioned m now (s.sessions i)).heartbeatMs
      m.keepActivePartitionTieBreakerSet
        (if (optioned m now (s.sessions i)).keepActivePartitionTb then 1 else 0))

/-! ## The handlers -/

section Handlers

variable (i : Slot) (m : MsgDecoded) (f : Frame) (now : UInt64) (s : Server)

def initCode : ReplyErrorCode :=
  let t := s.initStored i m
  if (initFields m (s.sessions i)).1 ≠ .noError then (initFields m (s.sessions i)).1
  else if t.initCheckNewClient i ≠ .noError then t.initCheckNewClient i
  else if (t.findOrCreateCluster (t.sessions i).clusterName).1 < 0 then .internalError
  else .noError

/-- Only a full table gives no cluster, and then nothing is created. -/
theorem findOrCreateCluster_of_neg {name : Bytes} (h : (s.findOrCreateCluster name).1 < 0) :
    (s.findOrCreateCluster name).2 = s := by
  rcases findOrCreateCluster_cases s name with ⟨c, hm, -, -, he⟩ | ⟨c, hm, -, -, he⟩ | he
  · rw [he]
  · rw [he] at h
    exact absurd h (not_lt.mpr (mem_clusterIndices.mp hm).1)
  · rw [he]

theorem handleInit_eq :
    s.handleInit i m now =
      if s.initCode i m = .noError then
        ((s.initStored i m).admitted i now).sendInitReply i m .noError
      else (s.initStored i m).sendInitReply i m (s.initCode i m) := by
  unfold handleInit initCode initStored initAdmission admitted
  generalize initFields m (s.sessions i) = r
  obtain ⟨code, x⟩ := r
  dsimp only
  generalize (s.modify i fun _ => x) = t
  by_cases hfields : code = .noError
  · by_cases hcheck : t.initCheckNewClient i = .noError
    · by_cases hc : (t.findOrCreateCluster (t.sessions i).clusterName).1 < 0
      · simp [hfields, hcheck, hc, findOrCreateCluster_of_neg t hc, sendInitReply]
      · simp [hfields, hcheck, hc, sendInitReply]
    · simp [hfields, hcheck, sendInitReply]
  · simp [hfields, sendInitReply]

theorem handleSetOption_eq :
    s.handleSetOption i m now =
      if m.heartbeatIntervalSet ∧
          (m.heartbeatInterval < HEARTBEAT_MIN_MS ∨ m.heartbeatInterval > HEARTBEAT_MAX_MS) then
        s.sendErr i m .invalidHeartbeatInterval
      else s.setOptions i m now := by
  have hset : (if m.keepActivePartitionTieBreakerSet = true then
        (if m.heartbeatIntervalSet = true then
          (s.modify i fun x => { x with heartbeatMs := m.heartbeatInterval }).rescheduleDpd i now
        else s).modify i fun x =>
          { x with keepActivePartitionTb := m.keepActivePartitionTieBreaker ≠ 0 }
      else if m.heartbeatIntervalSet = true then
        (s.modify i fun x => { x with heartbeatMs := m.heartbeatInterval }).rescheduleDpd i now
      else s) =
      s.modify i (optioned m now) := by
    unfold optioned
    split_ifs <;> simp [rescheduleDpd, modify_modify, modify_id]
  simp only [handleSetOption, hset, modify_self]
  rfl

/-- The algorithm runs on a node list when the report says so, and it never fails. -/
theorem nodeListRun_eq :
    (s.emit (.accept i (.list m.nodeListType))).nodeListRun i m =
      (.noError, s.reportVote i (.list m.nodeListType) m, s.ranReport i (.list m.nodeListType) m) := by
  have hrun : ∀ tv, (s.emit (.accept i (.list m.nodeListType))).ffsplitDo tv =
      (.noError, ((s.emit (.accept i (.list m.nodeListType))).ffsplitDo tv).2.1,
        ((s.emit (.accept i (.list m.nodeListType))).ffsplitDo tv).2.2) := by
    intro tv
    rw [← ffsplitDo_code (s.emit (.accept i (.list m.nodeListType))) tv]
  unfold nodeListRun reportVote ranReport
  cases h : m.nodeListType with
  | initialConfig => rfl
  | quorum => rfl
  | changedConfig =>
    rw [h] at hrun
    by_cases he : (s.sessions i).membershipList.empty = true
    · simp [runs, he]
    · simp only [runs, emit_sessions, he, Bool.not_false, if_true]
      exact hrun _
  | membership =>
    rw [h] at hrun
    by_cases he : (s.sessions i).configList.empty = true
    · simp [runs, he]
    · simp only [runs, emit_sessions, he, Bool.not_false, if_true]
      exact hrun _

theorem handleNodeList_eq :
    s.handleNodeList i m = match nodeListError m (s.sessions i) with
      | some code => s.sendErr i m code
      | none => s.answerReport i (.list m.nodeListType) m := by
  unfold handleNodeList
  cases nodeListError m (s.sessions i) with
  | some code => rfl
  | none =>
    simp only [nodeListRun_eq, ne_eq, not_true_eq_false, if_false, modify_modify]
    rfl

theorem heuristicsRun_eq :
    (if (s.sessions i).configList.empty ∨ (s.sessions i).membershipList.empty then
        (ReplyErrorCode.noError, Vote.askLater, s.emit (.accept i .heuristics))
      else (s.emit (.accept i .heuristics)).ffsplitDo (s.reportView i m .heuristics)) =
      (.noError, s.reportVote i .heuristics m, s.ranReport i .heuristics m) := by
  unfold reportVote ranReport runs
  by_cases he : (s.sessions i).configList.empty = true ∨ (s.sessions i).membershipList.empty = true
  · have hno : ¬(!((s.sessions i).configList.empty || (s.sessions i).membershipList.empty)) =
        true := by
      simpa [or_iff_not_imp_left] using he
    rw [if_pos he, if_neg hno, if_neg hno, if_neg (by decide)]
  · rw [if_neg he, if_pos (by simpa using he), if_pos (by simpa using he),
      ← ffsplitDo_code (s.emit (.accept i .heuristics)) (s.reportView i m .heuristics)]

theorem handleHeuristicsChange_eq :
    s.handleHeuristicsChange i m =
      if m.seqNumberSet = false ∨ m.heuristics = .undefined then s.sendErr i m .doesntContainRequiredOption
      else s.answerReport i .heuristics m := by
  have hview : ({ slot := i, leaving := false, ringId := (s.sessions i).lastRingId
                  config := (s.sessions i).configList, membership := (s.sessions i).membershipList
                  heuristics := m.heuristics } : TriggerView) = s.reportView i m .heuristics := rfl
  simp only [handleHeuristicsChange]
  rw [hview, heuristicsRun_eq]
  simp only [ne_eq, not_true_eq_false, if_false, modify_modify]
  rfl

end Handlers

/-! ## Outcomes -/

/-- What the message `m` of session `i`, with the frame `f` and at the time `now`, can do to the
server. -/
inductive Outcome (i : Slot) (m : MsgDecoded) (f : Frame) (now : UInt64) (s : Server) :
    Server → Prop
  /-- An answer to a vote is refused only if it has no number. -/
  | refused (code : ReplyErrorCode) :
      (m.type = .voteInfoReply → (s.sessions i).phase = .active → m.seqNumberSet = false) →
      Outcome i m f now s (s.sendErr i m code)
  | greeted : m.type = .preinit → (s.sessions i).phase = .waitPreinit →
      Outcome i m f now s
        ((s.modify i fun x => { x with clusterName := m.clusterName, phase := .waitInit }).send i
          (buildPreinitReply m.seqNumberSet m.seqNumber .unsupported 0))
  | turnedAway (code : ReplyErrorCode) : m.type = .init → (s.sessions i).phase ≠ .waitPreinit →
      code ≠ .noError → Outcome i m f now s ((s.initStored i m).sendInitReply i m code)
  | joined : m.type = .init → (s.sessions i).phase ≠ .waitPreinit →
      (initFields m (s.sessions i)).1 = .noError →
      (s.initStored i m).initCheckNewClient i = .noError →
      0 ≤ ((s.initStored i m).findOrCreateCluster ((s.initStored i m).sessions i).clusterName).1 →
      Outcome i m f now s (((s.initStored i m).admitted i now).sendInitReply i m .noError)
  | configured : m.type = .setOption → (s.sessions i).phase = .active →
      (m.heartbeatIntervalSet = true →
        HEARTBEAT_MIN_MS ≤ m.heartbeatInterval ∧ m.heartbeatInterval ≤ HEARTBEAT_MAX_MS) →
      Outcome i m f now s (s.setOptions i m now)
  | echoed : m.type = .echoRequest → (s.sessions i).phase = .active →
      Outcome i m f now s (s.send i (buildEchoReply f))
  | reported (r : Report) : (s.sessions i).phase = .active → Reports m (s.sessions i) r →
      Outcome i m f now s (s.answerReport i r m)
  | replied : m.type = .voteInfoReply → (s.sessions i).phase = .active → m.seqNumberSet = true →
      Outcome i m f now s (s.handleVoteInfoReply i m)

section Handlers

variable (i : Slot) (m : MsgDecoded) (f : Frame) (now : UInt64) (s : Server)

theorem handlePreinit_outcome (htype : m.type = .preinit) :
    Outcome i m f now s (s.handlePreinit i m) := by
  have hrefused : ∀ code, Outcome i m f now s (s.sendErr i m code) := by
    intro code
    exact .refused code fun h => absurd (htype.symm.trans h) (by decide)
  unfold handlePreinit
  split_ifs with hname hphase
  · exact hrefused _
  · exact hrefused _
  · exact .greeted htype (not_not.mp hphase)

theorem handleInit_outcome (htype : m.type = .init) (hphase : (s.sessions i).phase ≠ .waitPreinit) :
    Outcome i m f now s (s.handleInit i m now) := by
  rw [handleInit_eq]
  by_cases hcode : s.initCode i m = .noError
  · rw [if_pos hcode]
    unfold initCode at hcode
    dsimp only at hcode
    split_ifs at hcode with hfields hcheck hc
    · exact absurd hcode hfields
    · exact absurd hcode hcheck
    · exact .joined htype hphase (not_not.mp hfields) (not_not.mp hcheck) (not_lt.mp hc)
  · rw [if_neg hcode]
    exact .turnedAway _ htype hphase hcode

theorem handleSetOption_outcome (htype : m.type = .setOption)
    (hact : (s.sessions i).phase = .active) : Outcome i m f now s (s.handleSetOption i m now) := by
  rw [handleSetOption_eq]
  split_ifs with hbad
  · exact .refused _ fun h => absurd (htype.symm.trans h) (by decide)
  · refine .configured htype hact fun hset => ?_
    have hrange := fun h => hbad ⟨hset, h⟩
    exact ⟨UInt32.not_lt.mp fun h => hrange (Or.inl h), UInt32.not_lt.mp fun h => hrange (Or.inr h)⟩

theorem handleNodeList_outcome (htype : m.type = .nodeList)
    (hact : (s.sessions i).phase = .active) : Outcome i m f now s (s.handleNodeList i m) := by
  rw [handleNodeList_eq]
  split
  · exact .refused _ fun h => absurd (htype.symm.trans h) (by decide)
  · next he => exact .reported (.list m.nodeListType) hact ⟨htype, rfl, he⟩

theorem handleHeuristicsChange_outcome (htype : m.type = .heuristicsChange)
    (hact : (s.sessions i).phase = .active) :
    Outcome i m f now s (s.handleHeuristicsChange i m) := by
  rw [handleHeuristicsChange_eq]
  split_ifs with hbad
  · exact .refused _ fun h => absurd (htype.symm.trans h) (by decide)
  · rw [not_or, Bool.not_eq_false] at hbad
    exact .reported .heuristics hact ⟨htype, hbad.1, hbad.2⟩

theorem handleVoteInfoReply_outcome (htype : m.type = .voteInfoReply)
    (hact : (s.sessions i).phase = .active) : Outcome i m f now s (s.handleVoteInfoReply i m) := by
  cases hseq : m.seqNumberSet with
  | true => exact .replied htype hact hseq
  | false =>
    simp only [handleVoteInfoReply, hseq, if_true]
    exact .refused _ fun _ _ => hseq

/-- A message has one of the outcomes. -/
theorem handleMsg_outcome : Outcome i m f now s (s.handleMsg i m f now) := by
  have hrefused : ∀ code, m.type ≠ .voteInfoReply → Outcome i m f now s (s.sendErr i m code) :=
    fun code hne => .refused code fun h => absurd h hne
  simp only [handleMsg]
  by_cases hpre : m.type ≠ .preinit ∧ (s.sessions i).phase = .waitPreinit
  · rw [if_pos hpre]
    exact .refused _ fun _ hact => absurd (hpre.2.symm.trans hact) (by decide)
  rw [if_neg hpre]
  have hgreeted : m.type ≠ .preinit → (s.sessions i).phase ≠ .waitPreinit :=
    fun h hw => hpre ⟨h, hw⟩
  split
  · next htype => exact handlePreinit_outcome i m f now s htype
  · next htype => exact handleInit_outcome i m f now s htype (hgreeted (by rw [htype]; decide))
  · by_cases hact : (s.sessions i).phase = .active
    · rw [if_neg (not_not.mpr hact)]
      split
      · next htype => exact handleSetOption_outcome i m f now s htype hact
      · next htype => exact .echoed htype hact
      · next htype => exact handleNodeList_outcome i m f now s htype hact
      · next htype => exact handleVoteInfoReply_outcome i m f now s htype hact
      · next htype => exact handleHeuristicsChange_outcome i m f now s htype hact
      · next htype => exact hrefused _ (by rw [htype]; decide)
      · next htype => exact hrefused _ (by rw [htype]; decide)
      · exact hrefused _ (by assumption)
    · rw [if_pos hact]
      exact .refused _ fun _ h => absurd h hact

end Handlers

end Server

end Qnetd
