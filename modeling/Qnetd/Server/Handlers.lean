import Qnetd.Server.Ffsplit

/-!
# The message handlers

`handle_frame` and what it calls, in the source's order.

* `rescheduleDpd`, `disconnectClient`, `drainCloses`, `leaveCluster`, `findOrCreateCluster` : the
  plumbing;
* `handlePreinit`, `handleInit`, `handleSetOption` : the handshake;
* `handleNodeList`, `handleVoteInfoReply`, `handleHeuristicsChange` : the reports and the votes;
* `handleFrame` : the dispatch, by message type and phase.
-/

namespace Qnetd

/-- The deadline `reschedule_dpd` gives a session. `1.5 * heartbeat_ms` is exact in a `double`, so
its truncation is the integer quotient. -/
def Session.rescheduled (now : UInt64) (x : Session) : Session :=
  if x.phase = .active ∧ x.heartbeatMs > 0 then
    { x with deadlineMs := now + 3 * x.heartbeatMs.toUInt64 / 2 }
  else if x.phase ≠ .free ∧ x.phase ≠ .active then
    { x with deadlineMs := now + PREACTIVE_TIMEOUT_MS }
  else x

namespace Server

def rescheduleDpd (s : Server) (slot : Slot) (now : UInt64) : Server :=
  s.modify slot (Session.rescheduled now)

/-! ## Clusters -/

/-- The indices of the cluster table, in the order of the loops over it. -/
def clusterIndices : List Int := (List.range MAX_CLUSTERS).map Int.ofNat

def findOrCreateCluster (s : Server) (name : Bytes) : Int × Server :=
  match clusterIndices.find? (fun c => (s.clusters c).used && (s.clusters c).name = name) with
  | some c => (c, s)
  | none =>
    match clusterIndices.find? (fun c => !(s.clusters c).used) with
    | some c => (c, s.modifyCluster c fun _ => { used := true, name := name })
    | none => (-1, s)

/-- The stored view of a session, as `leave_cluster` and `handle_vote_info_reply` pass it. -/
def storedView (s : Server) (slot : Slot) (leaving : Bool) : TriggerView where
  slot := slot
  leaving := leaving
  ringId := (s.sessions slot).lastRingId
  config := (s.sessions slot).configList
  membership := (s.sessions slot).membershipList
  heuristics := (s.sessions slot).lastHeuristics

def leaveCluster (s : Server) (slot : Slot) : Server :=
  let x := s.sessions slot
  if x.phase ≠ .active ∨ x.cluster < 0 then s
  else
    let s := s.emit (.leave slot x.cluster)
    let (_, _, s) := s.ffsplitDo (s.storedView slot true)
    let s := s.modifyCluster x.cluster fun cl => { cl with members := cl.members - 1 }
    let s := if (s.clusters x.cluster).members ≤ 0 then s.modifyCluster x.cluster fun _ => {} else s
    s.modify slot fun x => { x with cluster := -1 }

/-! ## Closing -/

/-- The loop of `drain_closes`; the queue is served from the back and never grows in it. -/
def drainLoop : Nat → Server → Server
  | 0, s => s
  | fuel + 1, s =>
    match s.pendingClose.getLast? with
    | none => s
    | some slot =>
      let s := { s with pendingClose := s.pendingClose.dropLast }
      if (s.sessions slot).phase = .free then drainLoop fuel s
      else drainLoop fuel (((s.leaveCluster slot).reset slot).emit (.close slot))

def drainCloses (s : Server) : Server :=
  let s := drainLoop s.pendingClose.length { s with processing := true }
  { s with processing := false }

def disconnectClient (s : Server) (slot : Slot) : Server :=
  let x := s.sessions slot
  if x.phase = .free ∨ x.scheduleDisconnect then s
  else
    let s := s.modify slot fun x => { x with scheduleDisconnect := true }
    let s := { s with pendingClose := s.pendingClose ++ [slot] }
    if s.processing then s else s.drainCloses

/-! ## Handshake -/

def handlePreinit (s : Server) (slot : Slot) (m : MsgDecoded) : Server :=
  if m.clusterName = [] then s.sendErr slot m .doesntContainRequiredOption
  else if (s.sessions slot).phase ≠ .waitPreinit then s.sendErr slot m .unexpectedMessage
  else
    let s := s.modify slot fun x => { x with clusterName := m.clusterName, phase := .waitInit }
    s.send slot (buildPreinitReply m.seqNumberSet m.seqNumber .unsupported 0)

/-! The field checks of `handle_init` on one session, one function for each field: the code so far
and the session with the fields stored so far. A code set by an earlier check does not stop the node
id and the ring id from being stored. -/

def initNodeId (m : MsgDecoded) (r : ReplyErrorCode × Session) : ReplyErrorCode × Session :=
  if r.1 = .noError ∧ m.nodeIdSet = false then (.doesntContainRequiredOption, r.2)
  else (r.1, { r.2 with nodeId := m.nodeId })

def initRingId (m : MsgDecoded) (r : ReplyErrorCode × Session) : ReplyErrorCode × Session :=
  if r.1 = .noError ∧ m.ringIdSet = false then (.doesntContainRequiredOption, r.2)
  else (r.1, { r.2 with lastRingId := m.ringId })

def initHeartbeat (m : MsgDecoded) (r : ReplyErrorCode × Session) : ReplyErrorCode × Session :=
  if r.1 = .noError then
    if m.heartbeatIntervalSet = false then (.doesntContainRequiredOption, r.2)
    else if m.heartbeatInterval < HEARTBEAT_MIN_MS ∨ m.heartbeatInterval > HEARTBEAT_MAX_MS then
      (.invalidHeartbeatInterval, r.2)
    else (r.1, { r.2 with heartbeatMs := m.heartbeatInterval })
  else r

def initTieBreaker (m : MsgDecoded) (r : ReplyErrorCode × Session) : ReplyErrorCode × Session :=
  if r.1 = .noError then
    if m.tieBreakerSet = false then (.doesntContainRequiredOption, r.2)
    else (r.1, { r.2 with tieBreaker := m.tieBreaker })
  else r

def initAlgorithm (m : MsgDecoded) (r : ReplyErrorCode × Session) : ReplyErrorCode × Session :=
  if r.1 = .noError then
    if m.decisionAlgorithmSet = false then (.doesntContainRequiredOption, r.2)
    else if m.decisionAlgorithm ≠ .ffsplit then (.unsupportedDecisionAlgorithm, r.2)
    else (r.1, { r.2 with algorithm := m.decisionAlgorithm })
  else r

def initFields (m : MsgDecoded) (x : Session) : ReplyErrorCode × Session :=
  let code : ReplyErrorCode := if x.phase = .active then .unexpectedMessage else .noError
  initAlgorithm m (initTieBreaker m (initHeartbeat m (initRingId m (initNodeId m (code, x)))))

/-- The complaint about one other session, if any. -/
def initConflict (s : Server) (slot i : Slot) : Option ReplyErrorCode :=
  let x := s.sessions slot
  let o := s.sessions i
  if i = slot ∨ o.phase ≠ .active ∨ o.clusterName ≠ x.clusterName then none
  else if !x.tieBreaker.same o.tieBreaker then some .tieBreakerDiffersFromOtherNodes
  else if x.algorithm ≠ o.algorithm then some .algorithmDiffersFromOtherNodes
  else if x.nodeId = o.nodeId then some .duplicateNodeId
  else none

/-- Consistency with the existing members of the same cluster. -/
def initCheckNewClient (s : Server) (slot : Slot) : ReplyErrorCode :=
  ((List.finRange MAX_CLIENTS).findSome? (s.initConflict slot)).getD .noError

/-- The session enters cluster `c`. -/
def enterCluster (s : Server) (slot : Slot) (c : Int) (now : UInt64) : Server :=
  let s := s.modify slot fun x => { x with cluster := c }
  let s := if (s.clusters c).members = 0 then
      (s.setState c .waitingForChange).modifyCluster c fun cl => { cl with quoratePartition := {} }
    else s
  let s := s.modifyCluster c fun cl => { cl with members := cl.members + 1 }
  let s := s.modify slot fun x => { x with phase := .active }
  (s.rescheduleDpd slot now).emit (.join slot c)

/-- The last part of `handle_init`, before the reply. -/
def initAdmission (s : Server) (slot : Slot) (now : UInt64) : ReplyErrorCode × Server :=
  let (c, s) := s.findOrCreateCluster (s.sessions slot).clusterName
  if c < 0 then (.internalError, s) else (.noError, s.enterCluster slot c now)

def handleInit (s : Server) (slot : Slot) (m : MsgDecoded) (now : UInt64) : Server :=
  let (code, x) := initFields m (s.sessions slot)
  let s := s.modify slot fun _ => x
  let code := if code = .noError then s.initCheckNewClient slot else code
  let (code, s) := if code = .noError then s.initAdmission slot now else (code, s)
  s.send slot (buildInitReply m.seqNumberSet m.seqNumber code m.supportedMessagesPresent
    m.supportedOptionsPresent s.maxRxFrame s.maxRxFrame)

def handleSetOption (s : Server) (slot : Slot) (m : MsgDecoded) (now : UInt64) : Server :=
  if m.heartbeatIntervalSet ∧
      (m.heartbeatInterval < HEARTBEAT_MIN_MS ∨ m.heartbeatInterval > HEARTBEAT_MAX_MS) then
    s.sendErr slot m .invalidHeartbeatInterval
  else
    let s := if m.heartbeatIntervalSet then
        (s.modify slot fun x =>
          { x with heartbeatMs := m.heartbeatInterval }).rescheduleDpd slot now
      else s
    let s := if m.keepActivePartitionTieBreakerSet then
        s.modify slot fun x =>
          { x with keepActivePartitionTb := m.keepActivePartitionTieBreaker ≠ 0 }
      else s
    s.send slot (buildSetOptionReply m.seqNumberSet m.seqNumber m.heartbeatIntervalSet
      (s.sessions slot).heartbeatMs m.keepActivePartitionTieBreakerSet
      (if (s.sessions slot).keepActivePartitionTb then 1 else 0))

/-! ## Reports -/

/-- The checks of a node list before the algorithm: the error, if any. -/
def nodeListError (m : MsgDecoded) (x : Session) : Option ReplyErrorCode :=
  if m.nodeListTypeSet = false ∨ m.seqNumberSet = false then some .doesntContainRequiredOption
  else match m.nodeListType with
    | .initialConfig | .changedConfig =>
      if m.nodes.empty ∨ (m.nodes.find x.nodeId).isNone then some .invalidConfigNodeList else none
    | .membership =>
      if m.ringIdSet = false then some .doesntContainRequiredOption
      else if m.nodes.empty ∨ (m.nodes.find x.nodeId).isNone then some .invalidMembershipNodeList
      else none
    | .quorum => if m.quorateSet = false then some .doesntContainRequiredOption else none

/-- The algorithm on a node list: the code, the vote and the server after it. -/
def nodeListRun (s : Server) (slot : Slot) (m : MsgDecoded) : ReplyErrorCode × Vote × Server :=
  let x := s.sessions slot
  match m.nodeListType with
  | .initialConfig => (.noError, .askLater, s)
  | .changedConfig =>
    if x.membershipList.empty then (.noError, .askLater, s)
    else s.ffsplitDo
      { slot := slot, leaving := false, ringId := x.lastRingId, config := m.nodes
        membership := x.membershipList, heuristics := x.lastHeuristics }
  | .membership =>
    if x.configList.empty then (.noError, .askLater, s)
    else s.ffsplitDo
      { slot := slot, leaving := false, ringId := m.ringId, config := x.configList
        membership := m.nodes, heuristics := m.heuristics }
  | .quorum => (.noError, .noChange, s)

/-- The lists are stored after the algorithm ran. -/
def storeNodeList (m : MsgDecoded) (x : Session) : Session :=
  match m.nodeListType with
  | .initialConfig | .changedConfig =>
    { x with
      configList := m.nodes, configVersionSet := m.configVersionSet, configVersion := m.configVersion }
  | .membership =>
    { x with membershipList := m.nodes, lastRingId := m.ringId, lastHeuristics := m.heuristics }
  | .quorum => { x with quorumList := m.nodes }

/-- `last_sent_vote` and `last_ack_nack` after a reply that carries `result`. -/
def noteVote (result : Vote) (x : Session) : Session :=
  { x with
    lastSentVote := result
    lastAckNack := if result = .ack ∨ result = .nack then result else x.lastAckNack }

def handleNodeList (s : Server) (slot : Slot) (m : MsgDecoded) : Server :=
  match nodeListError m (s.sessions slot) with
  | some code => s.sendErr slot m code
  | none =>
    let s := s.emit (.accept slot (.list m.nodeListType))
    let (code, result, s) := s.nodeListRun slot m
    if code ≠ .noError then s.sendErr slot m code
    else
      let s := (s.modify slot (storeNodeList m)).modify slot (noteVote result)
      s.send slot
        (buildNodeListReply m.seqNumber m.nodeListType (s.sessions slot).lastRingId result)

def handleVoteInfoReply (s : Server) (slot : Slot) (m : MsgDecoded) : Server :=
  let x := s.sessions slot
  if m.seqNumberSet = false then s.sendErr slot m .doesntContainRequiredOption
  else
    let s := s.emit (.reply slot m.seqNumber x.voteInfoSeq x.ffState (s.clusters x.cluster).state)
    if m.seqNumber ≠ x.voteInfoSeq then s
    else
      let s := s.modify slot fun x => { x with ffState := .waitingForChange }
      match (s.clusters x.cluster).state with
      | .sendingNacks =>
        if s.ffsplitCountState x.cluster .sendingNack = 0 then
          let s := s.setState x.cluster .sendingAcks
          let (acks, s) := s.ffsplitSendVotes (s.storedView slot false) true
          if acks = 0 then s.setState x.cluster .waitingForChange else s
        else s
      | .sendingAcks =>
        if s.ffsplitCountState x.cluster .sendingAck = 0 then
          s.setState x.cluster .waitingForChange
        else s
      | _ => s

def handleHeuristicsChange (s : Server) (slot : Slot) (m : MsgDecoded) : Server :=
  let x := s.sessions slot
  if m.seqNumberSet = false ∨ m.heuristics = .undefined then
    s.sendErr slot m .doesntContainRequiredOption
  else
    let s := s.emit (.accept slot .heuristics)
    let (code, result, s) :=
      if x.configList.empty ∨ x.membershipList.empty then (.noError, .askLater, s)
      else s.ffsplitDo
        { slot := slot, leaving := false, ringId := x.lastRingId, config := x.configList
          membership := x.membershipList, heuristics := m.heuristics }
    if code ≠ .noError then s.sendErr slot m code
    else
      let s := (s.modify slot fun x =>
        { x with lastHeuristics := m.heuristics }).modify slot (noteVote result)
      s.send slot (buildHeuristicsChangeReply m.seqNumberSet m.seqNumber result)

/-! ## Dispatch -/

/-- The dispatch of a decoded message. -/
def handleMsg (s : Server) (slot : Slot) (m : MsgDecoded) (frame : Frame) (now : UInt64) : Server :=
  let phase := (s.sessions slot).phase
  if m.type ≠ .preinit ∧ phase = .waitPreinit then s.sendErr slot m .preinitRequired
  else match m.type with
    | .preinit => s.handlePreinit slot m
    | .init => s.handleInit slot m now
    | type =>
      if phase ≠ .active then s.sendErr slot m .initRequired
      else match type with
        | .setOption => s.handleSetOption slot m now
        | .echoRequest => s.send slot (buildEchoReply frame)
        | .nodeList => s.handleNodeList slot m
        | .voteInfoReply => s.handleVoteInfoReply slot m
        | .heuristicsChange => s.handleHeuristicsChange slot m
        | .askForVote => s.sendErr slot m .unsupportedDecisionAlgorithmMessage
        | .starttls => s.sendErr slot m .unsupportedMessage
        | _ => s.sendErr slot m .unexpectedMessage

/-- `handle_frame` on a complete frame. -/
def handleFrame (s : Server) (slot : Slot) (type : MsgType) (frame : Frame) (now : UInt64) :
    Server :=
  match msgDecode type (frame.drop MSG_HEADER_LEN) with
  | none => (s.sendErr slot {} .errorDecodingMsg).disconnectClient slot
  | some m =>
    (s.emit (.recv slot (s.sessions slot).phase (s.sessions slot).nodeId m)).handleMsg
      slot m frame now

end Server

end Qnetd
