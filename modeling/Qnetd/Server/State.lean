import Qnetd.Wire.Msg

/-!
# The state of the server

The session and cluster tables of `server.h`, and the history a run leaves behind.

* `Session`, `Cluster`, `Server` : the source's records. The session table is a function on the
  eight slots; the cluster table is a total function on `int` indices, so that an index out of range
  is a thing to be excluded by proof;
* `Event`, `Server.trace` : the calls into the transport, and what the log lines of the source
  report about decisions, votes, joins and replies, newest first. No function of the server reads
  the trace;
* `Server.modify`, `Server.modifyCluster`, `Server.setState`, `Server.emit` : the updates every
  function is made of.
-/

namespace Qnetd

abbrev MAX_CLIENTS : Nat := 8
abbrev MAX_CLUSTERS : Nat := 2
abbrev HEARTBEAT_MIN_MS : UInt32 := 1000
abbrev HEARTBEAT_MAX_MS : UInt32 := 2 * 60 * 1000
abbrev PREACTIVE_TIMEOUT_MS : UInt64 := 30000

abbrev Slot := Fin MAX_CLIENTS

inductive Phase where
  | free | waitPreinit | waitInit | active
  deriving DecidableEq

inductive FfClientState where
  | waitingForChange | sendingNack | sendingAck
  deriving DecidableEq

inductive FfClusterState where
  | waitingForChange | waitingForStableMembership | sendingNacks | sendingAcks
  deriving DecidableEq

structure Cluster where
  used : Bool := false
  name : Bytes := []
  members : Int := 0
  state : FfClusterState := .waitingForChange
  quoratePartition : NodeList := {}
  deriving DecidableEq

structure Session where
  phase : Phase := .free
  peer : String := ""
  clusterName : Bytes := []
  cluster : Int := -1
  nodeId : UInt32 := 0
  lastRingId : RingId := {}
  heartbeatMs : UInt32 := 0
  tieBreaker : TieBreaker := {}
  algorithm : Algorithm := .ffsplit
  keepActivePartitionTb : Bool := true
  configList : NodeList := {}
  configVersionSet : Bool := false
  configVersion : UInt64 := 0
  membershipList : NodeList := {}
  quorumList : NodeList := {}
  lastHeuristics : Heuristics := .undefined
  lastSentVote : Vote := .undefined
  lastAckNack : Vote := .undefined
  ffState : FfClientState := .waitingForChange
  voteInfoSeq : UInt32 := 0
  deadlineMs : UInt64 := 0
  scheduleDisconnect : Bool := false
  rx : Bytes := []
  deriving DecidableEq

/-! ## The history -/

/-- What a client reports about its cluster: a node list of some type, or its heuristics. -/
inductive Report where
  | list (type : NodeListType)
  | heuristics
  deriving DecidableEq

/-- One client in a decision: its effective lists and ring, and the state the decision puts it in.
-/
structure View where
  config : NodeList
  membership : NodeList
  ring : RingId
  state : FfClientState
  deriving DecidableEq

/-- A run of `ffsplit_do` that found the views stable. `voters` are the active sessions of the
cluster other than the leaving one, `winner` is the session the winning partition was taken from,
with its list. -/
structure Decision where
  cluster : Int
  winner : Option (Slot × NodeList)
  voters : Slot → Option View

/-- A VOTE_INFO sent by `ffsplit_send_votes`. -/
structure VoteInfo where
  cluster : Int
  seq : UInt32
  ring : RingId
  vote : Vote

def VoteInfo.frame (v : VoteInfo) : Frame := buildVoteInfo v.seq v.ring v.vote

inductive Event where
  /-- `Transport::send_frame`, of anything but a vote. -/
  | send (slot : Slot) (frame : Frame)
  /-- `Transport::send_frame` of `v.frame`. -/
  | vote (slot : Slot) (v : VoteInfo)
  /-- `Transport::close_connection`. -/
  | close (slot : Slot)
  /-- `on_connect` gave the slot to a new connection. -/
  | connect (slot : Slot)
  /-- A complete frame was taken from the receive buffer. -/
  | frame (slot : Slot) (bytes : Frame)
  /-- A frame decoded to `m`, on a session in that phase with that stored node id. -/
  | recv (slot : Slot) (phase : Phase) (nodeId : UInt32) (m : MsgDecoded)
  /-- `handle_init` admitted the session to the cluster. -/
  | join (slot : Slot) (cluster : Int)
  /-- `leave_cluster` is taking the session out of the cluster. -/
  | leave (slot : Slot) (cluster : Int)
  /-- A report passed its checks. -/
  | accept (slot : Slot) (report : Report)
  /-- `cl.state` was assigned. -/
  | phase (cluster : Int) (state : FfClusterState)
  /-- `ffsplit_do` found the views not stable. -/
  | unstable (cluster : Int)
  /-- `ffsplit_do` took a decision. -/
  | decide (d : Decision)
  /-- A VOTE_INFO_REPLY numbered `seq` on a session with that `vote_info_seq`, `ff_state` and
  cluster state. -/
  | reply (slot : Slot) (seq expected : UInt32) (state : FfClientState) (phase : FfClusterState)

inductive TransportCall where
  | sendFrame (slot : Slot) (frame : Frame)
  | closeConnection (slot : Slot)
  deriving DecidableEq

def Event.call : Event → Option TransportCall
  | .send i f => some (.sendFrame i f)
  | .vote i v => some (.sendFrame i v.frame)
  | .close i => some (.closeConnection i)
  | _ => none

/-- The frame that the event sends to slot `i`, if any. -/
def Event.framesTo (i : Slot) : Event → List Frame
  | .send j f => if j = i then [f] else []
  | .vote j v => if j = i then [v.frame] else []
  | _ => []

/-- The calls into the transport along a history, oldest first. -/
def transportCalls (tr : List Event) : List TransportCall := (tr.filterMap Event.call).reverse

/-! ## The server -/

structure Server where
  maxRxFrame : UInt32
  sessions : Slot → Session
  clusters : Int → Cluster
  pendingClose : List Slot
  processing : Bool
  decisions : UInt32
  trace : List Event

namespace Server

/-- The constructor. -/
def init (maxRxFrame : UInt32) : Server where
  maxRxFrame := maxRxFrame
  sessions := fun _ => {}
  clusters := fun _ => {}
  pendingClose := []
  processing := false
  decisions := 0
  trace := []

def emit (s : Server) (e : Event) : Server := { s with trace := e :: s.trace }

def modify (s : Server) (i : Slot) (f : Session → Session) : Server :=
  { s with sessions := Function.update s.sessions i (f (s.sessions i)) }

def modifyCluster (s : Server) (c : Int) (f : Cluster → Cluster) : Server :=
  { s with clusters := Function.update s.clusters c (f (s.clusters c)) }

/-- `cl.state = st`. -/
def setState (s : Server) (c : Int) (st : FfClusterState) : Server :=
  (s.modifyCluster c fun cl => { cl with state := st }).emit (.phase c st)

def send (s : Server) (slot : Slot) (f : Frame) : Server := s.emit (.send slot f)

def sendErr (s : Server) (slot : Slot) (m : MsgDecoded) (code : ReplyErrorCode) : Server :=
  s.send slot (buildServerError m.seqNumberSet m.seqNumber code)

/-- `sessions_[slot].reset()`. -/
def reset (s : Server) (slot : Slot) : Server := s.modify slot fun _ => {}

/-- The filter of every cluster walk: `s.phase == ACTIVE && s.cluster == cluster`. -/
def inCluster (s : Server) (c : Int) (i : Slot) : Bool :=
  (s.sessions i).phase = .active && (s.sessions i).cluster = c

/-! ### Reading back an update -/

@[simp] theorem emit_sessions (s : Server) (e : Event) : (s.emit e).sessions = s.sessions := rfl
@[simp] theorem emit_clusters (s : Server) (e : Event) : (s.emit e).clusters = s.clusters := rfl
@[simp] theorem emit_trace (s : Server) (e : Event) : (s.emit e).trace = e :: s.trace := rfl
@[simp] theorem emit_pendingClose (s : Server) (e : Event) :
    (s.emit e).pendingClose = s.pendingClose :=
  rfl
@[simp] theorem emit_processing (s : Server) (e : Event) : (s.emit e).processing = s.processing :=
  rfl
@[simp] theorem emit_maxRxFrame (s : Server) (e : Event) : (s.emit e).maxRxFrame = s.maxRxFrame :=
  rfl

@[simp] theorem modify_self (s : Server) (i : Slot) (f : Session → Session) :
    (s.modify i f).sessions i = f (s.sessions i) := by simp [modify]

theorem modify_of_ne (s : Server) {i j : Slot} (f : Session → Session) (h : j ≠ i) :
    (s.modify i f).sessions j = s.sessions j := by simp [modify, h]

theorem modify_modify (s : Server) (i : Slot) (f g : Session → Session) :
    (s.modify i f).modify i g = s.modify i fun x => g (f x) := by simp [modify]

theorem modify_id (s : Server) (i : Slot) : (s.modify i fun x => x) = s := by simp [modify]

theorem modify_apply (s : Server) (i j : Slot) (f : Session → Session) :
    (s.modify i f).sessions j = if j = i then f (s.sessions j) else s.sessions j := by
  by_cases h : j = i
  · subst h; simp
  · simp [modify_of_ne, h]

@[simp] theorem modify_clusters (s : Server) (i : Slot) (f : Session → Session) :
    (s.modify i f).clusters = s.clusters := rfl
@[simp] theorem modify_trace (s : Server) (i : Slot) (f : Session → Session) :
    (s.modify i f).trace = s.trace :=
  rfl
@[simp] theorem modify_pendingClose (s : Server) (i : Slot) (f : Session → Session) :
    (s.modify i f).pendingClose = s.pendingClose := rfl
@[simp] theorem modify_processing (s : Server) (i : Slot) (f : Session → Session) :
    (s.modify i f).processing = s.processing := rfl
@[simp] theorem modify_maxRxFrame (s : Server) (i : Slot) (f : Session → Session) :
    (s.modify i f).maxRxFrame = s.maxRxFrame := rfl

@[simp] theorem modifyCluster_self (s : Server) (c : Int) (f : Cluster → Cluster) :
    (s.modifyCluster c f).clusters c = f (s.clusters c) := by simp [modifyCluster]

theorem modifyCluster_of_ne (s : Server) {c c' : Int} (f : Cluster → Cluster) (h : c' ≠ c) :
    (s.modifyCluster c f).clusters c' = s.clusters c' := by simp [modifyCluster, h]

@[simp] theorem modifyCluster_sessions (s : Server) (c : Int) (f : Cluster → Cluster) :
    (s.modifyCluster c f).sessions = s.sessions := rfl
@[simp] theorem modifyCluster_trace (s : Server) (c : Int) (f : Cluster → Cluster) :
    (s.modifyCluster c f).trace = s.trace := rfl

@[simp] theorem setState_sessions (s : Server) (c : Int) (st : FfClusterState) :
    (s.setState c st).sessions = s.sessions := rfl
@[simp] theorem setState_trace (s : Server) (c : Int) (st : FfClusterState) :
    (s.setState c st).trace = .phase c st :: s.trace := rfl

@[simp] theorem setState_self (s : Server) (c : Int) (st : FfClusterState) :
    (s.setState c st).clusters c = { s.clusters c with state := st } := by simp [setState]

theorem setState_of_ne (s : Server) {c c' : Int} (st : FfClusterState) (h : c' ≠ c) :
    (s.setState c st).clusters c' = s.clusters c' := by simp [setState, modifyCluster_of_ne _ _ h]

theorem inCluster_iff {s : Server} {c : Int} {i : Slot} :
    s.inCluster c i = true ↔ (s.sessions i).phase = .active ∧ (s.sessions i).cluster = c := by
  simp [inCluster]

end Server

end Qnetd
