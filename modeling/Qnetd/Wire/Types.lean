import Mathlib.Data.Fintype.Card
import Mathlib.Logic.Function.Basic
import Mathlib.Tactic.Common

/-!
# Wire types

The protocol enumerations and records of `tlv.h`, with the codes they have on the wire.

* `MsgType`, `Algorithm`, `NodeState` : the enumerations a client can send any code of, so that each
  has an `other` constructor for the codes outside the known range;
* `TlsSupported`, `NodeListType`, `Vote`, `Heuristics`, `TieBreakerMode` : the enumerations whose
  codes are range-checked by the decoder;
* `RingId`, `TieBreaker`, `NodeInfo`, `NodeList` : the records.
-/

namespace Qnetd

abbrev Bytes := List UInt8

/-! ## Open enumerations -/

inductive MsgType where
  | preinit | preinitReply | starttls | init | initReply | serverError | setOption
  | setOptionReply | echoRequest | echoReply | nodeList | nodeListReply | askForVote
  | askForVoteReply | voteInfo | voteInfoReply | heuristicsChange | heuristicsChangeReply
  | other (code : {v : UInt16 // 18 ≤ v})
  deriving DecidableEq

/-- `MsgType(code)`: the cast from the header field. -/
def MsgType.ofCode (v : UInt16) : MsgType :=
  if h : 18 ≤ v then .other ⟨v, h⟩
  else match v.toNat with
    | 0 => .preinit | 1 => .preinitReply | 2 => .starttls | 3 => .init | 4 => .initReply
    | 5 => .serverError | 6 => .setOption | 7 => .setOptionReply | 8 => .echoRequest
    | 9 => .echoReply | 10 => .nodeList | 11 => .nodeListReply | 12 => .askForVote
    | 13 => .askForVoteReply | 14 => .voteInfo | 15 => .voteInfoReply | 16 => .heuristicsChange
    | _ => .heuristicsChangeReply

def MsgType.code : MsgType → UInt16
  | .preinit => 0 | .preinitReply => 1 | .starttls => 2 | .init => 3 | .initReply => 4
  | .serverError => 5 | .setOption => 6 | .setOptionReply => 7 | .echoRequest => 8
  | .echoReply => 9 | .nodeList => 10 | .nodeListReply => 11 | .askForVote => 12
  | .askForVoteReply => 13 | .voteInfo => 14 | .voteInfoReply => 15 | .heuristicsChange => 16
  | .heuristicsChangeReply => 17 | .other v => v.1

inductive Algorithm where
  | test | ffsplit | twonodelms | lms
  | other (code : {v : UInt16 // 4 ≤ v})
  deriving DecidableEq

def Algorithm.ofCode (v : UInt16) : Algorithm :=
  if h : 4 ≤ v then .other ⟨v, h⟩
  else match v.toNat with
    | 0 => .test | 1 => .ffsplit | 2 => .twonodelms | _ => .lms

def Algorithm.code : Algorithm → UInt16
  | .test => 0 | .ffsplit => 1 | .twonodelms => 2 | .lms => 3 | .other v => v.1

inductive NodeState where
  | notSet | member | dead | leaving
  | other (code : {v : UInt8 // 4 ≤ v})
  deriving DecidableEq

def NodeState.ofCode (v : UInt8) : NodeState :=
  if h : 4 ≤ v then .other ⟨v, h⟩
  else match v.toNat with
    | 0 => .notSet | 1 => .member | 2 => .dead | _ => .leaving

def NodeState.code : NodeState → UInt8
  | .notSet => 0 | .member => 1 | .dead => 2 | .leaving => 3 | .other v => v.1

/-! ## Closed enumerations -/

/-- The option types the decoder or the writer names. Any other code is ignored by the decoder. -/
inductive TlvOpt where
  | msgSeqNumber | clusterName | tlsSupported | tlsClientCertRequired | supportedMessages
  | supportedOptions | replyErrorCode | serverMaximumRequestSize | serverMaximumReplySize | nodeId
  | supportedDecisionAlgorithms | decisionAlgorithm | heartbeatInterval | ringId | configVersion
  | dataCenterId | nodeState | nodeInfo | nodeListType | vote | quorate | tieBreaker | heuristics
  | keepActivePartitionTieBreaker
  deriving DecidableEq

def TlvOpt.code : TlvOpt → UInt16
  | .msgSeqNumber => 0 | .clusterName => 1 | .tlsSupported => 2 | .tlsClientCertRequired => 3
  | .supportedMessages => 4 | .supportedOptions => 5 | .replyErrorCode => 6
  | .serverMaximumRequestSize => 7 | .serverMaximumReplySize => 8 | .nodeId => 9
  | .supportedDecisionAlgorithms => 10 | .decisionAlgorithm => 11 | .heartbeatInterval => 12
  | .ringId => 13 | .configVersion => 14 | .dataCenterId => 15 | .nodeState => 16
  | .nodeInfo => 17 | .nodeListType => 18 | .vote => 19 | .quorate => 20 | .tieBreaker => 21
  | .heuristics => 22 | .keepActivePartitionTieBreaker => 23

/-- `TlvOpt(code)`, `none` for the codes the `switch` sends to its `default`. -/
def TlvOpt.ofCode (v : UInt16) : Option TlvOpt :=
  match v.toNat with
  | 0 => some .msgSeqNumber | 1 => some .clusterName | 2 => some .tlsSupported
  | 3 => some .tlsClientCertRequired | 4 => some .supportedMessages | 5 => some .supportedOptions
  | 6 => some .replyErrorCode | 7 => some .serverMaximumRequestSize
  | 8 => some .serverMaximumReplySize | 9 => some .nodeId
  | 10 => some .supportedDecisionAlgorithms | 11 => some .decisionAlgorithm
  | 12 => some .heartbeatInterval | 13 => some .ringId | 14 => some .configVersion
  | 15 => some .dataCenterId | 16 => some .nodeState | 17 => some .nodeInfo
  | 18 => some .nodeListType | 19 => some .vote | 20 => some .quorate | 21 => some .tieBreaker
  | 22 => some .heuristics | 23 => some .keepActivePartitionTieBreaker | _ => none

@[simp] theorem TlvOpt.ofCode_code (o : TlvOpt) : TlvOpt.ofCode o.code = some o := by
  cases o <;> rfl

inductive TlsSupported where
  | unsupported | supported | required
  deriving DecidableEq

def TlsSupported.code : TlsSupported → UInt8
  | .unsupported => 0 | .supported => 1 | .required => 2

/-- The cast after the decoder's range check. -/
def TlsSupported.ofCode (v : UInt8) : TlsSupported :=
  match v.toNat with
  | 0 => .unsupported | 1 => .supported | _ => .required

inductive ReplyErrorCode where
  | noError | unsupportedNeededMessage | unsupportedNeededOption | tlsRequired
  | unsupportedMessage | messageTooLong | preinitRequired | doesntContainRequiredOption
  | unexpectedMessage | errorDecodingMsg | internalError | initRequired
  | unsupportedDecisionAlgorithm | invalidHeartbeatInterval | unsupportedDecisionAlgorithmMessage
  | tieBreakerDiffersFromOtherNodes | algorithmDiffersFromOtherNodes | duplicateNodeId
  | invalidConfigNodeList | invalidMembershipNodeList
  deriving DecidableEq

def ReplyErrorCode.code : ReplyErrorCode → UInt16
  | .noError => 0 | .unsupportedNeededMessage => 1 | .unsupportedNeededOption => 2
  | .tlsRequired => 3 | .unsupportedMessage => 4 | .messageTooLong => 5 | .preinitRequired => 6
  | .doesntContainRequiredOption => 7 | .unexpectedMessage => 8 | .errorDecodingMsg => 9
  | .internalError => 10 | .initRequired => 11 | .unsupportedDecisionAlgorithm => 12
  | .invalidHeartbeatInterval => 13 | .unsupportedDecisionAlgorithmMessage => 14
  | .tieBreakerDiffersFromOtherNodes => 15 | .algorithmDiffersFromOtherNodes => 16
  | .duplicateNodeId => 17 | .invalidConfigNodeList => 18 | .invalidMembershipNodeList => 19

inductive NodeListType where
  | initialConfig | changedConfig | membership | quorum
  deriving DecidableEq

def NodeListType.code : NodeListType → UInt8
  | .initialConfig => 0 | .changedConfig => 1 | .membership => 2 | .quorum => 3

/-- The cast after the decoder's range check. -/
def NodeListType.ofCode (v : UInt8) : NodeListType :=
  match v.toNat with
  | 0 => .initialConfig | 1 => .changedConfig | 2 => .membership | _ => .quorum

inductive Vote where
  | undefined | ack | nack | askLater | waitForReply | noChange
  deriving DecidableEq

def Vote.code : Vote → UInt8
  | .undefined => 0 | .ack => 1 | .nack => 2 | .askLater => 3 | .waitForReply => 4
  | .noChange => 5

/-- The cast after the decoder's range check. -/
def Vote.ofCode (v : UInt8) : Vote :=
  match v.toNat with
  | 0 => .undefined | 1 => .ack | 2 => .nack | 3 => .askLater | 4 => .waitForReply
  | _ => .noChange

inductive Heuristics where
  | undefined | pass | fail
  deriving DecidableEq

def Heuristics.code : Heuristics → UInt8
  | .undefined => 0 | .pass => 1 | .fail => 2

/-- The cast after the decoder's range check. -/
def Heuristics.ofCode (v : UInt8) : Heuristics :=
  match v.toNat with
  | 0 => .undefined | 1 => .pass | _ => .fail

inductive TieBreakerMode where
  | lowest | highest | nodeId
  deriving DecidableEq

def TieBreakerMode.code : TieBreakerMode → UInt8
  | .lowest => 1 | .highest => 2 | .nodeId => 3

/-- The cast after the decoder's range check. -/
def TieBreakerMode.ofCode (v : UInt8) : TieBreakerMode :=
  match v.toNat with
  | 1 => .lowest | 2 => .highest | _ => .nodeId

/-! ## Records -/

structure RingId where
  nodeId : UInt32 := 0
  seq : UInt64 := 0
  deriving DecidableEq

structure TieBreaker where
  mode : TieBreakerMode := .lowest
  nodeId : UInt32 := 0
  deriving DecidableEq

/-- `TieBreaker::operator==`: the node id is compared in mode `NODE_ID` only. -/
def TieBreaker.same (a b : TieBreaker) : Bool :=
  if a.mode ≠ b.mode then false
  else a.mode ≠ .nodeId || a.nodeId = b.nodeId

theorem TieBreaker.same_iff (a b : TieBreaker) :
    a.same b = true ↔ a.mode = b.mode ∧ (a.mode = .nodeId → a.nodeId = b.nodeId) := by
  unfold TieBreaker.same
  by_cases h : a.mode = b.mode
  · simp only [h, ne_eq, not_true_eq_false, if_false, Bool.or_eq_true, decide_eq_true_eq, true_and]
    tauto
  · simp [h]

theorem TieBreaker.same_comm (a b : TieBreaker) : a.same b = b.same a := by
  rw [Bool.eq_iff_iff, TieBreaker.same_iff, TieBreaker.same_iff]
  constructor
  · rintro ⟨hm, hn⟩
    exact ⟨hm.symm, fun h => (hn (hm.trans h)).symm⟩
  · rintro ⟨hm, hn⟩
    exact ⟨hm.symm, fun h => (hn (hm.trans h)).symm⟩

structure NodeInfo where
  nodeId : UInt32 := 0
  dataCenterId : UInt32 := 0
  state : NodeState := .notSet
  deriving DecidableEq

structure NodeList where
  nodes : List NodeInfo := []
  deriving DecidableEq

namespace NodeList

def empty (l : NodeList) : Bool := l.nodes.isEmpty

def size (l : NodeList) : Nat := l.nodes.length

/-- The first entry with that id. -/
def find (l : NodeList) (nodeId : UInt32) : Option NodeInfo :=
  l.nodes.find? (fun n => n.nodeId = nodeId)

/-- The set of node ids of a list. -/
def ids (l : NodeList) : Finset UInt32 := (l.nodes.map NodeInfo.nodeId).toFinset

theorem mem_ids {l : NodeList} {id : UInt32} : id ∈ l.ids ↔ ∃ n ∈ l.nodes, n.nodeId = id := by
  simp [ids]

theorem find_isSome {l : NodeList} {id : UInt32} : (l.find id).isSome = true ↔ id ∈ l.ids := by
  rw [mem_ids, find, List.find?_isSome]
  simp

theorem find_eq_none {l : NodeList} {id : UInt32} : l.find id = none ↔ id ∉ l.ids := by
  rw [← find_isSome, ← Option.not_isSome_iff_eq_none]

theorem empty_iff {l : NodeList} : l.empty = true ↔ l.nodes = [] := by
  simp [empty]

theorem empty_iff_ids {l : NodeList} : l.empty = true ↔ l.ids = ∅ := by
  rw [empty_iff, ids, List.toFinset_eq_empty_iff, List.map_eq_nil_iff]

theorem empty_eq_false {l : NodeList} : l.empty = false ↔ l.ids.Nonempty := by
  rw [← Bool.not_eq_true, empty_iff_ids, Finset.nonempty_iff_ne_empty]

end NodeList

end Qnetd
