import Qnetd.Wire.Tlv

/-!
# Messages

`msg_decode` and the frame builders of `msg.cpp`.

* `MsgDecoded` : the decoded payload, every field at its default until its option is seen;
* `decodeNodeInfo`, `msgDecode` : the two `while (it.next() > 0)` loops, each with one step function
  for the `switch` and with the payload's length as a bound on the number of options;
* `buildServerError` ... `buildHeuristicsChangeReply` : the frames the server sends.
-/

namespace Qnetd

abbrev Frame := Bytes

abbrev MSG_HEADER_LEN : Nat := 6
abbrev MAX_NODES_PER_LIST : Nat := 16

structure MsgDecoded where
  type : MsgType := .preinit
  seqNumberSet : Bool := false
  seqNumber : UInt32 := 0
  clusterName : Bytes := []
  tlsSupportedSet : Bool := false
  tlsSupported : TlsSupported := .unsupported
  tlsClientCertRequiredSet : Bool := false
  tlsClientCertRequired : UInt8 := 0
  supportedMessagesPresent : Bool := false
  supportedOptionsPresent : Bool := false
  nodeIdSet : Bool := false
  nodeId : UInt32 := 0
  decisionAlgorithmSet : Bool := false
  decisionAlgorithm : Algorithm := .test
  heartbeatIntervalSet : Bool := false
  heartbeatInterval : UInt32 := 0
  ringIdSet : Bool := false
  ringId : RingId := {}
  configVersionSet : Bool := false
  configVersion : UInt64 := 0
  nodes : NodeList := {}
  nodeListTypeSet : Bool := false
  nodeListType : NodeListType := .initialConfig
  voteSet : Bool := false
  vote : Vote := .undefined
  quorateSet : Bool := false
  quorate : UInt8 := 0
  tieBreakerSet : Bool := false
  tieBreaker : TieBreaker := {}
  heuristics : Heuristics := .undefined
  keepActivePartitionTieBreakerSet : Bool := false
  keepActivePartitionTieBreaker : UInt8 := 0
  deriving DecidableEq

/-! ## Decoding -/

/-- One option of a node blob; the flag is `have_id`. -/
def decodeNodeInfoOpt (it : TlvIterator) (acc : NodeInfo × Bool) : Option (NodeInfo × Bool) :=
  match TlvOpt.ofCode it.type with
  | some .nodeId =>
    if it.length ≠ 4 then none else some ({ acc.1 with nodeId := beGet32 it.data }, true)
  | some .dataCenterId =>
    if it.length ≠ 4 then none else some ({ acc.1 with dataCenterId := beGet32 it.data }, acc.2)
  | some .nodeState =>
    if it.length ≠ 1 then none
    else some ({ acc.1 with state := NodeState.ofCode (it.data.getD 0 0) }, acc.2)
  | _ => some acc

def decodeNodeInfoLoop : Nat → TlvIterator → NodeInfo × Bool → Option NodeInfo
  | 0, _, _ => none
  | fuel + 1, it, acc =>
    let (r, it) := it.next
    if r > 0 then
      match decodeNodeInfoOpt it acc with
      | none => none
      | some acc => decodeNodeInfoLoop fuel it acc
    else if r = 0 ∧ acc.2 then some acc.1
    else none

def decodeNodeInfo (data : Bytes) : Option NodeInfo :=
  decodeNodeInfoLoop (data.length + 1) (TlvIterator.ofPayload data) ({}, false)

/-- The `switch` of `msg_decode` on the option the iterator is positioned at. -/
def msgDecodeOpt (it : TlvIterator) (out : MsgDecoded) : Option MsgDecoded :=
  let d := it.data
  let l := it.length
  match TlvOpt.ofCode it.type with
  | some .msgSeqNumber =>
    if l ≠ 4 then none else some { out with seqNumber := beGet32 d, seqNumberSet := true }
  | some .clusterName => some { out with clusterName := d.take l.toNat }
  | some .tlsSupported =>
    if l ≠ 1 ∨ d.getD 0 0 > 2 then none
    else some { out with tlsSupported := TlsSupported.ofCode (d.getD 0 0), tlsSupportedSet := true }
  | some .tlsClientCertRequired =>
    if l ≠ 1 then none else some { out with tlsClientCertRequired := d.getD 0 0, tlsClientCertRequiredSet := true }
  | some .supportedMessages => if l % 2 ≠ 0 then none else some { out with supportedMessagesPresent := true }
  | some .supportedOptions => if l % 2 ≠ 0 then none else some { out with supportedOptionsPresent := true }
  | some .nodeId => if l ≠ 4 then none else some { out with nodeId := beGet32 d, nodeIdSet := true }
  | some .decisionAlgorithm =>
    if l ≠ 2 then none
    else some { out with decisionAlgorithm := Algorithm.ofCode (beGet16 d), decisionAlgorithmSet := true }
  | some .heartbeatInterval =>
    if l ≠ 4 then none else some { out with heartbeatInterval := beGet32 d, heartbeatIntervalSet := true }
  | some .ringId =>
    if l ≠ 12 then none
    else some { out with ringId := { nodeId := beGet32 d, seq := beGet64 (d.drop 4) }, ringIdSet := true }
  | some .configVersion =>
    if l ≠ 8 then none else some { out with configVersion := beGet64 d, configVersionSet := true }
  | some .nodeInfo =>
    match decodeNodeInfo (d.take l.toNat) with
    | none => none
    | some ni =>
      if out.nodes.size ≥ MAX_NODES_PER_LIST then none
      else some { out with nodes := { nodes := out.nodes.nodes ++ [ni] } }
  | some .nodeListType =>
    if l ≠ 1 ∨ d.getD 0 0 > 3 then none
    else some { out with nodeListType := NodeListType.ofCode (d.getD 0 0), nodeListTypeSet := true }
  | some .vote =>
    if l ≠ 1 ∨ d.getD 0 0 > 5 then none else some { out with vote := Vote.ofCode (d.getD 0 0), voteSet := true }
  | some .quorate =>
    if l ≠ 1 ∨ d.getD 0 0 > 1 then none else some { out with quorate := d.getD 0 0, quorateSet := true }
  | some .tieBreaker =>
    if l ≠ 5 ∨ d.getD 0 0 < 1 ∨ d.getD 0 0 > 3 then none
    else some { out with
      tieBreaker := { mode := TieBreakerMode.ofCode (d.getD 0 0), nodeId := beGet32 (d.drop 1) }
      tieBreakerSet := true }
  | some .heuristics =>
    if l ≠ 1 ∨ d.getD 0 0 > 2 then none else some { out with heuristics := Heuristics.ofCode (d.getD 0 0) }
  | some .keepActivePartitionTieBreaker =>
    if l ≠ 1 then none
    else some { out with
      keepActivePartitionTieBreaker := d.getD 0 0
      keepActivePartitionTieBreakerSet := true }
  | _ => some out

def msgDecodeLoop : Nat → TlvIterator → MsgDecoded → Option MsgDecoded
  | 0, _, _ => none
  | fuel + 1, it, out =>
    let (r, it) := it.next
    if r > 0 then
      match msgDecodeOpt it out with
      | none => none
      | some out => msgDecodeLoop fuel it out
    else if r = 0 then some out
    else none

/-- `none` is the result `false`. -/
def msgDecode (type : MsgType) (payload : Bytes) : Option MsgDecoded :=
  msgDecodeLoop (payload.length + 1) (TlvIterator.ofPayload payload) { type := type }

/-! ## Builders -/

def SUPPORTED_MESSAGES : List UInt16 :=
  [0, 1, 2, 3, 4, 5, 6, 7, 8, 9, 10, 11, 12, 13, 14, 15, 16, 17]

def SUPPORTED_OPTIONS : List UInt16 :=
  [0, 1, 2, 3, 4, 5, 6, 7, 8, 9, 10, 11, 12, 13, 14, 15, 16, 17, 18, 19, 20, 21, 22, 23]

def SUPPORTED_ALGORITHMS : List UInt16 := [Algorithm.ffsplit.code]

def beginFrame (type : MsgType) : Frame := bePut32 (bePut16 [] type.code) 0

def endFrame (f : Frame) : Frame :=
  let len := UInt32.ofNat (f.length - MSG_HEADER_LEN)
  (((f.set 2 (len >>> 24).toUInt8).set 3 (len >>> 16).toUInt8).set 4
    (len >>> 8).toUInt8).set 5 len.toUInt8

/-- The optional sequence number most replies start with. -/
def addSeq (f : Frame) (seqSet : Bool) (seq : UInt32) : Frame :=
  if seqSet then TlvWriter.addU32 f .msgSeqNumber seq else f

def buildPreinitReply (seqSet : Bool) (seq : UInt32) (tls : TlsSupported) (certRequired : UInt8) :
    Frame :=
  let f := addSeq (beginFrame .preinitReply) seqSet seq
  let f := TlvWriter.addU8 f .tlsSupported tls.code
  endFrame (TlvWriter.addU8 f .tlsClientCertRequired certRequired)

def buildServerError (seqSet : Bool) (seq : UInt32) (code : ReplyErrorCode) : Frame :=
  let f := addSeq (beginFrame .serverError) seqSet seq
  endFrame (TlvWriter.addU16 f .replyErrorCode code.code)

def buildInitReply (seqSet : Bool) (seq : UInt32) (code : ReplyErrorCode)
    (includeSupportedMessages : Bool)
    (includeSupportedOptions : Bool) (maxRequestSize maxReplySize : UInt32) : Frame :=
  let f := addSeq (beginFrame .initReply) seqSet seq
  let f := TlvWriter.addU16 f .replyErrorCode code.code
  let f :=
    if includeSupportedMessages then TlvWriter.addU16Array f .supportedMessages SUPPORTED_MESSAGES
    else f
  let f :=
    if includeSupportedOptions then TlvWriter.addU16Array f .supportedOptions SUPPORTED_OPTIONS
    else f
  let f := TlvWriter.addU32 f .serverMaximumRequestSize maxRequestSize
  let f := TlvWriter.addU32 f .serverMaximumReplySize maxReplySize
  endFrame (TlvWriter.addU16Array f .supportedDecisionAlgorithms SUPPORTED_ALGORITHMS)

def buildSetOptionReply (seqSet : Bool) (seq : UInt32) (hbSet : Bool) (hb : UInt32)
    (kaptbSet : Bool) (kaptb : UInt8) : Frame :=
  let f := addSeq (beginFrame .setOptionReply) seqSet seq
  let f := if hbSet then TlvWriter.addU32 f .heartbeatInterval hb else f
  endFrame (if kaptbSet then TlvWriter.addU8 f .keepActivePartitionTieBreaker kaptb else f)

/-- A copy of the request with the type rewritten. -/
def buildEchoReply (requestFrame : Frame) : Frame :=
  (requestFrame.set 0 (MsgType.echoReply.code >>> 8).toUInt8).set 1 MsgType.echoReply.code.toUInt8

def buildNodeListReply (seq : UInt32) (type : NodeListType) (ring : RingId) (vote : Vote) : Frame :=
  let f := TlvWriter.addU32 (beginFrame .nodeListReply) .msgSeqNumber seq
  let f := TlvWriter.addU8 f .nodeListType type.code
  let f := TlvWriter.addRingId f ring
  endFrame (TlvWriter.addU8 f .vote vote.code)

def buildVoteInfo (seq : UInt32) (ring : RingId) (vote : Vote) : Frame :=
  let f := TlvWriter.addU32 (beginFrame .voteInfo) .msgSeqNumber seq
  let f := TlvWriter.addU8 f .vote vote.code
  endFrame (TlvWriter.addRingId f ring)

def buildHeuristicsChangeReply (seqSet : Bool) (seq : UInt32) (vote : Vote) : Frame :=
  let f := addSeq (beginFrame .heuristicsChangeReply) seqSet seq
  endFrame (TlvWriter.addU8 f .vote vote.code)

end Qnetd
