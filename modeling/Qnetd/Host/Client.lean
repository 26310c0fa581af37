import Qnetd.Server.Calls

/-!
# The client

The frame builders of `MockClient` in `test_main.cpp`, which build the same frames as the stock
client, and the calls of its `Rig`. The sequence number a client counts up is an argument here.
-/

namespace Qnetd

namespace MockClient

def preinit (seq : UInt32) (cluster : Bytes) : Frame :=
  let f := TlvWriter.addU32 (beginFrame .preinit) .msgSeqNumber seq
  endFrame (TlvWriter.addString f .clusterName cluster)

def init (seq nodeId : UInt32) (ring : RingId) (hb : UInt32 := 8000) (tb : TieBreaker := {})
    (alg : Algorithm := .ffsplit) : Frame :=
  let f := TlvWriter.addU32 (beginFrame .init) .msgSeqNumber seq
  let f :=
    TlvWriter.addU16Array f .supportedMessages
      [0, 1, 3, 4, 5, 6, 7, 8, 9, 10, 11, 12, 13, 14, 15, 16, 17]
  let f := TlvWriter.addU16Array f .supportedOptions [0, 1, 2, 3, 4, 5]
  let f := TlvWriter.addU32 f .nodeId nodeId
  let f := TlvWriter.addU16 f .decisionAlgorithm alg.code
  let f := TlvWriter.addU32 f .heartbeatInterval hb
  let f := TlvWriter.addTieBreaker f tb
  endFrame (TlvWriter.addRingId f ring)

def configList (seq : UInt32) (type : NodeListType) (ids : List UInt32) : Frame :=
  let f := TlvWriter.addU32 (beginFrame .nodeList) .msgSeqNumber seq
  let f := TlvWriter.addU8 f .nodeListType type.code
  endFrame (ids.foldl (fun f id => TlvWriter.addNodeInfo f { nodeId := id }) f)

def membership (seq : UInt32) (ring : RingId) (ids : List UInt32) (h : Heuristics := .undefined) :
    Frame :=
  let f := TlvWriter.addU32 (beginFrame .nodeList) .msgSeqNumber seq
  let f := TlvWriter.addU8 f .nodeListType NodeListType.membership.code
  let f := TlvWriter.addRingId f ring
  let f := if h ≠ .undefined then TlvWriter.addU8 f .heuristics h.code else f
  endFrame (ids.foldl (fun f id => TlvWriter.addNodeInfo f { nodeId := id, state := .member }) f)

def voteInfoReply (viSeq : UInt32) : Frame :=
  endFrame (TlvWriter.addU32 (beginFrame .voteInfoReply) .msgSeqNumber viSeq)

end MockClient

/-- The full handshake of `Rig::join`, in a given slot. -/
def Rig.join (slot : Int) (cluster : Bytes) (nodeId : UInt32) (ring : RingId) : List Call :=
  [.onConnect 1000 "test-peer", .onData slot (MockClient.preinit 1 cluster) 1000,
    .onData slot (MockClient.init 2 nodeId ring) 1000]

/-- The calls of `Rig::feed`. -/
def Rig.feed (slot : Int) (frames : List Frame) : List Call :=
  frames.map fun f => .onData slot f 1000

end Qnetd
