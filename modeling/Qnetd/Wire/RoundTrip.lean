import Qnetd.Wire.Parse

/-!
# Decoding what was written

* `Field` : a call of the writer, with a value in its wire range; `written` : the payload a sequence
  of them makes;
* `Field.opt` : the option it writes; `decode_opt` : what the decoder takes from it;
* `expected` : the last value of each field; `msgDecode_written` : the decoder returns exactly the
  written values;
* `Reply` : a builder with its arguments; `Reply.decode_frame` : its frame has the type and the
  length in its header, and decodes to the arguments; `ReplyFrame.vote_ne_ack` : none of the replies
  grants an ACK.
-/

namespace Qnetd

/-! ## Fields -/

/-- A value in its wire range, for one of the typed writers. -/
inductive Field where
  | seqNumber (v : UInt32)
  | clusterName (name : {name : Bytes // name.length < 2 ^ 16})
  | tlsSupported (v : TlsSupported)
  | tlsClientCertRequired (v : UInt8)
  | supportedMessages (arr : {arr : List UInt16 // arr.length * 2 < 2 ^ 16})
  | supportedOptions (arr : {arr : List UInt16 // arr.length * 2 < 2 ^ 16})
  | supportedDecisionAlgorithms (arr : {arr : List UInt16 // arr.length * 2 < 2 ^ 16})
  | nodeId (v : UInt32)
  | decisionAlgorithm (a : Algorithm)
  | heartbeatInterval (v : UInt32)
  | ringId (r : RingId)
  | configVersion (v : UInt64)
  | nodeInfo (n : NodeInfo)
  | nodeListType (t : NodeListType)
  | vote (v : Vote)
  | quorate (v : {v : UInt8 // v ≤ 1})
  | tieBreaker (tb : TieBreaker)
  | heuristics (h : Heuristics)
  | keepActivePartitionTieBreaker (v : UInt8)

/-- The call of the writer. -/
def Field.write (buf : Bytes) : Field → Bytes
  | .seqNumber v => TlvWriter.addU32 buf .msgSeqNumber v
  | .clusterName name => TlvWriter.addString buf .clusterName name.1
  | .tlsSupported v => TlvWriter.addU8 buf .tlsSupported v.code
  | .tlsClientCertRequired v => TlvWriter.addU8 buf .tlsClientCertRequired v
  | .supportedMessages arr => TlvWriter.addU16Array buf .supportedMessages arr.1
  | .supportedOptions arr => TlvWriter.addU16Array buf .supportedOptions arr.1
  | .supportedDecisionAlgorithms arr => TlvWriter.addU16Array buf .supportedDecisionAlgorithms arr.1
  | .nodeId v => TlvWriter.addU32 buf .nodeId v
  | .decisionAlgorithm a => TlvWriter.addU16 buf .decisionAlgorithm a.code
  | .heartbeatInterval v => TlvWriter.addU32 buf .heartbeatInterval v
  | .ringId r => TlvWriter.addRingId buf r
  | .configVersion v => TlvWriter.addU64 buf .configVersion v
  | .nodeInfo n => TlvWriter.addNodeInfo buf n
  | .nodeListType t => TlvWriter.addU8 buf .nodeListType t.code
  | .vote v => TlvWriter.addU8 buf .vote v.code
  | .quorate v => TlvWriter.addU8 buf .quorate v.1
  | .tieBreaker tb => TlvWriter.addTieBreaker buf tb
  | .heuristics h => TlvWriter.addU8 buf .heuristics h.code
  | .keepActivePartitionTieBreaker v => TlvWriter.addU8 buf .keepActivePartitionTieBreaker v

def written (fields : List Field) : Bytes := fields.foldl Field.write []

/-! ## The options they write -/

namespace Opt

def u64 (opt : TlvOpt) (v : UInt64) : Opt :=
  ⟨opt.code, TlvWriter.bytes64 v, by simp [TlvWriter.bytes64]⟩

def string (opt : TlvOpt) (str : {str : Bytes // str.length < 2 ^ 16}) : Opt :=
  ⟨opt.code, str.1, str.2⟩

/-- A tie-breaker as it is written: without the node id where the mode does not use it. -/
def tie (tb : TieBreaker) : Opt :=
  let id := if tb.mode = .nodeId then tb.nodeId else 0
  ⟨TlvOpt.tieBreaker.code,
    [tb.mode.code, (id >>> 24).toUInt8, (id >>> 16).toUInt8, (id >>> 8).toUInt8, id.toUInt8],
    by simp⟩

/-- The options of a node's blob. -/
def blob (n : NodeInfo) : List Opt :=
  u32 .nodeId n.nodeId ::
    ((if n.dataCenterId ≠ 0 then [u32 .dataCenterId n.dataCenterId] else []) ++
    (if n.state ≠ .notSet then [u8 .nodeState n.state.code] else []))

theorem nodeInfoBlob_eq (n : NodeInfo) : TlvWriter.nodeInfoBlob n = optBytes (blob n) := by
  by_cases hd : n.dataCenterId = 0 <;> by_cases hs : n.state = .notSet <;>
    simp [TlvWriter.nodeInfoBlob, blob, hd, hs, addU32_eq, addU8_eq]

theorem blob_length (n : NodeInfo) : (TlvWriter.nodeInfoBlob n).length < 2 ^ 16 := by
  rw [nodeInfoBlob_eq]
  by_cases hd : n.dataCenterId = 0 <;> by_cases hs : n.state = .notSet <;>
    simp [blob, hd, hs, bytes_length, u32, u8]

def node (n : NodeInfo) : Opt := ⟨TlvOpt.nodeInfo.code, TlvWriter.nodeInfoBlob n, blob_length n⟩

end Opt

def Field.opt : Field → Opt
  | .seqNumber v => Opt.u32 .msgSeqNumber v
  | .clusterName name => Opt.string .clusterName name
  | .tlsSupported v => Opt.u8 .tlsSupported v.code
  | .tlsClientCertRequired v => Opt.u8 .tlsClientCertRequired v
  | .supportedMessages arr => Opt.u16s .supportedMessages arr.1 arr.2
  | .supportedOptions arr => Opt.u16s .supportedOptions arr.1 arr.2
  | .supportedDecisionAlgorithms arr => Opt.u16s .supportedDecisionAlgorithms arr.1 arr.2
  | .nodeId v => Opt.u32 .nodeId v
  | .decisionAlgorithm a => Opt.u16 .decisionAlgorithm a.code
  | .heartbeatInterval v => Opt.u32 .heartbeatInterval v
  | .ringId r => Opt.ring r
  | .configVersion v => Opt.u64 .configVersion v
  | .nodeInfo n => Opt.node n
  | .nodeListType t => Opt.u8 .nodeListType t.code
  | .vote v => Opt.u8 .vote v.code
  | .quorate v => Opt.u8 .quorate v.1
  | .tieBreaker tb => Opt.tie tb
  | .heuristics h => Opt.u8 .heuristics h.code
  | .keepActivePartitionTieBreaker v => Opt.u8 .keepActivePartitionTieBreaker v

theorem write_eq (buf : Bytes) (f : Field) : f.write buf = buf ++ f.opt.bytes := by
  cases f with
  | seqNumber | nodeId | heartbeatInterval => exact addU32_eq _ _ _
  | tlsSupported | tlsClientCertRequired | nodeListType | vote | quorate | heuristics
  | keepActivePartitionTieBreaker => exact addU8_eq _ _ _
  | supportedMessages arr | supportedOptions arr | supportedDecisionAlgorithms arr =>
    exact addU16Array_eq _ _ _ arr.2
  | decisionAlgorithm => exact addU16_eq _ _ _
  | ringId => exact addRingId_eq _ _
  | clusterName name => exact add_eq (o := Opt.string .clusterName name) buf rfl
  | configVersion v => exact add_eq (o := Opt.u64 .configVersion v) buf rfl
  | nodeInfo n => exact add_eq (o := Opt.node n) buf rfl
  | tieBreaker tb => exact add_eq (o := Opt.tie tb) buf rfl

theorem written_eq (fields : List Field) : written fields = optBytes (fields.map Field.opt) := by
  induction fields using List.reverseRecOn with
  | nil => rfl
  | append_singleton fields f ih =>
    rw [written, List.foldl_append, ← written, ih]
    simp [write_eq]

/-! ## What the decoder takes from them -/

theorem NodeState.ofCode_code (st : NodeState) : NodeState.ofCode st.code = st := by
  cases st with
  | other v => simp [NodeState.code, NodeState.ofCode, v.2]
  | _ => rfl

theorem Algorithm.ofCode_code (a : Algorithm) : Algorithm.ofCode a.code = a := by
  cases a with
  | other v => simp [Algorithm.code, Algorithm.ofCode, v.2]
  | _ => rfl

theorem beGet32_u32 (opt : TlvOpt) (v : UInt32) : beGet32 (Opt.u32 opt v).data = v :=
  beGet32_be v []

/-- A node's blob decodes to the node, the fields left out at their defaults included. -/
theorem decodeNodeInfo_blob (n : NodeInfo) :
    decodeNodeInfo (TlvWriter.nodeInfoBlob n) = some n := by
  refine (decodeNodeInfo_eq_some _ n).mpr
    ⟨Opt.blob n, ⟨Opt.nodeInfoBlob_eq n, fun o ho => ?_, ?_⟩, ?_⟩
  · simp only [Opt.blob, List.mem_cons, List.mem_append] at ho
    rcases ho with rfl | ho | ho
    · rfl
    · split_ifs at ho with hd
      · rw [List.mem_singleton.mp ho]
        rfl
      · cases ho
    · split_ifs at ho with hs
      · rw [List.mem_singleton.mp ho]
        rfl
      · cases ho
  · by_cases hd : n.dataCenterId = 0 <;> by_cases hs : n.state = .notSet <;>
      simp [Opt.blob, has, lastOpt, hd, hs, Opt.u32, Opt.u8]
  · obtain ⟨id, dc, st⟩ := n
    have hid : beGet32 (Opt.u32 .nodeId id).data = id := beGet32_u32 _ _
    have hdc : beGet32 (Opt.u32 .dataCenterId dc).data = dc := beGet32_u32 _ _
    simp only [Opt.u32] at hid hdc
    by_cases hd : dc = 0 <;> by_cases hs : st = .notSet <;>
      simp [Opt.blob, nodeOf, valueOf, lastOpt, hd, hs, Opt.u32, Opt.u8, hid, hdc,
        NodeState.ofCode_code]

/-- A tie-breaker as the decoder reads it. -/
def TieBreaker.onWire (tb : TieBreaker) : TieBreaker :=
  { mode := tb.mode, nodeId := if tb.mode = .nodeId then tb.nodeId else 0 }

theorem TieBreaker.onWire_same (tb : TieBreaker) : tb.onWire.same tb = true := by
  rw [TieBreaker.same_iff]
  exact ⟨rfl, fun h => if_pos h⟩

def Field.store (out : MsgDecoded) : Field → MsgDecoded
  | .seqNumber v => { out with seqNumber := v, seqNumberSet := true }
  | .clusterName name => { out with clusterName := name.1 }
  | .tlsSupported v => { out with tlsSupported := v, tlsSupportedSet := true }
  | .tlsClientCertRequired v =>
      { out with tlsClientCertRequired := v, tlsClientCertRequiredSet := true }
  | .supportedMessages _ => { out with supportedMessagesPresent := true }
  | .supportedOptions _ => { out with supportedOptionsPresent := true }
  | .supportedDecisionAlgorithms _ => out
  | .nodeId v => { out with nodeId := v, nodeIdSet := true }
  | .decisionAlgorithm a => { out with decisionAlgorithm := a, decisionAlgorithmSet := true }
  | .heartbeatInterval v => { out with heartbeatInterval := v, heartbeatIntervalSet := true }
  | .ringId r => { out with ringId := r, ringIdSet := true }
  | .configVersion v => { out with configVersion := v, configVersionSet := true }
  | .nodeInfo n => { out with nodes := { nodes := out.nodes.nodes ++ [n] } }
  | .nodeListType t => { out with nodeListType := t, nodeListTypeSet := true }
  | .vote v => { out with vote := v, voteSet := true }
  | .quorate v => { out with quorate := v.1, quorateSet := true }
  | .tieBreaker tb => { out with tieBreaker := tb.onWire, tieBreakerSet := true }
  | .heuristics h => { out with heuristics := h }
  | .keepActivePartitionTieBreaker v =>
    { out with keepActivePartitionTieBreaker := v, keepActivePartitionTieBreakerSet := true }

/-- Whether a field takes a place in the node list. -/
def Field.nodeInfo? : Field → Option NodeInfo
  | .nodeInfo n => some n
  | _ => none

/-- The decoder stores the value of the field, a node if there is room for it. -/
theorem decode_opt (f : Field) (out : MsgDecoded)
    (h : f.nodeInfo?.isSome = true → out.nodes.nodes.length < MAX_NODES_PER_LIST) :
    f.opt.decode out = some (f.store out) := by
  cases f with
  | seqNumber v => exact decode_msgSeqNumber v out
  | ringId r => exact decode_ring r out
  | vote v => exact decode_vote v out
  | nodeListType t => exact decode_nodeListType t out
  | tlsSupported v => cases v <;> rfl
  | heuristics v => cases v <;> rfl
  | tlsClientCertRequired v | keepActivePartitionTieBreaker v => rfl
  | quorate v =>
    have hv :
        ¬((Opt.u8 .quorate v.1).iterator.length ≠ 1 ∨
        (Opt.u8 .quorate v.1).iterator.data.getD 0 0 > 1) := by
      rintro (h | h)
      · exact h rfl
      · exact UInt8.not_lt.mpr v.2 h
    exact if_neg hv
  | clusterName name =>
    have hd :
        (Opt.string .clusterName name).iterator.data.take
        (Opt.string .clusterName name).iterator.length.toNat =
        name.1 := by
      change name.1.take (Opt.string .clusterName name).length.toNat = name.1
      rw [Opt.length_toNat]
      exact List.take_length
    exact congrArg (fun name => some { out with clusterName := name }) hd
  | supportedMessages arr =>
    have he : (Opt.u16s .supportedMessages arr.1 arr.2).length % 2 = 0 := by
      rw [mod_two_iff]
      simp [Opt.u16s, List.length_flatMap]
    exact if_neg (not_not.mpr he)
  | supportedOptions arr =>
    have he : (Opt.u16s .supportedOptions arr.1 arr.2).length % 2 = 0 := by
      rw [mod_two_iff]
      simp [Opt.u16s, List.length_flatMap]
    exact if_neg (not_not.mpr he)
  | supportedDecisionAlgorithms arr => rfl
  | nodeId v =>
    exact congrArg (fun v => some { out with nodeId := v, nodeIdSet := true })
      (beGet32_u32 .nodeId v)
  | heartbeatInterval v =>
    exact congrArg (fun v => some { out with heartbeatInterval := v, heartbeatIntervalSet := true })
      (beGet32_u32 .heartbeatInterval v)
  | decisionAlgorithm a =>
    have hd : Algorithm.ofCode (beGet16 (Opt.u16 .decisionAlgorithm a.code).data) = a :=
      (congrArg Algorithm.ofCode (beGet16_be _ [])).trans (Algorithm.ofCode_code a)
    exact congrArg
      (fun a => some { out with decisionAlgorithm := a, decisionAlgorithmSet := true }) hd
  | configVersion v =>
    have hd : beGet64 (Opt.u64 .configVersion v).data = v := by
      have h := beGet64_be v []
      rwa [List.append_nil] at h
    exact congrArg (fun v => some { out with configVersion := v, configVersionSet := true }) hd
  | tieBreaker tb =>
    have hd : beGet32 ((Opt.tie tb).data.drop 1) = if tb.mode = .nodeId then tb.nodeId else 0 :=
      beGet32_be _ []
    have hguard : (Opt.tie tb).decode out = some { out with
        tieBreaker := { mode := tb.mode, nodeId := beGet32 ((Opt.tie tb).data.drop 1) }
        tieBreakerSet := true } := by
      obtain ⟨mode, id⟩ := tb
      cases mode <;> rfl
    rw [Field.opt, hguard, hd]
    rfl
  | nodeInfo n =>
    have hd : decodeNodeInfo
        ((Opt.node n).iterator.data.take (Opt.node n).iterator.length.toNat) = some n := by
      change decodeNodeInfo ((Opt.node n).data.take (Opt.node n).length.toNat) = some n
      rw [Opt.length_toNat, List.take_length]
      exact decodeNodeInfo_blob n
    have ht : TlvOpt.ofCode (Opt.node n).iterator.type = some .nodeInfo := rfl
    simp only [Field.opt, Opt.decode, msgDecodeOpt, ht, hd]
    exact if_neg (Nat.not_le.mpr (h rfl))

/-! ## The last value of each field -/

/-- The value of the last field of a kind. -/
def lastOf {α : Type} (kind : Field → Option α) (fields : List Field) : Option α :=
  fields.reverse.findSome? kind

theorem lastOf_snoc {α : Type} (kind : Field → Option α) (fields : List Field) (f : Field) :
    lastOf kind (fields ++ [f]) = (kind f).or (lastOf kind fields) := by
  cases h : kind f <;> simp [lastOf, h]

namespace Field

def seqNumber? : Field → Option UInt32
  | .seqNumber v => some v
  | _ => none

def clusterName? : Field → Option Bytes
  | .clusterName name => some name.1
  | _ => none

def tlsSupported? : Field → Option TlsSupported
  | .tlsSupported v => some v
  | _ => none

def tlsClientCertRequired? : Field → Option UInt8
  | .tlsClientCertRequired v => some v
  | _ => none

def supportedMessages? : Field → Option (List UInt16)
  | .supportedMessages arr => some arr.1
  | _ => none

def supportedOptions? : Field → Option (List UInt16)
  | .supportedOptions arr => some arr.1
  | _ => none

def nodeId? : Field → Option UInt32
  | .nodeId v => some v
  | _ => none

def decisionAlgorithm? : Field → Option Algorithm
  | .decisionAlgorithm a => some a
  | _ => none

def heartbeatInterval? : Field → Option UInt32
  | .heartbeatInterval v => some v
  | _ => none

def ringId? : Field → Option RingId
  | .ringId r => some r
  | _ => none

def configVersion? : Field → Option UInt64
  | .configVersion v => some v
  | _ => none

def nodeListType? : Field → Option NodeListType
  | .nodeListType t => some t
  | _ => none

def vote? : Field → Option Vote
  | .vote v => some v
  | _ => none

def quorate? : Field → Option UInt8
  | .quorate v => some v.1
  | _ => none

def tieBreaker? : Field → Option TieBreaker
  | .tieBreaker tb => some tb
  | _ => none

def heuristics? : Field → Option Heuristics
  | .heuristics h => some h
  | _ => none

def keepActivePartitionTieBreaker? : Field → Option UInt8
  | .keepActivePartitionTieBreaker v => some v
  | _ => none

end Field

/-- The message of the written values: the last of each kind, and all the nodes. -/
def expected (type : MsgType) (fields : List Field) : MsgDecoded where
  type := type
  seqNumberSet := (lastOf Field.seqNumber? fields).isSome
  seqNumber := (lastOf Field.seqNumber? fields).getD 0
  clusterName := (lastOf Field.clusterName? fields).getD []
  tlsSupportedSet := (lastOf Field.tlsSupported? fields).isSome
  tlsSupported := (lastOf Field.tlsSupported? fields).getD .unsupported
  tlsClientCertRequiredSet := (lastOf Field.tlsClientCertRequired? fields).isSome
  tlsClientCertRequired := (lastOf Field.tlsClientCertRequired? fields).getD 0
  supportedMessagesPresent := (lastOf Field.supportedMessages? fields).isSome
  supportedOptionsPresent := (lastOf Field.supportedOptions? fields).isSome
  nodeIdSet := (lastOf Field.nodeId? fields).isSome
  nodeId := (lastOf Field.nodeId? fields).getD 0
  decisionAlgorithmSet := (lastOf Field.decisionAlgorithm? fields).isSome
  decisionAlgorithm := (lastOf Field.decisionAlgorithm? fields).getD .test
  heartbeatIntervalSet := (lastOf Field.heartbeatInterval? fields).isSome
  heartbeatInterval := (lastOf Field.heartbeatInterval? fields).getD 0
  ringIdSet := (lastOf Field.ringId? fields).isSome
  ringId := (lastOf Field.ringId? fields).getD {}
  configVersionSet := (lastOf Field.configVersion? fields).isSome
  configVersion := (lastOf Field.configVersion? fields).getD 0
  nodes := { nodes := fields.filterMap Field.nodeInfo? }
  nodeListTypeSet := (lastOf Field.nodeListType? fields).isSome
  nodeListType := (lastOf Field.nodeListType? fields).getD .initialConfig
  voteSet := (lastOf Field.vote? fields).isSome
  vote := (lastOf Field.vote? fields).getD .undefined
  quorateSet := (lastOf Field.quorate? fields).isSome
  quorate := (lastOf Field.quorate? fields).getD 0
  tieBreakerSet := (lastOf Field.tieBreaker? fields).isSome
  tieBreaker := (lastOf Field.tieBreaker? fields).getD {}
  heuristics := (lastOf Field.heuristics? fields).getD .undefined
  keepActivePartitionTieBreakerSet := (lastOf Field.keepActivePartitionTieBreaker? fields).isSome
  keepActivePartitionTieBreaker := (lastOf Field.keepActivePartitionTieBreaker? fields).getD 0

/-- The message with its tie-breaker as the wire has it. -/
def MsgDecoded.onWire (m : MsgDecoded) : MsgDecoded := { m with tieBreaker := m.tieBreaker.onWire }

theorem expected_snoc (type : MsgType) (fields : List Field) (f : Field) :
    (expected type (fields ++ [f])).onWire = f.store (expected type fields).onWire := by
  simp only [expected, MsgDecoded.onWire, lastOf_snoc, List.filterMap_append]
  cases f with
  | nodeInfo n => rfl
  | _ =>
    rw [List.filterMap_cons_none rfl, List.filterMap_nil, List.append_nil]
    rfl

/-- The decoder returns exactly the written values. -/
theorem msgDecode_written (type : MsgType) (fields : List Field)
    (h : (fields.filterMap Field.nodeInfo?).length ≤ MAX_NODES_PER_LIST) :
    msgDecode type (written fields) = some (expected type fields).onWire := by
  rw [written_eq, msgDecode_options]
  induction fields using List.reverseRecOn with
  | nil => rfl
  | append_singleton fields f ih =>
    rw [List.filterMap_append, List.length_append] at h
    have hroom : f.nodeInfo?.isSome = true →
        (expected type fields).onWire.nodes.nodes.length < MAX_NODES_PER_LIST := by
      intro hf
      obtain ⟨n, hn⟩ := Option.isSome_iff_exists.mp hf
      rw [List.filterMap_cons, hn] at h
      exact h
    rw [List.map_append, List.foldlM_append, ih ((Nat.le_add_right _ _).trans h)]
    simp only [List.map_cons, List.map_nil, List.foldlM_cons, List.foldlM_nil, Option.bind_eq_bind,
      Option.bind_some, decode_opt f _ hroom, expected_snoc]
    rfl

/-! ## The builders -/

/-- A builder with its arguments, the echo's apart. -/
inductive Reply where
  | preinit (seqSet : Bool) (seq : UInt32) (tls : TlsSupported) (certRequired : UInt8)
  | serverError (seqSet : Bool) (seq : UInt32) (code : ReplyErrorCode)
  | init (seqSet : Bool) (seq : UInt32) (code : ReplyErrorCode) (messages options : Bool)
      (maxRequest maxReply : UInt32)
  | setOption (seqSet : Bool) (seq : UInt32) (hbSet : Bool) (hb : UInt32) (kaptbSet : Bool)
      (kaptb : UInt8)
  | nodeList (seq : UInt32) (type : NodeListType) (ring : RingId) (vote : Vote)
  | voteInfo (seq : UInt32) (ring : RingId) (vote : Vote)
  | heuristicsChange (seqSet : Bool) (seq : UInt32) (vote : Vote)

namespace Reply

def frame : Reply → Frame
  | .preinit seqSet seq tls certRequired => buildPreinitReply seqSet seq tls certRequired
  | .serverError seqSet seq code => buildServerError seqSet seq code
  | .init seqSet seq code messages options maxRequest maxReply =>
    buildInitReply seqSet seq code messages options maxRequest maxReply
  | .setOption seqSet seq hbSet hb kaptbSet kaptb => buildSetOptionReply seqSet seq hbSet hb
      kaptbSet kaptb
  | .nodeList seq type ring vote => buildNodeListReply seq type ring vote
  | .voteInfo seq ring vote => buildVoteInfo seq ring vote
  | .heuristicsChange seqSet seq vote => buildHeuristicsChangeReply seqSet seq vote

def type : Reply → MsgType
  | .preinit .. => .preinitReply
  | .serverError .. => .serverError
  | .init .. => .initReply
  | .setOption .. => .setOptionReply
  | .nodeList .. => .nodeListReply
  | .voteInfo .. => .voteInfo
  | .heuristicsChange .. => .heuristicsChangeReply

/-- The arguments a decoded message represents. -/
def msg (r : Reply) : MsgDecoded :=
  match r with
  | .preinit seqSet seq tls certRequired =>
    { type := .preinitReply, seqNumberSet := seqSet, seqNumber := if seqSet then seq else 0,
      tlsSupportedSet := true
      tlsSupported := tls, tlsClientCertRequiredSet := true, tlsClientCertRequired := certRequired }
  | .serverError seqSet seq _ =>
    { type := .serverError, seqNumberSet := seqSet, seqNumber := if seqSet then seq else 0 }
  | .init seqSet seq _ messages options _ _ =>
    { type := .initReply, seqNumberSet := seqSet, seqNumber := if seqSet then seq else 0
      supportedMessagesPresent := messages, supportedOptionsPresent := options }
  | .setOption seqSet seq hbSet hb kaptbSet kaptb =>
    { type := .setOptionReply, seqNumberSet := seqSet, seqNumber := if seqSet then seq else 0
      heartbeatIntervalSet := hbSet, heartbeatInterval := if hbSet then hb else 0
      keepActivePartitionTieBreakerSet := kaptbSet
      keepActivePartitionTieBreaker := if kaptbSet then kaptb else 0 }
  | .nodeList seq type ring vote =>
    { type := .nodeListReply, seqNumberSet := true, seqNumber := seq, nodeListTypeSet := true,
      nodeListType := type
      ringIdSet := true, ringId := ring, voteSet := true, vote := vote }
  | .voteInfo seq ring vote =>
    { type := .voteInfo, seqNumberSet := true, seqNumber := seq, ringIdSet := true, ringId := ring,
      voteSet := true
      vote := vote }
  | .heuristicsChange seqSet seq vote =>
    { type := .heuristicsChangeReply, seqNumberSet := seqSet,
      seqNumber := if seqSet then seq else 0, voteSet := true
      vote := vote }

def opts : Reply → List Opt
  | .preinit seqSet seq tls certRequired =>
    Opt.seq seqSet seq ++
      [Opt.u8 .tlsSupported tls.code, Opt.u8 .tlsClientCertRequired certRequired]
  | .serverError seqSet seq code => Opt.seq seqSet seq ++ [Opt.u16 .replyErrorCode code.code]
  | .init seqSet seq code messages options maxRequest maxReply =>
    Opt.seq seqSet seq ++ Opt.u16 .replyErrorCode code.code ::
      ((if messages then [Opt.u16s .supportedMessages SUPPORTED_MESSAGES (by decide)] else []) ++
      (if options then [Opt.u16s .supportedOptions SUPPORTED_OPTIONS (by decide)] else []) ++
      [Opt.u32 .serverMaximumRequestSize maxRequest, Opt.u32 .serverMaximumReplySize maxReply,
        Opt.u16s .supportedDecisionAlgorithms SUPPORTED_ALGORITHMS (by decide)])
  | .setOption seqSet seq hbSet hb kaptbSet kaptb =>
    Opt.seq seqSet seq ++ (if hbSet then [Opt.u32 .heartbeatInterval hb] else []) ++
      (if kaptbSet then [Opt.u8 .keepActivePartitionTieBreaker kaptb] else [])
  | .nodeList seq type ring vote =>
    [Opt.u32 .msgSeqNumber seq, Opt.u8 .nodeListType type.code, Opt.ring ring,
      Opt.u8 .vote vote.code]
  | .voteInfo seq ring vote => [Opt.u32 .msgSeqNumber seq, Opt.u8 .vote vote.code, Opt.ring ring]
  | .heuristicsChange seqSet seq vote => Opt.seq seqSet seq ++ [Opt.u8 .vote vote.code]

theorem frame_eq (r : Reply) : r.frame = optFrame r.type r.opts := by
  cases r with
  | preinit seqSet seq tls certRequired => exact buildPreinitReply_eq seqSet seq tls certRequired
  | serverError seqSet seq code => exact buildServerError_eq seqSet seq code
  | init seqSet seq code messages options maxRequest maxReply =>
    exact buildInitReply_eq seqSet seq code messages options maxRequest maxReply
  | setOption seqSet seq hbSet hb kaptbSet kaptb =>
    exact buildSetOptionReply_eq seqSet seq hbSet hb kaptbSet kaptb
  | nodeList seq type ring vote => exact buildNodeListReply_eq seq type ring vote
  | voteInfo seq ring vote => exact buildVoteInfo_eq seq ring vote
  | heuristicsChange seqSet seq vote => exact buildHeuristicsChangeReply_eq seqSet seq vote

theorem decode_opts (r : Reply) :
    r.opts.foldlM (fun out o => o.decode out) { type := r.type } = some r.msg := by
  have hdecode : ∀ f : Field, f.nodeInfo? = none → ∀ out, f.opt.decode out = some (f.store out) :=
    fun f hf out => decode_opt f out (by rw [hf]; intro h; cases h)
  have hseq : ∀ seqSet seq out, (Opt.seq seqSet seq).foldlM (fun out o => o.decode out) out =
      some (if seqSet then { out with seqNumber := seq, seqNumberSet := true } else out) := by
    intro seqSet seq out
    cases seqSet
    · rfl
    · simp only [Opt.seq, if_true, List.foldlM_cons, decode_msgSeqNumber]
      rfl
  have hunknown : ∀ {o : Opt}, o.known = false → ∀ out, o.decode out = some out :=
    fun h out => Opt.decode_of_unknown h out
  cases r with
  | preinit seqSet seq tls certRequired =>
    have htls := hdecode (.tlsSupported tls) rfl
    have hcert := hdecode (.tlsClientCertRequired certRequired) rfl
    simp only [Field.opt, Field.store] at htls hcert
    simp only [opts, List.foldlM_append, hseq, List.foldlM_cons, List.foldlM_nil,
      Option.bind_eq_bind, Option.bind_some, htls, hcert]
    cases seqSet <;> rfl
  | serverError seqSet seq code =>
    have hcode : (Opt.u16 .replyErrorCode code.code).known = false := rfl
    simp only [opts, List.foldlM_append, hseq, List.foldlM_cons, List.foldlM_nil,
      Option.bind_eq_bind, Option.bind_some, hunknown hcode]
    cases seqSet <;> rfl
  | init seqSet seq code messages options maxRequest maxReply =>
    have hcode : (Opt.u16 .replyErrorCode code.code).known = false := rfl
    have hmax : (Opt.u32 .serverMaximumRequestSize maxRequest).known = false := rfl
    have hmax' : (Opt.u32 .serverMaximumReplySize maxReply).known = false := rfl
    have halg := hdecode (.supportedDecisionAlgorithms ⟨SUPPORTED_ALGORITHMS, by decide⟩) rfl
    have hmsgs := hdecode (.supportedMessages ⟨SUPPORTED_MESSAGES, by decide⟩) rfl
    have hopts := hdecode (.supportedOptions ⟨SUPPORTED_OPTIONS, by decide⟩) rfl
    simp only [Field.opt, Field.store] at halg hmsgs hopts
    cases messages <;> cases options <;>
      simp only [opts, if_true, if_false, Bool.false_eq_true, List.nil_append,
        List.foldlM_append, hseq,
        List.foldlM_cons, List.foldlM_nil, Option.bind_eq_bind, Option.bind_some, Option.pure_def,
          hunknown hcode,
        hunknown hmax, hunknown hmax', halg, hmsgs, hopts] <;>
      cases seqSet <;> rfl
  | setOption seqSet seq hbSet hb kaptbSet kaptb =>
    have hhb := hdecode (.heartbeatInterval hb) rfl
    have hka := hdecode (.keepActivePartitionTieBreaker kaptb) rfl
    simp only [Field.opt, Field.store] at hhb hka
    cases hbSet <;> cases kaptbSet <;>
      simp only [opts, if_true, if_false, Bool.false_eq_true, List.append_nil,
        List.foldlM_append, hseq,
        List.foldlM_cons, List.foldlM_nil, Option.bind_eq_bind, Option.bind_some, Option.pure_def,
          hhb, hka] <;>
      cases seqSet <;> rfl
  | nodeList seq type ring vote =>
    simp only [opts, List.foldlM_cons, List.foldlM_nil, Option.bind_eq_bind, Option.bind_some,
      decode_msgSeqNumber, decode_nodeListType, decode_ring, decode_vote]
    rfl
  | voteInfo seq ring vote =>
    simp only [opts, List.foldlM_cons, List.foldlM_nil, Option.bind_eq_bind, Option.bind_some,
      decode_msgSeqNumber, decode_ring, decode_vote]
    rfl
  | heuristicsChange seqSet seq vote =>
    simp only [opts, List.foldlM_append, hseq, List.foldlM_cons, List.foldlM_nil,
      Option.bind_eq_bind, Option.bind_some, decode_vote]
    cases seqSet <;> rfl

theorem opts_length (r : Reply) : (optBytes r.opts).length < 2 ^ 32 := by
  have hseq : ∀ seqSet seq, (optBytes (Opt.seq seqSet seq)).length ≤ 8 := by
    intro seqSet seq
    cases seqSet <;> simp [Opt.seq, Opt.bytes_length, Opt.u32]
  cases r with
  | preinit seqSet seq | serverError seqSet seq | heuristicsChange seqSet seq =>
    have h := hseq seqSet seq
    simp only [opts, optBytes_append, optBytes_cons, optBytes_nil, List.length_append,
      Opt.bytes_length, Opt.u8, Opt.u16, List.length_cons, List.length_nil]
    omega
  | init seqSet seq code messages options =>
    have h := hseq seqSet seq
    have hu16 : ∀ o arr h, (Opt.u16s o arr h).data.length = arr.length * 2 := by
      intro o arr h
      simp [Opt.u16s, List.length_flatMap]
    have hm : SUPPORTED_MESSAGES.length = 18 := rfl
    have ho : SUPPORTED_OPTIONS.length = 24 := rfl
    have ha : SUPPORTED_ALGORITHMS.length = 1 := rfl
    cases messages <;> cases options <;>
      simp only [opts, if_true, if_false, Bool.false_eq_true, optBytes_append, optBytes_cons,
        optBytes_nil, List.length_append, Opt.bytes_length, hu16, hm, ho, ha] <;>
      simp only [Opt.u16, Opt.u32, List.length_cons, List.length_nil] <;> omega
  | setOption seqSet seq hbSet hb kaptbSet kaptb =>
    have h := hseq seqSet seq
    cases hbSet <;> cases kaptbSet <;>
      simp only [opts, if_true, if_false, Bool.false_eq_true, optBytes_append, optBytes_cons,
        optBytes_nil,
        List.length_append, Opt.bytes_length, Opt.u8, Opt.u32, List.length_cons,
          List.length_nil] <;> omega
  | nodeList | voteInfo =>
    simp [opts, Opt.bytes_length, Opt.u8, Opt.u32, Opt.ring, TlvWriter.bytes64]

end Reply

theorem optFrame_eq (type : MsgType) (l : List Opt) :
    optFrame type l =
      bePut32 (bePut16 [] type.code) (UInt32.ofNat (optBytes l).length) ++ optBytes l := by
  have hlen : (beginFrame type ++ optBytes l).length - MSG_HEADER_LEN = (optBytes l).length := by
    rw [List.length_append]
    exact Nat.add_sub_cancel_left _ _
  rw [optFrame, endFrame, hlen]
  rfl

/-- A reply has its type and exactly its length in the header, and decodes to its arguments. -/
theorem Reply.decode_frame (r : Reply) :
    beGet16 r.frame = r.type.code ∧
    r.frame.length = MSG_HEADER_LEN + (beGet32 (r.frame.drop 2)).toNat ∧
      msgDecode r.type (r.frame.drop MSG_HEADER_LEN) = some r.msg := by
  have hlen : (beGet32 ((optFrame r.type r.opts).drop 2)).toNat = (optBytes r.opts).length := by
    have hget : beGet32 ((optFrame r.type r.opts).drop 2) =
        UInt32.ofNat (optBytes r.opts).length := by
      rw [optFrame_eq]
      exact beGet32_be _ _
    rw [hget, UInt32.toNat_ofNat']
    exact Nat.mod_eq_of_lt r.opts_length
  have hdrop : (optFrame r.type r.opts).drop MSG_HEADER_LEN = optBytes r.opts := by
    rw [optFrame_eq]
    rfl
  rw [r.frame_eq]
  refine ⟨?_, ?_, ?_⟩
  · rw [optFrame_eq]
    exact beGet16_be _ _
  · rw [hlen, optFrame_eq, List.length_append]
    rfl
  · rw [hdrop, msgDecode_options, r.decode_opts]

theorem Reply.decodeFrame_frame (r : Reply) : decodeFrame r.frame = some r.msg := by
  rw [r.frame_eq, decodeFrame_optFrame, r.decode_opts]

theorem ReplyFrame.vote_ne_ack {f : Frame} (h : ReplyFrame f)
    (ht : frameType f = .nodeListReply ∨ frameType f = .heuristicsChangeReply) :
    ∃ m, decodeFrame f = some m ∧ m.voteSet = true ∧ m.vote ≠ .ack := by
  cases h with
  | preinitReply => simp [buildPreinitReply_eq] at ht
  | serverError => simp [buildServerError_eq] at ht
  | initReply => simp [buildInitReply_eq] at ht
  | setOptionReply => simp [buildSetOptionReply_eq] at ht
  | echoReply f => rcases frameType_buildEchoReply f with h | h <;> simp [h] at ht
  | nodeListReply seq type ring vote hv =>
    exact ⟨_, (Reply.nodeList seq type ring vote).decodeFrame_frame, rfl, hv⟩
  | heuristicsChangeReply seqSet seq vote hv =>
    exact ⟨_, (Reply.heuristicsChange seqSet seq vote).decodeFrame_frame, rfl, hv⟩

/-- Decode undoes encode. Of any sequence of written fields, with at most 16 nodes, the decoder
returns the last value of each, the nodes in order and the tie-breaker up to its equality. The frame
of every builder has its type and exactly its length in the header, and decodes to the arguments; an
echo reply has the length and the payload of the request. -/
theorem decode_undoes_encode :
    (∀ (type : MsgType) (fields : List Field), (fields.filterMap Field.nodeInfo?).length ≤
      MAX_NODES_PER_LIST →
      ∃ m, msgDecode type (written fields) = some m ∧
        m.tieBreaker.same (expected type fields).tieBreaker = true ∧
        { m with tieBreaker := (expected type fields).tieBreaker } = expected type fields) ∧
    (∀ r : Reply, beGet16 r.frame = r.type.code ∧
      r.frame.length = MSG_HEADER_LEN + (beGet32 (r.frame.drop 2)).toNat ∧
      msgDecode r.type (r.frame.drop MSG_HEADER_LEN) = some r.msg) ∧
    ∀ request : Frame, request.length = MSG_HEADER_LEN + (beGet32 (request.drop 2)).toNat →
      beGet16 (buildEchoReply request) = MsgType.echoReply.code ∧
        (buildEchoReply request).length =
          MSG_HEADER_LEN + (beGet32 ((buildEchoReply request).drop 2)).toNat ∧
        (buildEchoReply request).drop 2 = request.drop 2 ∧
        ∀ type, msgDecode type ((buildEchoReply request).drop MSG_HEADER_LEN) =
          msgDecode type (request.drop MSG_HEADER_LEN) := by
  refine ⟨fun type fields h => ⟨_, msgDecode_written type fields h, TieBreaker.onWire_same _, rfl⟩,
    Reply.decode_frame, fun request h => ?_⟩
  have hdrop : ∀ k, 2 ≤ k → (buildEchoReply request).drop k = request.drop k := by
    intro k hk
    rw [buildEchoReply, List.drop_set_of_lt (by omega), List.drop_set_of_lt (by omega)]
  refine ⟨?_, ?_, hdrop 2 le_rfl, fun type => by rw [hdrop MSG_HEADER_LEN (by decide)]⟩
  · obtain ⟨x, y, l, rfl⟩ : ∃ x y l, request = x :: y :: l := by
      have hhead : 2 ≤ request.length := h.symm ▸ Nat.le_add_right_of_le (by decide)
      rcases request with _ | ⟨x, _ | ⟨y, l⟩⟩
      · simp at hhead
      · simp at hhead
      · exact ⟨x, y, l, rfl⟩
    exact beGet16_be _ l
  · rw [hdrop 2 le_rfl, ← h]
    simp [buildEchoReply]

end Qnetd
