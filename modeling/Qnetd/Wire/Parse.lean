import Mathlib.Logic.Function.Iterate
import Qnetd.Wire.Codec

/-!
# Exact parsing

Which payloads the iterator and the decoder accept, and what they make of them.

* `Stuck` : bytes no option is in front of; `exists_options` : every payload is a list of options
  with nothing or something stuck behind it;
* `TlvIterator.drive` : the iterator driven to its end; `drive_append` : what it then
  returns, and the options it has yielded;
* `TlvIterator.nextChecked` : `next` with every read checked against the payload; `nextChecked_eq` :
  no check fails;
* `Opt.Valid`, `Opt.NodeValid` : the length and value constraint of each type;
* `scalars`, `nodeOf` : the message and the node that a list of options describes;
* `msgDecode_eq_some` : the decoder accepts exactly the valid lists of options, and reads the last
  of each type.
-/

namespace Qnetd

/-! ## Bytes with no option in front -/

/-- Something is left, and it is not an option with anything behind it. -/
def Stuck (b : Bytes) : Prop := b ≠ [] ∧ ∀ (o : Opt) (rest : Bytes), b ≠ o.bytes ++ rest

theorem bePut16_beGet16 (buf : Bytes) (a c : UInt8) (l : Bytes) :
    bePut16 buf (beGet16 (a :: c :: l)) = buf ++ [a, c] := by
  have hn : (beGet16 (a :: c :: l)).toNat = a.toNat * 2 ^ 8 + c.toNat := beGet16_toNat (a :: c :: l)
  have ha := a.toNat_lt
  have hc := c.toNat_lt
  have hhigh : (beGet16 (a :: c :: l) >>> 8).toUInt8 = a := by
    apply UInt8.toNat.inj
    simp [hn, Nat.shiftRight_eq_div_pow]
    omega
  have hlow : (beGet16 (a :: c :: l)).toUInt8 = c := by
    apply UInt8.toNat.inj
    simp [hn]
  rw [bePut16, hhigh, hlow]

theorem exists_opt {b : Bytes} (h4 : 4 ≤ b.length)
    (hlen : 4 + (beGet16 (b.drop 2)).toNat ≤ b.length) :
    ∃ (o : Opt) (rest : Bytes), b = o.bytes ++ rest := by
  obtain ⟨b0, b1, b2, b3, d, rfl⟩ : ∃ b0 b1 b2 b3 d, b = b0 :: b1 :: b2 :: b3 :: d := by
    rcases b with _ | ⟨b0, _ | ⟨b1, _ | ⟨b2, _ | ⟨b3, d⟩⟩⟩⟩
    · simp at h4
    · simp at h4
    · simp at h4
    · simp at h4
    · exact ⟨b0, b1, b2, b3, d, rfl⟩
  generalize hn : beGet16 (b2 :: b3 :: d) = n
  have hd : (d.take n.toNat).length = n.toNat := by
    rw [List.drop_succ_cons, List.drop_succ_cons, List.drop_zero, hn] at hlen
    simp only [List.length_cons] at hlen
    rw [List.length_take]
    omega
  obtain ⟨o, htype, hdata⟩ : ∃ o : Opt, o.type = beGet16 [b0, b1] ∧ o.data = d.take n.toNat :=
    ⟨⟨beGet16 [b0, b1], d.take n.toNat, by rw [hd]; exact n.toNat_lt⟩, rfl, rfl⟩
  have hlength : o.length = n := by rw [Opt.length, hdata, hd, UInt16.ofNat_toNat]
  have hbytes : o.bytes = [b0, b1, b2, b3] ++ d.take n.toNat := by
    rw [Opt.bytes, htype, hlength, ← hn, bePut16_beGet16, bePut16_beGet16, hn, hdata]
    rfl
  refine ⟨o, d.drop n.toNat, ?_⟩
  rw [hbytes, List.append_assoc, List.take_append_drop]
  rfl

/-- Every payload is a list of options, with nothing or something stuck behind it. -/
theorem exists_options (b : Bytes) : ∃ (l : List Opt) (rest : Bytes), b = optBytes l ++ rest ∧
    (rest = [] ∨ Stuck rest) := by
  induction hn : b.length using Nat.strong_induction_on generalizing b with
  | _ n ih =>
    by_cases hb : b = []
    · exact ⟨[], [], by simp [hb], Or.inl rfl⟩
    by_cases ho : ∃ (o : Opt) (rest : Bytes), b = o.bytes ++ rest
    · obtain ⟨o, rest, rfl⟩ := ho
      have hlt : rest.length < n := by
        rw [← hn, List.length_append, o.bytes_length]
        omega
      obtain ⟨l, rest', rfl, hrest⟩ := ih rest.length hlt rest rfl
      exact ⟨o :: l, rest', by simp, hrest⟩
    · exact ⟨[], b, rfl, Or.inr ⟨hb, fun o rest h => ho ⟨o, rest, h⟩⟩⟩

/-! ## The iterator -/

namespace TlvIterator

theorem next_stuck {it : TlvIterator} {pre rest : Bytes} (h : Reads it pre rest) (hs : Stuck rest) :
    it.next.1 = -1 := by
  have hpos := h.pos
  unfold nextPos at hpos
  have hlen : it.len = pre.length + rest.length := by rw [h.len, List.length_append]
  have hne : 0 < rest.length := List.length_pos_iff.mpr hs.1
  have hl : beGet16 (it.p.drop (pre.length + 2)) = beGet16 (rest.drop 2) := by
    rw [h.p, ← List.drop_drop, List.drop_left]
  simp only [next, hpos, hl]
  rw [if_neg (by omega)]
  split_ifs with h4 hfit
  · rfl
  · rfl
  · obtain ⟨o, rest', ho⟩ := exists_opt (b := rest) (by omega) (by omega)
    exact absurd ho (hs.2 o rest')

/-- `while (it.next() > 0)`: what the last call returned, and the type and data of each option
before it. -/
def drive : Nat → TlvIterator → Option (Int × List (UInt16 × Bytes))
  | 0, _ => none
  | fuel + 1, it =>
    let (r, it) := it.next
    if r > 0 then (drive fuel it).map fun res =>
      (res.1, (it.type, it.data.take it.length.toNat) :: res.2)
    else some (r, [])

theorem drive_append (l : List Opt) : ∀ {fuel : Nat} {it : TlvIterator} {pre rest : Bytes},
    it.Reads pre (optBytes l ++ rest) → (rest = [] ∨ Stuck rest) → l.length < fuel →
    drive fuel it = some (if rest = [] then 0 else -1, l.map fun o => (o.type, o.data)) := by
  induction l with
  | nil =>
    intro fuel it pre rest h hrest hf
    obtain ⟨n, rfl⟩ := Nat.exists_eq_succ_of_ne_zero (Nat.ne_of_gt hf)
    rcases hrest with rfl | hs
    · simp [drive, next_end h]
    · simp [drive, next_stuck h hs, hs.1]
  | cons o l ih =>
    intro fuel it pre rest h hrest hf
    obtain ⟨n, rfl⟩ := Nat.exists_eq_succ_of_ne_zero (Nat.ne_zero_of_lt hf)
    rw [optBytes_cons, List.append_assoc] at h
    have hdata : (it.onto pre o).data.take (it.onto pre o).length.toNat = o.data := by
      change (it.onto pre o).data.take o.length.toNat = o.data
      rw [onto_data h, o.length_toNat, List.take_left]
    simp only [drive, next_opt h, hdata, ih h.onto hrest (Nat.lt_of_succ_lt_succ hf)]
    rfl

/-- The two bytes of a big-endian number, each read only if it is there. -/
def checkedGet16 (p : Bytes) (i : Nat) : Option UInt16 := do
  let high ← p[i]?
  let low ← p[i + 1]?
  some (high.toUInt16 <<< 8 ||| low.toUInt16)

/-- `next` with checked reads: `none` for a read outside the payload. -/
def nextChecked (it : TlvIterator) : Option (Int × TlvIterator) :=
  let nextPos := if it.first then 0 else it.pos + 4 + it.curLen.toNat
  let it := { it with first := false }
  if nextPos = it.len then some (0, it)
  else if nextPos + 4 > it.len then some (-1, it)
  else do
    let curType ← checkedGet16 it.p nextPos
    let curLen ← checkedGet16 it.p (nextPos + 2)
    let it := { it with pos := nextPos, curType := curType, curLen := curLen }
    if it.pos + 4 + it.curLen.toNat > it.len then some (-1, it) else some (1, it)

theorem checkedGet16_eq {p : Bytes} {i : Nat} (h : i + 1 < p.length) :
    checkedGet16 p i = some (beGet16 (p.drop i)) := by
  have h0 : p[i]? = some p[i] := List.getElem?_eq_getElem (by omega)
  have h1 : p[i + 1]? = some p[i + 1] := List.getElem?_eq_getElem h
  simp [checkedGet16, beGet16, h0, h1]

/-- No call reads outside the payload. -/
theorem nextChecked_eq {it : TlvIterator} (h : it.len = it.p.length) :
    it.nextChecked = some it.next := by
  simp only [nextChecked, next]
  generalize (if it.first = true then 0 else it.pos + 4 + it.curLen.toNat) = k
  by_cases hend : k = it.len
  · rw [if_pos hend, if_pos hend]
  by_cases hshort : k + 4 > it.len
  · rw [if_neg hend, if_neg hend, if_pos hshort, if_pos hshort]
  rw [if_neg hend, if_neg hend, if_neg hshort, if_neg hshort, checkedGet16_eq (by omega),
    checkedGet16_eq (by omega)]
  simp only [Option.bind_eq_bind, Option.bind_some]
  split_ifs <;> rfl

theorem next_payload (it : TlvIterator) : it.next.2.p = it.p ∧ it.next.2.len = it.len := by
  simp only [next]
  split_ifs <;> exact ⟨rfl, rfl⟩

theorem iterate_next_payload (p : Bytes) (n : Nat) :
    ((fun it : TlvIterator => it.next.2)^[n] (ofPayload p)).p = p ∧
      ((fun it : TlvIterator => it.next.2)^[n] (ofPayload p)).len = p.length := by
  induction n with
  | zero => exact ⟨rfl, rfl⟩
  | succ n ih =>
    rw [Function.iterate_succ_apply']
    exact ⟨(next_payload _).1.trans ih.1, (next_payload _).2.trans ih.2⟩

end TlvIterator

/-! ## The loops over the options -/

theorem optLoop_append {α β : Type} {step : TlvIterator → α → Option α} (hstep : Local step)
    (finish : α → Option β)
    (l : List Opt) {fuel : Nat} {it : TlvIterator} {pre rest : Bytes} (a : α)
    (h : it.Reads pre (optBytes l ++ rest))
    (hrest : rest = [] ∨ Stuck rest) (hf : l.length < fuel) :
    optLoop step finish fuel it a =
      if rest = [] then (l.foldlM (fun a o => step o.iterator a) a).bind finish else none := by
  obtain ⟨it', hreads, left, hloop⟩ := optLoop_options hstep finish l h hf
  rw [hloop]
  rcases hrest with rfl | hs
  · simp [optLoop, TlvIterator.next_end hreads]
  · simp [optLoop, TlvIterator.next_stuck hreads hs, hs.1]

/-- A loop accepts nothing but lists of options. -/
theorem optLoop_eq_some {α β : Type} {step : TlvIterator → α → Option α} (hstep : Local step)
    (finish : α → Option β) (p : Bytes) (a : α) (b : β) :
    optLoop step finish (p.length + 1) (.ofPayload p) a = some b ↔
      ∃ l, p = optBytes l ∧ (l.foldlM (fun a o => step o.iterator a) a).bind finish = some b := by
  have hloop : ∀ (l : List Opt) (rest : Bytes), (rest = [] ∨ Stuck rest) → p = optBytes l ++ rest →
      optLoop step finish (p.length + 1) (.ofPayload p) a =
        if rest = [] then (l.foldlM (fun a o => step o.iterator a) a).bind finish else none := by
    intro l rest hrest hp
    obtain ⟨hreads, hl⟩ := TlvIterator.reads_options hp
    exact optLoop_append hstep finish l a hreads hrest hl
  constructor
  · intro h
    obtain ⟨l, rest, hp, hrest⟩ := exists_options p
    rw [hloop l rest hrest hp] at h
    split_ifs at h with hnil
    exact ⟨l, by rw [hp, hnil, List.append_nil], h⟩
  · rintro ⟨l, hp, h⟩
    rw [hloop l [] (Or.inl rfl) (by rw [hp, List.append_nil]), if_pos rfl]
    exact h

theorem decodeNodeInfoLoop_eq (fuel : Nat) : ∀ (it : TlvIterator) (acc : NodeInfo × Bool),
    decodeNodeInfoLoop fuel it acc =
      optLoop decodeNodeInfoOpt (fun acc => if acc.2 then some acc.1 else none) fuel it acc := by
  induction fuel with
  | zero => intro it acc; rfl
  | succ fuel ih =>
    intro it acc
    simp only [decodeNodeInfoLoop, optLoop]
    cases decodeNodeInfoOpt it.next.2 acc with
    | none => by_cases h0 : it.next.1 = 0 <;> simp [h0]
    | some acc' => by_cases h0 : it.next.1 = 0 <;> simp [h0, ih]

/-! ## The options a list describes -/

def lastOpt (l : List Opt) (t : TlvOpt) : Option Opt :=
  l.reverse.find? fun o => TlvOpt.ofCode o.type = some t

def has (l : List Opt) (t : TlvOpt) : Bool := (lastOpt l t).isSome

/-- The value of the last option of the type, or the default. -/
def valueOf {α : Type} (l : List Opt) (t : TlvOpt) (read : Bytes → α) (default : α) : α :=
  ((lastOpt l t).map fun o => read o.data).getD default

theorem lastOpt_snoc (l : List Opt) (o : Opt) (t : TlvOpt) :
    lastOpt (l ++ [o]) t = if TlvOpt.ofCode o.type = some t then some o else lastOpt l t := by
  by_cases h : TlvOpt.ofCode o.type = some t <;> simp [lastOpt, h]

theorem has_snoc (l : List Opt) (o : Opt) (t : TlvOpt) :
    has (l ++ [o]) t = if TlvOpt.ofCode o.type = some t then true else has l t := by
  rw [has, lastOpt_snoc, apply_ite Option.isSome]
  rfl

theorem valueOf_snoc {α : Type} (l : List Opt) (o : Opt) (t : TlvOpt) (read : Bytes → α)
    (default : α) : valueOf (l ++ [o]) t read default =
      if TlvOpt.ofCode o.type = some t then read o.data else valueOf l t read default := by
  rw [valueOf, lastOpt_snoc]
  split_ifs <;> rfl

theorem Opt.length_eq_iff (o : Opt) (k : UInt16) : o.length = k ↔ o.data.length = k.toNat := by
  rw [← o.length_toNat]
  exact UInt16.toNat_inj.symm

/-! ### Nodes -/

/-- The size of the options a node is made of. -/
def Opt.NodeValid (o : Opt) : Prop :=
  match TlvOpt.ofCode o.type with
  | some .nodeId | some .dataCenterId => o.data.length = 4
  | some .nodeState => o.data.length = 1
  | _ => True

def nodeOf (l : List Opt) : NodeInfo where
  nodeId := valueOf l .nodeId beGet32 0
  dataCenterId := valueOf l .dataCenterId beGet32 0
  state := valueOf l .nodeState (fun d => NodeState.ofCode (d.getD 0 0)) .notSet

theorem decodeNodeInfoOpt_local : Local decodeNodeInfoOpt := by
  intro it it' ht hl hd acc
  have hbyte : it.length = 1 → it'.data.getD 0 0 = it.data.getD 0 0 :=
    fun h => reads_byte.congr hd (by rw [h]; decide)
  have h32 : it.length = 4 → beGet32 it'.data = beGet32 it.data :=
    fun h => reads_beGet32.congr hd (by rw [h]; decide)
  simp only [decodeNodeInfoOpt, ht, hl]
  cases TlvOpt.ofCode it.type with
  | none => rfl
  | some o =>
    cases o with
    | nodeId | dataCenterId =>
      by_cases h : it.length = 4
      · simp only [h32 h]
      · simp [h]
    | nodeState =>
      by_cases h : it.length = 1
      · simp only [hbyte h]
      · simp [h]
    | _ => rfl

theorem decodeNodeInfoOpt_snoc (l : List Opt) (o : Opt) (acc : NodeInfo × Bool) :
    decodeNodeInfoOpt o.iterator (nodeOf l, has l .nodeId) = some acc ↔
      o.NodeValid ∧ acc = (nodeOf (l ++ [o]), has (l ++ [o]) .nodeId) := by
  have ht : o.iterator.type = o.type := rfl
  have hl : o.iterator.length = o.length := rfl
  simp only [decodeNodeInfoOpt, nodeOf, valueOf_snoc, has_snoc, o.iterator_data, ht, hl,
    Opt.NodeValid, ne_eq, o.length_eq_iff]
  cases TlvOpt.ofCode o.type with
  | none => simp [eq_comm]
  | some t =>
    cases t with
    | nodeId | dataCenterId =>
      by_cases h : o.data.length = 4 <;> simp [h, eq_comm]
    | nodeState => by_cases h : o.data.length = 1 <;> simp [h, eq_comm]
    | _ => simp [eq_comm]

theorem foldlM_decodeNodeInfo (l : List Opt) (acc : NodeInfo × Bool) :
    l.foldlM (fun acc o => decodeNodeInfoOpt o.iterator acc) ({}, false) = some acc ↔
      (∀ o ∈ l, o.NodeValid) ∧ acc = (nodeOf l, has l .nodeId) := by
  induction l using List.reverseRecOn generalizing acc with
  | nil => simp [nodeOf, has, valueOf, lastOpt, eq_comm]
  | append_singleton l o ih =>
    rw [List.foldlM_append]
    simp only [List.foldlM_cons, List.foldlM_nil, Option.bind_eq_bind, Option.bind_eq_some_iff, ih,
      Option.pure_def, Option.some.injEq, List.mem_append, List.mem_singleton]
    constructor
    · rintro ⟨acc', ⟨hv, rfl⟩, acc'', hstep, rfl⟩
      obtain ⟨ho, hacc⟩ := (decodeNodeInfoOpt_snoc l o acc'').mp hstep
      refine ⟨?_, hacc⟩
      rintro o' (h | rfl)
      · exact hv o' h
      · exact ho
    · rintro ⟨hv, rfl⟩
      exact ⟨_, ⟨fun o' h => hv o' (Or.inl h), rfl⟩, _,
        (decodeNodeInfoOpt_snoc l o _).mpr ⟨hv o (Or.inr rfl), rfl⟩, rfl⟩

/-- The blob of a node: options of the right sizes, and a node id among them. -/
def NodeBlob (data : Bytes) (l : List Opt) : Prop :=
  data = optBytes l ∧ (∀ o ∈ l, o.NodeValid) ∧ has l .nodeId = true

/-- `decode_node_info` accepts exactly the node blobs. -/
theorem decodeNodeInfo_eq_some (data : Bytes) (n : NodeInfo) :
    decodeNodeInfo data = some n ↔ ∃ l, NodeBlob data l ∧ n = nodeOf l := by
  rw [decodeNodeInfo, decodeNodeInfoLoop_eq, optLoop_eq_some decodeNodeInfoOpt_local]
  refine exists_congr fun l => ?_
  simp only [Option.bind_eq_some_iff, foldlM_decodeNodeInfo, NodeBlob]
  constructor
  · rintro ⟨hp, acc, ⟨hv, rfl⟩, hfin⟩
    split_ifs at hfin with hid
    exact ⟨⟨hp, hv, hid⟩, (Option.some.inj hfin).symm⟩
  · rintro ⟨⟨hp, hv, hid⟩, rfl⟩
    exact ⟨hp, _, ⟨hv, rfl⟩, if_pos hid⟩

/-! ### Messages -/

/-- The types the decoder knows. -/
def Opt.known (o : Opt) : Bool :=
  match TlvOpt.ofCode o.type with
  | none | some .replyErrorCode | some .serverMaximumRequestSize | some .serverMaximumReplySize
  | some .supportedDecisionAlgorithms | some .dataCenterId | some .nodeState => false
  | _ => true

def Opt.byte (o : Opt) : UInt8 := o.data.getD 0 0

/-- The length and value constraint of the option's type. -/
def Opt.Valid (o : Opt) : Prop :=
  match TlvOpt.ofCode o.type with
  | some .msgSeqNumber | some .nodeId | some .heartbeatInterval => o.data.length = 4
  | some .tlsSupported | some .heuristics => o.data.length = 1 ∧ o.byte ≤ 2
  | some .tlsClientCertRequired | some .keepActivePartitionTieBreaker => o.data.length = 1
  | some .supportedMessages | some .supportedOptions => o.data.length % 2 = 0
  | some .decisionAlgorithm => o.data.length = 2
  | some .ringId => o.data.length = 12
  | some .configVersion => o.data.length = 8
  | some .nodeInfo => ∃ l, NodeBlob o.data l
  | some .nodeListType => o.data.length = 1 ∧ o.byte ≤ 3
  | some .vote => o.data.length = 1 ∧ o.byte ≤ 5
  | some .quorate => o.data.length = 1 ∧ o.byte ≤ 1
  | some .tieBreaker => o.data.length = 5 ∧ 1 ≤ o.byte ∧ o.byte ≤ 3
  | _ => True

def nodeOpts (l : List Opt) : List Opt := l.filter fun o => TlvOpt.ofCode o.type = some .nodeInfo

/-- The message of the last option of each type, with these nodes. -/
def scalars (type : MsgType) (l : List Opt) (nodes : NodeList) : MsgDecoded where
  type := type
  seqNumberSet := has l .msgSeqNumber
  seqNumber := valueOf l .msgSeqNumber beGet32 0
  clusterName := valueOf l .clusterName id []
  tlsSupportedSet := has l .tlsSupported
  tlsSupported := valueOf l .tlsSupported (fun d => TlsSupported.ofCode (d.getD 0 0)) .unsupported
  tlsClientCertRequiredSet := has l .tlsClientCertRequired
  tlsClientCertRequired := valueOf l .tlsClientCertRequired (fun d => d.getD 0 0) 0
  supportedMessagesPresent := has l .supportedMessages
  supportedOptionsPresent := has l .supportedOptions
  nodeIdSet := has l .nodeId
  nodeId := valueOf l .nodeId beGet32 0
  decisionAlgorithmSet := has l .decisionAlgorithm
  decisionAlgorithm := valueOf l .decisionAlgorithm (fun d => Algorithm.ofCode (beGet16 d)) .test
  heartbeatIntervalSet := has l .heartbeatInterval
  heartbeatInterval := valueOf l .heartbeatInterval beGet32 0
  ringIdSet := has l .ringId
  ringId := valueOf l .ringId (fun d => { nodeId := beGet32 d, seq := beGet64 (d.drop 4) }) {}
  configVersionSet := has l .configVersion
  configVersion := valueOf l .configVersion beGet64 0
  nodes := nodes
  nodeListTypeSet := has l .nodeListType
  nodeListType := valueOf l .nodeListType (fun d => NodeListType.ofCode (d.getD 0 0)) .initialConfig
  voteSet := has l .vote
  vote := valueOf l .vote (fun d => Vote.ofCode (d.getD 0 0)) .undefined
  quorateSet := has l .quorate
  quorate := valueOf l .quorate (fun d => d.getD 0 0) 0
  tieBreakerSet := has l .tieBreaker
  tieBreaker := valueOf l .tieBreaker
    (fun d => { mode := TieBreakerMode.ofCode (d.getD 0 0), nodeId := beGet32 (d.drop 1) }) {}
  heuristics := valueOf l .heuristics (fun d => Heuristics.ofCode (d.getD 0 0)) .undefined
  keepActivePartitionTieBreakerSet := has l .keepActivePartitionTieBreaker
  keepActivePartitionTieBreaker := valueOf l .keepActivePartitionTieBreaker (fun d => d.getD 0 0) 0

/-- The nodes of the NODE_INFO options, as far as they decode. -/
def nodesOf (l : List Opt) : NodeList :=
  { nodes := (nodeOpts l).filterMap fun o => decodeNodeInfo o.data }

theorem nodeOpts_snoc (l : List Opt) (o : Opt) :
    nodeOpts (l ++ [o]) =
      if TlvOpt.ofCode o.type = some .nodeInfo then nodeOpts l ++ [o] else nodeOpts l := by
  by_cases h : TlvOpt.ofCode o.type = some .nodeInfo <;> simp [nodeOpts, h]

theorem nodesOf_snoc (l : List Opt) (o : Opt) :
    nodesOf (l ++ [o]) = if TlvOpt.ofCode o.type = some .nodeInfo then
      { nodes := (nodesOf l).nodes ++ (decodeNodeInfo o.data).toList } else nodesOf l := by
  rw [nodesOf, nodeOpts_snoc]
  split_ifs with h
  · cases hd : decodeNodeInfo o.data <;> simp [nodesOf, hd]
  · rfl

/-- The message a list of options describes. -/
def described (type : MsgType) (l : List Opt) : MsgDecoded := scalars type l (nodesOf l)

theorem mod_two_iff (o : Opt) : o.length % 2 = 0 ↔ o.data.length % 2 = 0 := by
  rw [← o.length_toNat, ← UInt16.toNat_inj]
  rfl

theorem guard_eq_some {α : Type} {p q : Prop} [Decidable p] (h : ¬p ↔ q) (x m : α) :
    (if p then none else some x) = some m ↔ q ∧ m = x := by
  rw [← h]
  by_cases hp : p
  · simp [hp]
  · simp [hp, eq_comm]

theorem decode_described (type : MsgType) (l : List Opt) (o : Opt) (m : MsgDecoded)
    (hn : (nodesOf l).nodes.length = (nodeOpts l).length) :
    o.decode (described type l) = some m ↔
      (o.Valid ∧
      (TlvOpt.ofCode o.type = some .nodeInfo → (nodeOpts l).length < MAX_NODES_PER_LIST)) ∧
        m = described type (l ++ [o]) := by
  have ht : o.iterator.type = o.type := rfl
  have hl : o.iterator.length = o.length := rfl
  have htake : o.data.take o.length.toNat = o.data := by rw [o.length_toNat, List.take_length]
  have hbyte : ∀ k : UInt8, ¬(¬o.data.length = 1 ∨ o.data.getD 0 0 > k) ↔ o.data.length = 1 ∧
      o.data.getD 0 0 ≤ k := by
    intro k
    rw [not_or, not_not, gt_iff_lt, UInt8.not_lt]
  have htie : ¬(¬o.data.length = 5 ∨ o.data.getD 0 0 < 1 ∨ o.data.getD 0 0 > 3) ↔
      o.data.length = 5 ∧ 1 ≤ o.data.getD 0 0 ∧ o.data.getD 0 0 ≤ 3 := by
    rw [not_or, not_or, not_not, gt_iff_lt, UInt8.not_lt, UInt8.not_lt]
  simp only [Opt.decode, msgDecodeOpt, described, scalars, valueOf_snoc, has_snoc, nodesOf_snoc,
    o.iterator_data, ht, hl, Opt.Valid, Opt.byte, ne_eq, o.length_eq_iff, mod_two_iff, htake]
  cases TlvOpt.ofCode o.type with
  | none =>
    simp only [reduceCtorEq, if_false, false_implies, and_true, true_and,
      Option.some.injEq, eq_comm]
  | some t =>
    cases t with
    | nodeInfo =>
      simp only [Option.some.injEq, reduceCtorEq, if_true, if_false, true_implies]
      cases hd : decodeNodeInfo o.data with
      | none =>
        have hno : ¬∃ l, NodeBlob o.data l := by
          rintro ⟨l', hl'⟩
          rw [(decodeNodeInfo_eq_some o.data _).mpr ⟨l', hl', rfl⟩] at hd
          cases hd
        simp only [reduceCtorEq, hno, false_and]
      | some n =>
        have hblob : ∃ l, NodeBlob o.data l := by
          obtain ⟨l', hl', -⟩ := (decodeNodeInfo_eq_some o.data n).mp hd
          exact ⟨l', hl'⟩
        simp only [hblob, true_and, Option.toList_some]
        refine guard_eq_some ?_ _ m
        rw [NodeList.size, hn, ge_iff_le, not_le]
    | tlsSupported | heuristics | nodeListType | vote | quorate =>
      simp only [Option.some.injEq, reduceCtorEq, if_true, if_false, false_implies, and_true]
      exact guard_eq_some (hbyte _) _ m
    | tieBreaker =>
      simp only [Option.some.injEq, reduceCtorEq, if_true, if_false, false_implies, and_true]
      exact guard_eq_some htie _ m
    | clusterName | replyErrorCode | serverMaximumRequestSize | serverMaximumReplySize | supportedDecisionAlgorithms
    | dataCenterId | nodeState =>
      simp only [Option.some.injEq, reduceCtorEq, if_true, if_false, false_implies, and_true,
        true_and, id, eq_comm]
    | _ =>
      simp only [Option.some.injEq, reduceCtorEq, if_true, if_false, false_implies, and_true]
      exact guard_eq_some not_not _ m

/-- A node is what the blob of its option describes. -/
def DescribesNode (o : Opt) (n : NodeInfo) : Prop := ∃ l, NodeBlob o.data l ∧ n = nodeOf l

theorem forall₂_nodes {os : List Opt} (h : ∀ o ∈ os, ∃ l, NodeBlob o.data l) :
    List.Forall₂ DescribesNode os (os.filterMap fun o => decodeNodeInfo o.data) := by
  induction os with
  | nil => exact .nil
  | cons o os ih =>
    obtain ⟨l, hl⟩ := h o (List.mem_cons_self ..)
    have hd : decodeNodeInfo o.data = some (nodeOf l) :=
      (decodeNodeInfo_eq_some _ _).mpr ⟨l, hl, rfl⟩
    rw [List.filterMap_cons, hd]
    exact .cons ⟨l, hl, rfl⟩ (ih fun o' ho' => h o' (List.mem_cons_of_mem _ ho'))

theorem eq_of_forall₂_nodes {os : List Opt} {ns : List NodeInfo}
    (h : List.Forall₂ DescribesNode os ns) : ns = os.filterMap fun o => decodeNodeInfo o.data := by
  induction h with
  | nil => rfl
  | cons ho _ ih => rw [List.filterMap_cons, (decodeNodeInfo_eq_some _ _).mpr ho, ih]

theorem Opt.Valid.nodeBlob {o : Opt} (h : o.Valid) (ht : TlvOpt.ofCode o.type = some .nodeInfo) :
    ∃ l, NodeBlob o.data l := by
  simp only [Opt.Valid, ht] at h
  exact h

theorem nodesOf_describes {l : List Opt} (h : ∀ o ∈ l, o.Valid) :
    List.Forall₂ DescribesNode (nodeOpts l) (nodesOf l).nodes := by
  refine forall₂_nodes fun o ho => ?_
  obtain ⟨hl, ht⟩ := List.mem_filter.mp ho
  exact (h o hl).nodeBlob (of_decide_eq_true ht)

theorem foldlM_decode (type : MsgType) (l : List Opt) (m : MsgDecoded) :
    l.foldlM (fun out o => o.decode out) { type := type } = some m ↔
      ((∀ o ∈ l, o.Valid) ∧ (nodeOpts l).length ≤ MAX_NODES_PER_LIST) ∧ m = described type l := by
  induction l using List.reverseRecOn generalizing m with
  | nil => simp [described, scalars, has, valueOf, lastOpt, nodesOf, nodeOpts, eq_comm]
  | append_singleton l o ih =>
    rw [List.foldlM_append]
    simp only [List.foldlM_cons, List.foldlM_nil, Option.bind_eq_bind, Option.bind_eq_some_iff, ih,
      Option.pure_def, Option.some.injEq, List.mem_append, List.mem_singleton, nodeOpts_snoc]
    constructor
    · rintro ⟨out, ⟨⟨hv, hn⟩, rfl⟩, out', hstep, rfl⟩
      obtain ⟨⟨ho, hlt⟩, hm⟩ :=
        (decode_described type l o _ (nodesOf_describes hv).length_eq.symm).mp hstep
      refine ⟨⟨?_, ?_⟩, hm⟩
      · rintro o' (h | rfl)
        · exact hv o' h
        · exact ho
      · split_ifs with ht
        · rw [List.length_append]
          exact hlt ht
        · exact hn
    · rintro ⟨⟨hv, hn⟩, rfl⟩
      have hv' : ∀ o' ∈ l, o'.Valid := fun o' h => hv o' (Or.inl h)
      have hlen : (nodeOpts l).length ≤ MAX_NODES_PER_LIST := by
        split_ifs at hn with ht
        · rw [List.length_append] at hn
          exact (Nat.le_add_right _ _).trans hn
        · exact hn
      refine ⟨_, ⟨⟨hv', hlen⟩, rfl⟩, _, ?_, rfl⟩
      refine (decode_described type l o _ (nodesOf_describes hv').length_eq.symm).mpr
        ⟨⟨hv o (Or.inr rfl), fun ht => ?_⟩, rfl⟩
      rw [if_pos ht, List.length_append] at hn
      exact hn

/-- The decoder accepts exactly the valid lists of options. -/
theorem msgDecode_eq_some (type : MsgType) (p : Bytes) (m : MsgDecoded) :
    msgDecode type p = some m ↔ ∃ l, p = optBytes l ∧ (∀ o ∈ l, o.Valid) ∧
      (nodeOpts l).length ≤ MAX_NODES_PER_LIST ∧
      List.Forall₂ DescribesNode (nodeOpts l) m.nodes.nodes ∧ m = scalars type l m.nodes := by
  rw [msgDecode, msgDecodeLoop_eq, optLoop_eq_some msgDecodeOpt_local]
  refine exists_congr fun l => and_congr_right fun _ => ?_
  rw [Option.bind_fun_some]
  refine (foldlM_decode type l m).trans ?_
  constructor
  · rintro ⟨⟨hv, hn⟩, rfl⟩
    exact ⟨hv, hn, nodesOf_describes hv, rfl⟩
  · rintro ⟨hv, hn, hnodes, hm⟩
    have hnodes' : m.nodes = nodesOf l := congrArg NodeList.mk (eq_of_forall₂_nodes hnodes)
    rw [hnodes'] at hm
    exact ⟨⟨hv, hn⟩, hm⟩

theorem Opt.decode_of_unknown {o : Opt} (h : o.known = false) (out : MsgDecoded) :
    o.decode out = some out := by
  have ht : o.iterator.type = o.type := rfl
  simp only [Opt.known] at h
  simp only [Opt.decode, msgDecodeOpt, ht]
  cases hopt : TlvOpt.ofCode o.type with
  | none => rfl
  | some t =>
    rw [hopt] at h
    cases t <;> first | rfl | cases h

theorem foldlM_filter_known (l : List Opt) (out : MsgDecoded) :
    (l.filter Opt.known).foldlM (fun out o => o.decode out) out =
      l.foldlM (fun out o => o.decode out) out := by
  induction l generalizing out with
  | nil => rfl
  | cons o l ih =>
    by_cases h : o.known = true
    · rw [List.filter_cons_of_pos h, List.foldlM_cons, List.foldlM_cons]
      exact congrArg _ (funext fun out' => ih out')
    · rw [List.filter_cons_of_neg h, ih, List.foldlM_cons,
        Opt.decode_of_unknown (Bool.not_eq_true _ ▸ h)]
      rfl

/-! ## The format -/

/-- The byte format is parsed exactly. The iterator driven to its end returns 0 on the
concatenations of options, whose options it yields, and -1 on everything else; no call reads outside
the payload. The decoder succeeds exactly on the valid concatenations, each field is read from the
last option of its type, and other options have no influence. -/
theorem payload_parsed_exactly (p : Bytes) :
    (∃ r yielded, TlvIterator.drive (p.length + 1) (.ofPayload p) = some (r, yielded) ∧
      (r = 0 ∨ r = -1) ∧
      (r = 0 ↔ ∃ l, p = optBytes l) ∧ ∀ l, p = optBytes l →
        yielded = l.map fun o => (o.type, o.data)) ∧
    (∀ n, ((fun it : TlvIterator => it.next.2)^[n] (.ofPayload p)).nextChecked =
      some ((fun it : TlvIterator => it.next.2)^[n] (.ofPayload p)).next) ∧
    (∀ type m, msgDecode type p = some m ↔ ∃ l, p = optBytes l ∧ (∀ o ∈ l, o.Valid) ∧
      (nodeOpts l).length ≤ MAX_NODES_PER_LIST ∧
        List.Forall₂ DescribesNode (nodeOpts l) m.nodes.nodes ∧
      m = scalars type l m.nodes) ∧
    ∀ type l, p = optBytes l →
    msgDecode type p = msgDecode type (optBytes (l.filter Opt.known)) := by
  have hdrive : ∀ (l : List Opt) (rest : Bytes), (rest = [] ∨ Stuck rest) → p = optBytes l ++ rest →
      TlvIterator.drive (p.length + 1) (.ofPayload p) =
        some (if rest = [] then 0 else -1, l.map fun o => (o.type, o.data)) := by
    intro l rest hrest hp
    obtain ⟨hreads, hl⟩ := TlvIterator.reads_options hp
    exact TlvIterator.drive_append l hreads hrest hl
  have hclean : ∀ l, p = optBytes l →
      TlvIterator.drive (p.length + 1) (.ofPayload p) =
        some (0, l.map fun o => (o.type, o.data)) := by
    intro l hp
    rw [hdrive l [] (Or.inl rfl) (by rw [hp, List.append_nil]), if_pos rfl]
  refine ⟨?_, fun n => ?_, fun type m => msgDecode_eq_some type p m, fun type l hp => ?_⟩
  · obtain ⟨l, rest, hp, hrest⟩ := exists_options p
    refine ⟨_, _, hdrive l rest hrest hp, by split_ifs <;> simp, ⟨fun hr => ?_, ?_⟩,
      fun l' hp' => ?_⟩
    · have hnil : rest = [] := by
        by_contra hne
        rw [if_neg hne] at hr
        cases hr
      exact ⟨l, by rw [hp, hnil, List.append_nil]⟩
    · rintro ⟨l', hp'⟩
      have h := (hdrive l rest hrest hp).symm.trans (hclean l' hp')
      exact (Prod.mk.inj (Option.some.inj h)).1
    · have h := (hdrive l rest hrest hp).symm.trans (hclean l' hp')
      exact (Prod.mk.inj (Option.some.inj h)).2
  · obtain ⟨hpay, hlen⟩ := TlvIterator.iterate_next_payload p n
    exact TlvIterator.nextChecked_eq (hlen.trans (congrArg List.length hpay.symm))
  · rw [hp, msgDecode_options, msgDecode_options, foldlM_filter_known]

end Qnetd
