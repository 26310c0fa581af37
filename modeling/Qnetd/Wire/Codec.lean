import Mathlib.Algebra.Group.Nat.Defs
import Qnetd.Wire.Msg

/-!
# Options on the wire

What the writer puts into a payload the iterator takes out again, option by option.

* `beGet16_toNat`, `beGet32_toNat`, `beGet64_toNat` : the big-endian reads as numbers; `beGet16_be`,
  `beGet32_be`, `beGet64_be` : they undo the writes;
* `Opt` : an option, with data that fit their length field; `Opt.bytes`, `optBytes` : its bytes and
  those of a list;
* `optLoop` : the loop of both decoders; `next_opt`, `optLoop_options` : it takes the options one by
  one;
* `msgDecode_options` : a payload that is a list of options is decoded option by option;
* `optFrame` : the frame of a list of options; every builder but the echo's makes one
  (`buildServerError_eq`, ...);
* `ReplyFrame` : the frames other than votes.
-/

namespace Qnetd

/-! ## Numbers -/

theorem or_eq_add {x y k : Nat} (hx : 2 ^ k ∣ x) (hy : y < 2 ^ k) : x ||| y = x + y := by
  obtain ⟨a, rfl⟩ := hx
  rw [Nat.mul_comm, ← Nat.shiftLeft_eq, Nat.shiftLeft_add_eq_or_of_lt hy]

theorem beGet16_toNat (p : Bytes) :
    (beGet16 p).toNat = (p.getD 0 0).toNat * 2 ^ 8 + (p.getD 1 0).toNat := by
  have h0 := (p.getD 0 0).toNat_lt
  have h1 := (p.getD 1 0).toNat_lt
  have hs : ((p.getD 0 0).toUInt16 <<< 8).toNat = (p.getD 0 0).toNat * 2 ^ 8 := by
    simp only [UInt16.toNat_shiftLeft, UInt8.toNat_toUInt16, UInt16.reduceToNat, Nat.reduceMod,
      Nat.shiftLeft_eq]
    omega
  rw [beGet16, UInt16.toNat_or, hs, UInt8.toNat_toUInt16]
  exact or_eq_add (Nat.dvd_mul_left _ _) h1

theorem beGet32_toNat (p : Bytes) :
    (beGet32 p).toNat =
      (p.getD 0 0).toNat * 2 ^ 24 + (p.getD 1 0).toNat * 2 ^ 16 + (p.getD 2 0).toNat * 2 ^ 8 +
      (p.getD 3 0).toNat := by
  have h0 := (p.getD 0 0).toNat_lt
  have h1 := (p.getD 1 0).toNat_lt
  have h2 := (p.getD 2 0).toNat_lt
  have h3 := (p.getD 3 0).toNat_lt
  have hs0 : ((p.getD 0 0).toUInt32 <<< 24).toNat = (p.getD 0 0).toNat * 2 ^ 24 := by
    simp only [UInt32.toNat_shiftLeft, UInt8.toNat_toUInt32, UInt32.reduceToNat, Nat.reduceMod,
      Nat.shiftLeft_eq]
    omega
  have hs1 : ((p.getD 1 0).toUInt32 <<< 16).toNat = (p.getD 1 0).toNat * 2 ^ 16 := by
    simp only [UInt32.toNat_shiftLeft, UInt8.toNat_toUInt32, UInt32.reduceToNat, Nat.reduceMod,
      Nat.shiftLeft_eq]
    omega
  have hs2 : ((p.getD 2 0).toUInt32 <<< 8).toNat = (p.getD 2 0).toNat * 2 ^ 8 := by
    simp only [UInt32.toNat_shiftLeft, UInt8.toNat_toUInt32, UInt32.reduceToNat, Nat.reduceMod,
      Nat.shiftLeft_eq]
    omega
  rw [beGet32, UInt32.toNat_or, UInt32.toNat_or, UInt32.toNat_or, hs0, hs1, hs2,
    UInt8.toNat_toUInt32,
    or_eq_add (x := _ * 2 ^ 24) (k := 24) (Nat.dvd_mul_left _ _) (by omega),
    or_eq_add (x := _ + _) (k := 16) (by omega) (by omega),
      or_eq_add (k := 8) (by omega) (by omega)]

theorem beGet64_toNat (p : Bytes) :
    (beGet64 p).toNat = (beGet32 p).toNat * 2 ^ 32 + (beGet32 (p.drop 4)).toNat := by
  have h0 := (beGet32 p).toNat_lt
  have h1 := (beGet32 (p.drop 4)).toNat_lt
  have hs : ((beGet32 p).toUInt64 <<< 32).toNat = (beGet32 p).toNat * 2 ^ 32 := by
    simp only [UInt64.toNat_shiftLeft, UInt32.toNat_toUInt64, UInt64.reduceToNat, Nat.reduceMod,
      Nat.shiftLeft_eq]
    omega
  rw [beGet64, UInt64.toNat_or, hs, UInt32.toNat_toUInt64]
  exact or_eq_add (Nat.dvd_mul_left _ _) h1

theorem beGet16_be (v : UInt16) (rest : Bytes) :
    beGet16 ((v >>> 8).toUInt8 :: v.toUInt8 :: rest) = v := by
  apply UInt16.toNat.inj
  have h := v.toNat_lt
  rw [beGet16_toNat]
  simp [Nat.shiftRight_eq_div_pow]
  omega

theorem beGet32_be (v : UInt32) (rest : Bytes) :
    beGet32 ((v >>> 24).toUInt8 :: (v >>> 16).toUInt8 :: (v >>> 8).toUInt8 :: v.toUInt8 :: rest) =
      v := by
  apply UInt32.toNat.inj
  have h := v.toNat_lt
  rw [beGet32_toNat]
  simp [Nat.shiftRight_eq_div_pow]
  omega

theorem beGet64_be (v : UInt64) (rest : Bytes) : beGet64 (TlvWriter.bytes64 v ++ rest) = v := by
  have hb : TlvWriter.bytes64 v =
      [(v >>> 56).toUInt8, (v >>> 48).toUInt8, (v >>> 40).toUInt8, (v >>> 32).toUInt8,
      (v >>> 24).toUInt8, (v >>> 16).toUInt8, (v >>> 8).toUInt8, (v >>> 0).toUInt8] := rfl
  have hhigh : (beGet32 (TlvWriter.bytes64 v ++ rest)).toNat = v.toNat / 2 ^ 32 := by
    have h := v.toNat_lt
    rw [beGet32_toNat, hb]
    simp [Nat.shiftRight_eq_div_pow]
    omega
  have hlow : (beGet32 ((TlvWriter.bytes64 v ++ rest).drop 4)).toNat = v.toNat % 2 ^ 32 := by
    rw [beGet32_toNat, hb]
    simp [Nat.shiftRight_eq_div_pow]
    omega
  apply UInt64.toNat.inj
  rw [beGet64_toNat, hhigh, hlow]
  omega

/-! ## Options -/

/-- An option with data that fit the length field. -/
structure Opt where
  type : UInt16
  data : Bytes
  bound : data.length < 2 ^ 16

namespace Opt

def length (o : Opt) : UInt16 := UInt16.ofNat o.data.length

theorem length_toNat (o : Opt) : o.length.toNat = o.data.length := by
  rw [length, UInt16.toNat_ofNat']
  exact Nat.mod_eq_of_lt o.bound

def bytes (o : Opt) : Bytes := bePut16 (bePut16 [] o.type) o.length ++ o.data

theorem bytes_length (o : Opt) : o.bytes.length = 4 + o.data.length := by
  simp [bytes, bePut16]
  omega

/-- The iterator positioned at the option and at nothing else. -/
def iterator (o : Opt) : TlvIterator where
  p := o.bytes
  len := o.bytes.length
  curType := o.type
  curLen := o.length
  first := false

/-- What the option does to the message decoded so far. -/
def decode (o : Opt) (out : MsgDecoded) : Option MsgDecoded := msgDecodeOpt o.iterator out

def u8 (opt : TlvOpt) (v : UInt8) : Opt := ⟨opt.code, [v], by simp⟩

def u16 (opt : TlvOpt) (v : UInt16) : Opt := ⟨opt.code, [(v >>> 8).toUInt8, v.toUInt8], by simp⟩

def u32 (opt : TlvOpt) (v : UInt32) : Opt :=
  ⟨opt.code, [(v >>> 24).toUInt8, (v >>> 16).toUInt8, (v >>> 8).toUInt8, v.toUInt8], by simp⟩

def ring (r : RingId) : Opt :=
  ⟨TlvOpt.ringId.code,
    [(r.nodeId >>> 24).toUInt8, (r.nodeId >>> 16).toUInt8, (r.nodeId >>> 8).toUInt8,
    r.nodeId.toUInt8] ++ TlvWriter.bytes64 r.seq, by simp [TlvWriter.bytes64]⟩

def u16s (opt : TlvOpt) (arr : List UInt16) (h : arr.length * 2 < 2 ^ 16) : Opt :=
  ⟨opt.code, arr.flatMap fun v : UInt16 => [(v >>> 8).toUInt8, v.toUInt8],
    by simpa [List.length_flatMap] using h⟩

/-- The sequence number most replies start with. -/
def seq (seqSet : Bool) (v : UInt32) : List Opt := if seqSet then [u32 .msgSeqNumber v] else []

end Opt

def optBytes (l : List Opt) : Bytes := l.flatMap Opt.bytes

@[simp] theorem optBytes_nil : optBytes [] = [] := rfl

@[simp] theorem optBytes_cons (o : Opt) (l : List Opt) :
    optBytes (o :: l) = o.bytes ++ optBytes l := by
  simp [optBytes]

@[simp] theorem optBytes_append (l l' : List Opt) :
    optBytes (l ++ l') = optBytes l ++ optBytes l' := by
  simp [optBytes]

theorem length_le_optBytes (l : List Opt) : l.length ≤ (optBytes l).length := by
  induction l with
  | nil => simp
  | cons o l ih =>
    rw [optBytes_cons, List.length_append, List.length_cons, o.bytes_length]
    omega

/-! ## Iteration -/

namespace TlvIterator

/-- Where `next` looks. -/
def nextPos (it : TlvIterator) : Nat := if it.first then 0 else it.pos + 4 + it.curLen.toNat

/-- The iterator has gone through `pre`, and `rest` is left. -/
structure Reads (it : TlvIterator) (pre rest : Bytes) : Prop where
  p : it.p = pre ++ rest
  len : it.len = (pre ++ rest).length
  pos : it.nextPos = pre.length

theorem reads_ofPayload (payload : Bytes) : Reads (ofPayload payload) [] payload := ⟨rfl, rfl, rfl⟩

theorem reads_options {p rest : Bytes} {l : List Opt} (hp : p = optBytes l ++ rest) :
    Reads (ofPayload p) [] (optBytes l ++ rest) ∧ l.length < p.length + 1 := by
  have hle := length_le_optBytes l
  rw [← hp]
  refine ⟨reads_ofPayload p, ?_⟩
  rw [hp, List.length_append]
  omega

/-- The iterator at option `o`, behind `pre`. -/
def onto (it : TlvIterator) (pre : Bytes) (o : Opt) : TlvIterator :=
  { it with pos := pre.length, curType := o.type, curLen := o.length, first := false }

theorem next_end {it : TlvIterator} {pre : Bytes} (h : Reads it pre []) : it.next.1 = 0 := by
  have hl : it.nextPos = it.len := by rw [h.pos, h.len, List.append_nil]
  unfold nextPos at hl
  simp [next, hl]

theorem next_opt {it : TlvIterator} {pre rest : Bytes} {o : Opt}
    (h : Reads it pre (o.bytes ++ rest)) : it.next = (1, it.onto pre o) := by
  have hlen : it.len = pre.length + (4 + o.data.length + rest.length) := by
    rw [h.len, List.length_append, List.length_append, o.bytes_length]
  have hpos := h.pos
  unfold nextPos at hpos
  have htype : beGet16 (it.p.drop pre.length) = o.type := by
    rw [h.p, List.drop_left]
    exact beGet16_be o.type _
  have hl : beGet16 (it.p.drop (pre.length + 2)) = o.length := by
    rw [h.p, ← List.drop_drop, List.drop_left]
    exact beGet16_be o.length _
  simp only [next, hpos, htype, hl, o.length_toNat]
  rw [if_neg (by omega), if_neg (by omega), if_neg (by omega)]
  rfl

theorem Reads.onto {it : TlvIterator} {pre rest : Bytes} {o : Opt}
    (h : Reads it pre (o.bytes ++ rest)) : Reads (it.onto pre o) (pre ++ o.bytes) rest := by
  refine ⟨by rw [List.append_assoc]; exact h.p, by rw [List.append_assoc]; exact h.len, ?_⟩
  rw [List.length_append, o.bytes_length, ← o.length_toNat, ← Nat.add_assoc]
  rfl

theorem onto_data {it : TlvIterator} {pre rest : Bytes} {o : Opt}
    (h : Reads it pre (o.bytes ++ rest)) : (it.onto pre o).data = o.data ++ rest := by
  change it.p.drop (pre.length + 4) = _
  rw [h.p, ← List.drop_drop, List.drop_left]
  rfl

end TlvIterator

/-! ## Reads -/

/-- A read that looks at the first `n` bytes only. -/
def Reads (n : Nat) {α : Type} (f : Bytes → α) : Prop := ∀ p, f (p.take n) = f p

theorem Reads.congr {n : Nat} {α : Type} {f : Bytes → α} (h : Reads n f) {d d' : Bytes} {l : Nat}
    (hd : d'.take l = d.take l) (hn : n ≤ l) : f d' = f d := by
  have hn' : ∀ p : Bytes, p.take n = (p.take l).take n :=
    fun p => by rw [List.take_take, Nat.min_eq_left hn]
  rw [← h d', ← h d, hn' d', hn' d, hd]

theorem getD_take (p : Bytes) {i n : Nat} (h : i < n) : (p.take n).getD i 0 = p.getD i 0 := by
  rw [List.getD_eq_getElem?_getD, List.getD_eq_getElem?_getD, List.getElem?_take_of_lt h]

theorem reads_byte : Reads 1 fun p => p.getD 0 0 := fun p => getD_take p (by omega)

theorem reads_beGet16 : Reads 2 beGet16 := fun p => by
  rw [beGet16, beGet16, getD_take p (by omega), getD_take p (by omega)]

theorem reads_beGet32 : Reads 4 beGet32 := fun p => by
  rw [beGet32, beGet32, getD_take p (by omega), getD_take p (by omega), getD_take p (by omega),
    getD_take p (by omega)]

theorem reads_drop {n k : Nat} {α : Type} {f : Bytes → α} (h : Reads n f) :
    Reads (k + n) fun p => f (p.drop k) := by
  intro p
  simp only
  rw [List.drop_take, Nat.add_sub_cancel_left, h]

theorem reads_beGet64 : Reads 8 beGet64 := fun p => by
  have h₁ : beGet32 (p.take 8) = beGet32 p :=
    reads_beGet32.congr (l := 8) (by rw [List.take_take, min_self]) (by omega)
  have h₂ : beGet32 ((p.take 8).drop 4) = beGet32 (p.drop 4) := reads_drop (k := 4) reads_beGet32 p
  rw [beGet64, beGet64, h₁, h₂]

/-! ## The loops over the options -/

theorem Opt.iterator_data (o : Opt) : o.iterator.data = o.data := rfl

/-- The loop of both decoders: a step for each option, and a last check at the clean end. -/
def optLoop {α β : Type} (step : TlvIterator → α → Option α) (finish : α → Option β) :
    Nat → TlvIterator → α → Option β
  | 0, _, _ => none
  | fuel + 1, it, a =>
    let (r, it) := it.next
    if r > 0 then (step it a).bind (optLoop step finish fuel it)
    else if r = 0 then finish a
    else none

/-- The step reads the type, the length and that many bytes of data. -/
def Local {α : Type} (step : TlvIterator → α → Option α) : Prop :=
  ∀ {it it' : TlvIterator}, it'.type = it.type → it'.length = it.length →
    it'.data.take it.length.toNat = it.data.take it.length.toNat → ∀ a, step it' a = step it a

/-- The loop takes the options in front one by one. With more fuel than options it then looks at
what is left. -/
theorem optLoop_options {α β : Type} {step : TlvIterator → α → Option α} (hstep : Local step)
    (finish : α → Option β) (l : List Opt) : ∀ {fuel : Nat} {it : TlvIterator} {pre rest : Bytes},
    it.Reads pre (optBytes l ++ rest) → l.length < fuel → ∃ it' :
    TlvIterator, it'.Reads (pre ++ optBytes l) rest ∧
      ∃ left, ∀ a, optLoop step finish fuel it a =
        (l.foldlM (fun a o => step o.iterator a) a).bind (optLoop step finish (left + 1) it') := by
  induction l with
  | nil =>
    intro fuel it pre rest h hf
    obtain ⟨n, rfl⟩ := Nat.exists_eq_succ_of_ne_zero (Nat.ne_of_gt hf)
    exact ⟨it, by simpa using h, n, fun a => rfl⟩
  | cons o l ih =>
    intro fuel it pre rest h hf
    obtain ⟨n, rfl⟩ := Nat.exists_eq_succ_of_ne_zero (Nat.ne_zero_of_lt hf)
    rw [optBytes_cons, List.append_assoc] at h
    have hd : (it.onto pre o).data.take o.length.toNat = o.iterator.data.take o.length.toNat := by
      rw [TlvIterator.onto_data h, o.iterator_data, o.length_toNat, List.take_left,
        List.take_length]
    obtain ⟨it', hreads, left, hloop⟩ := ih h.onto (Nat.lt_of_succ_lt_succ hf)
    refine ⟨it', by rwa [optBytes_cons, ← List.append_assoc], left, fun a => ?_⟩
    have ho : step (it.onto pre o) a = step o.iterator a :=
      @hstep o.iterator (it.onto pre o) rfl rfl hd a
    simp only [optLoop, TlvIterator.next_opt h, ho, List.foldlM_cons, Int.one_pos, if_true]
    cases step o.iterator a with
    | none => rfl
    | some a' => exact hloop a'

/-- The decoder reads an option's type, its length and that many bytes. -/
theorem msgDecodeOpt_local : Local msgDecodeOpt := by
  intro it it' ht hl hd out
  have hbyte : it.length = 1 → it'.data.getD 0 0 = it.data.getD 0 0 :=
    fun h => reads_byte.congr hd (by rw [h]; decide)
  have h16 : it.length = 2 → beGet16 it'.data = beGet16 it.data :=
    fun h => reads_beGet16.congr hd (by rw [h]; decide)
  have h32 : it.length = 4 → beGet32 it'.data = beGet32 it.data :=
    fun h => reads_beGet32.congr hd (by rw [h]; decide)
  have h64 : it.length = 8 → beGet64 it'.data = beGet64 it.data :=
    fun h => reads_beGet64.congr hd (by rw [h]; decide)
  have hring : it.length = 12 → beGet32 it'.data = beGet32 it.data ∧
      beGet64 (it'.data.drop 4) = beGet64 (it.data.drop 4) :=
    fun h => ⟨reads_beGet32.congr hd (by rw [h]; decide),
      (reads_drop (k := 4) reads_beGet64).congr hd (by rw [h]; decide)⟩
  have htie : it.length = 5 → it'.data.getD 0 0 = it.data.getD 0 0 ∧
      beGet32 (it'.data.drop 1) = beGet32 (it.data.drop 1) :=
    fun h => ⟨reads_byte.congr hd (by rw [h]; decide),
      (reads_drop (k := 1) reads_beGet32).congr hd (by rw [h]; decide)⟩
  simp only [msgDecodeOpt, ht, hl]
  cases hopt : TlvOpt.ofCode it.type with
  | none => rfl
  | some o =>
    cases o with
    | clusterName | nodeInfo => simp only [hd]
    | supportedMessages | supportedOptions | replyErrorCode | serverMaximumRequestSize | serverMaximumReplySize
    | supportedDecisionAlgorithms | dataCenterId | nodeState => rfl
    | msgSeqNumber | nodeId | heartbeatInterval =>
      by_cases h : it.length = 4
      · simp only [h32 h]
      · simp [h]
    | decisionAlgorithm =>
      by_cases h : it.length = 2
      · simp only [h16 h]
      · simp [h]
    | configVersion =>
      by_cases h : it.length = 8
      · simp only [h64 h]
      · simp [h]
    | ringId =>
      by_cases h : it.length = 12
      · simp only [hring h]
      · simp [h]
    | tieBreaker =>
      by_cases h : it.length = 5
      · simp only [htie h]
      · simp [h]
    | tlsSupported | tlsClientCertRequired | nodeListType | vote | quorate | heuristics
    | keepActivePartitionTieBreaker =>
      by_cases h : it.length = 1
      · simp only [hbyte h]
      · simp [h]

theorem msgDecodeLoop_eq (fuel : Nat) : ∀ (it : TlvIterator) (out : MsgDecoded),
    msgDecodeLoop fuel it out = optLoop msgDecodeOpt some fuel it out := by
  induction fuel with
  | zero => intro it out; rfl
  | succ fuel ih =>
    intro it out
    simp only [msgDecodeLoop, optLoop]
    cases msgDecodeOpt it.next.2 out with
    | none => rfl
    | some out' => simp only [ih, Option.bind_some]

/-- A payload made of options is decoded option by option. -/
theorem msgDecode_options (type : MsgType) (l : List Opt) :
    msgDecode type (optBytes l) = l.foldlM (fun out o => o.decode out) { type := type } := by
  obtain ⟨hreads, hl⟩ := TlvIterator.reads_options (List.append_nil (optBytes l)).symm
  obtain ⟨it', hend, left, hloop⟩ := optLoop_options msgDecodeOpt_local some l hreads hl
  have hlast : optLoop msgDecodeOpt some (left + 1) it' = some := by
    funext out
    simp [optLoop, TlvIterator.next_end hend]
  rw [msgDecode, msgDecodeLoop_eq, hloop, hlast, Option.bind_fun_some]
  rfl

/-! ## Frames -/

def frameType (f : Frame) : MsgType := MsgType.ofCode (beGet16 f)

def decodeFrame (f : Frame) : Option MsgDecoded := msgDecode (frameType f) (f.drop MSG_HEADER_LEN)

/-- The frame of that type with those options. -/
def optFrame (type : MsgType) (l : List Opt) : Frame := endFrame (beginFrame type ++ optBytes l)

theorem beGet16_endFrame (f : Frame) : beGet16 (endFrame f) = beGet16 f := by
  simp [beGet16, endFrame, List.getD_eq_getElem?_getD]

theorem endFrame_drop (f : Frame) : (endFrame f).drop MSG_HEADER_LEN = f.drop MSG_HEADER_LEN := by
  rw [endFrame, List.drop_set_of_lt (by decide), List.drop_set_of_lt (by decide),
    List.drop_set_of_lt (by decide), List.drop_set_of_lt (by decide)]

theorem MsgType.ofCode_code (t : MsgType) : MsgType.ofCode t.code = t := by
  cases t with
  | other v => simp [MsgType.code, MsgType.ofCode, v.2]
  | _ => rfl

@[simp] theorem frameType_optFrame (type : MsgType) (l : List Opt) :
    frameType (optFrame type l) = type := by
  have h : beGet16 (beginFrame type ++ optBytes l) = type.code := beGet16_be type.code _
  rw [frameType, optFrame, beGet16_endFrame, h, MsgType.ofCode_code]

/-- The frame of a list of options decodes to what the options say. -/
theorem decodeFrame_optFrame (type : MsgType) (l : List Opt) :
    decodeFrame (optFrame type l) = l.foldlM (fun out o => o.decode out) { type := type } := by
  have h : (beginFrame type ++ optBytes l).drop MSG_HEADER_LEN = optBytes l := rfl
  rw [decodeFrame, frameType_optFrame, optFrame, endFrame_drop, h, msgDecode_options]

/-! ## The writer -/

theorem add_eq {o : Opt} {opt : TlvOpt} (buf : Bytes) (ht : o.type = opt.code) :
    TlvWriter.add buf opt o.data o.length = buf ++ o.bytes := by
  simp [TlvWriter.add, Opt.bytes, bePut16, ht, o.length_toNat]

theorem addU8_eq (buf : Bytes) (opt : TlvOpt) (v : UInt8) :
    TlvWriter.addU8 buf opt v = buf ++ (Opt.u8 opt v).bytes :=
  add_eq (o := Opt.u8 opt v) buf rfl

theorem addU32_eq (buf : Bytes) (opt : TlvOpt) (v : UInt32) :
    TlvWriter.addU32 buf opt v = buf ++ (Opt.u32 opt v).bytes := add_eq (o := Opt.u32 opt v) buf rfl

theorem addU16_eq (buf : Bytes) (opt : TlvOpt) (v : UInt16) :
    TlvWriter.addU16 buf opt v = buf ++ (Opt.u16 opt v).bytes := add_eq (o := Opt.u16 opt v) buf rfl

theorem addU16Array_eq (buf : Bytes) (opt : TlvOpt) (arr : List UInt16)
    (h : arr.length * 2 < 2 ^ 16) :
    TlvWriter.addU16Array buf opt arr = buf ++ (Opt.u16s opt arr h).bytes := by
  have hfold : ∀ (l : List UInt16) (b : Bytes),
      l.foldl bePut16 b = b ++ l.flatMap fun v : UInt16 => [(v >>> 8).toUInt8, v.toUInt8] := by
    intro l
    induction l with
    | nil => simp
    | cons v l ih =>
      intro b
      rw [List.foldl_cons, ih]
      simp [bePut16]
  have hlen : (Opt.u16s opt arr h).length = UInt16.ofNat (arr.length * 2) := by
    simp [Opt.length, Opt.u16s, List.length_flatMap]
  rw [TlvWriter.addU16Array, hfold, Opt.bytes, hlen]
  simp [bePut16, Opt.u16s]

theorem addSeq_eq (buf : Bytes) (seqSet : Bool) (v : UInt32) :
    addSeq buf seqSet v = buf ++ optBytes (Opt.seq seqSet v) := by
  cases seqSet <;> simp [addSeq, Opt.seq, addU32_eq]

theorem addRingId_eq (buf : Bytes) (r : RingId) :
    TlvWriter.addRingId buf r = buf ++ (Opt.ring r).bytes :=
  add_eq (o := Opt.ring r) buf rfl

/-! What the options of the replies do to the message decoded so far. -/

theorem decode_msgSeqNumber (v : UInt32) (out : MsgDecoded) :
    (Opt.u32 .msgSeqNumber v).decode out = some { out with seqNumber := v, seqNumberSet := true } := by
  have h : beGet32 (Opt.u32 .msgSeqNumber v).iterator.data = v := beGet32_be v []
  change some { out with seqNumber := beGet32 (Opt.u32 .msgSeqNumber v).iterator.data, seqNumberSet := true } = _
  rw [h]

theorem decode_vote (v : Vote) (out : MsgDecoded) :
    (Opt.u8 .vote v.code).decode out = some { out with vote := v, voteSet := true } := by
  cases v <;> rfl

theorem decode_nodeListType (v : NodeListType) (out : MsgDecoded) :
    (Opt.u8 .nodeListType v.code).decode out =
      some { out with nodeListType := v, nodeListTypeSet := true } := by
  cases v <;> rfl

theorem decode_ring (r : RingId) (out : MsgDecoded) :
    (Opt.ring r).decode out = some { out with ringId := r, ringIdSet := true } := by
  have h₁ : beGet32 (Opt.ring r).iterator.data = r.nodeId := beGet32_be r.nodeId _
  have h₂ : beGet64 ((Opt.ring r).iterator.data.drop 4) = r.seq := by
    have h := beGet64_be r.seq []
    rwa [List.append_nil] at h
  change some { out with
    ringId := { nodeId := beGet32 (Opt.ring r).iterator.data, seq := beGet64 ((Opt.ring r).iterator.data.drop 4) }
    ringIdSet := true } = _
  rw [h₁, h₂]

/-! ## The frames of the server -/

theorem buildPreinitReply_eq (seqSet : Bool) (seq : UInt32) (tls : TlsSupported)
    (certRequired : UInt8) : buildPreinitReply seqSet seq tls certRequired = optFrame .preinitReply
      (Opt.seq seqSet seq ++
        [Opt.u8 .tlsSupported tls.code, Opt.u8 .tlsClientCertRequired certRequired]) := by
  simp [buildPreinitReply, optFrame, addSeq_eq, addU8_eq]

theorem buildServerError_eq (seqSet : Bool) (seq : UInt32) (code : ReplyErrorCode) :
    buildServerError seqSet seq code =
      optFrame .serverError (Opt.seq seqSet seq ++ [Opt.u16 .replyErrorCode code.code]) := by
  simp [buildServerError, optFrame, addSeq_eq, addU16_eq]

theorem buildInitReply_eq (seqSet : Bool) (seq : UInt32) (code : ReplyErrorCode)
    (messages options : Bool) (maxRequest maxReply : UInt32) :
    buildInitReply seqSet seq code messages options maxRequest maxReply = optFrame .initReply
      (Opt.seq seqSet seq ++ Opt.u16 .replyErrorCode code.code ::
        ((if messages then [Opt.u16s .supportedMessages SUPPORTED_MESSAGES (by decide)] else []) ++
        (if options then [Opt.u16s .supportedOptions SUPPORTED_OPTIONS (by decide)] else []) ++
        [Opt.u32 .serverMaximumRequestSize maxRequest, Opt.u32 .serverMaximumReplySize maxReply,
          Opt.u16s .supportedDecisionAlgorithms SUPPORTED_ALGORITHMS (by decide)])) := by
  cases messages <;> cases options <;>
    simp [buildInitReply, optFrame, addSeq_eq, addU16_eq, addU32_eq,
      addU16Array_eq _ _ SUPPORTED_MESSAGES (by decide),
      addU16Array_eq _ _ SUPPORTED_OPTIONS (by decide),
        addU16Array_eq _ _ SUPPORTED_ALGORITHMS (by decide)]

theorem buildSetOptionReply_eq (seqSet : Bool) (seq : UInt32) (hbSet : Bool) (hb : UInt32)
    (kaptbSet : Bool) (kaptb : UInt8) :
    buildSetOptionReply seqSet seq hbSet hb kaptbSet kaptb = optFrame .setOptionReply
      (Opt.seq seqSet seq ++ (if hbSet then [Opt.u32 .heartbeatInterval hb] else []) ++
        (if kaptbSet then [Opt.u8 .keepActivePartitionTieBreaker kaptb] else [])) := by
  cases hbSet <;> cases kaptbSet <;>
    simp [buildSetOptionReply, optFrame, addSeq_eq, addU32_eq, addU8_eq]

theorem buildNodeListReply_eq (seq : UInt32) (type : NodeListType) (ring : RingId) (vote : Vote) :
    buildNodeListReply seq type ring vote = optFrame .nodeListReply
      [Opt.u32 .msgSeqNumber seq, Opt.u8 .nodeListType type.code, Opt.ring ring,
        Opt.u8 .vote vote.code] := by
  simp [buildNodeListReply, optFrame, addU32_eq, addU8_eq, addRingId_eq]

theorem buildVoteInfo_eq (seq : UInt32) (ring : RingId) (vote : Vote) :
    buildVoteInfo seq ring vote =
      optFrame .voteInfo [Opt.u32 .msgSeqNumber seq, Opt.u8 .vote vote.code, Opt.ring ring] := by
  simp [buildVoteInfo, optFrame, addU32_eq, addU8_eq, addRingId_eq]

theorem buildHeuristicsChangeReply_eq (seqSet : Bool) (seq : UInt32) (vote : Vote) :
    buildHeuristicsChangeReply seqSet seq vote =
      optFrame .heuristicsChangeReply (Opt.seq seqSet seq ++ [Opt.u8 .vote vote.code]) := by
  simp [buildHeuristicsChangeReply, optFrame, addSeq_eq, addU8_eq]

/-- An echo reply names its own type, or nothing but zeros. -/
theorem frameType_buildEchoReply (f : Frame) :
    frameType (buildEchoReply f) = .echoReply ∨ frameType (buildEchoReply f) = .preinit := by
  match f with
  | [] => exact Or.inr (by decide)
  | [x] =>
    have h : beGet16 (buildEchoReply [x]) = 0 := by
      change beGet16 [(MsgType.echoReply.code >>> 8).toUInt8] = 0
      decide
    exact Or.inr (by rw [frameType, h]; decide)
  | x :: y :: l =>
    have h : beGet16 (buildEchoReply (x :: y :: l)) = MsgType.echoReply.code := beGet16_be _ l
    exact Or.inl (by rw [frameType, h, MsgType.ofCode_code])

/-- The frames the server sends other than votes: the replies. -/
inductive ReplyFrame : Frame → Prop
  | preinitReply (seqSet : Bool) (seq : UInt32) (tls : TlsSupported) (certRequired : UInt8) :
      ReplyFrame (buildPreinitReply seqSet seq tls certRequired)
  | serverError (seqSet : Bool) (seq : UInt32) (code : ReplyErrorCode) :
      ReplyFrame (buildServerError seqSet seq code)
  | initReply (seqSet : Bool) (seq : UInt32) (code : ReplyErrorCode) (messages options : Bool)
      (maxRequest maxReply : UInt32) :
        ReplyFrame (buildInitReply seqSet seq code messages options maxRequest maxReply)
  | setOptionReply (seqSet : Bool) (seq : UInt32) (hbSet : Bool) (hb : UInt32) (kaptbSet : Bool)
      (kaptb : UInt8) : ReplyFrame (buildSetOptionReply seqSet seq hbSet hb kaptbSet kaptb)
  | echoReply (f : Frame) : ReplyFrame (buildEchoReply f)
  | nodeListReply (seq : UInt32) (type : NodeListType) (ring : RingId) (vote : Vote) : vote ≠ .ack →
      ReplyFrame (buildNodeListReply seq type ring vote)
  | heuristicsChangeReply (seqSet : Bool) (seq : UInt32) (vote : Vote) : vote ≠ .ack →
      ReplyFrame (buildHeuristicsChangeReply seqSet seq vote)

end Qnetd
