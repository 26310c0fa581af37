import Qnetd.Wire.Types

/-!
# TLV encoding

The big-endian helpers, `TlvWriter` and `TlvIterator` of `tlv.h`. A pointer into a buffer is the
rest of the buffer from there on (`p + k` is `p.drop k`), a writer is the function from its buffer
to the longer one.

* `bePut16/32/64`, `beGet16/32/64`;
* `TlvWriter.add` and the typed writers over it;
* `TlvIterator.next`, with the source's results `1` (positioned), `0` (clean end), `-1` (malformed).
-/

namespace Qnetd

/-! ## Big-endian helpers -/

def bePut16 (b : Bytes) (v : UInt16) : Bytes := b ++ [(v >>> 8).toUInt8, v.toUInt8]

def bePut32 (b : Bytes) (v : UInt32) : Bytes :=
  b ++ [(v >>> 24).toUInt8, (v >>> 16).toUInt8, (v >>> 8).toUInt8, v.toUInt8]

def bePut64 (b : Bytes) (v : UInt64) : Bytes := bePut32 (bePut32 b (v >>> 32).toUInt32) v.toUInt32

def beGet16 (p : Bytes) : UInt16 := (p.getD 0 0).toUInt16 <<< 8 ||| (p.getD 1 0).toUInt16

def beGet32 (p : Bytes) : UInt32 :=
  (p.getD 0 0).toUInt32 <<< 24 ||| (p.getD 1 0).toUInt32 <<< 16 ||| (p.getD 2 0).toUInt32 <<< 8 |||
    (p.getD 3 0).toUInt32

def beGet64 (p : Bytes) : UInt64 := (beGet32 p).toUInt64 <<< 32 ||| (beGet32 (p.drop 4)).toUInt64

/-! ## The writer -/

namespace TlvWriter

def add (buf : Bytes) (opt : TlvOpt) (data : Bytes) (len : UInt16) : Bytes :=
  bePut16 (bePut16 buf opt.code) len ++ data.take len.toNat

def addU8 (buf : Bytes) (opt : TlvOpt) (v : UInt8) : Bytes := add buf opt [v] 1

def addU16 (buf : Bytes) (opt : TlvOpt) (v : UInt16) : Bytes :=
  add buf opt [(v >>> 8).toUInt8, v.toUInt8] 2

def addU32 (buf : Bytes) (opt : TlvOpt) (v : UInt32) : Bytes :=
  add buf opt [(v >>> 24).toUInt8, (v >>> 16).toUInt8, (v >>> 8).toUInt8, v.toUInt8] 4

/-- The eight bytes `v >> (56 - 8 i)` of `add_u64` and of the sequence part of `add_ring_id`. -/
def bytes64 (v : UInt64) : Bytes :=
  (List.range 8).map (fun i => (v >>> (56 - 8 * UInt64.ofNat i)).toUInt8)

def addU64 (buf : Bytes) (opt : TlvOpt) (v : UInt64) : Bytes := add buf opt (bytes64 v) 8

def addString (buf : Bytes) (opt : TlvOpt) (str : Bytes) : Bytes :=
  add buf opt str (UInt16.ofNat str.length)

def addU16Array (buf : Bytes) (opt : TlvOpt) (arr : List UInt16) : Bytes :=
  arr.foldl bePut16 (bePut16 (bePut16 buf opt.code) (UInt16.ofNat (arr.length * 2)))

def addRingId (buf : Bytes) (r : RingId) : Bytes :=
  add buf .ringId ([(r.nodeId >>> 24).toUInt8, (r.nodeId >>> 16).toUInt8, (r.nodeId >>> 8).toUInt8,
    r.nodeId.toUInt8] ++ bytes64 r.seq) 12

def addTieBreaker (buf : Bytes) (tb : TieBreaker) : Bytes :=
  let id := if tb.mode = .nodeId then tb.nodeId else 0
  add buf .tieBreaker [tb.mode.code, (id >>> 24).toUInt8, (id >>> 16).toUInt8, (id >>> 8).toUInt8,
    id.toUInt8] 5

/-- The nested blob of a node: the optional fields are left out at their defaults. -/
def nodeInfoBlob (ni : NodeInfo) : Bytes :=
  let sub := addU32 [] .nodeId ni.nodeId
  let sub := if ni.dataCenterId ≠ 0 then addU32 sub .dataCenterId ni.dataCenterId else sub
  if ni.state ≠ .notSet then addU8 sub .nodeState ni.state.code else sub

def addNodeInfo (buf : Bytes) (ni : NodeInfo) : Bytes :=
  add buf .nodeInfo (nodeInfoBlob ni) (UInt16.ofNat (nodeInfoBlob ni).length)

end TlvWriter

/-! ## The iterator -/

structure TlvIterator where
  p : Bytes
  len : Nat
  pos : Nat := 0
  curType : UInt16 := 0
  curLen : UInt16 := 0
  first : Bool := true

namespace TlvIterator

/-- The constructor, on a payload of `payload.length` bytes. -/
def ofPayload (payload : Bytes) : TlvIterator := { p := payload, len := payload.length }

def next (it : TlvIterator) : Int × TlvIterator :=
  let nextPos := if it.first then 0 else it.pos + 4 + it.curLen.toNat
  let it := { it with first := false }
  if nextPos = it.len then (0, it)
  else if nextPos + 4 > it.len then (-1, it)
  else
    let it := { it with
      pos := nextPos
      curType := beGet16 (it.p.drop nextPos)
      curLen := beGet16 (it.p.drop (nextPos + 2)) }
    if it.pos + 4 + it.curLen.toNat > it.len then (-1, it) else (1, it)

def type (it : TlvIterator) : UInt16 := it.curType

def length (it : TlvIterator) : UInt16 := it.curLen

def data (it : TlvIterator) : Bytes := it.p.drop (it.pos + 4)

end TlvIterator

end Qnetd
