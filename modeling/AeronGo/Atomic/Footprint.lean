import AeronGo.Atomic.Buffer

/-!
# What an access touches

The bytes that the functions of `aeron/atomic/buffer.go` read and write, as spans of the memory under a buffer. `run` is
what a call does, `touched` where it does it. An array is its memory and its length, which need not be a 32-bit word.
-/

namespace AeronGo.Atomic

open Machine

/-- Bytes from an address on. -/
structure Span where
  start : Int
  length : Nat
deriving DecidableEq, Repr

namespace Span

/-- The address is one of the span. -/
def Has (s : Span) (a : Int) : Prop := s.start ≤ a ∧ a < s.start + s.length

/-- Every byte lies in a buffer of the size. -/
def Inside (s : Span) (size : Int) : Prop := ∀ a, s.Has a → 0 ≤ a ∧ a < size

def shift (d : Int) (s : Span) : Span := ⟨d + s.start, s.length⟩

end Span

/-- The words of a loop of `Memcpy`, and where the next loop goes on. -/
def copySpans (w : Nat) (bound : Int) : Nat → Int → Int × List Span
  | 0, i => (i, [])
  | fuel + 1, i =>
    if i < bound then
      let (j, spans) := copySpans w bound fuel (i + w)
      (j, ⟨i, w⟩ :: spans)
    else (i, [])

/-- The words of `Memcpy`. -/
def memcpySpans (length : Int) : List Span :=
  let (i, eights) := copySpans 8 (length / 8) length.toNat 0
  let (i, fours) := copySpans 4 ((length - i) / 4) length.toNat i
  eights ++ fours ++ (copySpans 1 length length.toNat i).2

/-- `PutBytesArray`. Taking the address of the first byte panics if there is none. -/
def Buffer.putBytesArray (b : Buffer) (index : Int) (arr : Buffer) (srcIndex length : Int) : Except Stop Buffer := do
  boundsCheck index length b.length
  boundsCheck srcIndex length (i32 arr.length)
  if arr.length = 0 then .error .panic
  else return { b with bytes := memcpy b.bytes index arr.bytes srcIndex length }

/-- The widths of the fixed accesses. -/
inductive Width where
  | one
  | two
  | four
  | eight
deriving DecidableEq, Repr

def Width.bytes : Width → Nat
  | one => 1
  | two => 2
  | four => 4
  | eight => 8

/-- A call, but for the value that it stores. -/
inductive Operation where
  | get (width : Width) (offset : Int)
  | put (width : Width) (offset : Int)
  | putBytes (index srcIndex length : Int)
  | getBytesArray (offset length : Int)
  | getBytes (offset : Int) (count : Nat)
  | writeBytes (offset length : Int)
  | putBytesArray (index srcIndex length : Int)
deriving DecidableEq, Repr

/-- What a call returns. -/
inductive Result where
  | none
  | word (value : Int)
  | bytes (value : List UInt8)
deriving DecidableEq, Repr

namespace Operation

/-- A call on a buffer, with the buffer or the array that it copies from and the value that it stores. -/
def run (b source : Buffer) (value : Int) : Operation → Except Stop (Result × Buffer)
  | .get .one offset => do return (.word (← b.getUInt8 offset).toNat, b)
  | .get .two offset => do return (.word (← b.getUInt16 offset), b)
  | .get .four offset => do return (.word (← b.getInt32 offset), b)
  | .get .eight offset => do return (.word (← b.getInt64 offset), b)
  | .put .one offset => do return (.none, ← b.putUInt8 offset (UInt8.ofNat (value % 256).toNat))
  | .put .two offset => do return (.none, ← b.putUInt16 offset value)
  | .put .four offset => do return (.none, ← b.putInt32 offset value)
  | .put .eight offset => do return (.none, ← b.putInt64 offset value)
  | .putBytes index srcIndex length => do return (.none, ← b.putBytes index source srcIndex length)
  | .getBytesArray offset length => do return (.bytes (← b.getBytesArray offset length), b)
  | .getBytes offset count => do return (.bytes (← b.getBytes offset count), b)
  | .writeBytes offset length => do return (.bytes (← b.writeBytes offset length), b)
  | .putBytesArray index srcIndex length => do return (.none, ← b.putBytesArray index source srcIndex length)

/-- The spans of the buffer and of the source, from their lengths. -/
def touched (own source : Int) : Operation → Except Stop (List Span × List Span)
  | .get width offset => do
    boundsCheck offset width.bytes own
    return ([⟨offset, width.bytes⟩], [])
  | .put width offset => do
    boundsCheck offset width.bytes own
    return ([⟨offset, width.bytes⟩], [])
  | .putBytes index srcIndex length => do
    boundsCheck index length own
    boundsCheck srcIndex length source
    return ((memcpySpans length).map (Span.shift index), (memcpySpans length).map (Span.shift srcIndex))
  | .getBytesArray offset length => do
    boundsCheck offset length own
    if length < 0 then .error .panic else return ([⟨offset, length.toNat⟩], [])
  | .getBytes offset count => do
    boundsCheck offset (i32 count) own
    return ([⟨offset, count⟩], [])
  | .writeBytes offset length => do
    boundsCheck offset length own
    if length < 0 then .error .panic else return ([⟨offset, length.toNat⟩], [])
  | .putBytesArray index srcIndex length => do
    boundsCheck index length own
    boundsCheck srcIndex length (i32 source)
    if source = 0 then .error .panic
    else return ((memcpySpans length).map (Span.shift index), (memcpySpans length).map (Span.shift srcIndex))

end Operation

end AeronGo.Atomic
