import AeronGo.Util.Bits

/-!
# Log buffer descriptor

`aeron/logbuffer/descriptor.go`, the position arithmetic of `header.go` and `publication.go`, and
the fields that `NewPublication` derives. A raw tail is one 64-bit counter: the term id in the high
word, the offset in the low one.
-/

namespace AeronGo.LogBuffer

open Machine Util

/-- What the driver fixes when it creates a log: the term length is a power of two from 64 KiB to
1 GiB, the MTU a multiple of the frame alignment that holds more than a header. -/
structure LogParams where
  bits : Nat
  bits_ge : 16 ≤ bits
  bits_le : bits ≤ 30
  mtu : Int
  mtu_aligned : mtu % 32 = 0
  mtu_gt : 32 < mtu
  mtu_lt : mtu < 2147483648
  initialTermId : Int
  initialTermId_range : I32 initialTermId

namespace LogParams

variable (p : LogParams)

def termLength : Int := 2 ^ p.bits

/-- The largest payload of one frame. -/
def maxPayloadLength : Int := i32 (p.mtu - 32)

/-- `ComputeMaxMessageLength`. -/
def maxMessageLength : Int := p.termLength.tdiv 8

def positionBitsToShift : Int := numberOfTrailingZeroes (BitVec.ofInt 32 p.termLength)

def maxPossiblePosition : Int := i64 (p.termLength * 2147483648)

end LogParams

/-! ## Raw tails -/

/-- `TermID`. -/
def termID (rawTail : Int) : Int := i32 (rawTail / 4294967296)

/-- `rawTail & 0xFFFFFFFF`. -/
def tailOffset (rawTail : Int) : Int := and64 rawTail 0xFFFFFFFF

/-- The value that `RotateLog` stores for a new term: offset zero. -/
def rawTailOf (termId : Int) : Int := i64 (termId * 4294967296)

/-- `indexByTermCount`, Go's remainder: negative for a negative count, where indexing panics. -/
def indexByTermCount (termCount : Int) : Int := termCount.tmod 3

/-! ## Positions -/

/-- `computeTermBeginPosition`. -/
def computeTermBeginPosition (activeTermId positionBitsToShift initialTermId : Int) : Int :=
  i64 (i32 (activeTermId - initialTermId) * 2 ^ positionBitsToShift.toNat)

/-- `computePosition`. -/
def computePosition (activeTermId termOffset positionBitsToShift initialTermId : Int) : Int :=
  i64 (i64 (i32 (activeTermId - initialTermId) * 2 ^ positionBitsToShift.toNat) + termOffset)

end AeronGo.LogBuffer
