import AeronGo.Machine.Memory

/-!
# Bit utilities

`aeron/util/bits.go`. `Memcpy` is here on the one memory that its pointers point into; `atomic.Buffer`
has it between two buffers.
-/

namespace AeronGo.Util

open Machine

/-- `AlignInt32`: rounded up to the alignment boundary, in 32 bits. -/
def alignInt32 (value alignment : Int) : Int := clear32 (i32 (value + (alignment - 1))) (alignment - 1)

/-- The table of `NumberOfTrailingZeroes`. -/
def trailingZeroesTable : List Int :=
  [0, 1, 2, 24, 3, 19, 6, 25,
    22, 4, 20, 10, 16, 7, 12, 26,
    31, 23, 18, 5, 21, 9, 15, 11,
    30, 17, 8, 14, 29, 13, 28, 27]

def numberOfTrailingZeroes (value : BitVec 32) : Int :=
  if value = 0 then 32
  else trailingZeroesTable.getD (((value &&& -value) * 0x04D7651F#32) >>> 27).toNat 0

/-- The table of `FastMod3`. -/
def fastMod3Table : List Int :=
  [0, 1, 2, 0, 1, 2, 0, 1, 2, 0, 1, 2,
    0, 1, 2, 0, 1, 2, 0, 1, 2, 0, 1, 2, 0, 1, 2, 0, 1, 2, 0, 1, 2,
    0, 1, 2, 0, 1, 2, 0, 1, 2, 0, 1, 2, 0, 1, 2, 0, 1, 2, 0, 1, 2,
    0, 1, 2, 0, 1, 2, 0, 1]

/-- One line of `FastMod3`: the bits above the shift added to those of the mask. -/
def fold (shift mask value : Nat) : Nat := (value >>> shift) + (value &&& mask)

/-- `FastMod3` of an unsigned value; `none` is an index past the table. -/
def fastMod3 (value : Nat) : Option Int :=
  let value := fold 16 0xFFFF value
  let value := fold 8 0x00FF value
  let value := fold 4 0x000F value
  fastMod3Table[value]?

/-- `IsPowerOfTwo`, of a 64-bit value: `^value` is `-value - 1`. -/
def isPowerOfTwo (value : Int) : Bool := 0 < value ∧ and64 value (-value - 1 + 1) = value

namespace Pointer

/-- A loop of `Memcpy`: while the index is below the bound, a word of `w` bytes is read from the memory
that the words before it have left. -/
def copyLoop (w : Nat) (dest src bound : Int) : Nat → Int → Memory → Int × Memory
  | 0, i, m => (i, m)
  | fuel + 1, i, m =>
    if i < bound then
      copyLoop w dest src bound fuel (i32 (i + w)) (write m (dest + i) (read m (src + i) w))
    else (i, m)

/-- `Memcpy`: batches of 8, batches of 4 and the remainder. -/
def memcpy (dest src length : Int) (m : Memory) : Memory :=
  let (i, m) := copyLoop 8 dest src (length / 8) length.toNat 0 m
  let (i, m) := copyLoop 4 dest src (i32 (length - i) / 4) length.toNat i m
  (copyLoop 1 dest src length length.toNat i m).2

end Pointer

end AeronGo.Util
