import AeronGo.Flyweight.Fields
import AeronGo.Laws.Atomic.Buffer
import AeronGo.Laws.Util.Bits
import AeronGo.Machine.Lays

/-!
# Laws of fields

A field that is wrapped inside its buffer is where it was asked for. Strings and raw data are stored as their bytes
behind their length (`lengthAndData`), and read back from where these lie.
-/

namespace AeronGo.Flyweight

open Machine Atomic Util

/-- Bytes behind their length. -/
def lengthAndData (bytes : List UInt8) : List UInt8 := leBytes 4 bytes.length ++ bytes

theorem alignInt32_four {value : Int} (lo : 0 ≤ value) (hi : value ≤ 2147483644) :
    alignInt32 value 4 = (value + 3) / 4 * 4 := by
  have hpow := alignInt32_pow (k := 2) (by decide) (show -2147483648 ≤ value by omega) (by norm_num; omega)
  norm_num at hpow
  exact hpow

/-- A range of a buffer, as the callers pass keys and labels. -/
structure Range where
  buffer : Buffer
  offset : Int
  length : Int
  offset_nonneg : 0 ≤ offset
  length_nonneg : 0 ≤ length
  inside : offset + length ≤ buffer.length
  small : buffer.length < 2147483648

namespace Range

def bytes (r : Range) : List UInt8 := read r.buffer.bytes r.offset r.length.toNat

theorem length_bytes (r : Range) : (r.bytes.length : Int) = r.length := by
  rw [bytes, length_read, Int.toNat_of_nonneg r.length_nonneg]

theorem check (r : Range) : boundsCheck r.offset r.length r.buffer.length = .ok () := by
  have hlo := r.length_nonneg
  exact boundsCheck_ok r.offset_nonneg (by omega) r.inside r.small

end Range

section Wrap

variable {b : Buffer} {offset : Int} (hs : b.length < 2147483648) (lo : 0 ≤ offset)

include hs lo

theorem Int32Field.wrap_ok (h : offset + 4 ≤ b.length) : Int32Field.wrap b offset = .ok (⟨offset⟩, 4) := by
  rw [Int32Field.wrap, i32_eq (by omega), boundsCheck_ok lo (by decide) h hs]
  rfl

theorem Int64Field.wrap_ok (h : offset + 8 ≤ b.length) : Int64Field.wrap b offset = .ok (⟨offset⟩, 8) := by
  rw [Int64Field.wrap, i32_eq (by omega), boundsCheck_ok lo (by decide) h hs]
  rfl

end Wrap

theorem read_arrayMemory (bytes : List UInt8) : read (arrayMemory bytes) 0 bytes.length = bytes := read_write_self _ 0 bytes

/-- The length and the data in two stores are one. -/
theorem write_lengthAndData (m : Memory) (offset : Int) (bytes : List UInt8) :
    write (put 4 m offset bytes.length) (offset + 4) bytes = write m offset (lengthAndData bytes) := by
  rw [lengthAndData, write_append, length_leBytes]
  rfl

section Data

variable {b : Buffer} {offset room : Int} {value : List UInt8}

theorem StringField.get_ok (h : Lays b.bytes offset (lengthAndData value)) (hlen : value.length < 2147483648) :
    StringField.get ⟨offset, offset + 4⟩ b = .ok value := by
  obtain ⟨hword, hdata⟩ := lays_append.mp h
  rw [length_leBytes] at hdata
  have hlength : getInt32 b.bytes offset = value.length := hword.getInt32.trans (i32_eq (by omega))
  rw [StringField.get, hlength, if_neg (by omega)]
  exact congrArg _ (hdata.read (Int.toNat_natCast _))

/-- Where the length of a string is put at a running offset. -/
def stringStart (align : Bool) (offset : Int) : Int := if align then (offset + 3) / 4 * 4 else offset

/-- A string that lies in the buffer is wrapped, and the size goes from the running offset to its end. -/
theorem StringField.wrap_ok {align : Bool} {start : Int} (hs : b.length < 2147483648) (lo : 0 ≤ offset)
    (hstart : stringStart align offset = start) (h : Lays b.bytes start (lengthAndData value))
    (hend : start + 4 + value.length ≤ b.length) :
    StringField.wrap b offset align = .ok (⟨start, start + 4⟩, start + 4 + value.length - offset) := by
  have hle : offset ≤ start := by
    rw [← hstart, stringStart]
    split <;> omega
  have hword : getInt32 b.bytes start = value.length := (lays_append.mp h).1.getInt32.trans (i32_eq (by omega))
  have hdata : i32 (start + 4) = start + 4 := i32_eq (by omega)
  have hoff : (if align then alignInt32 (i32 offset) 4 else i32 offset) = start := by
    rw [i32_eq (by omega), alignInt32_four lo (by omega)]
    exact hstart
  have hsize : 4 + (value.length : Int) + (if align then start - offset else 0) = start + 4 + value.length - offset := by
    cases align with
    | false =>
      have hsame : offset = start := hstart
      rw [if_neg nofun]
      omega
    | true =>
      rw [if_pos rfl]
      omega
  rw [StringField.wrap, hoff]
  dsimp only
  rw [boundsCheck_ok (by omega) (by decide) (by omega) hs, ok_bind, hword, hdata, boundsCheck_ok (by omega) (by omega) hend hs,
    ok_bind, hsize]
  rfl

theorem LengthAndRawDataField.copyBuffer_ok (source : Range) (hroom : source.length ≤ room) (hsmall : room < 2147483648) :
    LengthAndRawDataField.copyBuffer ⟨offset, offset + 4, room⟩ b source.buffer source.offset source.length =
      .ok { b with bytes := write b.bytes offset (lengthAndData source.bytes) } := by
  have hlo := source.length_nonneg
  have hcheck : boundsCheck 0 source.length room = .ok () := boundsCheck_ok (Int.le_refl 0) (by omega) (by omega) hsmall
  rw [copyBuffer, hcheck, ok_bind, source.check, ok_bind, memcpy_eq, ← write_lengthAndData, source.length_bytes]
  rfl

theorem LengthAndRawDataField.copyString_ok (hne : value ≠ []) (hroom : value.length ≤ room) (hsmall : room < 2147483648) :
    LengthAndRawDataField.copyString ⟨offset, offset + 4, room⟩ b value =
      .ok { b with bytes := write b.bytes offset (lengthAndData value) } := by
  have hlength : i32 (value.length : Int) = value.length := i32_eq (by omega)
  have hcheck : ∀ r : Int, value.length ≤ r → r < 2147483648 → boundsCheck 0 value.length r = .ok () := fun r hr hlt =>
    boundsCheck_ok (Int.le_refl 0) (by omega) (by omega) hlt
  rw [copyString, hlength, hcheck room hroom hsmall, ok_bind, hcheck _ (Int.le_refl _) (by omega), ok_bind, if_neg hne,
    memcpy_eq, Int.toNat_natCast, read_arrayMemory, write_lengthAndData]
  rfl

theorem LengthAndRawDataField.getAsASCII_ok (h : Lays b.bytes offset (lengthAndData value)) (hroom : value.length ≤ room)
    (hsmall : room < 2147483648) : LengthAndRawDataField.getAsASCII ⟨offset, offset + 4, room⟩ b = .ok value := by
  obtain ⟨hword, hdata⟩ := lays_append.mp h
  rw [length_leBytes] at hdata
  have hlength : LengthAndRawDataField.length ⟨offset, offset + 4, room⟩ b = value.length :=
    hword.getInt32.trans (i32_eq (by omega))
  rw [getAsASCII, hlength, if_neg (by omega), boundsCheck_ok (Int.le_refl 0) (by omega) (by omega) hsmall, ok_bind]
  exact congrArg _ (hdata.read (Int.toNat_natCast _))

end Data

end AeronGo.Flyweight
