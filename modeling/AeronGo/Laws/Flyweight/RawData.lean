import AeronGo.Laws.Atomic.Footprint
import AeronGo.Laws.Flyweight.Fields

/-!
# Raw data stays in its buffer

The buffer over the data of a `LengthAndRawDataField` begins four bytes behind the length and is as long as what is left
from the length on, so the check of a copy lets four bytes more through than there are. What a copy writes is said by its
spans (`written`, `run_untouched`); it is inside the wrapped buffer, and is read back, exactly when the data ends there.
-/

namespace AeronGo.Flyweight

open Machine Atomic Util

/-- A copy into a raw data field: `CopyBuffer` out of a range, or `CopyString`. -/
inductive Copy where
  | buffer (source : Range)
  | string (data : List UInt8)

namespace Copy

def bytes : Copy → List UInt8
  | buffer source => source.bytes
  | string data => data

/-- The length that is stored and copied. -/
def length (copy : Copy) : Int := i32 copy.bytes.length

def run (copy : Copy) (fld : LengthAndRawDataField) (b : Buffer) : Except Stop Buffer :=
  match copy with
  | buffer source => fld.copyBuffer b source.buffer source.offset source.length
  | string data => fld.copyString b data

end Copy

namespace LengthAndRawDataField

/-- What a copy of the length writes: the length, and the words of the data. -/
def written (fld : LengthAndRawDataField) (length : Int) : List Span :=
  ⟨fld.lenOffset, 4⟩ :: (memcpySpans length).map (Span.shift fld.dataOffset)

/-- Where `Wrap` finds the length. -/
def wrapOffset (rawOffset : Int) : Int := alignInt32 (i32 rawOffset) 4

/-- A wrap and a copy that are not stopped write only bytes of the buffer, and the data is read back. -/
def Contained (b : Buffer) (rawOffset : Int) (copy : Copy) : Prop :=
  ∀ fld size b', wrap b rawOffset = .ok (fld, size) → copy.run fld b = .ok b' →
    (∀ s ∈ fld.written copy.length, s.Inside b.length) ∧ fld.getAsASCII b' = .ok copy.bytes

/-- The checks on the way, Go's own one on the first byte of a string with them. -/
structure Passed (b : Buffer) (rawOffset : Int) (copy : Copy) : Prop where
  length : boundsCheck (wrapOffset rawOffset) 4 b.length = .ok ()
  before : boundsCheck (i32 (wrapOffset rawOffset + 4)) (getInt32 b.bytes (wrapOffset rawOffset)) b.length = .ok ()
  data : boundsCheck 0 copy.length (i32 (b.length - wrapOffset rawOffset)) = .ok ()
  some : copy ≠ .string []

/-- The field that `Wrap` leaves. -/
def wrapped (b : Buffer) (rawOffset : Int) : LengthAndRawDataField :=
  ⟨wrapOffset rawOffset, i32 (wrapOffset rawOffset + 4), i32 (b.length - wrapOffset rawOffset)⟩

variable {b b' : Buffer} {rawOffset size : Int} {copy : Copy} {fld : LengthAndRawDataField}

/-- A copy is the check of its length and then the stores. -/
theorem run_eq (fld : LengthAndRawDataField) (b : Buffer) (hsome : copy ≠ .string []) :
    ∃ src srcIndex, copy.run fld b = (boundsCheck 0 copy.length fld.dataCapacity >>= fun _ => .ok { b with
      bytes := memcpy (put 4 b.bytes fld.lenOffset copy.length) fld.dataOffset src srcIndex copy.length }) := by
  cases copy with
  | buffer source =>
    have hlength : Copy.length (.buffer source) = source.length := by
      have hlo := source.length_nonneg
      have hoff := source.offset_nonneg
      have hin := source.inside
      have hsmall := source.small
      rw [Copy.length, Copy.bytes, source.length_bytes]
      exact i32_eq (by omega)
    refine ⟨source.buffer.bytes, source.offset, ?_⟩
    rw [hlength, Copy.run, copyBuffer, source.check]
    rfl
  | string data =>
    have hne : data ≠ [] := fun hnil => hsome (congrArg _ hnil)
    have hcheck : boundsCheck 0 (i32 data.length) (i32 data.length) = .ok () := by
      rw [Operation.boundsCheck_i32, boundsCheck, Int.zero_add, if_neg (Int.lt_irrefl _)]
    refine ⟨arrayMemory data, 0, ?_⟩
    rw [Copy.run, copyString, hcheck, if_neg hne]
    rfl

/-- There is no first byte to take the address of. -/
theorem run_nil_stops : (Copy.string []).run fld b ≠ .ok b' := by
  intro h
  obtain ⟨_, -, h⟩ := ok_of_bind h
  obtain ⟨_, -, h⟩ := ok_of_bind h
  rw [if_pos rfl] at h
  cases h

/-- Calls are not stopped if they pass their checks. -/
theorem passed_iff_returns : Passed b rawOffset copy ↔
    ∃ size b', wrap b rawOffset = .ok (wrapped b rawOffset, size) ∧ copy.run (wrapped b rawOffset) b = .ok b' := by
  constructor
  · intro h
    obtain ⟨src, srcIndex, hrun⟩ := run_eq (wrapped b rawOffset) b h.some
    rw [show boundsCheck 0 copy.length (wrapped b rawOffset).dataCapacity = .ok () from h.data, ok_bind] at hrun
    refine ⟨4 + getInt32 b.bytes (wrapOffset rawOffset) + (wrapOffset rawOffset - rawOffset), _, ?_, hrun⟩
    rw [wrap, ← wrapOffset, h.length, ok_bind]
    dsimp only
    rw [h.before]
    rfl
  · rintro ⟨size, b', hwrap, hrun⟩
    obtain ⟨_, hlength, hwrap⟩ := ok_of_bind hwrap
    obtain ⟨_, hbefore, -⟩ := ok_of_bind hwrap
    have hsome : copy ≠ .string [] := by
      rintro rfl
      exact run_nil_stops hrun
    obtain ⟨src, srcIndex, heq⟩ := run_eq (wrapped b rawOffset) b hsome
    obtain ⟨_, hdata, -⟩ := ok_of_bind (heq.symm.trans hrun)
    exact ⟨hlength, hbefore, hdata, hsome⟩

theorem wrap_field (h : wrap b rawOffset = .ok (fld, size)) : fld = wrapped b rawOffset := by
  obtain ⟨_, -, h⟩ := ok_of_bind h
  obtain ⟨_, -, h⟩ := ok_of_bind h
  cases h
  rfl

/-- A copy with room for its data stores the length and the data. -/
theorem run_fits {offset room : Int} (hsome : copy ≠ .string []) (hroom : copy.bytes.length ≤ room)
    (hsmall : room < 2147483648) :
    copy.run ⟨offset, offset + 4, room⟩ b = .ok { b with bytes := write b.bytes offset (lengthAndData copy.bytes) } := by
  cases copy with
  | buffer source => exact copyBuffer_ok source (source.length_bytes ▸ hroom) hsmall
  | string data => exact copyString_ok (fun hnil => hsome (congrArg _ hnil)) hroom hsmall

/-- What is read back is no longer than a 32-bit length can be. -/
theorem length_of_getAsASCII {value : List UInt8} (h : fld.getAsASCII b = .ok value) : value.length < 2147483648 := by
  have hlength := (getInt32_range b.bytes fld.lenOffset).2
  unfold getAsASCII at h
  dsimp only at h
  split at h
  next => cases h
  next hnonneg =>
    obtain ⟨_, -, h⟩ := ok_of_bind h
    rw [← Except.ok.inj h, length_read, LengthAndRawDataField.length]
    omega

/-- **Raw data stays in its buffer, and is read back, exactly when** calls that pass their checks end the data in the
buffer. -/
theorem raw_data_contained_iff (b : Buffer) (hs : b.length < 2147483648) (rawOffset : Int) (copy : Copy) :
    Contained b rawOffset copy ↔ (Passed b rawOffset copy →
      0 ≤ wrapOffset rawOffset ∧ wrapOffset rawOffset + 4 + copy.bytes.length ≤ b.length) := by
  constructor
  · intro h hpassed
    obtain ⟨size, b', hwrap, hrun⟩ := passed_iff_returns.mp hpassed
    obtain ⟨hinside, hread⟩ := h _ size b' hwrap hrun
    have hlength : copy.length = copy.bytes.length := by
      have hlt := length_of_getAsASCII hread
      exact i32_eq (by omega)
    have hword := hinside _ List.mem_cons_self
    have hfirst := hword (wrapOffset rawOffset) ⟨Int.le_refl _, by simp [wrapped]⟩
    have hlast := hword (wrapOffset rawOffset + 3) ⟨by simp [wrapped], by simp [wrapped]⟩
    have hdata : i32 (wrapOffset rawOffset + 4) = wrapOffset rawOffset + 4 := i32_eq (by omega)
    have hrest := memcpySpans_inside_iff.mp fun s hs => hinside s (List.mem_cons_of_mem _ hs)
    simp only [wrapped, hdata, hlength] at hrest
    omega
  · intro h fld size b' hwrap hrun
    obtain rfl := wrap_field hwrap
    have hpassed := passed_iff_returns.mpr ⟨size, b', hwrap, hrun⟩
    obtain ⟨lo, hend⟩ := h hpassed
    have hlength : copy.length = copy.bytes.length := i32_eq (by omega)
    have hfld : wrapped b rawOffset = ⟨wrapOffset rawOffset, wrapOffset rawOffset + 4, b.length - wrapOffset rawOffset⟩ := by
      rw [wrapped, i32_eq (by omega), i32_eq (by omega)]
    rw [hfld] at hrun ⊢
    rw [run_fits hpassed.some (by omega) (by omega)] at hrun
    cases hrun
    refine ⟨fun s hmem => ?_, getAsASCII_ok (Lays.write _ _ _) (by omega) (by omega)⟩
    rcases List.mem_cons.mp hmem with rfl | hmem
    · rintro a ⟨hlo, hhi⟩
      dsimp only at hlo hhi
      omega
    · refine memcpySpans_inside_iff.mpr (.inr ⟨show 0 ≤ wrapOffset rawOffset + 4 by omega, ?_⟩) s hmem
      rw [hlength]
      exact hend

/-- Five bytes behind an unaligned offset, with room. -/
theorem raw_data_contained_iff_five : Contained ⟨fun _ => 0, 16⟩ 1 (.string [1, 2, 3, 4, 5]) :=
  (raw_data_contained_iff _ (by decide) 1 _).mpr fun _ => by decide +kernel

/-- Five bytes in a buffer of eight: the check lets them through, and the last one is stored behind the buffer. -/
theorem raw_data_past_end : ¬Contained ⟨fun _ => 0, 8⟩ 0 (.string [1, 2, 3, 4, 5]) ∧
    (wrap ⟨fun _ => 0, 8⟩ 0 >>= fun w => w.1.copyString ⟨fun _ => 0, 8⟩ [1, 2, 3, 4, 5] >>= fun b =>
      .ok (b.bytes 8)) = .ok 5 := by
  refine ⟨fun h => ?_, rfl⟩
  have hpassed : Passed ⟨fun _ => 0, 8⟩ 0 (.string [1, 2, 3, 4, 5]) := ⟨rfl, rfl, rfl, nofun⟩
  obtain ⟨size, b', hwrap, hrun⟩ := passed_iff_returns.mp hpassed
  have hlast := (h _ size b' hwrap hrun).1 ⟨8, 1⟩ (by decide +kernel) 8 ⟨by decide, by decide⟩
  exact absurd hlast.2 (by decide)

end LengthAndRawDataField

end AeronGo.Flyweight
