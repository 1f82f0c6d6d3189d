import AeronGo.LogBuffer.Descriptor
import AeronGo.Laws.Util.Bits

/-!
# Laws of the descriptor

Aligning, the term length's shift, and the two halves of a raw tail. `Tail n o` is the raw tail of
term id `n` at offset `o`; every raw tail of a log has this form as long as the offset stays below
`2 ^ 32`, and a get-and-add then moves the offset only (`tail_add`).
-/

namespace AeronGo.LogBuffer

open Machine Util

/-- Aligning to 32 rounds up. -/
theorem alignInt32_eq {value : Int} (lo : -2147483648 ≤ value) (hi : value ≤ 2147483616) :
    alignInt32 value 32 = (value + 31) / 32 * 32 := by
  have hpow := alignInt32_pow (k := 5) (by decide) lo (by norm_num; omega)
  norm_num at hpow
  exact hpow

/-- The trailing zeroes of a power of two are its exponent. -/
theorem numberOfTrailingZeroes_pow {k : Nat} (hk : k < 31) :
    numberOfTrailingZeroes (BitVec.ofInt 32 (2 ^ k)) = k := by
  have hall : ∀ k : Fin 31, numberOfTrailingZeroes (BitVec.ofInt 32 (2 ^ k.val)) = k.val := by decide
  exact hall ⟨k, hk⟩

/-- A fold splits a value at the shift and adds the two parts. -/
theorem fold_eq (shift value : Nat) :
    fold shift (2 ^ shift - 1) value = value / 2 ^ shift + value % 2 ^ shift := by
  rw [fold, Nat.and_two_pow_sub_one_eq_mod, Nat.shiftRight_eq_div_pow]

variable {offset termId : Int} {value : Nat}

/-- The table that replaces the division by three holds the remainders. -/
theorem fastMod3Table_getElem? (h : value < 62) : fastMod3Table[value]? = some ((value % 3 : Nat) : Int) := by
  have hall : ∀ n : Fin 62, fastMod3Table[n.val]? = some ((n.val % 3 : Nat) : Int) := by decide
  exact hall ⟨value, h⟩

/-- The folds of a 32-bit value: their bounds, and that each keeps the remainder by three. -/
theorem fold_bounds (h : value < 4294967296) :
    fold 16 0xFFFF value ≤ 0x1FFFE ∧ fold 8 0x00FF (fold 16 0xFFFF value) ≤ 0x2FD ∧
      fold 4 0x000F (fold 8 0x00FF (fold 16 0xFFFF value)) ≤ 0x3D ∧
      fold 4 0x000F (fold 8 0x00FF (fold 16 0xFFFF value)) % 3 = value % 3 := by
  rw [show fold 16 0xFFFF value = _ from fold_eq 16 value, show fold 8 0x00FF _ = _ from fold_eq 8 _,
    show fold 4 0x000F _ = _ from fold_eq 4 _]
  omega

/-- `FastMod3` is the remainder as long as its folds fit its table. -/
theorem fastMod3_eq (h : value < 4294967296) : fastMod3 value = some ((value % 3 : Nat) : Int) := by
  obtain ⟨-, -, hbound, hmod⟩ := fold_bounds h
  rw [fastMod3, fastMod3Table_getElem? (Nat.lt_succ_of_le hbound), hmod]

/-! ## Parameters -/

namespace LogParams

variable (p : LogParams)

/-- A term has at least 64 KiB, -/
theorem termLength_ge : 65536 ≤ p.termLength := by
  have hpow : (2 : Int) ^ 16 ≤ 2 ^ p.bits := pow_le_pow_right₀ (by norm_num) p.bits_ge
  unfold termLength
  linarith

/-- and at most 1 GiB. -/
theorem termLength_le : p.termLength ≤ 1073741824 := by
  have hpow : (2 : Int) ^ p.bits ≤ 2 ^ 30 := pow_le_pow_right₀ (by norm_num) p.bits_le
  unfold termLength
  linarith

theorem termLength_aligned : p.termLength % 32 = 0 := by
  refine Int.emod_eq_zero_of_dvd ?_
  have hdvd : (2 : Int) ^ 5 ∣ 2 ^ p.bits := pow_dvd_pow 2 (Nat.le_trans (by decide) p.bits_ge)
  unfold termLength
  simpa using hdvd

theorem positionBitsToShift_eq : p.positionBitsToShift = p.bits :=
  numberOfTrailingZeroes_pow (Nat.lt_succ_of_le p.bits_le)

/-- Shifting by the position bits multiplies by the term length. -/
theorem shift_eq : (2 : Int) ^ p.positionBitsToShift.toNat = p.termLength := by
  rw [positionBitsToShift_eq, Int.toNat_natCast]
  rfl

/-- A frame carries what the MTU leaves behind its header. -/
theorem maxPayloadLength_eq : p.maxPayloadLength = p.mtu - 32 := by
  have hgt := p.mtu_gt
  have hlt := p.mtu_lt
  exact i32_eq (by omega)

theorem maxPayloadLength_ge : 32 ≤ p.maxPayloadLength := by
  have hgt := p.mtu_gt
  have haligned := p.mtu_aligned
  rw [maxPayloadLength_eq]
  omega

theorem maxPayloadLength_lt : p.maxPayloadLength < 2147483616 := by
  have hlt := p.mtu_lt
  rw [maxPayloadLength_eq]
  omega

theorem maxPayloadLength_aligned : p.maxPayloadLength % 32 = 0 := by
  have haligned := p.mtu_aligned
  rw [maxPayloadLength_eq]
  omega

/-- A message takes at most an eighth of a term. -/
theorem maxMessageLength_eq : p.maxMessageLength = p.termLength / 8 :=
  Int.tdiv_eq_ediv_of_nonneg (Int.le_trans (by decide) p.termLength_ge)

/-- Positions end with the term count. -/
theorem maxPossiblePosition_eq : p.maxPossiblePosition = p.termLength * 2147483648 := by
  have hge := p.termLength_ge
  have hle := p.termLength_le
  exact i64_eq (by omega)

/-- The smallest terms, with the largest MTU that divides them by eight. -/
def smallest : LogParams where
  bits := 16
  bits_ge := by decide
  bits_le := by decide
  mtu := 8192
  mtu_aligned := by decide
  mtu_gt := by decide
  mtu_lt := by decide
  initialTermId := 2147483647
  initialTermId_range := by decide

end LogParams

/-! ## Raw tails -/

/-- The raw tail of a term id and an offset. -/
def rawTail (termId offset : Int) : Int := termId * 4294967296 + offset

/-- The low word of a raw tail is the offset. -/
theorem tailOffset_eq (tail : Int) : tailOffset tail = tail % 4294967296 := by
  have hmask := and64_mask (k := 32) (by decide) tail
  have hlit : ((2 : Int) ^ 32 - 1) = 0xFFFFFFFF := by norm_num
  rw [hlit] at hmask
  rw [tailOffset, hmask]
  norm_num

theorem tailOffset_nonneg (tail : Int) : 0 ≤ tailOffset tail := by
  rw [tailOffset_eq]
  omega

theorem termID_range (tail : Int) : I32 (termID tail) := i32_range _

/-- A raw tail gives back its offset, -/
theorem tailOffset_rawTail (termId : Int) (lo : 0 ≤ offset) (hi : offset < 4294967296) :
    tailOffset (rawTail termId offset) = offset := by
  rw [tailOffset_eq, rawTail]
  omega

/-- and its term id. -/
theorem termID_rawTail (hid : I32 termId) (lo : 0 ≤ offset)
    (hi : offset < 4294967296) : termID (rawTail termId offset) = termId := by
  have hdiv : rawTail termId offset / 4294967296 = termId := by
    unfold rawTail
    omega
  rw [termID, hdiv, i32_of_I32 hid]

/-- A 64-bit raw tail is its term id and its offset. -/
theorem rawTail_eta {tail : Int} (h : I64 tail) : rawTail (termID tail) (tailOffset tail) = tail := by
  obtain ⟨lo, hi⟩ := h
  have hid : termID tail = tail / 4294967296 := i32_eq (by omega)
  rw [rawTail, hid, tailOffset_eq]
  omega

theorem rawTail_range (hid : I32 termId) (lo : 0 ≤ offset)
    (hi : offset < 4294967296) : I64 (rawTail termId offset) := by
  obtain ⟨hlo, hhi⟩ := hid
  unfold I64 rawTail
  omega

/-- A partition enters a term at offset zero. -/
theorem rawTailOf_eq (hid : I32 termId) : rawTailOf termId = rawTail termId 0 := by
  obtain ⟨lo, hi⟩ := hid
  rw [rawTailOf, rawTail, Int.add_zero]
  exact i64_eq (by omega)

/-- Adding to a raw tail moves its offset, as long as nothing is carried out of it. -/
theorem rawTail_add {tail delta : Int} (h : I64 tail) (lo : 0 ≤ delta)
    (hi : tailOffset tail + delta < 4294967296) :
    i64 (tail + delta) = rawTail (termID tail) (tailOffset tail + delta) := by
  have hoff := tailOffset_nonneg tail
  have hsum : tail + delta = rawTail (termID tail) (tailOffset tail + delta) := by
    rw [← rawTail_eta h, rawTail, rawTail]
    have hid := termID_rawTail (termID_range tail) hoff (by omega)
    have hofs := tailOffset_rawTail (termID tail) hoff (by omega)
    rw [← rawTail, hid, hofs, rawTail]
    ring
  rw [hsum]
  exact i64_of_I64 (rawTail_range (termID_range tail) (by omega) hi)

/-! ## Partition indices -/

/-- There are three partitions. -/
theorem indexByTermCount_lt (termCount : Int) : indexByTermCount termCount < 3 :=
  Int.tmod_lt_of_pos _ (by decide)

/-! ## Positions -/

/-- A position is the start of its term and the offset in it, in 64-bit words. -/
theorem computePosition_eq (p : LogParams) (termId offset : Int) :
    computePosition termId offset p.positionBitsToShift p.initialTermId =
      i64 (i64 (i32 (termId - p.initialTermId) * p.termLength) + offset) := by
  rw [computePosition, p.shift_eq]

/-- The start of a term. The difference of the ids is taken in 32 bits and does not overflow behind that. -/
theorem computeTermBeginPosition_eq (p : LogParams) (termId : Int) :
    computeTermBeginPosition termId p.positionBitsToShift p.initialTermId =
      i32 (termId - p.initialTermId) * p.termLength := by
  have hrange := i32_range (termId - p.initialTermId)
  have hge := p.termLength_ge
  have hle := p.termLength_le
  obtain ⟨lo, hi⟩ := hrange
  rw [computeTermBeginPosition, p.shift_eq]
  refine i64_eq ⟨?_, ?_⟩
  · nlinarith
  · nlinarith

end AeronGo.LogBuffer
