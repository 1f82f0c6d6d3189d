import Mathlib.Data.Int.Basic
import Mathlib.Tactic.Ring
import Mathlib.Tactic.Linarith

/-!
# Fixed-width words on the integers

A signed machine word is an `Int` that a narrowing keeps in range: `i32` and `i64` are two's
complement narrowing, and a word operation is the integer operation followed by it. The bit
operations go through `BitVec`, so they are the machine's own on every argument, and the laws
below say what they are on the arguments programs use: masking with `2 ^ k - 1` is a remainder
(`and32_mask`, `and64_mask`), clearing the low bits rounds down (`clear32_low`).

The literals are written out so that `omega` decides the narrowing.
-/

namespace Machine

/-- Two's complement narrowing to 32 bits. -/
def i32 (x : Int) : Int := (x + 2147483648) % 4294967296 - 2147483648

/-- Two's complement narrowing to 64 bits. -/
def i64 (x : Int) : Int := (x + 9223372036854775808) % 18446744073709551616 - 9223372036854775808

/-- The values of a signed 32-bit word. -/
def I32 (x : Int) : Prop := -2147483648 ≤ x ∧ x < 2147483648

/-- The values of a signed 64-bit word. -/
def I64 (x : Int) : Prop := -9223372036854775808 ≤ x ∧ x < 9223372036854775808

instance (x : Int) : Decidable (I32 x) := inferInstanceAs (Decidable (_ ∧ _))

instance (x : Int) : Decidable (I64 x) := inferInstanceAs (Decidable (_ ∧ _))

theorem i32_range (x : Int) : I32 (i32 x) := by
  unfold I32 i32
  omega

theorem i64_range (x : Int) : I64 (i64 x) := by
  unfold I64 i64
  omega

variable {k : Nat} {m x : Int}

/-- Narrowing a value in range changes nothing. -/
theorem i32_eq (h : -2147483648 ≤ x ∧ x < 2147483648) : i32 x = x := by
  unfold i32
  omega

theorem i64_eq (h : -9223372036854775808 ≤ x ∧ x < 9223372036854775808) : i64 x = x := by
  unfold i64
  omega

theorem i32_of_I32 (h : I32 x) : i32 x = x := i32_eq h

theorem i64_of_I64 (h : I64 x) : i64 x = x := i64_eq h

/-- Narrowing inside a sum is absorbed by the narrowing outside. -/
theorem i32_add_left (x y : Int) : i32 (i32 x + y) = i32 (x + y) := by
  unfold i32
  omega

theorem i32_sub_left (x y : Int) : i32 (i32 x - y) = i32 (x - y) := by
  unfold i32
  omega

/-- Two values narrow alike exactly when they differ by a multiple of the word size. -/
theorem i32_eq_iff (x y : Int) : i32 x = i32 y ↔ (x - y) % 4294967296 = 0 := by
  unfold i32
  omega

/-! ## Bit operations -/

/-- Bitwise and of two 32-bit words. -/
def and32 (x y : Int) : Int := (BitVec.ofInt 32 x &&& BitVec.ofInt 32 y).toInt

/-- Bitwise and of two 64-bit words. -/
def and64 (x y : Int) : Int := (BitVec.ofInt 64 x &&& BitVec.ofInt 64 y).toInt

/-- The bits of a 32-bit word that a mask does not have: `x & ^y`. -/
def clear32 (x y : Int) : Int := (BitVec.ofInt 32 x &&& ~~~BitVec.ofInt 32 y).toInt

/-- Masking a bit vector with `2 ^ k - 1` keeps the remainder. -/
private theorem toNat_and_mask {w k : Nat} (hk : k < w) (x : Int) :
    (BitVec.ofInt w x &&& BitVec.ofInt w (2 ^ k - 1)).toNat = (x % 2 ^ k).toNat := by
  have hpow : (2 : Nat) ^ k < 2 ^ w := Nat.pow_lt_pow_right (by norm_num) hk
  have hmask : (BitVec.ofInt w (2 ^ k - 1)).toNat = 2 ^ k - 1 := by
    have hcast : ((2 : Int) ^ k - 1) = ((2 ^ k - 1 : Nat) : Int) := by
      have := Nat.one_le_two_pow (n := k)
      push_cast [Nat.cast_sub this]
      rfl
    have hpos := Nat.one_le_two_pow (n := k)
    rw [hcast, BitVec.ofInt_natCast, BitVec.toNat_ofNat, Nat.mod_eq_of_lt (by omega)]
  rw [BitVec.toNat_and, hmask, Nat.and_two_pow_sub_one_eq_mod, BitVec.toNat_ofInt]
  have hdvd : (2 : Int) ^ k ∣ 2 ^ w := pow_dvd_pow 2 hk.le
  have hnonneg : 0 ≤ x % (2 : Int) ^ w := Int.emod_nonneg _ (by positivity)
  zify
  rw [Int.toNat_of_nonneg hnonneg, Int.toNat_of_nonneg (Int.emod_nonneg _ (by positivity)),
    Int.emod_emod_of_dvd _ hdvd]

private theorem toInt_and_mask {w k : Nat} (hk : k < w) (x : Int) :
    (BitVec.ofInt w x &&& BitVec.ofInt w (2 ^ k - 1)).toInt = x % 2 ^ k := by
  have hnat := toNat_and_mask hk x
  have hpos : (0 : Int) < 2 ^ k := by positivity
  have hlt : x % 2 ^ k < 2 ^ k := Int.emod_lt_of_pos x hpos
  have hnn : 0 ≤ x % (2 : Int) ^ k := Int.emod_nonneg _ hpos.ne'
  have hpow : (2 : Int) ^ (k + 1) ≤ 2 ^ w := pow_le_pow_right₀ (by norm_num) hk
  rw [BitVec.toInt_eq_toNat_cond, hnat, if_pos]
  · exact Int.toNat_of_nonneg hnn
  · zify
    rw [Int.toNat_of_nonneg hnn]
    rw [pow_succ] at hpow
    linarith

/-- Masking with `2 ^ k - 1` is the remainder, for negative words too. -/
theorem and32_mask (hk : k < 32) (x : Int) : and32 x (2 ^ k - 1) = x % 2 ^ k :=
  toInt_and_mask hk x

theorem and64_mask (hk : k < 64) (x : Int) : and64 x (2 ^ k - 1) = x % 2 ^ k :=
  toInt_and_mask hk x

/-- Masking with a word that is not negative, bit by bit. -/
theorem and64_eq (x : Int) (lo : 0 ≤ m) (hi : m < 9223372036854775808) :
    and64 x m = (((x % 18446744073709551616).toNat &&& m.toNat : Nat) : Int) := by
  have hmask : (BitVec.ofInt 64 m).toNat = m.toNat := by
    rw [BitVec.toNat_ofInt]
    norm_num
    omega
  have hword : (BitVec.ofInt 64 x).toNat = (x % 18446744073709551616).toNat := by
    rw [BitVec.toNat_ofInt]
    norm_num
  have hle : (x % 18446744073709551616).toNat &&& m.toNat ≤ m.toNat := Nat.and_le_right
  rw [and64, BitVec.toInt_eq_toNat_cond, BitVec.toNat_and, hmask, hword, if_pos (by omega)]

theorem and64_nonneg (x : Int) (lo : 0 ≤ m) (hi : m < 9223372036854775808) : 0 ≤ and64 x m := by
  rw [and64_eq x lo hi]
  exact Int.natCast_nonneg _

theorem and64_le (x : Int) (lo : 0 ≤ m) (hi : m < 9223372036854775808) : and64 x m ≤ m := by
  have hle : (x % 18446744073709551616).toNat &&& m.toNat ≤ m.toNat := Nat.and_le_right
  rw [and64_eq x lo hi]
  omega

/-- A bit vector is its masked part plus its cleared part. -/
private theorem clear_eq_sub {w : Nat} (x m : BitVec w) : x &&& ~~~m = x - (x &&& m) := by
  have hdisjoint : (x &&& ~~~m) &&& (x &&& m) = 0#w := by
    ext i hi
    simp only [BitVec.getElem_and, BitVec.getElem_not, BitVec.getElem_zero]
    cases x[i] <;> cases m[i] <;> rfl
  have hunion : (x &&& ~~~m) ||| (x &&& m) = x := by
    ext i hi
    simp only [BitVec.getElem_and, BitVec.getElem_or, BitVec.getElem_not]
    cases x[i] <;> cases m[i] <;> rfl
  have hsum : (x &&& ~~~m) + (x &&& m) = x := by
    rw [BitVec.add_eq_or_of_and_eq_zero _ _ hdisjoint, hunion]
  calc x &&& ~~~m = (x &&& ~~~m) + (x &&& m) - (x &&& m) := (BitVec.add_sub_cancel _ _).symm
    _ = x - (x &&& m) := by rw [hsum]

/-- A positive word is its own lowest bit if the word below it has no bit in common with it. -/
theorem and64_neg_eq_iff {v : Nat} (lo : 0 < v) (hi : v < 9223372036854775808) :
    and64 v (-v) = v ↔ v &&& (v - 1) = 0 := by
  have hneg : BitVec.ofInt 64 (-(v : Int)) = ~~~(BitVec.ofNat 64 v - 1#64) := by
    rw [BitVec.not_sub_one_eq_not_add_one, ← BitVec.neg_eq_not_add, BitVec.ofInt_neg, BitVec.ofInt_natCast]
  have hword : (BitVec.ofNat 64 v).toNat = v := by
    rw [BitVec.toNat_ofNat]
    omega
  have hbelow : (BitVec.ofNat 64 v - 1#64).toNat = v - 1 := by
    rw [BitVec.toNat_sub, hword]
    norm_num
    omega
  have hand : (BitVec.ofNat 64 v &&& (BitVec.ofNat 64 v - 1#64)).toNat = v &&& (v - 1) := by
    rw [BitVec.toNat_and, hword, hbelow]
  have hle : v &&& (v - 1) ≤ v := Nat.and_le_left
  have hsub : (BitVec.ofNat 64 v - (BitVec.ofNat 64 v &&& (BitVec.ofNat 64 v - 1#64))).toNat = v - (v &&& (v - 1)) := by
    rw [BitVec.toNat_sub, hand, hword]
    omega
  rw [and64, hneg, BitVec.ofInt_natCast, clear_eq_sub, BitVec.toInt_eq_toNat_cond, hsub, if_pos (by omega)]
  omega

/-- Clearing the bits of `2 ^ k - 1` rounds a word down to a multiple of `2 ^ k`. -/
theorem clear32_low (hk : k < 32) (x : Int) :
    clear32 x (2 ^ k - 1) = i32 x - x % 2 ^ k := by
  have hword : (BitVec.ofInt 32 x).toInt = i32 x := by
    rw [BitVec.toInt_ofInt]
    unfold i32
    rw [Int.bmod_def]
    norm_num
    split <;> omega
  have hmod : i32 x % 2 ^ k = x % 2 ^ k := by
    have hdvd : (2 : Int) ^ k ∣ 4294967296 := by
      rw [show (4294967296 : Int) = 2 ^ 32 from by norm_num]
      exact pow_dvd_pow 2 hk.le
    obtain ⟨q, hq⟩ : ∃ q, i32 x = x + 4294967296 * q := by
      refine ⟨-((x + 2147483648) / 4294967296), ?_⟩
      unfold i32
      omega
    rw [hq, Int.add_emod, Int.emod_eq_zero_of_dvd (hdvd.mul_right q), Int.add_zero,
      Int.emod_emod_of_dvd _ (dvd_refl _)]
  have hlow := Int.emod_nonneg x (show (2 : Int) ^ k ≠ 0 by positivity)
  have hle : -2147483648 ≤ i32 x - x % 2 ^ k := by
    -- the bound is itself a multiple of `2 ^ k`, so rounding down cannot pass it
    have hdvd : (2 : Int) ^ k ∣ 2147483648 := by
      rw [show (2147483648 : Int) = 2 ^ 31 from by norm_num]
      exact pow_dvd_pow 2 (by omega)
    have hmul : (2 : Int) ^ k ∣ i32 x - x % 2 ^ k + 2147483648 := by
      rw [← hmod]
      exact Int.dvd_add Int.dvd_self_sub_emod hdvd
    have hlt : x % 2 ^ k < 2 ^ k := Int.emod_lt_of_pos x (by positivity)
    have hrange := (i32_range x).1
    obtain ⟨q, hq⟩ := hmul
    have hpos : (0 : Int) < 2 ^ k := by positivity
    have hq0 : 0 ≤ q := by
      by_contra hneg
      have hq1 : q ≤ -1 := by omega
      have : (2 : Int) ^ k * q ≤ 2 ^ k * (-1) := mul_le_mul_of_nonneg_left hq1 hpos.le
      linarith
    have : 0 ≤ (2 : Int) ^ k * q := mul_nonneg hpos.le hq0
    linarith
  have hrange := (i32_range x).2
  unfold clear32
  rw [clear_eq_sub, BitVec.toInt_sub, hword, toInt_and_mask hk, Int.bmod_def]
  norm_num
  split <;> omega

end Machine
