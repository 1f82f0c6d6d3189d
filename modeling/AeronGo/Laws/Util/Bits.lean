import AeronGo.Util.Bits
import Mathlib.Tactic.Linarith

/-!
# Laws of bit utilities
-/

namespace AeronGo.Util

open Machine

/-- Aligning to a power of two rounds up. -/
theorem alignInt32_pow {k : Nat} (hk : k < 31) {value : Int} (lo : -2147483648 ≤ value)
    (hi : value + 2 ^ k ≤ 2147483648) : alignInt32 value (2 ^ k) = (value + (2 ^ k - 1)) / 2 ^ k * 2 ^ k := by
  have hpos : (0 : Int) < 2 ^ k := by positivity
  have hword : i32 (value + (2 ^ k - 1)) = value + (2 ^ k - 1) := i32_eq (by omega)
  have hsplit := Int.emod_add_mul_ediv (value + (2 ^ k - 1)) (2 ^ k)
  rw [alignInt32, clear32_low (by omega), hword, hword, Int.mul_comm]
  omega

theorem isPowerOfTwo_iff {value : Int} (hi : value < 9223372036854775808) :
    isPowerOfTwo value = true ↔ ∃ k : Nat, value = 2 ^ k := by
  rw [isPowerOfTwo, decide_eq_true_iff, Int.sub_add_cancel]
  constructor
  · rintro ⟨lo, hand⟩
    obtain ⟨v, rfl⟩ := Int.eq_ofNat_of_zero_le (Int.le_of_lt lo)
    have hpos : 0 < v := by omega
    rw [and64_neg_eq_iff hpos (by omega), Nat.and_sub_one_eq_zero_iff_isPowerOfTwo (by omega)] at hand
    obtain ⟨k, rfl⟩ := hand
    exact ⟨k, by norm_num⟩
  · rintro ⟨k, rfl⟩
    have hcast : ((2 ^ k : Nat) : Int) = 2 ^ k := by norm_num
    have hpos := Nat.two_pow_pos k
    rw [← hcast] at hi ⊢
    refine ⟨by omega, ?_⟩
    rw [and64_neg_eq_iff hpos (by omega), Nat.and_sub_one_eq_zero_iff_isPowerOfTwo (by omega)]
    exact ⟨k, rfl⟩

end AeronGo.Util
