import Mathlib.Data.Nat.Bitwise

/-!
# Masks as arithmetic

`a & ~(2 ^ k - 1)` on `w`-bit words rounds down to a multiple of `2 ^ k`.
-/

namespace Vmill.Base

lemma and_high_mask {k w : Nat} (hk : k ≤ w) (a : Nat) :
    a &&& (2 ^ w - 2 ^ k) = a % 2 ^ w / 2 ^ k * 2 ^ k := by
  apply Nat.eq_of_testBit_eq
  intro i
  have hmask : 2 ^ w - 2 ^ k = (2 ^ (w - k) - 1) * 2 ^ k := by
    rw [Nat.sub_mul, ← Nat.pow_add, Nat.sub_add_cancel hk, Nat.one_mul]
  rw [Nat.testBit_and, hmask, Nat.testBit_mul_two_pow, Nat.testBit_mul_two_pow,
    Nat.testBit_div_two_pow, Nat.testBit_mod_two_pow, Nat.testBit_two_pow_sub_one]
  by_cases hlow : k ≤ i
  · have hback : i - k + k = i := by omega
    have hbound : (i - k < w - k) ↔ i < w := by omega
    simp only [hlow, hback, decide_true, Bool.true_and, hbound]
    exact Bool.and_comm _ _
  · simp [hlow]

end Vmill.Base
