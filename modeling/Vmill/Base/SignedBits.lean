import Mathlib.Data.Int.Bitwise
import Mathlib.Data.Nat.Bitwise
import Mathlib.Tactic.Common

/-!
# Bits of signed words

A word read as a signed number has the bits of the word, and the sign bit in all places above it
(`testBit_toInt`).
-/

namespace Vmill.Base

lemma int_eq_of_testBit {m n : Int} (h : ∀ i, m.testBit i = n.testBit i) : m = n := by
  -- the places above both numbers tell their signs apart
  have hsign : ∀ a b : Nat, ¬ ∀ i, a.testBit i = !b.testBit i := by
    intro a b hbits
    have ha : a.testBit (a + b) = false :=
      Nat.testBit_lt_two_pow ((Nat.le_add_right a b).trans_lt Nat.lt_two_pow_self)
    have hb : b.testBit (a + b) = false :=
      Nat.testBit_lt_two_pow ((Nat.le_add_left b a).trans_lt Nat.lt_two_pow_self)
    have hdiff := hbits (a + b)
    rw [ha, hb] at hdiff
    exact absurd hdiff (by decide)
  cases m with
  | ofNat a =>
    cases n with
    | ofNat b => exact congrArg Int.ofNat (Nat.eq_of_testBit_eq h)
    | negSucc b => exact absurd h (hsign a b)
  | negSucc a =>
  cases n with
  | ofNat b => exact absurd (fun i => (h i).symm) (hsign b a)
  | negSucc b => exact congrArg Int.negSucc (Nat.eq_of_testBit_eq fun i => Bool.not_inj (h i))

lemma toInt_of_msb {w : Nat} {x : BitVec w} (hmsb : x.msb = true) :
    x.toInt = Int.negSucc (~~~x).toNat := by
  have hlt := x.isLt
  have hpow : ((2 ^ w : Nat) : Int) = 2 ^ w := by push_cast; rfl
  rw [BitVec.toInt_eq_msb_cond, hmsb, if_pos rfl, BitVec.toNat_not, Int.negSucc_eq]
  omega

lemma testBit_toInt {w : Nat} (x : BitVec w) (i : Nat) :
    x.toInt.testBit i = if i < w then x.getLsbD i else x.msb := by
  cases hmsb : x.msb with
  | false =>
    rw [BitVec.toInt_eq_toNat_of_msb hmsb]
    show x.toNat.testBit i = _
    rw [BitVec.testBit_toNat]
    split
    · rfl
    · exact BitVec.getLsbD_of_ge x i (by omega)
  | true =>
  rw [toInt_of_msb hmsb]
  show (!(~~~x).toNat.testBit i) = _
  rw [BitVec.testBit_toNat, BitVec.getLsbD_not]
  by_cases hi : i < w
  · simp [hi]
  · simp [hi]

variable {w : Nat} (x y : BitVec w)

lemma toInt_lor : (x ||| y).toInt = Int.lor x.toInt y.toInt := by
  refine int_eq_of_testBit fun i => ?_
  rw [Int.testBit_lor, testBit_toInt, testBit_toInt, testBit_toInt]
  split
  · exact BitVec.getLsbD_or
  · exact BitVec.msb_or

lemma toInt_land_lnot : (x &&& ~~~y).toInt = Int.land x.toInt (Int.lnot y.toInt) := by
  refine int_eq_of_testBit fun i => ?_
  rw [Int.testBit_land, Int.testBit_lnot, testBit_toInt, testBit_toInt, testBit_toInt]
  by_cases hi : i < w
  · simp [hi]
  simp only [hi, if_false, BitVec.msb_and, BitVec.msb_not]
  cases w with
  | zero => simp [BitVec.msb]
  | succ w => simp

lemma toInt_lxor : (x ^^^ y).toInt = Int.xor x.toInt y.toInt := by
  refine int_eq_of_testBit fun i => ?_
  rw [Int.testBit_lxor, testBit_toInt, testBit_toInt, testBit_toInt]
  split
  · exact BitVec.getLsbD_xor
  · exact BitVec.msb_xor

end Vmill.Base
