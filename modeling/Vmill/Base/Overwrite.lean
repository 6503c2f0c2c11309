import Mathlib.Logic.Function.Basic
import Mathlib.Data.List.Basic

/-!
# Overwriting a stretch of a function

`overwrite f a vals` is `f` with the values `vals` stored from position `a` on:
what a block write does to a memory seen as a function of the address.
-/

namespace Vmill.Base

variable {β γ : Type} {f : Nat → β} {a x : Nat} {vals : List β}

/-- `f` with `vals` stored at `a, a + 1, ...`. -/
def overwrite (f : Nat → β) (a : Nat) (vals : List β) : Nat → β :=
  fun x => if a ≤ x then (vals[x - a]?).getD (f x) else f x

@[simp] lemma overwrite_nil (f : Nat → β) (a : Nat) : overwrite f a [] = f := by
  funext x
  simp [overwrite]

lemma overwrite_cons (f : Nat → β) (a : Nat) (v : β) (vals : List β) :
    overwrite f a (v :: vals) = overwrite (Function.update f a v) (a + 1) vals := by
  funext x
  unfold overwrite
  rcases Nat.lt_trichotomy x a with hlt | heq | hgt
  · have hle : ¬ a ≤ x := by omega
    have hle' : ¬ a + 1 ≤ x := by omega
    rw [if_neg hle, if_neg hle', Function.update_of_ne (by omega)]
  · subst heq
    have hle : ¬ x + 1 ≤ x := by omega
    simp [hle]
  have hidx : x - a = (x - (a + 1)) + 1 := by omega
  rw [if_pos (by omega), if_pos (by omega), hidx, List.getElem?_cons_succ,
    Function.update_of_ne (by omega)]

lemma overwrite_append (f : Nat → β) (a : Nat) (vals vals' : List β) :
    overwrite f a (vals ++ vals') = overwrite (overwrite f a vals) (a + vals.length) vals' := by
  induction vals generalizing f a with
  | nil => simp
  | cons v vals ih =>
  rw [List.cons_append, overwrite_cons, ih, overwrite_cons, List.length_cons]
  congr 1
  omega

lemma overwrite_of_not_mem (h : x < a ∨ a + vals.length ≤ x) : overwrite f a vals x = f x := by
  unfold overwrite
  split
  · have hnone : vals[x - a]? = none := List.getElem?_eq_none (by omega)
    rw [hnone, Option.getD_none]
  · rfl

lemma overwrite_congr {g : Nat → β} (h : f x = g x) (a : Nat) (vals : List β) :
    overwrite f a vals x = overwrite g a vals x := by
  unfold overwrite
  rw [h]

lemma overwrite_map (g : β → γ) (f : Nat → β) (a : Nat) (vals : List β) (x : Nat) :
    overwrite (fun y => g (f y)) a (vals.map g) x = g (overwrite f a vals x) := by
  unfold overwrite
  split
  · rw [List.getElem?_map]
    cases vals[x - a]? <;> rfl
  · rfl

lemma overwrite_of_mem {i : Nat} (h : i < vals.length) :
    overwrite f a vals (a + i) = vals[i] := by
  unfold overwrite
  rw [if_pos (Nat.le_add_right a i), Nat.add_sub_cancel_left, List.getElem?_eq_getElem h,
    Option.getD_some]

/-- Several blocks are stored, one after the other. -/
def overwriteAll (f : Nat → β) (blocks : List (Nat × List β)) : Nat → β :=
  blocks.foldl (fun f block => overwrite f block.1 block.2) f

lemma overwriteAll_of_not_mem {blocks : List (Nat × List β)}
    (h : ∀ block ∈ blocks, x < block.1 ∨ block.1 + block.2.length ≤ x) :
    overwriteAll f blocks x = f x := by
  induction blocks generalizing f with
  | nil => rfl
  | cons block blocks ih =>
  exact (ih fun b hb => h b (.tail _ hb)).trans (overwrite_of_not_mem (h block (.head _)))

end Vmill.Base
