import Mathlib.Logic.Function.Basic
import Mathlib.Data.List.Basic

/-!
# Functions of basic blocks under construction

Blocks that stand for a key are created the first time that it is asked for (`getOrCreate`).
Construction only adds (`Grows`).
-/

namespace Vmill.Base

/-- The blocks of a function, and the ones that stand for a key. -/
structure Blocks (κ ι : Type) where
  size : Nat
  code : Nat → List ι
  named : List (κ × Nat)

namespace Blocks

variable {κ ι : Type}

/-- A new block with some contents. -/
def create (f : Blocks κ ι) (body : List ι) : Nat × Blocks κ ι :=
  (f.size, { f with size := f.size + 1, code := Function.update f.code f.size body })

/-- Exchange the contents of a block. -/
def set (f : Blocks κ ι) (b : Nat) (body : List ι) : Blocks κ ι :=
  { f with code := Function.update f.code b body }

/-- Put instructions at the end of a block. -/
def append (f : Blocks κ ι) (b : Nat) (irs : List ι) : Blocks κ ι := f.set b (f.code b ++ irs)

@[simp] lemma code_set_self {f : Blocks κ ι} {b : Nat} {body : List ι} :
    (f.set b body).code b = body := Function.update_self _ _ _

@[simp] lemma code_append_self {f : Blocks κ ι} {b : Nat} {irs : List ι} :
    (f.append b irs).code b = f.code b ++ irs := code_set_self

lemma code_set_of_ne {f : Blocks κ ι} {b b' : Nat} {body : List ι} (hne : b' ≠ b) :
    (f.set b body).code b' = f.code b' :=
  Function.update_of_ne hne _ _

@[simp] lemma code_create {f : Blocks κ ι} {body : List ι} :
    (f.create body).2.code (f.create body).1 = body :=
  Function.update_self _ _ _

lemma code_create_of_lt {f : Blocks κ ι} {b : Nat} {body : List ι} (hb : b < f.size) :
    (f.create body).2.code b = f.code b :=
  Function.update_of_ne (Nat.ne_of_lt hb) _ _

variable [DecidableEq κ]

/-- The block of a key. -/
def find? (f : Blocks κ ι) (k : κ) : Option Nat := f.named.lookup k

/-- The block of a key, which is created with `init` if there is none. -/
def getOrCreate (f : Blocks κ ι) (k : κ) (init : List ι) : Nat × Blocks κ ι :=
  match f.find? k with
  | some b => (b, f)
  | none =>
    let (b, f) := f.create init
    (b, { f with named := f.named ++ [(k, b)] })

/-- Named blocks exist, and stand for one key each. -/
structure WF (f : Blocks κ ι) : Prop where
  below : ∀ k b, f.find? k = some b → b < f.size
  inj : ∀ k k' b, f.find? k = some b → f.find? k' = some b → k = k'

/-- `f'` is `f` with more blocks, and with other contents of at most the blocks in `touched`. -/
structure Grows (touched : Nat → Prop) (f f' : Blocks κ ι) : Prop where
  size : f.size ≤ f'.size
  named : ∀ k b, f.find? k = some b → f'.find? k = some b
  fresh : ∀ k b, f'.find? k = some b → f.find? k = some b ∨ f.size ≤ b
  kept : ∀ b < f.size, ¬ touched b → f'.code b = f.code b

variable {f f' f'' : Blocks κ ι} {touched : Nat → Prop} {k : κ} {b : Nat} {irs body : List ι}

lemma Grows.refl (f : Blocks κ ι) : Grows touched f f :=
  ⟨Nat.le_refl _, fun _ _ h => h, fun _ _ h => .inl h, fun _ _ _ => rfl⟩

lemma Grows.unnamed (h : Grows touched f f') (hb : b < f.size) (hno : ∀ k, f.find? k ≠ some b)
    (k : κ) : f'.find? k ≠ some b := fun hk =>
  (h.fresh k b hk).elim (hno k) fun hge => absurd hb (Nat.not_lt.mpr hge)

lemma grows_set : Grows (· = b) f (f.set b body) :=
  ⟨Nat.le_refl _, fun _ _ h => h, fun _ _ h => .inl h, fun _ _ hne => code_set_of_ne hne⟩

lemma WF.set (h : f.WF) : (f.set b body).WF := ⟨h.below, h.inj⟩

lemma grows_create : Grows touched f (f.create body).2 :=
  ⟨Nat.le_succ _, fun _ _ h => h, fun _ _ h => .inl h, fun _ hb _ => code_create_of_lt hb⟩

lemma WF.create (h : f.WF) : (f.create body).2.WF :=
  ⟨fun k b hb => Nat.lt_succ_of_lt (h.below k b hb), h.inj⟩

lemma WF.create_unnamed (h : f.WF) : (f.create body).2.find? k ≠ some (f.create body).1 :=
  fun hk => Nat.lt_irrefl _ (h.below k _ hk)

lemma find?_getOrCreate (k' : κ) :
    (f.getOrCreate k body).2.find? k' =
      if k' = k then some (f.getOrCreate k body).1 else f.find? k' := by
  unfold getOrCreate
  cases hk : f.find? k with
  | some b =>
    simp only
    split
    · rename_i heq
      rw [heq, hk]
    · rfl
  | none =>
  have hnew : ∀ b : Nat, List.lookup k' [(k, b)] = if k' = k then some b else none := by
    intro b
    by_cases heq : k' = k
    · simp [heq]
    have hne : (k' == k) = false := beq_false_of_ne heq
    simp [List.lookup_cons, hne, heq]
  simp only [create, find?, List.lookup_append, hnew]
  by_cases heq : k' = k
  · have hnone : f.named.lookup k = none := hk
    rw [heq, hnone, if_pos rfl]
    rfl
  · rw [if_neg heq, if_neg heq, Option.or_none]

lemma find?_getOrCreate_self :
    (f.getOrCreate k body).2.find? k = some (f.getOrCreate k body).1 := by
  rw [find?_getOrCreate, if_pos rfl]

lemma grows_getOrCreate : Grows touched f (f.getOrCreate k body).2 := by
  cases hk : f.find? k with
  | some b =>
    have hsame : (f.getOrCreate k body).2 = f := by simp [getOrCreate, hk]
    rw [hsame]
    exact Grows.refl f
  | none =>
  have hfst : (f.getOrCreate k body).1 = f.size := by simp [getOrCreate, hk, create]
  refine ⟨?_, fun k' b hb => ?_, fun k' b hb => ?_, fun b hb _ => ?_⟩
  · simp [getOrCreate, hk, create]
  · rw [find?_getOrCreate, if_neg fun heq => ?_]
    · exact hb
    rw [heq, hk] at hb
    exact nomatch hb
  · rw [find?_getOrCreate, hfst] at hb
    split at hb
    · exact .inr (Nat.le_of_eq (Option.some.inj hb))
    · exact .inl hb
  simp only [getOrCreate, hk, create]
  exact Function.update_of_ne (by omega) _ _

lemma WF.getOrCreate (h : f.WF) : (f.getOrCreate k body).2.WF := by
  cases hk : f.find? k with
  | some b =>
    have hsame : (f.getOrCreate k body).2 = f := by simp [Blocks.getOrCreate, hk]
    rwa [hsame]
  | none =>
  have hfst : (f.getOrCreate k body).1 = f.size := by
    simp [Blocks.getOrCreate, hk, Blocks.create]
  have hsize : (f.getOrCreate k body).2.size = f.size + 1 := by
    simp [Blocks.getOrCreate, hk, Blocks.create]
  refine ⟨fun k' b hb => ?_, fun k1 k2 b h1 h2 => ?_⟩
  · rw [find?_getOrCreate] at hb
    rw [hsize]
    split at hb
    · rw [← Option.some.inj hb, hfst]
      exact Nat.lt_succ_self _
    · exact Nat.lt_succ_of_lt (h.below k' b hb)
  rw [find?_getOrCreate, hfst] at h1 h2
  split at h1
  · rename_i heq1
    split at h2
    · rename_i heq2
      rw [heq1, heq2]
    cases h1
    exact absurd (h.below k2 _ h2) (Nat.lt_irrefl _)
  split at h2
  · cases h2
    exact absurd (h.below k1 _ h1) (Nat.lt_irrefl _)
  · exact h.inj k1 k2 b h1 h2

lemma code_getOrCreate :
    (f.getOrCreate k body).2.code (f.getOrCreate k body).1 =
      if (f.find? k).isSome then f.code (f.getOrCreate k body).1 else body := by
  unfold getOrCreate
  cases hk : f.find? k with
  | some b => rfl
  | none => simp [create]

lemma getOrCreate_new (hge : f.size ≤ b) (hlt : b < (f.getOrCreate k body).2.size) :
    b = (f.getOrCreate k body).1 ∧ f.find? k = none := by
  unfold getOrCreate at hlt ⊢
  cases hk : f.find? k with
  | some b' =>
    rw [hk] at hlt
    exact absurd hlt (Nat.not_lt.mpr hge)
  | none =>
  rw [hk] at hlt
  simp only [create] at hlt ⊢
  exact ⟨by omega, trivial⟩

end Blocks

end Vmill.Base
