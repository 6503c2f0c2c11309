import Mathlib.Data.List.Range
import Mathlib.Logic.Function.Basic

/-!
# Writing and copying cell by cell

A copy in place whose later targets are not earlier sources ends in a state in which each target
holds what its source holds *then* (`copyEach_settles`).
-/

namespace Vmill.Base

section Loops

variable {ι κ α β : Type} [DecidableEq κ] {target source : ι → κ} {is : List ι} {mem : κ → α}
  {value : ι → α} {x : κ} {i : ι}

/-- Write `value i` to the cell `target i`, for each index in turn. -/
def writeEach (target : ι → κ) (value : ι → α) (is : List ι) (mem : κ → α) : κ → α :=
  is.foldl (fun mem i => Function.update mem (target i) (value i)) mem

/-- Copy the cell `source i` to the cell `target i`, for each index in turn. -/
def copyEach (target source : ι → κ) (is : List ι) (mem : κ → α) : κ → α :=
  is.foldl (fun mem i => Function.update mem (target i) (mem (source i))) mem

lemma writeEach_cons (value : ι → α) (i : ι) :
    writeEach target value (i :: is) mem =
      writeEach target value is (Function.update mem (target i) (value i)) := rfl

lemma copyEach_cons (i : ι) :
    copyEach target source (i :: is) mem =
      copyEach target source is (Function.update mem (target i) (mem (source i))) := rfl

lemma comp_writeEach (f : α → β) (value : ι → α) :
    f ∘ writeEach target value is mem = writeEach target (f ∘ value) is (f ∘ mem) := by
  induction is generalizing mem with
  | nil => rfl
  | cons i is ih =>
  rw [writeEach_cons, writeEach_cons, ih, Function.comp_update]
  rfl

lemma comp_copyEach (f : α → β) :
    f ∘ copyEach target source is mem = copyEach target source is (f ∘ mem) := by
  induction is generalizing mem with
  | nil => rfl
  | cons i is ih =>
  rw [copyEach_cons, copyEach_cons, ih, Function.comp_update]
  rfl

lemma writeEach_of_not_target (hx : ∀ i ∈ is, target i ≠ x) :
    writeEach target value is mem x = mem x := by
  induction is generalizing mem with
  | nil => rfl
  | cons i is ih =>
  rw [writeEach_cons, ih fun j hj => hx j (.tail _ hj),
    Function.update_of_ne (hx i (.head _)).symm]

lemma copyEach_of_not_target (hx : ∀ i ∈ is, target i ≠ x) :
    copyEach target source is mem x = mem x := by
  induction is generalizing mem with
  | nil => rfl
  | cons i is ih =>
  rw [copyEach_cons, ih fun j hj => hx j (.tail _ hj),
    Function.update_of_ne (hx i (.head _)).symm]

lemma writeEach_of_target (hapart : is.Pairwise fun i j => target i ≠ target j) (hi : i ∈ is) :
    writeEach target value is mem (target i) = value i := by
  induction is generalizing mem with
  | nil => cases hi
  | cons j is ih =>
  obtain ⟨hfirst, hrest⟩ := List.pairwise_cons.mp hapart
  rw [writeEach_cons]
  rcases List.mem_cons.mp hi with rfl | hi
  · rw [writeEach_of_not_target fun k hk => (hfirst k hk).symm, Function.update_self]
  · exact ih hrest hi

lemma writeEach_of_eq (hsame : ∀ i ∈ is, mem (target i) = value i) :
    writeEach target value is mem = mem := by
  induction is generalizing mem with
  | nil => rfl
  | cons i is ih =>
  have hnone : Function.update mem (target i) (value i) = mem := by
    rw [← hsame i (.head _), Function.update_eq_self]
  rw [writeEach_cons, hnone]
  exact ih fun j hj => hsame j (.tail _ hj)

/-- A copy in place, in an order in which no target is a source or a target of an earlier index:
each target ends up with what its source has at the end. -/
lemma copyEach_settles (horder : is.Pairwise fun i j => target i ≠ target j ∧ source i ≠ target j)
    (hi : i ∈ is) :
    copyEach target source is mem (target i) = copyEach target source is mem (source i) := by
  induction is generalizing mem with
  | nil => cases hi
  | cons j is ih =>
  obtain ⟨hfirst, hrest⟩ := List.pairwise_cons.mp horder
  rw [copyEach_cons]
  rcases List.mem_cons.mp hi with rfl | hi
  · -- neither of the two cells is written any more
    rw [copyEach_of_not_target fun k hk => (hfirst k hk).1.symm,
      copyEach_of_not_target fun k hk => (hfirst k hk).2.symm, Function.update_self]
    by_cases hself : source i = target i
    · rw [hself, Function.update_self]
    · rw [Function.update_of_ne hself]
  · exact ih hrest hi

lemma copyEach_self : copyEach target target is mem = mem := by
  induction is generalizing mem with
  | nil => rfl
  | cons i is ih =>
    rw [copyEach_cons, Function.update_eq_self, ih]

end Loops

section Windows

variable {α : Type} {mem mem' : Nat → α} {dest src n d : Nat}

/-- A window copied in an order, its own inverse, in which no target is an earlier source: the copy
stays in the window, and settles. -/
lemma copyEach_window {target source order : Nat → Nat}
    (horder : ∀ k < n, order k < n ∧ order (order k) = k)
    (htarget : ∀ i < n, target i = dest + order i) (hsource : ∀ i < n, source i = src + order i)
    (hlater : ∀ i j, i < j → j < n → order i ≠ order j ∧ src + order i ≠ dest + order j) :
    (∀ x, ¬ (dest ≤ x ∧ x < dest + n) →
      copyEach target source (List.range n) mem x = mem x) ∧
    ∀ k < n, copyEach target source (List.range n) mem (dest + k) =
      copyEach target source (List.range n) mem (src + k) := by
  refine ⟨fun x hx => copyEach_of_not_target fun i hi => ?_, fun k hk => ?_⟩
  · have hi := List.mem_range.mp hi
    have hin := (horder i hi).1
    rw [htarget i hi]
    omega
  obtain ⟨hin, hback⟩ := horder k hk
  have hpairs : (List.range n).Pairwise fun i j => target i ≠ target j ∧ source i ≠ target j := by
    refine List.pairwise_lt_range.imp_of_mem fun {i j} hi hj hij => ?_
    have hj := List.mem_range.mp hj
    obtain ⟨hne, hsrc⟩ := hlater i j hij hj
    rw [htarget i (hij.trans hj), htarget j hj, hsource i (hij.trans hj)]
    exact ⟨fun heq => hne (Nat.add_left_cancel heq), hsrc⟩
  have hsettled := @copyEach_settles _ _ _ _ _ _ _ mem _ hpairs (List.mem_range.mpr hin)
  rwa [htarget _ hin, hsource _ hin, hback] at hsettled

/-- Cells copied to a later window in place: as if through a temporary exactly if the source repeats
itself with the distance of the windows. -/
lemma window_copied_up_iff (hd : 0 < d)
    (hframe : ∀ x, ¬ (src + d ≤ x ∧ x < src + d + n) → mem' x = mem x)
    (hsettled : ∀ k < n, mem' (src + d + k) = mem' (src + k)) :
    (∀ k < n, mem' (src + d + k) = mem (src + k)) ↔
      ∀ j, j + d < n → mem (src + j) = mem (src + j + d) := by
  have hnext : ∀ j, src + (j + d) = src + d + j := fun j => by omega
  constructor
  · intro hcopied j hj
    have hlater := hsettled (j + d) hj
    rw [hcopied (j + d) hj, hnext j, hcopied j (by omega)] at hlater
    rw [Nat.add_assoc, hnext j]
    exact hlater.symm
  intro hrepeats k
  induction k using Nat.strongRecOn with
  | ind k ih =>
    intro hk
    rw [hsettled k hk]
    by_cases hlow : k < d
    · exact hframe _ (by omega)
    -- the source is a target of a smaller index
    obtain ⟨j, rfl⟩ : ∃ j, k = j + d := ⟨k - d, by omega⟩
    rw [hnext j, ih j (by omega) (by omega), hrepeats j hk, Nat.add_assoc, hnext j]

lemma window_copied_down_iff (hd : 0 < d)
    (hframe : ∀ x, ¬ (dest ≤ x ∧ x < dest + n) → mem' x = mem x)
    (hsettled : ∀ k < n, mem' (dest + k) = mem' (dest + d + k)) :
    (∀ k < n, mem' (dest + k) = mem (dest + d + k)) ↔
      ∀ j, j + d < n → mem (dest + d + j) = mem (dest + d + j + d) := by
  have hnext : ∀ j, dest + d + j = dest + (j + d) := fun j => by omega
  constructor
  · intro hcopied j hj
    have hlater := hsettled j (by omega)
    rw [hcopied j (by omega), hnext j, hcopied (j + d) hj] at hlater
    rw [hnext j, hlater]
    congr 1
    omega
  intro hrepeats k hk
  -- by induction on how many cells are left behind `k`
  obtain ⟨left, hleft⟩ : ∃ left, n - k = left := ⟨_, rfl⟩
  induction left using Nat.strongRecOn generalizing k with
  | ind left ih =>
    rw [hsettled k hk]
    by_cases hhigh : n ≤ k + d
    · exact hframe _ (by omega)
    have hlater := ih (n - (k + d)) (by omega) (k + d) (by omega) rfl
    rw [hrepeats k (by omega), hnext k, hlater]
    congr 1
    omega

end Windows

end Vmill.Base
