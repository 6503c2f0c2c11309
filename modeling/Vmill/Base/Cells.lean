import Mathlib.Data.Set.Lattice
import Mathlib.Order.CompletePartialOrder
import Mathlib.Data.List.Pairwise
import Mathlib.Data.List.Perm.Basic

/-!
# Lists of cells

A list whose members each stand for a set (`den`). Cutting and copying such a list are both a
`Refines`: every cell is replaced by a list of cells.
-/

namespace Vmill.Base

variable {α β γ : Type} {den : α → Set β} {cells cells' : List α} {S : Set β} {x y : α}

/-- The cells are pairwise disjoint. -/
def Apart (den : α → Set β) (cells : List α) : Prop :=
  cells.Pairwise (fun x y => Disjoint (den x) (den y))

/-- The cells are pairwise disjoint and make up `S`. -/
structure Splits (den : α → Set β) (cells : List α) (S : Set β) : Prop where
  apart : Apart den cells
  cover : ∀ b, b ∈ S ↔ ∃ x ∈ cells, b ∈ den x

lemma Apart.perm (h : Apart den cells) (hp : cells.Perm cells') : Apart den cells' :=
  hp.pairwise h (fun hxy => hxy.symm)

lemma Splits.perm (h : Splits den cells S) (hp : cells.Perm cells') : Splits den cells' S :=
  ⟨h.apart.perm hp, fun b => by
    rw [h.cover]
    exact exists_congr fun x => and_congr_left fun _ => hp.mem_iff⟩

/-- Two members of a list of cells that share an element are one and the same,
unless the list holds the cell twice (and then it is empty). -/
lemma Apart.eq_of_mem (h : Apart den cells) (hx : x ∈ cells) (hy : y ∈ cells) {b : β}
    (hbx : b ∈ den x) (hby : b ∈ den y) : x = y := by
  by_contra hne
  have hsymm : Std.Symm (fun x y => Disjoint (den x) (den y)) := ⟨fun _ _ hd => hd.symm⟩
  have hdis : Disjoint (den x) (den y) := List.Pairwise.forall h hx hy hne
  exact Set.disjoint_left.mp hdis hbx hby

lemma Apart.disjoint_of_ne (h : Apart den cells) {i j : Nat} (hij : i ≠ j)
    (hx : cells[i]? = some x) (hy : cells[j]? = some y) : Disjoint (den x) (den y) := by
  obtain ⟨hi, rfl⟩ := List.getElem?_eq_some_iff.mp hx
  obtain ⟨hj, rfl⟩ := List.getElem?_eq_some_iff.mp hy
  have hpair := List.pairwise_iff_getElem.mp h
  rcases Nat.lt_or_gt_of_ne hij with hlt | hgt
  · exact hpair i j hi hj hlt
  · exact (hpair j i hj hi hgt).symm

lemma Apart.append_singleton (h : Apart den cells) (hy : ∀ x ∈ cells, Disjoint (den x) (den y)) :
    Apart den (cells ++ [y]) := by
  refine List.pairwise_append.mpr ⟨h, List.pairwise_singleton _ _, ?_⟩
  intro x hx y' hy'
  rw [List.mem_singleton.mp hy']
  exact hy x hx

lemma Apart.cut {xs ys : List α} (h : Apart den (x :: xs)) (hys : Apart den ys)
    (hsub : ∀ y ∈ ys, den y ⊆ den x) : Apart den (ys ++ xs) := by
  obtain ⟨hx, hxs⟩ := List.pairwise_cons.mp h
  refine List.pairwise_append.mpr ⟨hys, hxs, fun y hy z hz => ?_⟩
  exact (hx z hz).mono_left (hsub y hy)

lemma Splits.append_singleton {T : Set β} (h : Splits den cells (S \ T)) (hy : den y = T)
    (hT : T ⊆ S) : Splits den (cells ++ [y]) S := by
  refine ⟨h.apart.append_singleton ?_, ?_⟩
  · intro x hx
    refine Set.disjoint_left.mpr fun b hbx hby => ?_
    have hb : b ∈ S \ T := (h.cover b).mpr ⟨x, hx, hbx⟩
    exact hb.2 (hy ▸ hby)
  intro b
  constructor
  · intro hb
    by_cases hbT : b ∈ T
    · exact ⟨y, by simp, hy ▸ hbT⟩
    obtain ⟨x, hx, hbx⟩ := (h.cover b).mp ⟨hb, hbT⟩
    exact ⟨x, List.mem_append_left _ hx, hbx⟩
  rintro ⟨x, hx, hbx⟩
  rcases List.mem_append.mp hx with hx | hx
  · exact ((h.cover b).mpr ⟨x, hx, hbx⟩).1
  rw [List.mem_singleton.mp hx, hy] at hbx
  exact hT hbx

/-- Every cell is replaced by a list of cells related to it by `R`, and the
replacements are concatenated. -/
inductive Refines (R : α → List γ → Prop) : List α → List γ → Prop
  | nil : Refines R [] []
  | cons {x ys xs zs} : R x ys → Refines R xs zs → Refines R (x :: xs) (ys ++ zs)

namespace Refines

variable {R : α → List γ → Prop} {cells' : List γ} {y : γ} {den' : γ → Set β}

lemma cons_one {xs : List α} {zs : List γ} (hxy : R x [y]) (hrest : Refines R xs zs) :
    Refines R (x :: xs) (y :: zs) := .cons hxy hrest

lemma origin (h : Refines R cells cells') (hy : y ∈ cells') :
    ∃ x ∈ cells, ∃ ys, R x ys ∧ y ∈ ys := by
  induction h with
  | nil => cases hy
  | cons hR _ ih =>
  rcases List.mem_append.mp hy with hy | hy
  · exact ⟨_, (.head _), _, hR, hy⟩
  obtain ⟨x, hx, ys, hR', hys⟩ := ih hy
  exact ⟨x, List.mem_cons_of_mem _ hx, ys, hR', hys⟩

lemma image (h : Refines R cells cells') (hx : x ∈ cells) :
    ∃ ys, R x ys ∧ ∀ y ∈ ys, y ∈ cells' := by
  induction h with
  | nil => cases hx
  | cons hR _ ih =>
  rcases List.mem_cons.mp hx with rfl | hx
  · exact ⟨_, hR, fun y hy => List.mem_append_left _ hy⟩
  obtain ⟨ys, hR', hys⟩ := ih hx
  exact ⟨ys, hR', fun y hy => List.mem_append_right _ (hys y hy)⟩

lemma imp {R' : α → List γ → Prop} (h : Refines R cells cells')
    (himp : ∀ x ∈ cells, ∀ ys, R x ys → R' x ys) : Refines R' cells cells' := by
  induction h with
  | nil => exact .nil
  | cons hR _ ih =>
  exact .cons (himp _ (.head _) _ hR)
    (ih fun x hx => himp x (.tail _ hx))

lemma apart (h : Refines R cells cells') (hcells : Apart den cells)
    (hR : ∀ x ys, R x ys → Apart den' ys ∧ ∀ y ∈ ys, den' y ⊆ den x) : Apart den' cells' := by
  induction h with
  | nil => exact List.Pairwise.nil
  | @cons x ys xs zs hxy hrest ih =>
  obtain ⟨hx, hxs⟩ := List.pairwise_cons.mp hcells
  obtain ⟨hys, hsub⟩ := hR x ys hxy
  refine List.pairwise_append.mpr ⟨hys, ih hxs, ?_⟩
  intro y hy z hz
  obtain ⟨x', hx', zs', hR', hz'⟩ := hrest.origin hz
  exact (hx x' hx').mono (hsub y hy) ((hR x' zs' hR').2 z hz')

lemma splits {S T : Set β} (h : Refines R cells cells') (hcells : Splits den cells S)
    (hR : ∀ x ys, R x ys → Splits den' ys (den x \ T)) : Splits den' cells' (S \ T) := by
  refine ⟨h.apart hcells.apart ?_, ?_⟩
  · intro x ys hxy
    refine ⟨(hR x ys hxy).apart, fun y hy b hb => ?_⟩
    exact (((hR x ys hxy).cover b).mpr ⟨y, hy, hb⟩).1
  intro b
  constructor
  · rintro ⟨hS, hT⟩
    obtain ⟨x, hx, hbx⟩ := (hcells.cover b).mp hS
    obtain ⟨ys, hxy, hmem⟩ := h.image hx
    obtain ⟨y, hy, hby⟩ := ((hR x ys hxy).cover b).mp ⟨hbx, hT⟩
    exact ⟨y, hmem y hy, hby⟩
  rintro ⟨y, hy, hby⟩
  obtain ⟨x, hx, ys, hxy, hyy⟩ := h.origin hy
  have hb : b ∈ den x \ T := ((hR x ys hxy).cover b).mpr ⟨y, hyy, hby⟩
  exact ⟨(hcells.cover b).mpr ⟨x, hx, hb.1⟩, hb.2⟩

end Refines

end Vmill.Base
