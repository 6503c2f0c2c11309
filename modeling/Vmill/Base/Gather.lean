import Mathlib.Algebra.Ring.Nat
import Mathlib.Data.List.Basic

/-!
# Scattered transfers

A stream is moved into (or out of) a list of buffers. A part is a buffer and the number of entries
moved there, which are at its beginning.
-/

namespace Vmill.Base

variable {α : Type} {parts : List (List α × Nat)}

/-- The places of what is moved, one buffer after the other. -/
def scattered (parts : List (List α × Nat)) : List α := parts.flatMap fun part => part.1.take part.2

/-- How much is moved. -/
def moved (parts : List (List α × Nat)) : Nat := (parts.map Prod.snd).sum

/-- Nothing is moved after a buffer that is not filled. -/
def Filled (parts : List (List α × Nat)) : Prop :=
  parts.Pairwise fun a b => b.2 = 0 ∨ a.2 = a.1.length

lemma scattered_of_moved_eq_zero (h : moved parts = 0) : scattered parts = [] := by
  refine List.flatMap_eq_nil_iff.mpr fun part hpart => ?_
  have hzero : part.2 = 0 := List.sum_eq_zero_iff_forall_eq_nat.mp h part.2 (List.mem_map_of_mem hpart)
  rw [hzero, List.take_zero]

/-- If nothing is moved after a buffer that is not filled, the stream is at the beginning of the
concatenation of the buffers. -/
lemma scattered_of_filled (hle : ∀ part ∈ parts, part.2 ≤ part.1.length) (h : Filled parts) :
    scattered parts = (parts.flatMap Prod.fst).take (moved parts) := by
  induction parts with
  | nil => rfl
  | cons part parts ih =>
  obtain ⟨hfirst, hrest⟩ := List.pairwise_cons.mp h
  have hcount := hle part (.head _)
  have hmoved : moved (part :: parts) = part.2 + moved parts := rfl
  have hcons : scattered (part :: parts) = part.1.take part.2 ++ scattered parts := rfl
  rw [hcons, hmoved, List.flatMap_cons]
  by_cases hzero : moved parts = 0
  · rw [scattered_of_moved_eq_zero hzero, hzero, List.append_nil, Nat.add_zero,
      List.take_append_of_le_length hcount]
  -- more is moved, so this buffer is filled
  obtain ⟨_, hmem, hpos⟩ := List.sum_pos_iff_exists_pos_nat.mp (Nat.pos_of_ne_zero hzero)
  obtain ⟨next, hnext, rfl⟩ := List.mem_map.mp hmem
  have hfull : part.2 = part.1.length := (hfirst next hnext).resolve_left (Nat.ne_of_gt hpos)
  rw [ih (fun part hpart => hle part (.tail _ hpart)) hrest, hfull, List.take_length,
    List.take_length_add_append]

end Vmill.Base
