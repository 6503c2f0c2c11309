import Mathlib.Data.List.Nodup
import Mathlib.Data.List.Range

/-!
# Linked cells

`Path` follows links from one cell to another, `Chain` follows links that may be null to the end.
-/

namespace Vmill.Base

variable {α : Type} {next : α → Option α} {a b : α} {cells : List α} {n i : Nat}

/-- Following the links from the first cell leads to the last, by way of the cells of the
list. The last one is not in it, unless it is passed. -/
inductive Path (next : α → Option α) : α → List α → α → Prop
  | nil (a : α) : Path next a [] a
  | cons {a b c : α} {cells : List α} (link : next a = some b) (rest : Path next b cells c) :
      Path next a (a :: cells) c

/-- Following the links to null. A cell without a link is not null, but missing. -/
inductive Chain (next : α → Option (Option α)) : Option α → List α → Prop
  | nil : Chain next none []
  | cons {a : α} {b : Option α} {cells : List α} (link : next a = some b)
      (rest : Chain next b cells) : Chain next (some a) (a :: cells)

lemma Path.append {c : α} {cells' : List α} (h : Path next a cells b)
    (h' : Path next b cells' c) : Path next a (cells ++ cells') c := by
  induction h with
  | nil a => exact h'
  | cons link rest ih => exact .cons link (ih h')

lemma Path.congr {next' : α → Option α} (h : Path next a cells b)
    (heq : ∀ c ∈ cells, next' c = next c) : Path next' a cells b := by
  induction h with
  | nil a => exact .nil a
  | cons link rest ih =>
  refine .cons ((heq _ (.head _)).trans link) (ih fun c hc => ?_)
  exact heq c (.tail _ hc)

lemma Chain.mono {next next' : α → Option (Option α)} {a : Option α} (h : Chain next a cells)
    (hlinks : ∀ c b, next c = some b → next' c = some b) : Chain next' a cells := by
  induction h with
  | nil => exact .nil
  | cons link rest ih => exact .cons (hlinks _ _ link) ih

lemma path_down {next : Nat → Option Nat} {j m e : Nat}
    (hdown : ∀ i, j < i → i ≤ j + m → next i = some (i - 1)) (hend : next j = some e) :
    Path next (j + m) (List.range' j (m + 1)).reverse e := by
  induction m with
  | zero => exact .cons hend (.nil e)
  | succ m ih =>
  rw [List.range'_concat, List.reverse_append, Nat.one_mul]
  have hlink := hdown (j + (m + 1)) (by omega) le_rfl
  refine .cons hlink ?_
  exact ih fun i hlt hle => hdown i hlt (by omega)

lemma chain_down {next : Nat → Option (Option Nat)}
    (hdown : ∀ i < n, next i = some (if i = 0 then none else some (i - 1))) :
    Chain next (if n = 0 then none else some (n - 1)) (List.range n).reverse := by
  induction n with
  | zero => exact .nil
  | succ n ih =>
  rw [List.range_succ, List.reverse_append]
  exact .cons (hdown n (Nat.lt_succ_self n)) (ih fun i hi => hdown i (by omega))

/-- The cells of a ring that counts down, from `i` on. -/
def ringFrom (n i : Nat) : List Nat :=
  (List.range' 0 (i + 1)).reverse ++ (List.range' (i + 1) (n - 1 - i)).reverse

lemma ring_path {next : Nat → Option Nat} (hi : i < n)
    (hring : ∀ k < n, next k = some (if k = 0 then n - 1 else k - 1)) :
    Path next i (ringFrom n i) i := by
  have hdown : ∀ j m, j + m < n → ∀ k, j < k → k ≤ j + m → next k = some (k - 1) := by
    intro j m hm k hjk hkm
    rw [hring k (by omega), if_neg (by omega)]
  have hfirst : Path next i (List.range' 0 (i + 1)).reverse (n - 1) := by
    have hpath := path_down (e := n - 1) (hdown 0 i (by omega))
      (by rw [hring 0 (by omega), if_pos rfl])
    rwa [Nat.zero_add] at hpath
  refine hfirst.append ?_
  rcases Nat.lt_or_ge (i + 1) n with hlt | hge
  · obtain ⟨m, rfl⟩ : ∃ m, n = i + 1 + m + 1 := ⟨n - i - 2, by omega⟩
    have hpath := path_down (e := i) (hdown (i + 1) m (by omega))
      (by rw [hring (i + 1) (by omega), if_neg (by omega)]; rfl)
    have hlen : i + 1 + m + 1 - 1 - i = m + 1 := by omega
    rwa [hlen]
  obtain rfl : n = i + 1 := by omega
  have hnil : i + 1 - 1 - i = 0 := by omega
  rw [hnil]
  exact .nil i

lemma ringFrom_perm (hi : i < n) : (ringFrom n i).Perm (List.range n) := by
  have hsplit : List.range' 0 (i + 1) ++ List.range' (i + 1) (n - 1 - i) = List.range n := by
    have happend : List.range' 0 (i + 1) ++ List.range' (0 + 1 * (i + 1)) (n - 1 - i) =
        List.range' 0 (i + 1 + (n - 1 - i)) := List.range'_append
    rw [Nat.one_mul, Nat.zero_add] at happend
    rw [happend, List.range_eq_range']
    congr 1
    omega
  rw [← hsplit]
  exact (List.reverse_perm _).append (List.reverse_perm _)

lemma ringFrom_cons : ∃ others, ringFrom n i = i :: others := by
  unfold ringFrom
  rw [List.range'_concat, List.reverse_append, Nat.one_mul, Nat.zero_add]
  exact ⟨_, rfl⟩

end Vmill.Base
