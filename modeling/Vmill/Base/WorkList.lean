import Mathlib.Data.Fintype.Card
import Mathlib.Order.Basic

/-!
# Sorted maps and work-list loops

A `SortedMap` is a `std::map`; a map to `Unit` is a `std::set`. `drain` is the loop

    while (!work_list.empty()) { take the first element; body }

Three rules for it: invariants (`drain_rule`), termination (`drain_isSome`) and simulation
(`drain_refines`).
-/

namespace Vmill.Base

/-- A finite map with its entries in the order of the keys. -/
structure SortedMap (κ υ : Type) [LinearOrder κ] where
  entries : List (κ × υ)
  sorted : entries.Pairwise (fun a b => a.1 < b.1)

namespace SortedMap

variable {κ υ : Type} [LinearOrder κ] {key : κ} {value : υ} {es : List (κ × υ)} {e : κ × υ}
  {m : SortedMap κ υ}

def empty : SortedMap κ υ := ⟨[], .nil⟩

def keys (m : SortedMap κ υ) : List κ := m.entries.map Prod.fst

/-- `count(key)`, as a test. -/
def contains (m : SortedMap κ υ) (key : κ) : Bool := decide (key ∈ m.keys)

def insertEntry (key : κ) (value : υ) : List (κ × υ) → List (κ × υ)
  | [] => [(key, value)]
  | e :: es =>
    if key < e.1 then (key, value) :: e :: es
    else if e.1 < key then e :: insertEntry key value es
    else (key, value) :: es

lemma mem_insertEntry (he : e ∈ insertEntry key value es) : e = (key, value) ∨ e ∈ es := by
  induction es with
  | nil => exact .inl (List.mem_singleton.mp he)
  | cons e' es ih =>
  unfold insertEntry at he
  split at he
  · exact List.mem_cons.mp he
  split at he
  · rcases List.mem_cons.mp he with rfl | he
    · exact .inr (.head _)
    · exact (ih he).imp_right (List.mem_cons_of_mem _)
  · exact (List.mem_cons.mp he).imp_right (List.mem_cons_of_mem _)

lemma sorted_insertEntry (key : κ) (value : υ) (hs : es.Pairwise (fun a b => a.1 < b.1)) :
    (insertEntry key value es).Pairwise (fun a b => a.1 < b.1) := by
  induction es with
  | nil => exact List.pairwise_singleton _ _
  | cons e es ih =>
  obtain ⟨hfirst, hrest⟩ := List.pairwise_cons.mp hs
  unfold insertEntry
  split
  · rename_i hlt
    refine List.pairwise_cons.mpr ⟨fun e' he' => ?_, hs⟩
    rcases List.mem_cons.mp he' with rfl | he'
    · exact hlt
    · exact lt_trans hlt (hfirst e' he')
  split
  · rename_i hgt
    refine List.pairwise_cons.mpr ⟨fun e' he' => ?_, ih hrest⟩
    rcases mem_insertEntry he' with rfl | he'
    · exact hgt
    · exact hfirst e' he'
  rename_i hle hge
  have heq : key = e.1 := le_antisymm (not_lt.mp hge) (not_lt.mp hle)
  exact List.pairwise_cons.mpr ⟨fun e' he' => heq ▸ hfirst e' he', hrest⟩

/-- `m[key] = value`. -/
def insert (m : SortedMap κ υ) (key : κ) (value : υ) : SortedMap κ υ :=
  ⟨insertEntry key value m.entries, sorted_insertEntry key value m.sorted⟩

lemma mem_entries_insert (he : e ∈ (m.insert key value).entries) :
    e = (key, value) ∨ e ∈ m.entries :=
  mem_insertEntry he

@[simp] lemma mem_keys_insert {key' : κ} :
    key' ∈ (m.insert key value).keys ↔ key' = key ∨ key' ∈ m.keys := by
  unfold keys insert
  simp only
  induction m.entries with
  | nil => simp [insertEntry]
  | cons e es ih =>
  unfold insertEntry
  split
  · simp
  split
  · rw [List.map_cons, List.mem_cons, ih, List.map_cons, List.mem_cons]
    tauto
  rename_i hle hge
  have heq : key = e.1 := le_antisymm (not_lt.mp hge) (not_lt.mp hle)
  simp [heq]

lemma nodup_keys (m : SortedMap κ υ) : m.keys.Nodup :=
  (List.pairwise_map.mpr m.sorted).imp fun hlt => ne_of_lt hlt

lemma length_insert_of_not_mem (hk : key ∉ m.keys) :
    (m.insert key value).keys.length = m.keys.length + 1 := by
  have hperm : (m.insert key value).keys.Perm (key :: m.keys) := by
    refine (List.perm_ext_iff_of_nodup (nodup_keys _) (List.nodup_cons.mpr ⟨hk, m.nodup_keys⟩)).mpr
      fun x => ?_
    rw [mem_keys_insert, List.mem_cons]
  rw [hperm.length_eq, List.length_cons]

/-- The value of a key. -/
def get? (m : SortedMap κ υ) (key : κ) : Option υ :=
  (m.entries.find? fun e => decide (e.1 = key)).map Prod.snd

/-- `lower_bound(key)`: the first entry whose key is not less. -/
def lowerBound (m : SortedMap κ υ) (key : κ) : Option (κ × υ) :=
  m.entries.find? fun e => decide (key ≤ e.1)

lemma get?_of_mem {m : SortedMap κ υ} {e : κ × υ} (he : e ∈ m.entries) :
    m.get? e.1 = some e.2 := by
  obtain ⟨entries, hs⟩ := m
  unfold get?
  induction entries with
  | nil => cases he
  | cons e' es ih =>
  obtain ⟨hfirst, hrest⟩ := List.pairwise_cons.mp hs
  rcases List.mem_cons.mp he with rfl | he
  · simp
  have hne : e'.1 ≠ e.1 := ne_of_lt (hfirst e he)
  simp only [List.find?_cons, hne, decide_false]
  exact ih hrest he

/-- The entries after `m[key] = value`, counted through `f`: those of `key` have been
exchanged. -/
lemma flatMap_insertEntry {β : Type} (f : κ × υ → List β) (key : κ) (value : υ)
    (hs : es.Pairwise (fun a b => a.1 < b.1)) :
    (((es.find? fun e => decide (e.1 = key)).elim [] f) ++
      (insertEntry key value es).flatMap f).Perm (f (key, value) ++ es.flatMap f) := by
  induction es with
  | nil => simp [insertEntry]
  | cons e es ih =>
  obtain ⟨hfirst, hrest⟩ := List.pairwise_cons.mp hs
  unfold insertEntry
  by_cases hlt : key < e.1
  · -- a new key, in front of all others
    have hnone : ((e :: es).find? fun e => decide (e.1 = key)) = none := by
      refine List.find?_eq_none.mpr fun e' he' => ?_
      have hlt' : key < e'.1 := by
        rcases List.mem_cons.mp he' with rfl | he'
        · exact hlt
        · exact lt_trans hlt (hfirst e' he')
      simp [ne_of_gt hlt']
    rw [hnone, if_pos hlt]
    simp
  rw [if_neg hlt]
  by_cases hgt : e.1 < key
  · rw [if_pos hgt, List.find?_cons]
    simp only [ne_of_lt hgt, decide_false, List.flatMap_cons]
    refine (List.perm_append_comm_assoc _ _ _).trans ?_
    refine ((ih hrest).append_left (f e)).trans ?_
    exact List.perm_append_comm_assoc _ _ _
  have heq : key = e.1 := le_antisymm (not_lt.mp hgt) (not_lt.mp hlt)
  rw [if_neg hgt, List.find?_cons]
  simp only [heq, decide_true, Option.elim_some, List.flatMap_cons]
  exact List.perm_append_comm_assoc _ _ _

/-- Take the first entry out. -/
def pop : SortedMap κ υ → Option (κ × SortedMap κ υ)
  | ⟨[], _⟩ => none
  | ⟨e :: es, hs⟩ => some (e.1, ⟨es, hs.of_cons⟩)

lemma pop_eq_none : m.pop = none ↔ m.keys = [] := by
  obtain ⟨entries, hs⟩ := m
  cases entries <;> simp [pop, keys]

lemma keys_of_pop {m' : SortedMap κ υ} {x : κ} (hp : m.pop = some (x, m')) :
    m.keys = x :: m'.keys := by
  obtain ⟨entries, hs⟩ := m
  cases entries with
  | nil => simp [pop] at hp
  | cons e es =>
  simp only [pop, Option.some.injEq, Prod.mk.injEq] at hp
  obtain ⟨rfl, rfl⟩ := hp
  rfl

end SortedMap

/-- A `std::set`. -/
abbrev SortedSet (α : Type) [LinearOrder α] := SortedMap α Unit

namespace SortedMap

variable {α : Type} [LinearOrder α]

/-- Put some elements into a set. -/
def insertAll (s : SortedSet α) (xs : List α) : SortedSet α :=
  xs.foldl (fun s x => s.insert x ()) s

@[simp] lemma mem_insertAll {s : SortedSet α} {xs : List α} {x : α} :
    x ∈ (s.insertAll xs).keys ↔ x ∈ xs ∨ x ∈ s.keys := by
  unfold insertAll
  induction xs generalizing s with
  | nil => simp
  | cons y ys ih =>
  rw [List.foldl_cons, ih, mem_keys_insert, List.mem_cons]
  tauto

end SortedMap

/-- What the body of a work-list loop decides: to go on, with some elements put
in, or to leave the loop. -/
inductive Flow (σ α : Type) where
  | next (state : σ) (new : List α)
  | leave (state : σ)

section Drain

open SortedMap

variable {σ τ α : Type} [LinearOrder α] {body : α → σ → Option (Flow σ α)} {fuel : Nat}
  {work work' : SortedSet α} {st : σ}

/-- The loop. `none`: the body does not return, or out of fuel. -/
def drain (body : α → σ → Option (Flow σ α)) :
    Nat → SortedSet α → σ → Option (SortedSet α × σ)
  | 0, _, _ => none
  | fuel + 1, work, st =>
    match work.pop with
    | none => some (work, st)
    | some (x, rest) =>
      match body x st with
      | none => none
      | some (.leave st') => some (rest, st')
      | some (.next st' new) => drain body fuel (rest.insertAll new) st'

lemma drain_rule {I J : SortedSet α → σ → Prop}
    (hnext : ∀ work x rest st st' new, work.pop = some (x, rest) → I work st → body x st = some
      (.next st' new) → I (rest.insertAll new) st')
    (hleave : ∀ work x rest st st', work.pop = some (x, rest) → I work st → body x st = some
      (.leave st') → J rest st') (hdone : ∀ work st, work.keys = [] → I work st → J work st)
    {st' : σ} (hI : I work st) (hrun : drain body fuel work st = some (work', st')) :
    J work' st' := by
  induction fuel generalizing work st with
  | zero => exact absurd hrun (by simp [drain])
  | succ fuel ih =>
  unfold drain at hrun
  cases hp : work.pop with
  | none =>
    rw [hp] at hrun
    obtain ⟨rfl, rfl⟩ := Prod.mk.inj (Option.some.inj hrun)
    exact hdone work st (pop_eq_none.mp hp) hI
  | some r =>
  obtain ⟨x, rest⟩ := r
  rw [hp] at hrun
  simp only at hrun
  cases hb : body x st with
  | none =>
    rw [hb] at hrun
    simp at hrun
  | some f =>
  rw [hb] at hrun
  cases f with
  | leave st1 =>
    obtain ⟨rfl, rfl⟩ := Prod.mk.inj (Option.some.inj hrun)
    exact hleave work x rest st st1 hp hI hb
  | next st1 new => exact ih (hnext work x rest st st1 new hp hI hb) hrun

/-- **Termination rule.** A body that keeps `I`, and puts elements back only when
`μ` drops, is run to the end by enough fuel: one turn for each element of the
list, and a full list for each drop. -/
lemma drain_isSome [Fintype α] {I : σ → Prop} {μ : σ → Nat}
    (hbody : ∀ x st, I st → ∃ f, body x st = some f ∧ ∀ st' new, f = .next st' new → I st' ∧ (μ st'
      < μ st ∨ μ st' ≤ μ st ∧ new = [])) (hI : I st)
    (hfuel : work.keys.length + (Fintype.card α + 1) * μ st < fuel) :
    ∃ r, drain body fuel work st = some r := by
  induction fuel generalizing work st with
  | zero => omega
  | succ fuel ih =>
  unfold drain
  cases hp : work.pop with
  | none => exact ⟨_, rfl⟩
  | some r =>
  obtain ⟨x, rest⟩ := r
  obtain ⟨f, hf, hgo⟩ := hbody x st hI
  simp only [hf]
  have hlen := congrArg List.length (keys_of_pop hp)
  rw [List.length_cons] at hlen
  cases f with
  | leave st1 => exact ⟨_, rfl⟩
  | next st1 new =>
  obtain ⟨hI1, hdrop⟩ := hgo st1 new rfl
  refine ih hI1 ?_
  rcases hdrop with hlt | ⟨hle, rfl⟩
  · -- however many elements were put in, they are elements of `α`
    have hcard := (rest.insertAll new).nodup_keys.length_le_card
    have hmul := Nat.mul_le_mul_left (Fintype.card α + 1) hlt
    rw [Nat.mul_succ] at hmul
    omega
  have hmul := Nat.mul_le_mul_left (Fintype.card α + 1) hle
  have hsame : (rest.insertAll []).keys.length = rest.keys.length := rfl
  omega

/-- Two bodies decide alike, with related states. -/
def Flow.Rel (R : τ → σ → Prop) : Flow τ α → Flow σ α → Prop
  | .next t new, .next s new' => R t s ∧ new = new'
  | .leave t, .leave s => R t s
  | _, _ => False

/-- **Simulation rule.** Where one loop returns, a loop whose body follows its
body returns as well, with the same elements left. -/
lemma drain_refines {spec : α → τ → Option (Flow τ α)} {R : τ → σ → Prop}
    (hbody : ∀ x t s f, R t s → spec x t = some f → ∃ g, body x s = some g ∧ f.Rel R g) {t t' : τ}
    {s : σ} (hR : R t s) (hrun : drain spec fuel work t = some (work', t')) :
    ∃ s', drain body fuel work s = some (work', s') ∧ R t' s' := by
  induction fuel generalizing work t s with
  | zero => exact absurd hrun (by simp [drain])
  | succ fuel ih =>
  unfold drain at hrun ⊢
  cases hp : work.pop with
  | none =>
    rw [hp] at hrun
    cases hrun
    exact ⟨s, rfl, hR⟩
  | some r =>
  obtain ⟨x, rest⟩ := r
  rw [hp] at hrun
  simp only at hrun ⊢
  cases hspec : spec x t with
  | none =>
    rw [hspec] at hrun
    simp at hrun
  | some f =>
  obtain ⟨g, hg, hrel⟩ := hbody x t s f hR hspec
  rw [hspec] at hrun
  rw [hg]
  cases f with
  | leave t1 =>
    cases g with
    | next s1 new' => exact hrel.elim
    | leave s1 =>
    cases hrun
    exact ⟨s1, rfl, hrel⟩
  | next t1 new =>
  cases g with
  | leave s1 => exact hrel.elim
  | next s1 new' =>
  obtain ⟨hR1, rfl⟩ := hrel
  exact ih hR1 hrun

end Drain

end Vmill.Base
