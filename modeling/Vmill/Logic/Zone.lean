import Vmill.Logic.Area
import Vmill.Util.ZoneAllocator

/-!
# Zone allocators

The free list as a list of blocks, in any order (`freeBlocks`), and what `Free` and `Allocate` do to
it.
-/

namespace Vmill

open Base

/-- The addresses of the block. -/
def ZoneAllocation.den (b : ZoneAllocation) : Set Nat := Set.Ico b.base (b.base + b.size)

namespace ZoneAllocator

variable {alloc : ZoneAllocation} {z z' : ZoneAllocator} {size : Nat}

/-- The blocks of an entry of the free list. -/
def blocksOf (e : Nat × List Nat) : List ZoneAllocation := e.2.map fun base => ⟨base, e.1⟩

/-- All blocks of the free list. -/
def freeBlocks (z : ZoneAllocator) : List ZoneAllocation := z.freeList.entries.flatMap blocksOf

lemma free_perm (z : ZoneAllocator) (hne : alloc.base ≠ 0) :
    (z.free alloc).freeBlocks.Perm (alloc :: z.freeBlocks) := by
  have hperm := SortedMap.flatMap_insertEntry blocksOf alloc.size
    ((z.freeList.get? alloc.size).getD [] ++ [alloc.base]) z.freeList.sorted
  -- the blocks of that size were there before as well
  have hold : ((z.freeList.entries.find? fun e => decide (e.1 = alloc.size)).elim [] blocksOf) =
      blocksOf (alloc.size, (z.freeList.get? alloc.size).getD []) := by
    unfold SortedMap.get?
    cases hfind : z.freeList.entries.find? fun e => decide (e.1 = alloc.size) with
    | none => rfl
    | some e =>
    have hkey : e.1 = alloc.size := by simpa using List.find?_some hfind
    simp only [Option.elim_some, Option.map_some, Option.getD_some, blocksOf, hkey]
  have hsplit : blocksOf (alloc.size, (z.freeList.get? alloc.size).getD [] ++ [alloc.base]) =
      blocksOf (alloc.size, (z.freeList.get? alloc.size).getD []) ++ [alloc] := by
    simp [blocksOf]
  rw [hold, hsplit, List.append_assoc] at hperm
  unfold free
  rw [if_pos hne]
  exact (List.perm_append_left_iff _).mp hperm

@[simp] lemma free_allocator (z : ZoneAllocator) (alloc : ZoneAllocation) :
    (z.free alloc).allocator = z.allocator := by
  unfold free
  split
  · rfl
  · rfl

/-- The block taken is large enough and leaves the list. -/
lemma takeFree_spec (ht : z.takeFree size = some (alloc, z')) :
    size ≤ alloc.size ∧ z.freeBlocks.Perm (alloc :: z'.freeBlocks) ∧
      z'.allocator = z.allocator := by
  unfold takeFree at ht
  split at ht
  · simp at ht
  rename_i key bases hlb
  split at ht
  · simp at ht
  rename_i base hlast
  cases ht
  have hmem : (key, bases) ∈ z.freeList.entries := List.mem_of_find?_eq_some hlb
  have hle : size ≤ key := by simpa using List.find?_some hlb
  refine ⟨hle, ?_, rfl⟩
  have hperm := SortedMap.flatMap_insertEntry blocksOf key bases.dropLast z.freeList.sorted
  have hfind : (z.freeList.entries.find? fun e => decide (e.1 = key)).elim [] blocksOf =
      blocksOf (key, bases) := by
    have hget := SortedMap.get?_of_mem hmem
    unfold SortedMap.get? at hget
    obtain ⟨e, he, heq⟩ := Option.map_eq_some_iff.mp hget
    have hkey : e.1 = key := by simpa using List.find?_some he
    have hpair : e = (key, bases) := Prod.ext hkey heq
    rw [he, hpair]
    rfl
  have hsplit : blocksOf (key, bases) = blocksOf (key, bases.dropLast) ++ [⟨base, key⟩] := by
    have hbases : bases = bases.dropLast ++ [base] :=
      (List.dropLast_append_getLast? base hlast).symm
    unfold blocksOf
    simp only
    conv_lhs => rw [hbases]
    rw [List.map_append]
    rfl
  rw [hfind, hsplit, List.append_assoc] at hperm
  exact ((List.perm_append_left_iff _).mp hperm).symm

lemma reuse_eq (z : ZoneAllocator) (hsize : size ≤ alloc.size)
    (hend : alloc.base + alloc.size < 2 ^ 64) :
    z.reuse alloc size = (alloc, z) ∨
      z.reuse alloc size =
        (⟨alloc.base + (alloc.size - size), size⟩, z.free ⟨alloc.base, alloc.size - size⟩) := by
  have hdiff : sub64 alloc.size size = alloc.size - size := sub64_of_le hsize (by omega)
  have hbase : wrap64 (alloc.base + (alloc.size - size)) = alloc.base + (alloc.size - size) :=
    wrap64_of_lt (by omega)
  unfold reuse
  simp only [hdiff, hbase]
  split
  · split
    · exact .inr rfl
    · exact .inl rfl
  · exact .inl rfl

/-- The block is cut into the allocation and what is left of it. -/
lemma reuse_spec (z : ZoneAllocator) (hsize : size ≤ alloc.size) (hne : alloc.base ≠ 0)
    (hend : alloc.base + alloc.size < 2 ^ 64) :
    (z.reuse alloc size).2.allocator = z.allocator ∧ ∃ rest,
      (z.reuse alloc size).2.freeBlocks.Perm (rest ++ z.freeBlocks) ∧
      size ≤ (z.reuse alloc size).1.size ∧
      Apart ZoneAllocation.den ((z.reuse alloc size).1 :: rest) ∧
      ∀ b ∈ (z.reuse alloc size).1 :: rest,
        alloc.base ≤ b.base ∧ b.base + b.size ≤ alloc.base + alloc.size := by
  rcases z.reuse_eq hsize hend with heq | heq
  · rw [heq]
    refine ⟨rfl, [], List.Perm.refl _, hsize, List.pairwise_singleton _ _, fun b hb => ?_⟩
    rw [List.mem_singleton.mp hb]
    exact ⟨le_rfl, le_rfl⟩
  rw [heq]
  refine ⟨free_allocator _ _, [⟨alloc.base, alloc.size - size⟩],
    free_perm z hne, le_rfl, ?_, fun b hb => ?_⟩
  · refine List.pairwise_cons.mpr ⟨fun b hb => ?_, List.pairwise_singleton _ _⟩
    rw [List.mem_singleton.mp hb]
    refine Set.disjoint_left.mpr fun x hx hx' => ?_
    have hge : alloc.base + (alloc.size - size) ≤ x := hx.1
    have hlt : x < alloc.base + (alloc.size - size) := hx'.2
    omega
  · rcases List.mem_cons.mp hb with rfl | hb
    · exact ⟨Nat.le_add_right _ _, by simp only; omega⟩
    rw [List.mem_singleton.mp hb]
    exact ⟨le_rfl, by simp only; omega⟩

/-- Where an allocation comes from. -/
inductive Found (z : ZoneAllocator) (h : Host) (size : Nat) :
    ZoneAllocation → ZoneAllocator → Host → Prop
  | fresh (ret : Nat) (a : AreaAllocator) (h' : Host)
      (allocated : z.allocator.Allocated h size 64 ret a h') :
      Found z h size ⟨ret, size⟩ { z with allocator := a } h'
  | reused (whole alloc : ZoneAllocation) (others rest : List ZoneAllocation) (z' : ZoneAllocator)
      (before : z.freeBlocks.Perm (whole :: others)) (after : z'.freeBlocks.Perm (rest ++ others))
      (allocator : z'.allocator = z.allocator) (enough : size ≤ alloc.size)
      (apart : Apart ZoneAllocation.den (alloc :: rest))
      (within : ∀ b ∈ alloc :: rest,
        whole.base ≤ b.base ∧ b.base + b.size ≤ whole.base + whole.size) :
      Found z h size alloc z' h

lemma findBlock_cases {h h' : Host} (hwf : z.allocator.WF h.maps) {first grow : Option Nat}
    (hfree : ∀ b ∈ z.freeBlocks, b.base ≠ 0 ∧ b.base + b.size < 2 ^ 64)
    (hfits : z.takeFree size = none → z.allocator.Fits size 64 first)
    (hr : z.findBlock h size first grow = some (alloc, z', h')) : Found z h size alloc z' h' := by
  unfold findBlock at hr
  cases htake : z.takeFree size with
  | some r =>
    obtain ⟨whole, z1⟩ := r
    obtain ⟨henough, hbefore, hallocator⟩ := takeFree_spec htake
    obtain ⟨hne, hend⟩ := hfree whole (hbefore.mem_iff.mpr (.head _))
    obtain ⟨hallocator', rest, hafter, hsize, hapart, hwithin⟩ :=
      z1.reuse_spec henough hne hend
    rw [htake] at hr
    cases hr
    exact .reused whole _ z1.freeBlocks rest _ hbefore hafter (hallocator'.trans hallocator)
      hsize hapart hwithin
  | none =>
  rw [htake] at hr
  simp only at hr
  split at hr
  · simp at hr
  rename_i ret a h1 hal
  simp only [Option.some.injEq, Prod.mk.injEq] at hr
  obtain ⟨rfl, rfl, rfl⟩ := hr
  exact .fresh ret a h1 (AreaAllocator.allocate_spec hwf (hfits htake) hal)

end ZoneAllocator

end Vmill
