import Vmill.Logic.RangeWrite
import Vmill.Base.Cells
import Vmill.Program.AddressSpace
import Mathlib.Data.List.Induction

/-!
# The page indexes in closed form

`CreatePageToRangeMap` and `SetPermissions` as record updates, so that no later proof looks at a
loop.
-/

namespace Vmill

open Base

namespace AddressSpace

variable {h : Heap} {maps : List MemoryMapPtr} {p : MemoryMapPtr} {a : Nat}

/-- Some access to the page is permitted. -/
def accessible (s : AddressSpace) (a : Nat) : Bool :=
  s.canReadAligned a || s.canWriteAligned a || s.canExecuteAligned a

/-- The page may be written, and not executed. -/
def writableNotExecutable (s : AddressSpace) (a : Nat) : Bool :=
  s.canWriteAligned a && !s.canExecuteAligned a

/-- The range is valid and has the page. -/
def hasPage (h : Heap) (p : MemoryMapPtr) (a : Nat) : Bool :=
  h.isValid p && decide (a ∈ pagesIn (h.obj p).baseAddress (h.obj p).limitAddress)

/-- The last of the ranges that has the page, else `owner`. -/
def ownerFrom (h : Heap) (a : Nat) (owner : Option MemoryMapPtr) (maps : List MemoryMapPtr) :
    Option MemoryMapPtr :=
  maps.foldl (fun owner p => if hasPage h p a then some p else owner) owner

/-- The range that the index names for the page. -/
def pageOwner (h : Heap) (maps : List MemoryMapPtr) (a : Nat) : Option MemoryMapPtr :=
  ownerFrom h a none maps

lemma indexPage_eq (p : MemoryMapPtr) (s : AddressSpace) (x : Nat) :
    indexPage p s x =
      { s with
        pageToMap := fun a => if a = x ∧ s.accessible a then some p else s.pageToMap a
        wnxPageToMap := fun a =>
          if a = x ∧ s.writableNotExecutable a then some p else s.wnxPageToMap a } := by
  have hupd : ∀ (index : Nat → Option MemoryMapPtr) (c : Nat → Bool),
      (fun a => if a = x ∧ c a then some p else index a) =
        if c x then Function.update index x (some p) else index := by
    intro index c
    funext a
    by_cases ha : a = x
    · subst ha
      cases hc : c a <;> simp
    · cases hc : c x <;> simp [ha]
  simp only [hupd]
  simp only [indexPage, accessible, writableNotExecutable]
  by_cases hacc : (s.canReadAligned x || s.canWriteAligned x || s.canExecuteAligned x) = true <;>
    by_cases hwnx : (s.canWriteAligned x && !s.canExecuteAligned x) = true <;>
    simp only [hacc, hwnx, if_true, if_false, Bool.false_eq_true]

lemma foldl_indexPage (p : MemoryMapPtr) (pages : List Nat) (s : AddressSpace) :
    pages.foldl (indexPage p) s =
      { s with
        pageToMap := fun a => if a ∈ pages ∧ s.accessible a then some p else s.pageToMap a
        wnxPageToMap := fun a =>
          if a ∈ pages ∧ s.writableNotExecutable a then some p else s.wnxPageToMap a } := by
  induction pages generalizing s with
  | nil => simp
  | cons x pages ih =>
  have hjoin : ∀ (index : Nat → Option MemoryMapPtr) (c : Nat → Bool) (a : Nat),
      (if a ∈ pages ∧ c a then some p else if a = x ∧ c a then some p else index a) =
        if a ∈ x :: pages ∧ c a then some p else index a := by
    intro index c a
    by_cases hc : c a = true
    · by_cases hx : a = x
      · subst hx
        simp [hc]
      · simp [hc, hx]
    · simp [hc]
  rw [List.foldl_cons, ih, indexPage_eq]
  congr 1
  · funext a
    exact hjoin s.pageToMap s.accessible a
  funext a
  exact hjoin s.wnxPageToMap s.writableNotExecutable a

lemma indexRange_eq (h : Heap) (s : AddressSpace) (p : MemoryMapPtr) :
    indexRange h s p =
      { s with
        pageToMap := fun a =>
          if s.accessible a then ownerFrom h a (s.pageToMap a) [p] else s.pageToMap a
        wnxPageToMap := fun a =>
          if s.writableNotExecutable a then ownerFrom h a (s.wnxPageToMap a) [p]
          else s.wnxPageToMap a } := by
  unfold indexRange
  by_cases hv : h.isValid p = true
  · rw [if_pos hv, foldl_indexPage]
    congr 1
    · funext a
      by_cases hacc : s.accessible a = true <;> simp [ownerFrom, hasPage, hv, hacc]
    funext a
    by_cases hwnx : s.writableNotExecutable a = true <;> simp [ownerFrom, hasPage, hv, hwnx]
  rw [if_neg hv]
  simp [ownerFrom, hasPage, hv]

lemma foldl_indexRange (h : Heap) (maps : List MemoryMapPtr) (s : AddressSpace) :
    maps.foldl (indexRange h) s =
      { s with
        pageToMap := fun a =>
          if s.accessible a then ownerFrom h a (s.pageToMap a) maps else s.pageToMap a
        wnxPageToMap := fun a =>
          if s.writableNotExecutable a then ownerFrom h a (s.wnxPageToMap a) maps
          else s.wnxPageToMap a } := by
  induction maps generalizing s with
  | nil => simp [ownerFrom]
  | cons p maps ih =>
  have hjoin : ∀ (c : Bool) (owner : Option MemoryMapPtr) (a : Nat),
      (if c then ownerFrom h a (if c then ownerFrom h a owner [p] else owner) maps
        else if c then ownerFrom h a owner [p] else owner) =
        if c then ownerFrom h a owner (p :: maps) else owner := by
    intro c owner a
    cases c <;> rfl
  rw [List.foldl_cons, ih, indexRange_eq]
  congr 1
  · funext a
    exact hjoin (s.accessible a) (s.pageToMap a) a
  funext a
  exact hjoin (s.writableNotExecutable a) (s.wnxPageToMap a) a

lemma createPageToRangeMap_eq (h : Heap) (s : AddressSpace) :
    createPageToRangeMap h s =
      { s with
        maps := sortMaps h s.maps
        pageToMap := fun a => if s.accessible a then pageOwner h (sortMaps h s.maps) a else none
        wnxPageToMap := fun a =>
          if s.writableNotExecutable a then pageOwner h (sortMaps h s.maps) a else none
        lastMapCache := fun _ => none
        wnxLastMapCache := fun _ => none } := by
  unfold createPageToRangeMap
  simp only
  rw [foldl_indexRange]
  rfl

lemma sortMaps_perm (h : Heap) (maps : List MemoryMapPtr) : (sortMaps h maps).Perm maps :=
  List.perm_insertionSort _ _

lemma mem_sortMaps : p ∈ sortMaps h maps ↔ p ∈ maps := (sortMaps_perm h maps).mem_iff

lemma sortMaps_sorted (h : Heap) (maps : List MemoryMapPtr) :
    (sortMaps h maps).Pairwise (fun p q => (h.obj p).baseAddress ≤ (h.obj q).baseAddress) := by
  have htotal : Std.Total (fun p q : MemoryMapPtr =>
      (h.obj p).baseAddress ≤ (h.obj q).baseAddress) := ⟨fun _ _ => Nat.le_total _ _⟩
  have htrans : IsTrans MemoryMapPtr (fun p q =>
      (h.obj p).baseAddress ≤ (h.obj q).baseAddress) := ⟨fun _ _ _ => Nat.le_trans⟩
  exact List.pairwise_insertionSort _ _

lemma mem_of_pageOwner (ho : pageOwner h maps a = some p) : p ∈ maps ∧ hasPage h p a = true := by
  induction maps using List.reverseRecOn with
  | nil => exact absurd ho (by simp [pageOwner, ownerFrom])
  | append_singleton maps q ih =>
  simp only [pageOwner, ownerFrom, List.foldl_append, List.foldl_cons, List.foldl_nil] at ho
  split at ho
  · rename_i hq
    injection ho with ho
    subst ho
    exact ⟨by simp, hq⟩
  obtain ⟨hmem, hpage⟩ := ih ho
  exact ⟨List.mem_append_left _ hmem, hpage⟩

lemma pageOwner_isSome (hp : p ∈ maps) (ha : hasPage h p a = true) :
    ∃ q, pageOwner h maps a = some q := by
  induction maps using List.reverseRecOn with
  | nil => cases hp
  | append_singleton maps q ih =>
  simp only [pageOwner, ownerFrom, List.foldl_append, List.foldl_cons, List.foldl_nil]
  split
  · exact ⟨q, rfl⟩
  rename_i hq
  rcases List.mem_append.mp hp with hp | hp
  · exact ih hp
  rw [List.mem_singleton.mp hp] at ha
  exact absurd ha hq

end AddressSpace

namespace Heap

/-- The addresses of a range. -/
def extent (h : Heap) (p : MemoryMapPtr) : Set Nat :=
  { a | (h.obj p).baseAddress ≤ a ∧ a < (h.obj p).limitAddress }

lemma mem_extent {h : Heap} {p : MemoryMapPtr} {a : Nat} :
    a ∈ h.extent p ↔ (h.obj p).baseAddress ≤ a ∧ a < (h.obj p).limitAddress := Iff.rfl

end Heap

namespace AddressSpace

variable {h : Heap} {p : MemoryMapPtr} {a : Nat}

lemma hasPage_iff (hwf : h.WF)
    (hb : (h.obj p).kind ≠ .invalid → (h.obj p).baseAddress % 4096 = 0) :
    hasPage h p a = true ↔ (h.obj p).kind ≠ .invalid ∧ a % 4096 = 0 ∧ a ∈ h.extent p := by
  unfold hasPage
  rw [Bool.and_eq_true, Heap.isValid_iff hwf, decide_eq_true_eq]
  refine and_congr_right fun hv => ?_
  rw [mem_pagesIn (hb hv)]
  rfl

lemma pageOwner_eq_some (hwf : h.WF) {maps : List MemoryMapPtr} (hapart : Apart h.extent maps)
    (hpg : ∀ p ∈ maps, (h.obj p).kind ≠ .invalid → (h.obj p).baseAddress % 4096 = 0) :
    pageOwner h maps a = some p ↔
      p ∈ maps ∧ (h.obj p).kind ≠ .invalid ∧ a % 4096 = 0 ∧ a ∈ h.extent p := by
  constructor
  · intro ho
    obtain ⟨hmem, hpage⟩ := mem_of_pageOwner ho
    exact ⟨hmem, (hasPage_iff hwf (hpg p hmem)).mp hpage⟩
  rintro ⟨hmem, hpage⟩
  obtain ⟨q, hq⟩ := pageOwner_isSome hmem ((hasPage_iff hwf (hpg p hmem)).mpr hpage)
  obtain ⟨hqmem, hqpage⟩ := mem_of_pageOwner hq
  have hqin := ((hasPage_iff hwf (hpg q hqmem)).mp hqpage).2.2
  rw [hq, hapart.eq_of_mem hqmem hmem hqin hpage.2.2]

lemma foldl_setPagePermissions (r w x : Bool) (pages : List Nat) (s : AddressSpace) :
    pages.foldl (setPagePermissions r w x) s =
      { s with
        pageIsReadable := fun a => if a ∈ pages then r else s.pageIsReadable a
        pageIsWritable := fun a => if a ∈ pages then w else s.pageIsWritable a
        pageIsExecutable := fun a => if a ∈ pages then x else s.pageIsExecutable a } := by
  induction pages generalizing s with
  | nil => simp
  | cons y pages ih =>
  have hjoin : ∀ (b : Bool) (perm : Nat → Bool) (a : Nat),
      (if a ∈ pages then b else Function.update perm y b a) =
        if a ∈ y :: pages then b else perm a := by
    intro b perm a
    by_cases ha : a = y
    · subst ha
      simp
    · simp [ha]
  rw [List.foldl_cons, ih]
  congr 1
  · funext a
    exact hjoin r s.pageIsReadable a
  · funext a
    exact hjoin w s.pageIsWritable a
  funext a
  exact hjoin x s.pageIsExecutable a

/-- The pages that `SetPermissions` goes over. -/
def permissionPages (base size : Nat) : List Nat :=
  pagesIn (alignDownToPage base) (wrap64 (alignDownToPage base + roundUpToPage size))

lemma lt_of_mem_permissionPages {base size : Nat} (ha : a ∈ permissionPages base size) :
    a < 2 ^ 64 - 4096 := by
  unfold permissionPages at ha
  obtain ⟨hmod, _, hlt⟩ := (mem_pagesIn (alignDownToPage_mod base)).mp ha
  have hbase := alignDownToPage_mod base
  have hsize := roundUpToPage_mod size
  unfold wrap64 at hlt
  omega

lemma setPermissions_eq (h : Heap) (s : AddressSpace) (base size : Nat) (r w x : Bool) :
    setPermissions h s base size r w x =
      createPageToRangeMap h
        { s with
          pageIsReadable := fun a =>
            if a ∈ permissionPages base size then r else s.pageIsReadable a
          pageIsWritable := fun a =>
            if a ∈ permissionPages base size then w else s.pageIsWritable a
          pageIsExecutable := fun a =>
            if a ∈ permissionPages base size then x else s.pageIsExecutable a } := by
  unfold setPermissions permissionPages
  simp only
  rw [foldl_setPagePermissions]

end AddressSpace

end Vmill
