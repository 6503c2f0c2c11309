import Vmill.Logic.Index
import Vmill.Logic.RangeCopy

/-!
# Well-formed address spaces

`AddressSpace.WF` depends on the shape of the ranges only, not on their bytes, and does not see
cache updates. A lookup returns the owner of the page, or, if the page is not accessible, it may
miss it.
-/

namespace Vmill

open Base

namespace Heap

variable {h h' : Heap} {p : MemoryMapPtr} {P : MemoryMapPtr → Prop}

/-- The range is where it was, and valid if it was. -/
structure SameShape (h h' : Heap) (p : MemoryMapPtr) : Prop where
  base : (h'.obj p).baseAddress = (h.obj p).baseAddress
  limit : (h'.obj p).limitAddress = (h.obj p).limitAddress
  invalid : (h'.obj p).kind = .invalid ↔ (h.obj p).kind = .invalid

lemma Kept.sameShape (hk : Kept h h' p) : SameShape h h' p :=
  ⟨hk.base, hk.limit, hk.invalid⟩

lemma Touched.sameShape (ht : Touched P h h') (p : MemoryMapPtr) : SameShape h h' p :=
  ⟨ht.base p, ht.limit p, ht.invalid_iff p⟩

lemma Touched.kept (ht : Touched P h h') (hwf : h.WF) (hP : ∀ q, P q → h.NotParent q)
    (hp : ¬ P p) : Kept h h' p := by
  have hkind : (h'.obj p).kind = (h.obj p).kind := by
    rcases ht.kind p with heq | ⟨hPp, _, _⟩
    · exact heq
    · exact absurd hPp hp
  exact ⟨ht.base p, ht.limit p, ht.offset p, by rw [hkind], by rw [hkind], ht.byte hwf hP hp⟩

lemma SameShape.extent (hs : SameShape h h' p) : h'.extent p = h.extent p := by
  unfold Heap.extent
  rw [hs.base, hs.limit]

lemma SameShape.paged (hs : SameShape h h' p) (hp : (h.obj p).Paged) : (h'.obj p).Paged :=
  ⟨by rw [hs.base]; exact hp.base, by rw [hs.limit]; exact hp.limit,
    by rw [hs.limit]; exact hp.lt⟩

end Heap

namespace AddressSpace

variable {h h' : Heap} {s : AddressSpace} {a page : Nat} {p : MemoryMapPtr}

/-- The address is in this valid range of the address space. -/
structure Owns (h : Heap) (s : AddressSpace) (p : MemoryMapPtr) (a : Nat) : Prop where
  mem : p ∈ s.maps
  valid : (h.obj p).kind ≠ .invalid
  inside : a ∈ h.extent p

/-- Live objects, pairwise disjoint, within the address space, and on page boundaries where they are
valid. The last page of the 64-bit space is never writable: the limit of an interval that contains
it wraps around. -/
structure LaidOut (h : Heap) (s : AddressSpace) : Prop where
  mask : s.addrMask = 2 ^ 32 - 1 ∨ s.addrMask = 2 ^ 64 - 1
  alive : s.isDead = false
  nonempty : s.maps ≠ []
  live : ∀ p ∈ s.maps, p < h.next
  invalidLive : s.invalid < h.next
  invalid : (h.obj s.invalid).kind = .invalid
  apart : Apart h.extent s.maps
  paged : ∀ p ∈ s.maps, (h.obj p).kind ≠ .invalid → (h.obj p).Paged
  bounded : ∀ p ∈ s.maps, (h.obj p).limitAddress ≤ s.addrMask
  notParent : ∀ p ∈ s.maps, h.NotParent p
  lastPage : ∀ a, 2 ^ 64 - 4096 ≤ a → s.pageIsWritable a = false

/-- The invariant of an address space: its ranges are laid out and sorted, and
the indexes and caches follow them. -/
structure WF (h : Heap) (s : AddressSpace) : Prop extends LaidOut h s where
  sorted : s.maps.Pairwise (fun p q => (h.obj p).baseAddress ≤ (h.obj q).baseAddress)
  index : ∀ a p, s.pageToMap a = some p ↔
    Owns h s p a ∧ a % 4096 = 0 ∧ s.accessible a = true
  wnxIndex : ∀ a p, s.wnxPageToMap a = some p ↔
    Owns h s p a ∧ a % 4096 = 0 ∧ s.writableNotExecutable a = true
  cached : ∀ i p, s.lastMapCache i = some p → ∃ a, s.pageToMap a = some p
  wnxCached : ∀ i p, s.wnxLastMapCache i = some p → ∃ a, s.wnxPageToMap a = some p

/-- The range that owns the address. -/
def rangeAt (h : Heap) (s : AddressSpace) (a : Nat) : Option MemoryMapPtr :=
  s.maps.find? (fun p => h.isValid p && (h.obj p).contains a)

/-- The memory of the address space. -/
def view (h : Heap) (s : AddressSpace) (a : Nat) : Option UInt8 :=
  (rangeAt h s a).map (fun p => h.byte p a)

lemma LaidOut.limit_lt (hs : s.LaidOut h) (p : MemoryMapPtr) (hp : p ∈ s.maps) :
    (h.obj p).limitAddress < 2 ^ 64 := by
  have hle := hs.bounded p hp
  rcases hs.mask with hm | hm <;> rw [hm] at hle <;> omega

lemma mask_eq_mod (hs : s.WF h) (a : Nat) : a &&& s.addrMask = a % (s.addrMask + 1) := by
  rcases hs.mask with hm | hm
  · rw [hm, Nat.and_two_pow_sub_one_eq_mod, Nat.sub_add_cancel Nat.one_le_two_pow]
  · rw [hm, Nat.and_two_pow_sub_one_eq_mod, Nat.sub_add_cancel Nat.one_le_two_pow]

lemma mask_lt (hs : s.WF h) (a : Nat) : a &&& s.addrMask < 2 ^ 64 := by
  rw [mask_eq_mod hs]
  rcases hs.mask with hm | hm <;> rw [hm] <;> omega

lemma mask_of_le (hs : s.WF h) (ha : a ≤ s.addrMask) : a &&& s.addrMask = a := by
  rw [mask_eq_mod hs]
  exact Nat.mod_eq_of_lt (by omega)

lemma mask_mask (s : AddressSpace) (a : Nat) :
    (a &&& s.addrMask) &&& s.addrMask = a &&& s.addrMask := by
  rw [Nat.and_assoc, Nat.and_self]

lemma Owns.unique (hs : s.WF h) {q : MemoryMapPtr} (hp : Owns h s p a) (hq : Owns h s q a) :
    p = q :=
  hs.apart.eq_of_mem hp.mem hq.mem hp.inside hq.inside

lemma rangeAt_eq_some (hwf : h.WF) (hs : s.WF h) : rangeAt h s a = some p ↔ Owns h s p a := by
  have howns : ∀ q, q ∈ s.maps → (h.isValid q && (h.obj q).contains a) = true → Owns h s q a := by
    intro q hmem hq
    rw [Bool.and_eq_true, Heap.isValid_iff hwf, Heap.contains_iff] at hq
    exact ⟨hmem, hq.1, hq.2⟩
  constructor
  · intro hr
    have hfound := List.find?_some (p := fun q => h.isValid q && (h.obj q).contains a) hr
    exact howns p (List.mem_of_find?_eq_some hr) hfound
  intro ho
  cases hr : rangeAt h s a with
  | none =>
    have hno := List.find?_eq_none.mp hr p ho.mem
    rw [Bool.and_eq_true, Heap.isValid_iff hwf, Heap.contains_iff] at hno
    exact absurd ⟨ho.valid, ho.inside⟩ hno
  | some q =>
  have hfound := List.find?_some (p := fun q => h.isValid q && (h.obj q).contains a) hr
  rw [(howns q (List.mem_of_find?_eq_some hr) hfound).unique hs ho]

lemma rangeAt_eq_none (hwf : h.WF) (hs : s.WF h) :
    rangeAt h s a = none ↔ ∀ p, ¬ Owns h s p a := by
  constructor
  · intro hr p ho
    rw [(rangeAt_eq_some hwf hs).mpr ho] at hr
    simp at hr
  intro hno
  cases hr : rangeAt h s a with
  | none => rfl
  | some p => exact absurd ((rangeAt_eq_some hwf hs).mp hr) (hno p)

lemma Owns.view_eq (hwf : h.WF) (hs : s.WF h) (ho : Owns h s p a) :
    view h s a = some (h.byte p a) := by
  unfold view
  rw [(rangeAt_eq_some hwf hs).mpr ho]
  rfl

lemma view_eq_none (hwf : h.WF) (hs : s.WF h) : view h s a = none ↔ ∀ p, ¬ Owns h s p a := by
  rw [← rangeAt_eq_none hwf hs]
  unfold view
  rw [Option.map_eq_none_iff]

lemma exists_owner (hwf : h.WF) (hs : s.WF h) (ha : (view h s a).isSome = true) :
    ∃ p, Owns h s p a := by
  by_contra hno
  rw [not_exists, ← view_eq_none hwf hs] at hno
  rw [hno] at ha
  simp at ha

lemma owns_page_iff (hs : s.WF h) (hpage : page % 4096 = 0) (hle : page ≤ a)
    (hlt : a < page + 4096) : Owns h s p a ↔ Owns h s p page := by
  constructor
  · rintro ⟨hmem, hv, hin⟩
    have hpg := hs.paged p hmem hv
    obtain ⟨hb, hl, _⟩ := hpg
    obtain ⟨h1, h2⟩ := hin
    exact ⟨hmem, hv, by constructor <;> omega⟩
  rintro ⟨hmem, hv, hin⟩
  have hpg := hs.paged p hmem hv
  obtain ⟨hb, hl, _⟩ := hpg
  obtain ⟨h1, h2⟩ := hin
  exact ⟨hmem, hv, by constructor <;> omega⟩

lemma owns_alignDown_iff (hs : s.WF h) (ha : a < 2 ^ 64) :
    Owns h s p a ↔ Owns h s p (alignDownToPage a) :=
  owns_page_iff hs (alignDownToPage_mod a) (alignDownToPage_le a) (lt_alignDownToPage_add ha)

lemma Owns.sameShape (hk : ∀ p ∈ s.maps, Heap.SameShape h h' p) :
    Owns h' s p a ↔ Owns h s p a := by
  constructor
  · rintro ⟨hmem, hv, hin⟩
    exact ⟨hmem, fun he => hv ((hk p hmem).invalid.mpr he), by rw [← (hk p hmem).extent]; exact hin⟩
  rintro ⟨hmem, hv, hin⟩
  exact ⟨hmem, fun he => hv ((hk p hmem).invalid.mp he), by rw [(hk p hmem).extent]; exact hin⟩

lemma WF.sameShape (hs : s.WF h) (hnext : h.next ≤ h'.next)
    (hk : ∀ p ∈ s.maps, Heap.SameShape h h' p) (hinv : (h'.obj s.invalid).kind = .invalid)
    (hroots : ∀ p ∈ s.maps, h'.NotParent p) : s.WF h' where
  mask := hs.mask
  alive := hs.alive
  nonempty := hs.nonempty
  live p hp := (hs.live p hp).trans_le hnext
  invalidLive := hs.invalidLive.trans_le hnext
  invalid := hinv
  sorted := hs.sorted.imp_of_mem (fun {p q} hp hq hle => by
    rw [(hk p hp).base, (hk q hq).base]; exact hle)
  apart := hs.apart.imp_of_mem (fun {p q} hp hq hd => by
    rw [(hk p hp).extent, (hk q hq).extent]; exact hd)
  paged p hp hv := (hk p hp).paged (hs.paged p hp (fun he => hv ((hk p hp).invalid.mpr he)))
  bounded p hp := by rw [(hk p hp).limit]; exact hs.bounded p hp
  notParent := hroots
  lastPage := hs.lastPage
  index a p := by rw [Owns.sameShape hk]; exact hs.index a p
  wnxIndex a p := by rw [Owns.sameShape hk]; exact hs.wnxIndex a p
  cached := hs.cached
  wnxCached := hs.wnxCached

lemma view_kept (hwf : h.WF) (hwf' : h'.WF) (hs : s.WF h) (hs' : s.WF h')
    (hk : ∀ p ∈ s.maps, Heap.Kept h h' p) : view h' s = view h s := by
  funext a
  cases hr : rangeAt h s a with
  | none =>
    have hno := (rangeAt_eq_none hwf hs).mp hr
    rw [(view_eq_none hwf hs).mpr hno, view_eq_none hwf' hs']
    intro p ho
    exact hno p ((Owns.sameShape (fun q hq => (hk q hq).sameShape)).mp ho)
  | some p =>
  have ho := (rangeAt_eq_some hwf hs).mp hr
  have ho' : Owns h' s p a :=
    (Owns.sameShape (fun q hq => (hk q hq).sameShape)).mpr ho
  rw [ho.view_eq hwf hs, ho'.view_eq hwf' hs', (hk p ho.mem).held]

/-- `s'` is `s` after some accesses: only the caches and the trace heads
differ, and new cache entries come from the indexes. -/
structure Accessed (s s' : AddressSpace) : Prop where
  maps : s'.maps = s.maps
  pageToMap : s'.pageToMap = s.pageToMap
  wnxPageToMap : s'.wnxPageToMap = s.wnxPageToMap
  addrMask : s'.addrMask = s.addrMask
  invalid : s'.invalid = s.invalid
  isDead : s'.isDead = s.isDead
  canRead : s'.pageIsReadable = s.pageIsReadable
  canWrite : s'.pageIsWritable = s.pageIsWritable
  canExecute : s'.pageIsExecutable = s.pageIsExecutable
  cached : ∀ i p, s'.lastMapCache i = some p →
    (∃ j, s.lastMapCache j = some p) ∨ ∃ a, s.pageToMap a = some p
  wnxCached : ∀ i p, s'.wnxLastMapCache i = some p →
    (∃ j, s.wnxLastMapCache j = some p) ∨ ∃ a, s.wnxPageToMap a = some p

namespace Accessed

variable {s' s'' : AddressSpace}

lemma refl (s : AddressSpace) : Accessed s s :=
  ⟨rfl, rfl, rfl, rfl, rfl, rfl, rfl, rfl, rfl, fun i _ hi => .inl ⟨i, hi⟩,
    fun i _ hi => .inl ⟨i, hi⟩⟩

lemma accessible (ha : Accessed s s') : s'.accessible = s.accessible := by
  funext a
  unfold AddressSpace.accessible canReadAligned canWriteAligned canExecuteAligned
  rw [ha.canRead, ha.canWrite, ha.canExecute]

lemma writableNotExecutable (ha : Accessed s s') :
    s'.writableNotExecutable = s.writableNotExecutable := by
  funext a
  unfold AddressSpace.writableNotExecutable canWriteAligned canExecuteAligned
  rw [ha.canWrite, ha.canExecute]

lemma owns (ha : Accessed s s') {h : Heap} {p : MemoryMapPtr} {a : Nat} :
    Owns h s' p a ↔ Owns h s p a := by
  constructor
  · rintro ⟨hmem, hv, hin⟩
    exact ⟨ha.maps ▸ hmem, hv, hin⟩
  rintro ⟨hmem, hv, hin⟩
  exact ⟨ha.maps.symm ▸ hmem, hv, hin⟩

lemma view (ha : Accessed s s') (h : Heap) : view h s' = view h s := by
  funext a
  unfold AddressSpace.view rangeAt
  rw [ha.maps]

lemma trans (h1 : Accessed s s') (h2 : Accessed s' s'') : Accessed s s'' where
  maps := h2.maps.trans h1.maps
  pageToMap := h2.pageToMap.trans h1.pageToMap
  wnxPageToMap := h2.wnxPageToMap.trans h1.wnxPageToMap
  addrMask := h2.addrMask.trans h1.addrMask
  invalid := h2.invalid.trans h1.invalid
  isDead := h2.isDead.trans h1.isDead
  canRead := h2.canRead.trans h1.canRead
  canWrite := h2.canWrite.trans h1.canWrite
  canExecute := h2.canExecute.trans h1.canExecute
  cached i p hi := by
    rcases h2.cached i p hi with ⟨j, hj⟩ | ⟨a, ha⟩
    · exact h1.cached j p hj
    · exact .inr ⟨a, by rw [← h1.pageToMap]; exact ha⟩
  wnxCached i p hi := by
    rcases h2.wnxCached i p hi with ⟨j, hj⟩ | ⟨a, ha⟩
    · exact h1.wnxCached j p hj
    · exact .inr ⟨a, by rw [← h1.wnxPageToMap]; exact ha⟩

end Accessed

lemma WF.accessed {s' : AddressSpace} (hs : s.WF h) (ha : Accessed s s') : s'.WF h where
  mask := by rw [ha.addrMask]; exact hs.mask
  alive := by rw [ha.isDead]; exact hs.alive
  nonempty := by rw [ha.maps]; exact hs.nonempty
  live := by rw [ha.maps]; exact hs.live
  invalidLive := by rw [ha.invalid]; exact hs.invalidLive
  invalid := by rw [ha.invalid]; exact hs.invalid
  sorted := by rw [ha.maps]; exact hs.sorted
  apart := by rw [ha.maps]; exact hs.apart
  paged := by rw [ha.maps]; exact hs.paged
  bounded := by rw [ha.maps, ha.addrMask]; exact hs.bounded
  notParent := by rw [ha.maps]; exact hs.notParent
  lastPage := by rw [ha.canWrite]; exact hs.lastPage
  index a p := by rw [ha.pageToMap, ha.owns, ha.accessible]; exact hs.index a p
  wnxIndex a p := by rw [ha.wnxPageToMap, ha.owns, ha.writableNotExecutable]; exact hs.wnxIndex a p
  cached i p hi := by
    rw [ha.pageToMap]
    rcases ha.cached i p hi with ⟨j, hj⟩ | hidx
    · exact hs.cached j p hj
    · exact hidx
  wnxCached i p hi := by
    rw [ha.wnxPageToMap]
    rcases ha.wnxCached i p hi with ⟨j, hj⟩ | hidx
    · exact hs.wnxCached j p hj
    · exact hidx

lemma lookupCached_spec (h : Heap) (cache index : Nat → Option MemoryMapPtr)
    (invalid : MemoryMapPtr) (page : Nat) : let r := lookupCached h cache index invalid page
    ((∃ i, cache i = some r.2 ∧ (h.obj r.2).contains page = true) ∨ index page = some r.2 ∨
      (r.2 = invalid ∧ index page = none)) ∧
    ∀ i q, r.1 i = some q → (∃ j, cache j = some q) ∨ index page = some q := by
  have hhit : ∀ i q, cacheHit h (cache i) page = some q →
      cache i = some q ∧ (h.obj q).contains page = true := by
    intro i q hq
    unfold cacheHit at hq
    cases hc : cache i with
    | none => rw [hc] at hq; simp at hq
    | some q' =>
    rw [hc] at hq
    simp only at hq
    split at hq
    · rename_i hin
      injection hq with hq
      subst hq
      exact ⟨rfl, hin⟩
    · simp at hq
  have hupd : ∀ (c : Nat → Option MemoryMapPtr) k r i q, Function.update c k (some r) i = some q →
      q = r ∨ c i = some q := by
    intro c k r i q hq
    by_cases hi : i = k
    · rw [hi, Function.update_self] at hq
      injection hq with hq
      exact .inl hq.symm
    rw [Function.update_of_ne hi] at hq
    exact .inr hq
  simp only [lookupCached]
  cases h1 : cacheHit h (cache kRangeCacheSize) page with
  | some q =>
    obtain ⟨hc, hin⟩ := hhit _ _ h1
    exact ⟨.inl ⟨_, hc, hin⟩, fun i q hq => .inl ⟨i, hq⟩⟩
  | none =>
  simp only
  cases h2 : cacheHit h (cache ((page >>> 12) &&& kRangeCacheMask)) page with
  | some q =>
    obtain ⟨hc, hin⟩ := hhit _ _ h2
    refine ⟨.inl ⟨_, hc, hin⟩, fun i q' hq' => .inl ?_⟩
    rcases hupd _ _ _ _ _ hq' with rfl | hq'
    · exact ⟨_, hc⟩
    · exact ⟨i, hq'⟩
  | none =>
  simp only
  cases h3 : index page with
  | none => exact ⟨.inr (.inr ⟨rfl, rfl⟩), fun i q hq => .inl ⟨i, hq⟩⟩
  | some q =>
  refine ⟨.inr (.inl rfl), fun i q' hq' => ?_⟩
  rcases hupd _ _ _ _ _ hq' with rfl | hq'
  · exact .inr rfl
  rcases hupd _ _ _ _ _ hq' with rfl | hq'
  · exact .inr rfl
  · exact .inl ⟨i, hq'⟩

lemma lookupCached_twice {cache index : Nat → Option MemoryMapPtr} {invalid : MemoryMapPtr} :
    lookupCached h (lookupCached h cache index invalid page).1 index invalid page =
      lookupCached h cache index invalid page := by
  have hne : kRangeCacheSize ≠ (page >>> 12) &&& kRangeCacheMask := by
    have hle : (page >>> 12) &&& kRangeCacheMask ≤ kRangeCacheMask := Nat.and_le_right
    unfold kRangeCacheMask kRangeCacheSize at *
    omega
  have hhit : ∀ entry q, cacheHit h entry page = some q → (h.obj q).contains page = true := by
    intro entry q hq
    unfold cacheHit at hq
    split at hq
    · split at hq
      · rename_i hin
        cases hq
        exact hin
      · cases hq
    · cases hq
  have hagain : ∀ q, (h.obj q).contains page = true → cacheHit h (some q) page = some q := by
    intro q hin
    simp only [cacheHit, hin, if_true]
  unfold lookupCached
  cases hlast : cacheHit h (cache kRangeCacheSize) page with
  | some q => simp only [hlast]
  | none =>
  cases hslot : cacheHit h (cache ((page >>> 12) &&& kRangeCacheMask)) page with
  | some q => simp only [hslot, Function.update_self, hagain q (hhit _ q hslot)]
  | none =>
  cases hidx : index page with
  | some q =>
    simp only [hslot, Function.update_of_ne hne, Function.update_self]
    by_cases hin : (h.obj q).contains page = true
    · simp only [hagain q hin]
    -- the index names a range without the page: the second lookup stores it again
    have hmiss : cacheHit h (some q) page = none := if_neg hin
    simp only [hmiss]
    rw [Function.update_comm hne, Function.update_idem, Function.update_comm hne.symm,
      Function.update_idem]
  | none => simp only [hlast, hslot]

lemma findRangeAligned_twice (h : Heap) (s : AddressSpace) (page : Nat) :
    (s.findRangeAligned h page).1.findRangeAligned h page = s.findRangeAligned h page := by
  unfold findRangeAligned
  simp only [lookupCached_twice]

lemma findRangeAligned_accessed (h : Heap) (s : AddressSpace) (page : Nat) :
    Accessed s (s.findRangeAligned h page).1 := by
  refine { Accessed.refl s with cached := fun i p hi => ?_ }
  rcases (lookupCached_spec h s.lastMapCache s.pageToMap s.invalid page).2 i p hi with hc | hi
  · exact .inl hc
  · exact .inr ⟨page, hi⟩

lemma findWNXRangeAligned_accessed (h : Heap) (s : AddressSpace) (page : Nat) :
    Accessed s (s.findWNXRangeAligned h page).1 := by
  refine { Accessed.refl s with wnxCached := fun i p hi => ?_ }
  rcases (lookupCached_spec h s.wnxLastMapCache s.wnxPageToMap s.invalid page).2 i p hi with hc | hi
  · exact .inl hc
  · exact .inr ⟨page, hi⟩

/-- The range found has the page, or there is none. -/
lemma lookupCached_owns {cache index : Nat → Option MemoryMapPtr}
    (hcached : ∀ i q, cache i = some q → ∃ a, index a = some q)
    (hindex : ∀ a q, index a = some q → Owns h s q a) (page : Nat) :
    let r := lookupCached h cache index s.invalid page
    Owns h s r.2 page ∨ (r.2 = s.invalid ∧ index page = none) := by
  rcases (lookupCached_spec h cache index s.invalid page).1 with ⟨i, hc, hin⟩ | hi | hi
  · left
    obtain ⟨a, ha⟩ := hcached i _ hc
    have ho := hindex a _ ha
    exact ⟨ho.mem, ho.valid, Heap.contains_iff.mp hin⟩
  · exact .inl (hindex page _ hi)
  · exact .inr hi

lemma findRangeAligned_spec (hs : s.WF h) (page : Nat) :
    Accessed s (s.findRangeAligned h page).1 ∧
    (Owns h s (s.findRangeAligned h page).2 page ∨
      ((s.findRangeAligned h page).2 = s.invalid ∧ s.pageToMap page = none)) :=
  ⟨findRangeAligned_accessed h s page,
    lookupCached_owns hs.cached (fun a q hq => ((hs.index a q).mp hq).1) page⟩

lemma findWNXRangeAligned_spec (hs : s.WF h) (page : Nat) :
    Accessed s (s.findWNXRangeAligned h page).1 ∧
    (Owns h s (s.findWNXRangeAligned h page).2 page ∨
      ((s.findWNXRangeAligned h page).2 = s.invalid ∧ s.wnxPageToMap page = none)) :=
  ⟨findWNXRangeAligned_accessed h s page,
    lookupCached_owns hs.wnxCached (fun a q hq => ((hs.wnxIndex a q).mp hq).1) page⟩

lemma findRangeAligned_eq (hs : s.WF h) (hpage : page % 4096 = 0) (ho : Owns h s p page)
    (hacc : s.accessible page = true) : (s.findRangeAligned h page).2 = p := by
  rcases (findRangeAligned_spec hs page).2 with ho' | ⟨_, hnone⟩
  · exact ho'.unique hs ho
  rw [(hs.index page p).mpr ⟨ho, hpage, hacc⟩] at hnone
  simp at hnone

lemma findRangeAligned_of_unmapped (hs : s.WF h) (hno : ∀ p, ¬ Owns h s p page) :
    (s.findRangeAligned h page).2 = s.invalid := by
  rcases (findRangeAligned_spec hs page).2 with ho | ⟨hinv, _⟩
  · exact absurd ho (hno _)
  · exact hinv

end AddressSpace

end Vmill
