import Vmill.Logic.Remove

/-!
# Mapping, unmapping, protecting and copying

Every call that changes the ranges ends in `CreatePageToRangeMap` (`LaidOut.indexed`). `AddMap` and
`RemoveMap` are one operation (`Replaced`).
-/

namespace Vmill

open Base

namespace AddressSpace

variable {h h' : Heap} {s s' : AddressSpace} {p new y : MemoryMapPtr} {a base size limit : Nat}
  {range : MappedRange} {r w x : Bool}

/-- `CreatePageToRangeMap` restores the invariant. -/
lemma LaidOut.indexed (hwf : h.WF) (hl : s.LaidOut h) : (createPageToRangeMap h s).WF h := by
  have hmem : ∀ p, p ∈ sortMaps h s.maps ↔ p ∈ s.maps := fun p => mem_sortMaps
  have hapart : Apart h.extent (sortMaps h s.maps) := hl.apart.perm (sortMaps_perm h s.maps).symm
  have howner : ∀ a p, pageOwner h (sortMaps h s.maps) a = some p ↔
      (p ∈ sortMaps h s.maps ∧ (h.obj p).kind ≠ .invalid ∧ a ∈ h.extent p) ∧ a % 4096 = 0 := by
    intro a p
    rw [pageOwner_eq_some hwf hapart fun q hq hv => (hl.paged q ((hmem q).mp hq) hv).base]
    tauto
  have howns : ∀ (s' : AddressSpace) a p, s'.maps = sortMaps h s.maps →
      (Owns h s' p a ↔ p ∈ sortMaps h s.maps ∧ (h.obj p).kind ≠ .invalid ∧ a ∈ h.extent p) := by
    intro s' a p hs'
    rw [← hs']
    exact ⟨fun ho => ⟨ho.mem, ho.valid, ho.inside⟩, fun ho => ⟨ho.1, ho.2.1, ho.2.2⟩⟩
  rw [createPageToRangeMap_eq]
  refine
    { mask := hl.mask
      alive := hl.alive
      nonempty := fun he => hl.nonempty (List.perm_nil.mp (he ▸ (sortMaps_perm h s.maps).symm))
      live := fun p hp => hl.live p ((hmem p).mp hp)
      invalidLive := hl.invalidLive
      invalid := hl.invalid
      apart := hapart
      paged := fun p hp => hl.paged p ((hmem p).mp hp)
      bounded := fun p hp => hl.bounded p ((hmem p).mp hp)
      notParent := fun p hp => hl.notParent p ((hmem p).mp hp)
      lastPage := hl.lastPage
      sorted := sortMaps_sorted h s.maps
      index := fun a p => ?_
      wnxIndex := fun a p => ?_
      cached := fun _ _ hi => absurd hi (by simp)
      wnxCached := fun _ _ hi => absurd hi (by simp) }
  · rw [howns _ a p rfl]
    show (if s.accessible a then pageOwner h (sortMaps h s.maps) a else none) = some p ↔
      _ ∧ a % 4096 = 0 ∧ s.accessible a = true
    by_cases hacc : s.accessible a = true
    · rw [if_pos hacc, howner]
      tauto
    rw [if_neg hacc]
    simp [hacc]
  · rw [howns _ a p rfl]
    show (if s.writableNotExecutable a then pageOwner h (sortMaps h s.maps) a else none) =
      some p ↔ _ ∧ a % 4096 = 0 ∧ s.writableNotExecutable a = true
    by_cases hwnx : s.writableNotExecutable a = true
    · rw [if_pos hwnx, howner]
      tauto
    rw [if_neg hwnx]
    simp [hwnx]

lemma LaidOut.setPermissions (hwf : h.WF) (hl : s.LaidOut h) (base size : Nat) (r w x : Bool) :
    (setPermissions h s base size r w x).WF h := by
  rw [setPermissions_eq]
  refine LaidOut.indexed hwf { hl with lastPage := fun a ha => ?_ }
  show (if a ∈ permissionPages base size then w else s.pageIsWritable a) = false
  rw [if_neg fun hmem => absurd (lt_of_mem_permissionPages hmem) (by omega)]
  exact hl.lastPage a ha

lemma setPermissions_fields (h : Heap) (s : AddressSpace) (base size : Nat) (r w x : Bool) :
    (setPermissions h s base size r w x).maps = sortMaps h s.maps ∧
      (setPermissions h s base size r w x).addrMask = s.addrMask ∧
      (setPermissions h s base size r w x).invalid = s.invalid ∧
      (setPermissions h s base size r w x).traceHeads = s.traceHeads ∧
      (setPermissions h s base size r w x).isDead = s.isDead := by
  rw [setPermissions_eq, createPageToRangeMap_eq]
  exact ⟨rfl, rfl, rfl, rfl, rfl⟩

lemma setPermissions_perms (h : Heap) (s : AddressSpace) (base size : Nat) (r w x : Bool)
    (a : Nat) :
    (setPermissions h s base size r w x).pageIsReadable a =
        (if a ∈ permissionPages base size then r else s.pageIsReadable a) ∧
      (setPermissions h s base size r w x).pageIsWritable a =
        (if a ∈ permissionPages base size then w else s.pageIsWritable a) ∧
      (setPermissions h s base size r w x).pageIsExecutable a =
        (if a ∈ permissionPages base size then x else s.pageIsExecutable a) := by
  rw [setPermissions_eq, createPageToRangeMap_eq]
  exact ⟨rfl, rfl, rfl⟩

lemma owns_of_mem_iff (hmem : ∀ p, p ∈ s'.maps ↔ p ∈ s.maps) : Owns h s' p a ↔ Owns h s p a :=
  ⟨fun ho => ⟨(hmem p).mp ho.mem, ho.valid, ho.inside⟩,
    fun ho => ⟨(hmem p).mpr ho.mem, ho.valid, ho.inside⟩⟩

lemma view_of_mem_iff (hwf : h.WF) (hs : s.WF h) (hs' : s'.WF h)
    (hmem : ∀ p, p ∈ s'.maps ↔ p ∈ s.maps) : view h s' = view h s := by
  funext a
  cases hr : rangeAt h s a with
  | none =>
    have hno := (rangeAt_eq_none hwf hs).mp hr
    rw [(view_eq_none hwf hs).mpr hno, view_eq_none hwf hs']
    exact fun p ho => hno p ((owns_of_mem_iff hmem).mp ho)
  | some p =>
  have ho := (rangeAt_eq_some hwf hs).mp hr
  rw [ho.view_eq hwf hs, ((owns_of_mem_iff hmem).mpr ho).view_eq hwf hs']

lemma setPermissions_view (hwf : h.WF) (hs : s.WF h) (base size : Nat) (r w x : Bool) :
    view h (setPermissions h s base size r w x) = view h s := by
  refine view_of_mem_iff hwf hs (hs.toLaidOut.setPermissions hwf base size r w x) fun p => ?_
  rw [(setPermissions_fields h s base size r w x).1]
  exact mem_sortMaps

/-- A mapping call of positive size whose pages end below the mask: it does not wrap around. -/
@[mk_iff]
structure InBounds (s : AddressSpace) (base size : Nat) : Prop where
  pos : 0 < size
  fits : alignDownToPage base + roundUpToPage size ≤ s.addrMask

instance (s : AddressSpace) (base size : Nat) : Decidable (InBounds s base size) :=
  decidable_of_iff' _ (inBounds_iff ..)

/-- Whole pages below the mask. -/
structure Interval (s : AddressSpace) (base limit : Nat) : Prop where
  baseMod : base % 4096 = 0
  limitMod : limit % 4096 = 0
  le : base ≤ limit
  fits : limit ≤ s.addrMask
  lt : limit < 2 ^ 64

lemma InBounds.interval (hs : s.LaidOut h) (hb : InBounds s base size) :
    Interval s (alignDownToPage base) (alignDownToPage base + roundUpToPage size) := by
  have h1 := alignDownToPage_mod base
  have h2 := roundUpToPage_mod size
  have h3 := hb.fits
  refine ⟨h1, by omega, by omega, h3, ?_⟩
  rcases hs.mask with hm | hm <;> rw [hm] at h3 <;> omega

lemma InBounds.limit_eq (hs : s.LaidOut h) (hb : InBounds s base size) :
    min (wrap64 (alignDownToPage base + roundUpToPage size)) s.addrMask =
      alignDownToPage base + roundUpToPage size := by
  have hi := hb.interval hs
  rw [wrap64_of_lt hi.lt]
  exact Nat.min_eq_left hi.fits

lemma mem_permissionPages (hi : Interval s base limit) :
    a ∈ permissionPages base (sub64 limit base) ↔ a % 4096 = 0 ∧ base ≤ a ∧ a < limit := by
  have hb := hi.baseMod
  have hle := hi.le
  have hlt := hi.lt
  unfold permissionPages
  rw [sub64_of_le hle hlt, alignDownToPage_of_aligned (by omega) hb,
    roundUpToPage_of_aligned (by omega) (by have := hi.limitMod; omega), Nat.add_sub_cancel' hle,
    wrap64_of_lt hlt, mem_pagesIn hb]

/-- What a mapping call for `[base, limit)` has done; its range is `new`. -/
structure Replaced (h : Heap) (s : AddressSpace) (h' : Heap) (s' : AddressSpace)
    (new : MemoryMapPtr) (base limit : Nat) : Prop where
  grows : Heap.Grows h h'
  wf : s'.WF h'
  addrMask : s'.addrMask = s.addrMask
  invalid : s'.invalid = s.invalid
  traceHeads : s'.traceHeads = s.traceHeads
  maps : ∃ kept, Refines (Cut h h' base limit) s.maps kept ∧ s'.maps.Perm (kept ++ [new])
  newFresh : h.next ≤ new
  newBase : (h'.obj new).baseAddress = base
  newLimit : (h'.obj new).limitAddress = limit

/-- The pages of `[base, limit)` have the given permissions, all others their old ones. -/
structure Protected (s s' : AddressSpace) (base limit : Nat) (r w x : Bool) : Prop where
  readable : ∀ a, s'.pageIsReadable a =
    if a % 4096 = 0 ∧ base ≤ a ∧ a < limit then r else s.pageIsReadable a
  writable : ∀ a, s'.pageIsWritable a =
    if a % 4096 = 0 ∧ base ≤ a ∧ a < limit then w else s.pageIsWritable a
  executable : ∀ a, s'.pageIsExecutable a =
    if a % 4096 = 0 ∧ base ≤ a ∧ a < limit then x else s.pageIsExecutable a

lemma LaidOut.replaced (hwf : h.WF) (hs : s.LaidOut h) (hi : Interval s base limit)
    (hg : Heap.Grows h h') {kept : List MemoryMapPtr}
    (href : Refines (Cut h h' base limit) s.maps kept) (hnew : h.next ≤ new) (hlive : new < h'.next)
    (hbase : (h'.obj new).baseAddress = base) (hlimit : (h'.obj new).limitAddress = limit) :
    LaidOut h' { s with maps := kept ++ [new] } := by
  have horigin : ∀ y ∈ kept, ∃ x ∈ s.maps, ∃ ys, Cut h h' base limit x ys ∧ y ∈ ys :=
    fun y hy => href.origin hy
  have hmem : ∀ y ∈ kept ++ [new], y ∈ kept ∨ y = new := by simp
  refine ⟨hs.mask, hs.alive, by simp, ?_, hs.invalidLive.trans_le hg.ext.next, ?_, ?_, ?_,
    ?_, ?_, hs.lastPage⟩
  · intro y hy
    rcases hmem y hy with hy | rfl
    · obtain ⟨x, _, ys, hcut, hys⟩ := horigin y hy
      exact (hcut.piece y hys).live
    · exact hlive
  · show (h'.obj s.invalid).kind = .invalid
    rw [hg.ext.obj _ hs.invalidLive]
    exact hs.invalid
  · refine Apart.append_singleton (href.apart hs.apart fun x ys hcut =>
      ⟨hcut.apart, fun y hy => (hcut.piece y hy).inside⟩) fun y hy => ?_
    obtain ⟨x, _, ys, hcut, hys⟩ := horigin y hy
    refine Set.disjoint_left.mpr fun a ha ha' => ?_
    rw [Heap.mem_extent, hbase, hlimit] at ha'
    rcases hcut.outside hys ha with hout | hout <;> omega
  · intro y hy hv
    rcases hmem y hy with hy | rfl
    · obtain ⟨x, hx, ys, hcut, hys⟩ := horigin y hy
      have hp := hcut.piece y hys
      exact hp.paged (hs.paged x hx fun he => hv (hp.invalid.mpr he))
    exact ⟨by rw [hbase]; exact hi.baseMod, by rw [hlimit]; exact hi.limitMod,
      by rw [hlimit]; exact hi.lt⟩
  · intro y hy
    show (h'.obj y).limitAddress ≤ s.addrMask
    rcases hmem y hy with hy | rfl
    · obtain ⟨x, hx, ys, hcut, hys⟩ := horigin y hy
      exact (hcut.bounded y hys).trans (Nat.max_le.mpr ⟨hs.bounded x hx, hi.fits⟩)
    rw [hlimit]
    exact hi.fits
  · intro y hy
    rcases hmem y hy with hy | rfl
    · obtain ⟨x, hx, ys, hcut, hys⟩ := horigin y hy
      rcases (hcut.piece y hys).fresh with rfl | hfresh
      · exact hg.notParent (hs.notParent y hx)
      · exact hg.notParent_fresh hwf hfresh
    · exact hg.notParent_fresh hwf hnew

lemma replaceRange_spec (hwf : h.WF) (hs : s.LaidOut h) (hi : Interval s base limit)
    (hcow : ∀ q, range.kind ≠ .copyOnWrite q) (hcode : range.codeVersionIsValid = false)
    (hbase : range.baseAddress = base) (hlimit : range.limitAddress = limit)
    (hrun : replaceRange (h.alloc range).1 s h.next base limit r w x = some (s', h')) :
    Replaced h s h' s' h.next base limit ∧ h'.obj h.next = range ∧
      Protected s s' base limit r w x := by
  have hg1 := Heap.grows_alloc hwf hcow hcode
  unfold replaceRange at hrun
  split at hrun
  · simp at hrun
  split at hrun
  · simp at hrun
  rename_i h2 kept hremove
  obtain ⟨hs', rfl⟩ := Prod.mk.inj (Option.some.inj hrun)
  obtain ⟨hg2, href⟩ := removeRange_spec hg1.wf
    (fun p hp => (hs.live p hp).trans_le hg1.ext.next)
    (fun p hp => by rw [hg1.ext.obj p (hs.live p hp)]; exact hs.limit_lt p hp)
    hi.baseMod hi.limitMod hi.le hi.lt hremove
  have href' : Refines (Cut h h2 base limit) s.maps kept :=
    href.imp fun p hp ys hcut => hcut.before hwf hg1 (hs.live p hp)
  have hg := hg1.trans hg2
  have hlive : h.next < (h.alloc range).1.next := Nat.lt_succ_self _
  have hobj : h2.obj h.next = range := by
    rw [hg2.ext.obj _ hlive, Heap.alloc_obj_self]
  have hlaid := hs.replaced hwf hi hg href' le_rfl
    (hlive.trans_le hg2.ext.next) (by rwa [hobj])
    (by rwa [hobj])
  obtain ⟨hmaps, hmask, hinv, hheads, _⟩ := setPermissions_fields h2
    { s with maps := kept ++ [h.next] } base (sub64 limit base) r w x
  subst hs'
  refine ⟨⟨hg, hlaid.setPermissions hg.wf _ _ _ _ _, hmask, hinv, hheads, ⟨kept, href', ?_⟩,
    le_rfl, by rw [hobj]; exact hbase, by rw [hobj]; exact hlimit⟩, hobj, ?_, ?_, ?_⟩
  · rw [hmaps]
    exact sortMaps_perm _ _
  · intro a
    rw [(setPermissions_perms h2 _ base (sub64 limit base) r w x a).1]
    exact if_congr (mem_permissionPages hi) rfl rfl
  · intro a
    rw [(setPermissions_perms h2 _ base (sub64 limit base) r w x a).2.1]
    exact if_congr (mem_permissionPages hi) rfl rfl
  · intro a
    rw [(setPermissions_perms h2 _ base (sub64 limit base) r w x a).2.2]
    exact if_congr (mem_permissionPages hi) rfl rfl

lemma addMap_spec (hwf : h.WF) (hs : s.LaidOut h) (hb : InBounds s base size)
    {name : Option (List UInt8)} {offset : Nat}
    (hrun : s.addMap h base size name offset = some (s', h')) :
    Replaced h s h' s' h.next (alignDownToPage base)
        (alignDownToPage base + roundUpToPage size) ∧
      (h'.obj h.next).kind = .empty ∧
      Protected s s' (alignDownToPage base) (alignDownToPage base + roundUpToPage size)
        true true false := by
  simp only [addMap, hs.alive, Bool.false_eq_true, if_false, hb.limit_eq hs] at hrun
  split at hrun
  · simp at hrun
  obtain ⟨hrep, hobj, hperm⟩ := replaceRange_spec hwf hs (hb.interval hs) (by simp [newRange])
    rfl rfl rfl hrun
  exact ⟨hrep, by rw [hobj]; rfl, hperm⟩

lemma removeMap_spec (hwf : h.WF) (hs : s.LaidOut h) (hb : InBounds s base size)
    (hrun : s.removeMap h base size = some (s', h')) :
    Replaced h s h' s' h.next (alignDownToPage base)
        (alignDownToPage base + roundUpToPage size) ∧
      (h'.obj h.next).kind = .invalid ∧
      Protected s s' (alignDownToPage base) (alignDownToPage base + roundUpToPage size)
        false false false := by
  simp only [removeMap, hs.alive, Bool.false_eq_true, if_false, hb.limit_eq hs] at hrun
  split at hrun
  · simp at hrun
  obtain ⟨hrep, hobj, hperm⟩ := replaceRange_spec hwf hs (hb.interval hs) (by simp [newRange])
    rfl rfl rfl hrun
  exact ⟨hrep, by rw [hobj]; rfl, hperm⟩

lemma replaceRange_isSome (hwf : h.WF) (hs : s.LaidOut h) (hi : Interval s base limit)
    (hkind : ∀ q, range.kind ≠ .copyOnWrite q) (hcode : range.codeVersionIsValid = false)
    (hcow : ∀ p ∈ s.maps, Overlaps h base limit p → ∀ q, (h.obj p).kind ≠ .copyOnWrite q)
    (hhead : ∀ p ∈ s.maps, (h.obj p).kind ≠ .invalid → ¬ CutsHead h base limit p) (r w x : Bool) :
    ∃ s' h', replaceRange (h.alloc range).1 s h.next base limit r w x = some (s', h') := by
  have hg := Heap.grows_alloc hwf hkind hcode
  have hobj : ∀ p ∈ s.maps, (h.alloc range).1.obj p = h.obj p :=
    fun p hp => hg.ext.obj p (hs.live p hp)
  obtain ⟨h2, kept, hremove⟩ := removeRange_isSome hg.wf
    (fun p hp => (hs.live p hp).trans_le hg.ext.next)
    (fun p hp => by rw [hobj p hp]; exact hs.limit_lt p hp)
    hi.baseMod hi.limitMod hi.le hi.lt
    (fun p hp ho => by
      unfold Overlaps at ho
      rw [hobj p hp] at ho ⊢
      exact hcow p hp ho)
    (fun p hp harr => by
      unfold CutsHead
      rw [hobj p hp] at harr ⊢
      obtain ⟨data, hd⟩ := harr
      have hv : (h.obj p).kind ≠ .invalid := by rw [hd]; simp
      exact ⟨hs.paged p hp hv, hhead p hp hv⟩)
  unfold replaceRange
  rw [if_neg (by simp [hs.nonempty]), hremove]
  exact ⟨_, _, rfl⟩

section Returns

variable (hwf : h.WF) (hs : s.WF h) (hb : InBounds s base size)
  (hcow : ∀ p ∈ s.maps, Overlaps h (alignDownToPage base) (alignDownToPage base + roundUpToPage size) p → ∀ q, (h.obj p).kind ≠ .copyOnWrite q)
  (hhead : ∀ p ∈ s.maps, (h.obj p).kind ≠ .invalid → ¬ CutsHead h (alignDownToPage base) (alignDownToPage base + roundUpToPage size) p)

include hwf hs hb hcow hhead

lemma addMap_isSome (name : Option (List UInt8)) (offset : Nat) :
    ∃ s' h', s.addMap h base size name offset = some (s', h') := by
  have hmask : alignDownToPage base &&& s.addrMask = alignDownToPage base :=
    mask_of_le hs (by have := hb.fits; omega)
  simp only [addMap, hs.alive, Bool.false_eq_true, if_false, hb.limit_eq hs.toLaidOut, hmask, ne_eq,
    not_true_eq_false]
  exact replaceRange_isSome hwf hs.toLaidOut (hb.interval hs.toLaidOut) (by simp [newRange]) rfl
    hcow hhead _ _ _

lemma removeMap_isSome : ∃ s' h', s.removeMap h base size = some (s', h') := by
  have hmask : alignDownToPage base &&& s.addrMask = alignDownToPage base :=
    mask_of_le hs (by have := hb.fits; omega)
  simp only [removeMap, hs.alive, Bool.false_eq_true, if_false, hb.limit_eq hs.toLaidOut, hmask, ne_eq,
    not_true_eq_false]
  exact replaceRange_isSome hwf hs.toLaidOut (hb.interval hs.toLaidOut) (by simp [newRange]) rfl
    hcow hhead _ _ _

end Returns

lemma Replaced.mem_cases (hr : Replaced h s h' s' new base limit) (hy : y ∈ s'.maps) :
    (∃ x ∈ s.maps, ∃ ys, Cut h h' base limit x ys ∧ y ∈ ys) ∨ y = new := by
  obtain ⟨kept, href, hperm⟩ := hr.maps
  rcases List.mem_append.mp (hperm.mem_iff.mp hy) with hk | hn
  · exact .inl (href.origin hk)
  · exact .inr (List.mem_singleton.mp hn)

lemma Replaced.pieces (hr : Replaced h s h' s' new base limit) {x : MemoryMapPtr}
    (hx : x ∈ s.maps) : ∃ ys, Cut h h' base limit x ys ∧ ∀ y ∈ ys, y ∈ s'.maps := by
  obtain ⟨kept, href, hperm⟩ := hr.maps
  obtain ⟨ys, hc, hsub⟩ := href.image hx
  exact ⟨ys, hc, fun y hy => hperm.mem_iff.mpr (List.mem_append_left _ (hsub y hy))⟩

lemma Replaced.owns_cases (hr : Replaced h s h' s' new base limit) (ho : Owns h' s' y a) :
    (∃ x ys, Owns h s x a ∧ Cut h h' base limit x ys ∧ y ∈ ys) ∨
      y = new ∧ base ≤ a ∧ a < limit := by
  rcases hr.mem_cases ho.mem with ⟨x, hx, ys, hc, hys⟩ | rfl
  · have hp := hc.piece y hys
    exact .inl ⟨x, ys, ⟨hx, fun he => ho.valid (hp.invalid.mpr he), hp.inside ho.inside⟩, hc, hys⟩
  have hin := ho.inside
  rw [Heap.mem_extent, hr.newBase, hr.newLimit] at hin
  exact .inr ⟨rfl, hin⟩

lemma Replaced.image (hr : Replaced h s h' s' new base limit) {x : MemoryMapPtr}
    (ho : Owns h s x a) (hout : ¬ (base ≤ a ∧ a < limit)) (hcut : ¬ CutsHead h base limit x) :
    ∃ y, Owns h' s' y a ∧ h'.byte y a = h.byte x a := by
  obtain ⟨ys, hc, hsub⟩ := hr.pieces ho.mem
  obtain ⟨y, hy, hin⟩ := hc.cover hcut a ho.inside (by omega)
  have hp := hc.piece y hy
  exact ⟨y, ⟨hsub y hy, fun he => ho.valid (hp.invalid.mp he), hin⟩, hp.held a hin⟩

lemma Replaced.owns (hr : Replaced h s h' s' new base limit) (ho : Owns h' s' y a) :
    (y = new ∧ base ≤ a ∧ a < limit) ∨
      (∃ x, Owns h s x a ∧ h'.byte y a = h.byte x a ∧ (a < base ∨ limit ≤ a) ∧
        ¬ CutsHead h base limit x) := by
  rcases hr.owns_cases ho with ⟨x, ys, hx, hc, hys⟩ | hnew
  · refine .inr ⟨x, hx, (hc.piece y hys).held a ho.inside, hc.outside hys ho.inside,
      fun hcut => ?_⟩
    exact hc.lost hcut y hys a ho.inside
  · exact .inl hnew

lemma Replaced.view_outside (hwf : h.WF) (hwf' : h'.WF) (hs : s.WF h)
    (hr : Replaced h s h' s' new base limit) (hout : ¬ (base ≤ a ∧ a < limit))
    (hhead : ∀ p, Owns h s p a → ¬ CutsHead h base limit p) : view h' s' a = view h s a := by
  cases hown : rangeAt h s a with
  | none =>
    have hno := (rangeAt_eq_none hwf hs).mp hown
    rw [(view_eq_none hwf hs).mpr hno, view_eq_none hwf' hr.wf]
    intro y hy
    rcases hr.owns hy with ⟨_, hin⟩ | ⟨x, hx, _⟩
    · exact hout hin
    · exact hno x hx
  | some x =>
  have hx := (rangeAt_eq_some hwf hs).mp hown
  obtain ⟨y, hy, hbyte⟩ := hr.image hx hout (hhead x hx)
  rw [hx.view_eq hwf hs, hy.view_eq hwf' hr.wf, hbyte]

lemma Replaced.view_lost (hwf : h.WF) (hwf' : h'.WF) (hs : s.WF h)
    (hr : Replaced h s h' s' new base limit) (hp : p ∈ s.maps) (hv : (h.obj p).kind ≠ .invalid)
    (hcut : CutsHead h base limit p) : (view h s limit).isSome ∧ view h' s' limit = none := by
  obtain ⟨_, h2, h3⟩ := hcut
  have ho : Owns h s p limit := ⟨hp, hv, h2.le, h3⟩
  refine ⟨by rw [ho.view_eq hwf hs]; rfl, (view_eq_none hwf' hr.wf).mpr fun y hy => ?_⟩
  rcases hr.owns hy with ⟨_, _, hlt⟩ | ⟨x, hx, _, _, hno⟩
  · exact Nat.lt_irrefl _ hlt
  rw [hx.unique hs ho] at hno
  exact hno ⟨‹_›, h2, h3⟩

lemma Replaced.view_empty (hwf' : h'.WF) (hr : Replaced h s h' s' new base limit)
    (hk : (h'.obj new).kind = .empty) (hlo : base ≤ a) (hhi : a < limit) :
    view h' s' a = some 0 := by
  obtain ⟨kept, _, hperm⟩ := hr.maps
  have ho : Owns h' s' new a := ⟨hperm.mem_iff.mpr (by simp), by rw [hk]; simp, by
    rw [Heap.mem_extent, hr.newBase, hr.newLimit]
    exact ⟨hlo, hhi⟩⟩
  rw [ho.view_eq hwf' hr.wf, Heap.byte_of_empty hk]

lemma Replaced.view_invalid (hwf' : h'.WF) (hr : Replaced h s h' s' new base limit)
    (hk : (h'.obj new).kind = .invalid) (hlo : base ≤ a) (hhi : a < limit) :
    view h' s' a = none := by
  rw [view_eq_none hwf' hr.wf]
  intro y hy
  rcases hr.owns hy with ⟨rfl, _⟩ | ⟨_, _, _, hout, _⟩
  · exact hy.valid hk
  · omega

lemma Protected.at (hs : s.WF h) (hmask : s'.addrMask = s.addrMask) (hi : Interval s base limit)
    (hp : Protected s s' base limit r w x) (ha : a ≤ s.addrMask) :
    s'.canRead a = (if base ≤ a ∧ a < limit then r else s.canRead a) ∧
      s'.canWrite a = (if base ≤ a ∧ a < limit then w else s.canWrite a) ∧
      s'.canExecute a = (if base ≤ a ∧ a < limit then x else s.canExecute a) := by
  have hmod := alignDownToPage_mod a
  have hle := alignDownToPage_le a
  have hlt := lt_alignDownToPage_add (show a < 2 ^ 64 from by
    rcases hs.mask with hm | hm <;> rw [hm] at ha <;> omega)
  have hbm := hi.baseMod
  have hlm := hi.limitMod
  have hiff : (alignDownToPage a % 4096 = 0 ∧ base ≤ alignDownToPage a ∧
      alignDownToPage a < limit) ↔ (base ≤ a ∧ a < limit) := by omega
  have haddr := mask_of_le hs ha
  refine ⟨?_, ?_, ?_⟩
  · simp only [canRead, canReadAligned, hmask, haddr, hp.readable]
    exact if_congr hiff rfl rfl
  · simp only [canWrite, canWriteAligned, hmask, haddr, hp.writable]
    exact if_congr hiff rfl rfl
  simp only [canExecute, canExecuteAligned, hmask, haddr, hp.executable]
  exact if_congr hiff rfl rfl

end AddressSpace

end Vmill
