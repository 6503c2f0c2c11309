import Vmill.Logic.Mapping

/-!
# The copy constructor and the default constructor

`Forked` says what the copy loop does: each clone holds what its original holds, and no range of
either address space is anybody's parent.
-/

namespace Vmill

open Base

namespace Heap

lemma Cloned.kept_all {h h' : Heap} {p p' : MemoryMapPtr} (hc : Cloned h h' p p') (hwf : h.WF)
    (hnp : h.NotParent p) {q : MemoryMapPtr} (hq : q < h.next) : Kept h h' q := by
  by_cases hqp : q = p
  · rw [hqp]
    exact hc.kept
  have hobj := hc.frame q hq hqp
  refine ⟨by rw [hobj], by rw [hobj], by rw [hobj], by rw [hobj], by rw [hobj], fun a => ?_⟩
  cases hk : (h.obj q).kind with
  | invalid => rw [byte_of_invalid (by rwa [hobj]), byte_of_invalid hk]
  | empty => rw [byte_of_empty (by rwa [hobj]), byte_of_empty hk]
  | array data => rw [byte_of_array (by rwa [hobj]), byte_of_array hk, hobj]
  | copyOnWrite r =>
  obtain ⟨data, hr⟩ := hwf.parent q r hk
  have hrobj : h'.obj r = h.obj r := hc.frame r (hwf.parent_lt hk) (by
    rintro rfl
    exact hnp q hk)
  rw [byte_of_cow hc.wf (by rwa [hobj]), byte_of_cow hwf hk,
    byte_of_array (by rwa [hrobj]), byte_of_array hr, hrobj]

end Heap

namespace AddressSpace

variable {h h' h1 h2 : Heap} {maps maps' : List MemoryMapPtr} {x y : MemoryMapPtr}
  {s : AddressSpace}

/-- `y` takes the place of `x` in the copy. -/
structure CloneOf (h h' : Heap) (x y : MemoryMapPtr) : Prop extends h.Alike h' x y where
  shared : (h.obj x).kind = .invalid → y = x
  fresh : (h.obj x).kind ≠ .invalid → h.next ≤ y
  live : y < h'.next
  notParent : h'.NotParent y

/-- The ranges `maps'` are those of a copy of `maps`. -/
structure Forked (h h' : Heap) (maps maps' : List MemoryMapPtr) : Prop where
  wf : h'.WF
  next : h.next ≤ h'.next
  frame : ∀ q, q < h.next → q ∉ maps → h'.obj q = h.obj q
  self : ∀ q, q < h.next → h'.obj q = h.obj q ∨ ((h.obj q).IsArray ∧ ¬ (h'.obj q).IsArray)
  kept : ∀ q, q < h.next → Heap.Kept h h' q
  clones : Refines (fun x ys => ∃ y, ys = [y] ∧ CloneOf h h' x y) maps maps'
  uncached : ∀ q, h.next ≤ q → q < h'.next → (h'.obj q).codeVersionIsValid = false
  parents : ∀ q q', (h'.obj q).kind = .copyOnWrite q' →
    (∃ r, (h.obj r).kind = .copyOnWrite q') ∨ h.next ≤ q'

lemma Forked.notParent (hf : Forked h h' maps maps') {p : MemoryMapPtr} (hp : p < h.next)
    (hnp : h.NotParent p) : h'.NotParent p := by
  intro q hq
  rcases hf.parents q p hq with ⟨r, hr⟩ | hge
  · exact hnp r hr
  · exact absurd hp (Nat.not_lt.mpr hge)

lemma CloneOf.later {rest rest' : List MemoryMapPtr} (hc : CloneOf h h1 x y)
    (hf : Forked h1 h2 rest rest') : CloneOf h h2 x y where
  toAlike := hc.toAlike.trans (hf.kept y hc.live)
  shared := hc.shared
  fresh := hc.fresh
  live := hc.live.trans_le hf.next
  notParent := hf.notParent hc.live hc.notParent

lemma CloneOf.before (hc : CloneOf h1 h2 x y) (hnext : h.next ≤ h1.next) (hk : Heap.Kept h h1 x) :
    CloneOf h h2 x y where
  toAlike := hk.trans hc.toAlike
  shared hi := hc.shared (hk.invalid.mpr hi)
  fresh hi := hnext.trans (hc.fresh fun he => hi (hk.invalid.mp he))
  live := hc.live
  notParent := hc.notParent

lemma cloneOf_cloned (hwf : h.WF) (hc : Heap.Cloned h h' x y) (hv : (h.obj x).kind ≠ .invalid) :
    CloneOf h h' x y where
  toAlike := hc.toAlike
  shared hi := absurd hi hv
  fresh _ := hc.fresh
  live := hc.lt
  notParent q hq := by
    rcases hc.parents q y hq with ⟨r, hr⟩ | ⟨_, hne⟩
    · exact absurd (hwf.parent_lt hr) (Nat.not_lt.mpr hc.fresh)
    · exact hne rfl

/-- The ranges cloned one after the other. -/
lemma cloneMaps_spec (hwf : h.WF) (hlive : ∀ p ∈ maps, p < h.next)
    (hnp : ∀ p ∈ maps, h.NotParent p) :
    Forked h (cloneMaps h maps).1 maps (cloneMaps h maps).2 := by
  induction maps generalizing h with
  | nil =>
    exact ⟨hwf, le_rfl, fun _ _ _ => rfl, fun _ _ => .inl rfl,
      fun q _ => Heap.Kept.refl h q, .nil, fun _ hq hlt => absurd hlt hq.not_gt,
      fun q q' hq => .inl ⟨q, hq⟩⟩
  | cons x rest ih =>
  have hx := hlive x (.head _)
  have hxnp := hnp x (.head _)
  have hrest : ∀ p ∈ rest, p < h.next := fun p hp => hlive p (.tail _ hp)
  have hrestnp : ∀ p ∈ rest, h.NotParent p := fun p hp => hnp p (.tail _ hp)
  simp only [cloneMaps]
  by_cases hv : h.isValid x = true
  · rw [if_pos hv]
    have hc := Heap.clone_spec hwf hx hxnp
    have hclone := cloneOf_cloned hwf hc ((Heap.isValid_iff hwf).mp hv)
    have hf := ih hc.wf (fun p hp => (hrest p hp).trans_le hc.next) (by
      intro p hp q hq
      rcases hc.parents q p hq with ⟨r, hr⟩ | ⟨hge, _⟩
      · exact hrestnp p hp r hr
      · exact absurd (hrest p hp) (Nat.not_lt.mpr hge))
    have hk1 : ∀ q, q < h.next → Heap.Kept h (h.clone x).1 q := fun q hq =>
      hc.kept_all hwf hxnp hq
    have hlt1 : ∀ q, q < h.next → q < (h.clone x).1.next := fun q hq =>
      hq.trans_le hc.next
    refine
      { wf := hf.wf
        next := hc.next.trans hf.next
        frame := ?_
        self := ?_
        kept := fun q hq => (hk1 q hq).trans (hf.kept q (hlt1 q hq))
        clones := .cons_one ⟨_, rfl, hclone.later hf⟩ (hf.clones.imp ?_)
        uncached := ?_
        parents := ?_ }
    · intro q hq hmem
      rw [List.mem_cons, not_or] at hmem
      rw [hf.frame q (hlt1 q hq) hmem.2, hc.frame q hq hmem.1]
    · intro q hq
      have hfirst : (h.clone x).1.obj q = h.obj q ∨
          ((h.obj q).IsArray ∧ ¬ ((h.clone x).1.obj q).IsArray) := by
        by_cases hqx : q = x
        · rw [hqx]
          exact hc.self
        · exact .inl (hc.frame q hq hqx)
      rcases hf.self q (hlt1 q hq) with heq | ⟨harr, hnarr⟩
      · rwa [heq]
      rcases hfirst with heq | ⟨_, hno⟩
      · exact .inr ⟨by rw [← heq]; exact harr, hnarr⟩
      · exact absurd harr hno
    · rintro p hp ys ⟨y, rfl, hy⟩
      exact ⟨y, rfl, hy.before hc.next (hk1 p (hrest p hp))⟩
    · intro q hq hlt
      by_cases hq1 : q < (h.clone x).1.next
      · -- the cell was made by this clone; the later ones leave it alone
        have hout : q ∉ rest := fun hmem => absurd (hrest q hmem) hq.not_gt
        rw [hf.frame q hq1 hout]
        exact hc.uncached q hq hq1
      · exact hf.uncached q (Nat.not_lt.mp hq1) hlt
    · intro q q' hq
      rcases hf.parents q q' hq with ⟨r, hr⟩ | hge
      · rcases hc.parents r q' hr with hold | ⟨hge, _⟩
        · exact .inl hold
        · exact .inr hge
      · exact .inr (hc.next.trans hge)
  · rw [if_neg hv]
    have hk : (h.obj x).kind = .invalid :=
      (Heap.isValid_eq_false_iff hwf).mp (Bool.not_eq_true _ ▸ hv)
    have hf := ih hwf hrest hrestnp
    have hkx := hf.kept x hx
    refine { hf with
      frame := fun q hq hmem => hf.frame q hq fun h' => hmem (.tail _ h')
      clones := .cons_one ⟨x, rfl, ?_⟩ hf.clones }
    exact
      { shared := fun _ => rfl
        fresh := fun hi => absurd hk hi
        live := hx.trans_le hf.next
        base := hkx.base
        limit := hkx.limit
        offset := hkx.offset
        invalid := hkx.invalid
        empty := hkx.empty
        held := hkx.held
        notParent := hf.notParent hx hxnp }

/-- What the copy constructor makes of a parent. -/
structure Copied (h : Heap) (s : AddressSpace) (h' : Heap) (s' : AddressSpace) : Prop where
  forked : ∃ maps', Forked h h' s.maps maps' ∧ s'.maps.Perm maps'
  heapWF : h'.WF
  parent : s.WF h'
  copy : s'.WF h'
  parentView : view h' s = view h s
  copyView : view h' s' = view h s
  addrMask : s'.addrMask = s.addrMask
  invalid : s'.invalid = s.invalid
  traceHeads : s'.traceHeads = s.traceHeads
  canRead : s'.pageIsReadable = s.pageIsReadable
  canWrite : s'.pageIsWritable = s.pageIsWritable
  canExecute : s'.pageIsExecutable = s.pageIsExecutable

lemma Forked.laidOut (hs : s.LaidOut h) (hf : Forked h h' s.maps maps') (hne : maps' ≠ []) :
    LaidOut h' { s.clearIndex with maps := maps' } := by
  have horigin : ∀ y ∈ maps', ∃ x ∈ s.maps, CloneOf h h' x y := by
    intro y hy
    obtain ⟨x, hx, ys, ⟨y', rfl, hc⟩, hys⟩ := hf.clones.origin hy
    rw [List.mem_singleton.mp hys]
    exact ⟨x, hx, hc⟩
  have hextent : ∀ x y, CloneOf h h' x y → h'.extent y = h.extent x := by
    intro x y hc
    unfold Heap.extent
    rw [hc.base, hc.limit]
  refine ⟨hs.mask, hs.alive, hne, ?_, hs.invalidLive.trans_le hf.next, ?_, ?_, ?_, ?_, ?_,
    hs.lastPage⟩
  · intro y hy
    obtain ⟨x, _, hc⟩ := horigin y hy
    exact hc.live
  · exact (hf.kept _ hs.invalidLive).invalid.mpr hs.invalid
  · refine hf.clones.apart hs.apart ?_
    rintro x ys ⟨y, rfl, hc⟩
    refine ⟨List.pairwise_singleton _ _, fun y' hy' => ?_⟩
    rw [List.mem_singleton.mp hy', hextent x y hc]
  · intro y hy hv
    obtain ⟨x, hx, hc⟩ := horigin y hy
    obtain ⟨hb, hl, hlt⟩ := hs.paged x hx fun he => hv (hc.invalid.mpr he)
    exact ⟨by rw [hc.base]; exact hb, by rw [hc.limit]; exact hl, by rw [hc.limit]; exact hlt⟩
  · intro y hy
    obtain ⟨x, hx, hc⟩ := horigin y hy
    rw [hc.limit]
    exact hs.bounded x hx
  · intro y hy
    obtain ⟨x, _, hc⟩ := horigin y hy
    exact hc.notParent

/-- The copy constructor. -/
lemma clone_spec (hwf : h.WF) (hs : s.WF h) : Copied h s (s.clone h).2 (s.clone h).1 := by
  have hf := cloneMaps_spec hwf hs.live hs.notParent
  have hclone : s.clone h = (createPageToRangeMap (cloneMaps h s.maps).1
      { s.clearIndex with maps := (cloneMaps h s.maps).2 }, (cloneMaps h s.maps).1) := rfl
  rw [hclone]
  generalize (cloneMaps h s.maps).1 = h' at hf ⊢
  generalize (cloneMaps h s.maps).2 = maps' at hf ⊢
  have hne : maps' ≠ [] := by
    rintro rfl
    obtain ⟨x, hx⟩ := List.exists_mem_of_ne_nil _ hs.nonempty
    obtain ⟨ys, ⟨y, rfl, _⟩, hmem⟩ := hf.clones.image hx
    exact absurd (hmem y (List.mem_singleton_self y)) List.not_mem_nil
  have hcopy := (hf.laidOut hs.toLaidOut hne).indexed hf.wf
  have hparent : s.WF h' := hs.sameShape hf.next
    (fun p hp => (hf.kept p (hs.live p hp)).sameShape)
    ((hf.kept _ hs.invalidLive).invalid.mpr hs.invalid)
    (fun p hp => hf.notParent (hs.live p hp) (hs.notParent p hp))
  have hmaps : (createPageToRangeMap h' { s.clearIndex with maps := maps' }).maps =
      sortMaps h' maps' := by
    rw [createPageToRangeMap_eq]
  refine ⟨⟨maps', hf, ?_⟩, hf.wf, hparent, hcopy,
    view_kept hwf hf.wf hs hparent (fun p hp => hf.kept p (hs.live p hp)), ?_, ?_, ?_, ?_, ?_, ?_,
    ?_⟩
  · rw [hmaps]
    exact sortMaps_perm _ _
  · funext a
    cases hr : rangeAt h s a with
    | none =>
      have hno := (rangeAt_eq_none hwf hs).mp hr
      rw [(view_eq_none hwf hs).mpr hno, view_eq_none hf.wf hcopy]
      intro y hy
      have hmem : y ∈ maps' := mem_sortMaps.mp (hmaps ▸ hy.mem)
      obtain ⟨x, hx, ys, ⟨y', rfl, hc⟩, hys⟩ := hf.clones.origin hmem
      rw [List.mem_singleton.mp hys] at hy
      refine hno x ⟨hx, fun he => hy.valid (hc.invalid.mpr he), ?_⟩
      obtain ⟨hb, hl⟩ := hy.inside
      rw [hc.base] at hb
      rw [hc.limit] at hl
      exact ⟨hb, hl⟩
    | some x =>
    have ho := (rangeAt_eq_some hwf hs).mp hr
    obtain ⟨ys, ⟨y, rfl, hc⟩, hmem⟩ := hf.clones.image ho.mem
    have hoy : Owns h' (createPageToRangeMap h' { s.clearIndex with maps := maps' }) y a := by
      refine ⟨?_, fun he => ho.valid (hc.invalid.mp he), ?_⟩
      · rw [hmaps]
        exact mem_sortMaps.mpr (hmem y (List.mem_singleton_self y))
      rw [Heap.mem_extent, hc.base, hc.limit]
      exact ho.inside
    rw [ho.view_eq hwf hs, hoy.view_eq hf.wf hcopy, hc.held]
  all_goals
    rw [createPageToRangeMap_eq]
    rfl

lemma new_spec (cfg : Config) (hwf : h.WF) :
    Heap.Grows h (new cfg h).2 ∧ (new cfg h).1.WF (new cfg h).2 ∧
      (∀ p ∈ (new cfg h).1.maps, h.next ≤ p ∧ ((new cfg h).2.obj p).kind = .invalid) ∧
      (new cfg h).1.addrMask = getAddressMask cfg := by
  let range := newRange 0 (getAddressMask cfg) (some []) 0 .invalid
  have hg : Heap.Grows h (h.alloc range).1 := Heap.grows_alloc hwf (by simp [range, newRange]) rfl
  have hobj : (h.alloc range).1.obj h.next = range := Heap.alloc_obj_self h range
  let s0 : AddressSpace :=
    { maps := [h.next]
      pageToMap := fun _ => none
      wnxPageToMap := fun _ => none
      addrMask := getAddressMask cfg
      invalid := h.next
      lastMapCache := fun _ => none
      wnxLastMapCache := fun _ => none
      pageIsReadable := fun _ => false
      pageIsWritable := fun _ => false
      pageIsExecutable := fun _ => false
      traceHeads := fun _ => false
      isDead := false }
  have hnew : new cfg h = (createPageToRangeMap (h.alloc range).1 s0, (h.alloc range).1) := rfl
  have hmem : ∀ p ∈ [h.next], p = h.next := by simp
  have hlaid : LaidOut (h.alloc range).1 s0 := by
    refine ⟨?_, rfl, by simp [s0], ?_, Nat.lt_succ_self _, by rw [hobj]; rfl,
      List.pairwise_singleton _ _, ?_, ?_, ?_, fun _ _ => rfl⟩
    · show getAddressMask cfg = _ ∨ getAddressMask cfg = _
      unfold getAddressMask
      split
      · exact .inl rfl
      · exact .inr rfl
    · intro p hp
      rw [hmem p hp]
      exact Nat.lt_succ_self _
    · intro p hp hv
      rw [hmem p hp, hobj] at hv
      exact absurd rfl hv
    · intro p hp
      rw [hmem p hp, hobj]
      exact le_rfl
    · intro p hp
      rw [hmem p hp]
      exact hg.notParent_fresh hwf le_rfl
  rw [hnew]
  refine ⟨hg, hlaid.indexed hg.wf, ?_, ?_⟩
  · intro p hp
    rw [createPageToRangeMap_eq] at hp
    have hsort : p ∈ sortMaps (h.alloc range).1 s0.maps := hp
    rw [hmem p (mem_sortMaps.mp hsort)]
    exact ⟨le_rfl, by rw [hobj]; rfl⟩
  · rw [createPageToRangeMap_eq]

end AddressSpace

end Vmill
