import Vmill.Logic.Write

/-!
# Range caches

A hit in a cache tests containment in the range; a lookup in the index tests the permission of the
page. If each range has one permission throughout (`Uniform`), a call commutes with `clearCaches`.
-/

namespace Vmill

open Base

namespace AddressSpace

variable {s t s' : AddressSpace} {h h' : Heap} {cache index : Nat → Option MemoryMapPtr}
  {invalid : MemoryMapPtr} {page a addr : Nat} {vals : List UInt8}

/-- The address space with empty range caches. -/
def clearCaches (s : AddressSpace) : AddressSpace :=
  { s with lastMapCache := fun _ => none, wnxLastMapCache := fun _ => none }

lemma clearCaches_accessed (s : AddressSpace) : Accessed s s.clearCaches :=
  { Accessed.refl s with
    cached := fun _ _ hi => absurd hi (by simp [clearCaches])
    wnxCached := fun _ _ hi => absurd hi (by simp [clearCaches]) }

lemma fields_of_clearCaches (hc : t.clearCaches = s.clearCaches) :
    t.maps = s.maps ∧ t.addrMask = s.addrMask ∧ t.invalid = s.invalid ∧
      t.pageIsReadable = s.pageIsReadable ∧ t.pageIsWritable = s.pageIsWritable ∧
      t.pageIsExecutable = s.pageIsExecutable := by
  simp only [clearCaches, AddressSpace.mk.injEq] at hc
  tauto

lemma Uniform.accessed (hu : Uniform h s) (ha : Accessed s s') : Uniform h s' := by
  intro p a b hoa hob hamod hbmod
  rw [ha.accessible, ha.writableNotExecutable]
  exact hu p a b (ha.owns.mp hoa) (ha.owns.mp hob) hamod hbmod

lemma Uniform.sameShape (hu : Uniform h s) (hk : ∀ p ∈ s.maps, Heap.SameShape h h' p) :
    Uniform h' s := by
  intro p a b hoa hob
  exact hu p a b ((Owns.sameShape hk).mp hoa) ((Owns.sameShape hk).mp hob)

lemma Updates.uniform {v : Nat → Option UInt8} (hu : Updates h s h' s' v) (hun : Uniform h s) :
    Uniform h' s' :=
  (hun.sameShape fun p _ => hu.touched.sameShape p).accessed hu.accessed

lemma lookupCached_exact (hcached : ∀ i p, cache i = some p → ∃ a, index a = some p)
    (hpages : ∀ a p, index a = some p → (h.obj p).contains page = true → index page = some p) :
    (lookupCached h cache index invalid page).2 = (index page).getD invalid := by
  obtain ⟨hres, _⟩ := lookupCached_spec h cache index invalid page
  rcases hres with ⟨i, hc, hin⟩ | hi | ⟨hinv, hnone⟩
  · obtain ⟨a, ha⟩ := hcached i _ hc
    rw [hpages a _ ha hin]
    rfl
  · rw [hi]
    rfl
  rw [hinv, hnone]
  rfl

lemma Uniform.findRangeAligned_eq (hu : Uniform h s) (hs : s.WF h) (hpage : page % 4096 = 0) :
    (s.findRangeAligned h page).2 = (s.pageToMap page).getD s.invalid := by
  refine lookupCached_exact hs.cached fun a p ha hin => ?_
  obtain ⟨ho, hmod, hacc⟩ := (hs.index a p).mp ha
  have hop : Owns h s p page := ⟨ho.mem, ho.valid, Heap.contains_iff.mp hin⟩
  exact (hs.index page p).mpr ⟨hop, hpage, (hu p a page ho hop hmod hpage).1 ▸ hacc⟩

lemma Uniform.findWNXRangeAligned_eq (hu : Uniform h s) (hs : s.WF h) (hpage : page % 4096 = 0) :
    (s.findWNXRangeAligned h page).2 = (s.wnxPageToMap page).getD s.invalid := by
  refine lookupCached_exact hs.wnxCached fun a p ha hin => ?_
  obtain ⟨ho, hmod, hacc⟩ := (hs.wnxIndex a p).mp ha
  have hop : Owns h s p page := ⟨ho.mem, ho.valid, Heap.contains_iff.mp hin⟩
  exact (hs.wnxIndex page p).mpr ⟨hop, hpage, (hu p a page ho hop hmod hpage).2 ▸ hacc⟩

lemma Uniform.writable_of_fast (hu : Uniform h s) (hs : s.WF h)
    (ho : Owns h s (s.findWNXRange h a).2 a) : s.canWriteAligned (alignDownToPage a) = true := by
  have hfind := hu.findWNXRangeAligned_eq hs (alignDownToPage_mod a)
  change (s.findWNXRange h a).2 = _ at hfind
  cases hidx : s.wnxPageToMap (alignDownToPage a) with
  | none =>
    rw [hidx, Option.getD_none] at hfind
    exact absurd (by rw [hfind]; exact hs.invalid) ho.valid
  | some p =>
  obtain ⟨_, _, hwnx⟩ := (hs.wnxIndex _ p).mp hidx
  unfold writableNotExecutable at hwnx
  exact (Bool.and_eq_true _ _ ▸ hwnx).1

lemma lookupCached_again {p : MemoryMapPtr} {b : Nat} (ha : index a = some p)
    (hfound : (lookupCached h cache index invalid a).2 = p) (hb : (h'.obj p).contains b = true) :
    (lookupCached h' (lookupCached h cache index invalid a).1 index invalid b).2 = p := by
  have hlast : (lookupCached h cache index invalid a).1 kRangeCacheSize = some p := by
    have hne : kRangeCacheSize ≠ (a >>> 12) &&& kRangeCacheMask := by
      have hle : (a >>> 12) &&& kRangeCacheMask ≤ kRangeCacheMask := Nat.and_le_right
      unfold kRangeCacheMask kRangeCacheSize at *
      omega
    revert hfound
    simp only [lookupCached]
    cases h1 : cacheHit h (cache kRangeCacheSize) a with
    | some q =>
      rintro rfl
      simp only
      unfold cacheHit at h1
      split at h1
      · split at h1
        · simp only [Option.some.injEq] at h1
          rw [‹cache kRangeCacheSize = _›, h1]
        · simp at h1
      · simp at h1
    | none =>
    simp only
    cases cacheHit h (cache ((a >>> 12) &&& kRangeCacheMask)) a with
    | some q =>
      rintro rfl
      simp only [Function.update_self]
    | none =>
    simp only [ha]
    intro _
    rw [Function.update_of_ne hne, Function.update_self]
  generalize (lookupCached h cache index invalid a).1 = cache' at hlast
  simp only [lookupCached, cacheHit, hlast, hb, if_true]

/-- The result of a write, without the caches. -/
def outcome (r : Option (Bool × AddressSpace × Heap)) : Option (Bool × AddressSpace × Heap) :=
  r.map (fun r => (r.1, r.2.1.clearCaches, r.2.2))

lemma noteCodeWrite_clearCaches (cfg : Config) (hc : t.clearCaches = s.clearCaches) (h : Heap)
    (page : Nat) (p : MemoryMapPtr) :
    (noteCodeWrite cfg t h page p).1.clearCaches = (noteCodeWrite cfg s h page p).1.clearCaches ∧
      (noteCodeWrite cfg t h page p).2 = (noteCodeWrite cfg s h page p).2 := by
  obtain ⟨_, _, _, _, _, hexec⟩ := fields_of_clearCaches hc
  unfold noteCodeWrite canExecuteAligned
  rw [hexec]
  split
  · refine ⟨?_, rfl⟩
    simp only [clearCaches, AddressSpace.mk.injEq] at hc ⊢
    tauto
  · exact ⟨hc, rfl⟩

lemma writePage_clearCaches (cfg : Config) (hwf : h.WF) (hs : s.WF h) (ht : t.WF h)
    (hc : t.clearCaches = s.clearCaches) (hpage : page % 4096 = 0)
    (hw : s.canWriteAligned page = true) (addr count : Nat) (vals : List UInt8) :
    (writePage cfg t h page addr count vals).map (fun r => (r.1, r.2.1.clearCaches, r.2.2)) =
      (writePage cfg s h page addr count vals).map (fun r => (r.1, r.2.1.clearCaches, r.2.2)) := by
  have hacc : s.accessible page = true := by
    unfold accessible
    rw [hw]
    simp
  obtain ⟨hmaps, _, hinvalid, hread, hwrite, hexec⟩ := fields_of_clearCaches hc
  have hacc' : t.accessible page = true := by
    rw [← hacc]
    unfold accessible canReadAligned canWriteAligned canExecuteAligned
    rw [hread, hwrite, hexec]
  have hfind : (t.findRangeAligned h page).2 = (s.findRangeAligned h page).2 := by
    rw [lookupExact_of_accessible hwf ht hpage hacc' t (Accessed.refl t),
      lookupExact_of_accessible hwf hs hpage hacc s (Accessed.refl s), if_pos hacc, if_pos hacc',
      hinvalid]
    unfold rangeAt
    rw [hmaps]
  have hnote := noteCodeWrite_clearCaches cfg (s := (s.findRangeAligned h page).1)
    (t := (t.findRangeAligned h page).1) hc h page (s.findRangeAligned h page).2
  simp only [writePage, hfind, Option.map_map, Function.comp_def]
  rw [hnote.1, hnote.2]

lemma writePage_some (cfg : Config) (hwf : h.WF) (hs : s.WF h) {nextEnd : Nat}
    (hpage : page % 4096 = 0) (hw : s.canWriteAligned page = true)
    (hchunk : addr < nextEnd → page ≤ addr) (hwithin : nextEnd ≤ page + 4096)
    (hlen : nextEnd - addr ≤ vals.length) {ok : Bool} {rest : List UInt8}
    (hrun : writePage cfg s h page addr (nextEnd - addr) vals = some (ok, s', h', rest)) :
    ∃ v, Updates h s h' s' v := by
  rcases writePage_updates cfg hwf hs vals hpage hw hchunk hwithin hlen with
    ⟨_, s2, h2, heq, hu⟩ | ⟨_, s2, h2, rest2, heq, hu⟩
  · rw [heq] at hrun
    obtain ⟨_, rfl, rfl, _⟩ : true = ok ∧ s2 = s' ∧ h2 = h' ∧ _ = rest := by simpa using hrun
    exact ⟨_, hu⟩
  · rw [heq] at hrun
    obtain ⟨_, rfl, rfl, _⟩ : false = ok ∧ s2 = s' ∧ h2 = h' ∧ rest2 = rest := by simpa using hrun
    exact ⟨_, hu⟩

lemma tryWriteLoop_clearCaches (cfg : Config) {fuel : Nat} (hwf : h.WF) (hs : s.WF h)
    (ht : t.WF h) (hc : t.clearCaches = s.clearCaches) {endAddr : Nat} (hpage : page % 4096 = 0)
    (hinv : min page endAddr ≤ addr) (hlen : endAddr - addr ≤ vals.length) :
    outcome (tryWriteLoop cfg fuel t h page addr endAddr vals) =
      outcome (tryWriteLoop cfg fuel s h page addr endAddr vals) := by
  induction fuel generalizing h s t page addr vals with
  | zero => rfl
  | succ fuel ih =>
  have hwrite : t.canWriteAligned page = s.canWriteAligned page := by
    unfold canWriteAligned
    rw [(fields_of_clearCaches hc).2.2.2.2.1]
  rw [tryWriteLoop_succ, tryWriteLoop_succ, hwrite]
  by_cases hlt : page < endAddr
  · rw [if_pos hlt, if_pos hlt]
    by_cases hw : s.canWriteAligned page = true
    · rw [if_pos hw, if_pos hw]
      have hr := Flat.round hpage hlt hinv
      generalize wrap64 (page + kPageSize) = pageEnd at hr ⊢
      generalize min endAddr pageEnd = nextEnd at hr ⊢
      have hbelow := hr.below
      have hmap := writePage_clearCaches cfg hwf hs ht hc hpage hw addr (nextEnd - addr) vals
      cases hps : writePage cfg s h page addr (nextEnd - addr) vals with
      | none =>
        rw [hps, Option.map_none, Option.map_eq_none_iff] at hmap
        rw [hmap]
      | some r =>
      obtain ⟨ok, s', h', rest⟩ := r
      rw [hps, Option.map_some, Option.map_eq_some_iff] at hmap
      obtain ⟨⟨ok', t', h2, rest'⟩, hpt, heq⟩ := hmap
      simp only [Prod.mk.injEq] at heq
      obtain ⟨rfl, hc', rfl, rfl⟩ := heq
      rw [hpt]
      obtain ⟨v, hu⟩ := writePage_some cfg hwf hs hpage hw hr.chunk hr.within (by omega) hps
      obtain ⟨v', hu'⟩ := writePage_some cfg hwf ht hpage (hwrite ▸ hw) hr.chunk hr.within
        (by omega) hpt
      cases ok' with
      | false => simp only [outcome, Option.map_some, hc']
      | true =>
      have hrest : rest' = vals.drop (nextEnd - addr) := by
        rcases writePage_updates cfg hwf hs vals hpage hw hr.chunk hr.within
          (by omega) with ⟨_, s2, h2', heq, _⟩ | ⟨_, s2, h2', rest2, heq, _⟩
        · rw [heq] at hps
          simp only [Option.some.injEq, Prod.mk.injEq] at hps
          exact hps.2.2.2.symm
        · rw [heq] at hps
          simp at hps
      exact ih (hu.heapWF hwf) (hu.wf hs) (hu'.wf ht) hc' hr.pageMod hr.next
        (by rw [hrest, List.length_drop]; omega)
    · rw [if_neg hw, if_neg hw]
      simp only [outcome, Option.map_some, hc]
  · rw [if_neg hlt, if_neg hlt]
    simp only [outcome, Option.map_some, hc]

lemma tryWrite_clearCaches (cfg : Config) (hwf : h.WF) (hs : s.WF h) (ht : t.WF h)
    (hc : t.clearCaches = s.clearCaches) (addr : Nat) (vals : List UInt8) :
    outcome (t.tryWrite cfg h addr vals) = outcome (s.tryWrite cfg h addr vals) := by
  unfold tryWrite
  rw [(fields_of_clearCaches hc).2.1]
  have hle := alignDownToPage_le (addr &&& s.addrMask)
  have hwrap : wrap64 ((addr &&& s.addrMask) + vals.length) ≤
      (addr &&& s.addrMask) + vals.length := Nat.mod_le _ _
  exact tryWriteLoop_clearCaches cfg hwf hs ht hc (alignDownToPage_mod _) (by omega) (by omega)

lemma Uniform.findWNXRange_clearCaches (hu : Uniform h s) (hs : s.WF h) (a : Nat) :
    (s.clearCaches.findWNXRange h a).2 = (s.findWNXRange h a).2 := by
  have ha := clearCaches_accessed s
  have h1 := hu.findWNXRangeAligned_eq hs (alignDownToPage_mod a)
  have h2 := (hu.accessed ha).findWNXRangeAligned_eq (hs.accessed ha) (alignDownToPage_mod a)
  exact h2.trans h1.symm

lemma Uniform.tryWriteByte_clearCaches (cfg : Config) (hwf : h.WF) (hu : Uniform h s)
    (hs : s.WF h) (addr : Nat) (val : UInt8) :
    outcome (s.clearCaches.tryWriteByte cfg h addr val) =
      outcome (s.tryWriteByte cfg h addr val) := by
  have hs' := hs.accessed (clearCaches_accessed s)
  have halt := mask_lt hs addr
  have hfind := hu.findWNXRange_clearCaches hs (addr &&& s.addrMask)
  have hmask : s.clearCaches.addrMask = s.addrMask := rfl
  simp only [tryWriteByte, hmask, hfind]
  generalize addr &&& s.addrMask = a at halt ⊢
  obtain ⟨hacc, _, hfound⟩ := findWNXRange_cases hs halt
  obtain ⟨hacc', _, _⟩ := findWNXRange_cases hs' halt
  rcases hfound with ho | hinv
  · obtain ⟨h', hwrite, _⟩ := Heap.write_spec hwf val ho.valid (hs.paged _ ho.mem ho.valid)
      ho.inside.1 ho.inside.2
    rw [hwrite]
    rfl
  rw [hinv, Heap.write_of_invalid a val hs.invalid]
  exact tryWrite_clearCaches cfg hwf (hs.accessed hacc) (hs'.accessed hacc') rfl a [val]

lemma Uniform.tryWriteTyped_clearCaches (cfg : Config) (hwf : h.WF) (hu : Uniform h s)
    (hs : s.WF h) (type : ValueType) (addr : Nat) (val : List.Vector UInt8 type.size) :
    outcome (tryWriteTyped cfg type s.clearCaches h addr val) =
      outcome (tryWriteTyped cfg type s h addr val) := by
  have hs' := hs.accessed (clearCaches_accessed s)
  have halt := mask_lt hs addr
  have hfind := hu.findWNXRange_clearCaches hs (addr &&& s.addrMask)
  have hmask : s.clearCaches.addrMask = s.addrMask := rfl
  simp only [tryWriteTyped, hmask, hfind]
  generalize addr &&& s.addrMask = a at halt ⊢
  obtain ⟨hacc, _, hfound⟩ := findWNXRange_cases hs halt
  obtain ⟨hacc', _, _⟩ := findWNXRange_cases hs' halt
  rcases hfound with ho | hinv
  · obtain ⟨h1, hrw, hw⟩ := Heap.toReadWriteVirtualAddress_spec hwf a ho.valid
      (hs.paged _ ho.mem ho.valid)
      (Nat.lt_of_le_of_lt ho.inside.1 ho.inside.2).le
    have hup := WriteCases.prepared_updates hwf hs hacc (.inr ⟨_, ho, hw⟩)
    have ho' := (clearCaches_accessed s).owns.mpr ho
    have hup' := WriteCases.prepared_updates hwf hs' hacc' (.inr ⟨_, ho', hw⟩)
    rw [hrw]
    simp only
    split
    · rfl
    · exact tryWrite_clearCaches cfg (hup.heapWF hwf) (hup.wf hs) (hup'.wf hs') rfl a val.toList
  rw [hinv, Heap.toReadWriteVirtualAddress_of_invalid a hs.invalid]
  exact tryWrite_clearCaches cfg hwf (hs.accessed hacc) (hs'.accessed hacc') rfl a val.toList

/-- A write over a page it may not write fails unless it wraps around. -/
lemma WriteCases.fails_iff {cfg : Config} (hwf : h.WF) (hs : s.WF h) (hu : Uniform h s)
    {quick : Bool} {r : Option (Bool × AddressSpace × Heap)}
    (hc : WriteCases cfg h s a vals quick r) (ha : a &&& s.addrMask = a) (hne : vals ≠ [])
    (hlen : vals.length ≤ 4096) {q : Nat} (hq : q % 4096 = 0) (hlo : alignDownToPage a ≤ q)
    (hhi : q < a + vals.length) (hw : s.canWriteAligned q = false) :
    (∃ s' h', r = some (false, s', h')) ↔ a + vals.length < 2 ^ 64 := by
  have halt : a < 2 ^ 64 := ha ▸ mask_lt hs a
  have hpos : 0 < vals.length := List.length_pos_iff.mpr hne
  have hag := hc.agrees hwf hs ha hne (hu.writable_of_fast hs)
  obtain ⟨⟨ok, v⟩, hflat⟩ := Flat.tryWrite_isSome (view h s) a vals (hs.lastPage _ le_rfl)
  rw [hflat] at hag
  rcases hag with ⟨_, hnone⟩ | ⟨ok', s', h', v', rfl, hf, _⟩
  · simp at hnone
  obtain ⟨rfl, rfl⟩ : ok = ok' ∧ v = v' := by simpa using hf
  constructor
  · rintro ⟨s2, h2, heq⟩
    by_contra hend
    rw [Flat.tryWrite_wrapped (view h s) hlen (Nat.not_lt.mp hend) halt] at hflat
    simp only [Option.some.injEq, Prod.mk.injEq] at hflat heq
    rw [← hflat.1] at heq
    exact absurd heq.1 (by simp)
  intro hend
  cases ok with
  | false => exact ⟨s', h', rfl⟩
  | true =>
  -- the page of the larger of `a` and `q` is `q`, and it was written
  obtain ⟨_, hpages⟩ := Flat.tryWrite_true hend hflat
  have hlow := lt_alignDownToPage_add halt
  have hmod := alignDownToPage_mod a
  have hpage : alignDownToPage (max a q) = q :=
    alignDownToPage_of_mem hq (by omega) (by omega) (by omega)
  have hwq := hpages (max a q) (by omega) (by omega)
  rw [hpage] at hwq
  exact absurd (hwq.symm.trans hw) (by simp)

end AddressSpace

end Vmill
