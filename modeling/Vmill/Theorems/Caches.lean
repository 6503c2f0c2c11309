import Vmill.Logic.Cache
import Vmill.Logic.World

/-!
# Are the range caches transparent?

`SetPermissions` does not split ranges, so protecting a part of a range breaks `Uniform`: the cache
answers for the protected pages as well.
-/

namespace Vmill

open Base AddressSpace

/-- The caches of the address space cannot be told from empty ones. -/
structure AddressSpace.Transparent (cfg : Config) (h : Heap) (s : AddressSpace) : Prop where
  lookup : ∀ page, page % 4096 = 0 →
    (s.findRangeAligned h page).2 = (s.pageToMap page).getD s.invalid
  wnxLookup : ∀ page, page % 4096 = 0 →
    (s.findWNXRangeAligned h page).2 = (s.wnxPageToMap page).getD s.invalid
  readByte : ∀ addr, (s.clearCaches.tryReadByte h addr).1 = (s.tryReadByte h addr).1 ∧
    (s.clearCaches.tryReadByte h addr).2.1 = (s.tryReadByte h addr).2.1
  readTyped : ∀ type addr,
    (tryReadTyped type s.clearCaches h addr).map (fun r => (r.1, r.2.1)) =
      (tryReadTyped type s h addr).map (fun r => (r.1, r.2.1))
  writeByte : ∀ addr val, outcome (s.clearCaches.tryWriteByte cfg h addr val) =
    outcome (s.tryWriteByte cfg h addr val)
  writeTyped : ∀ type addr val, outcome (tryWriteTyped cfg type s.clearCaches h addr val) =
    outcome (tryWriteTyped cfg type s h addr val)
  writeByteFails : ∀ addr val, s.canWrite addr = false →
    ((∃ s' h', s.tryWriteByte cfg h addr val = some (false, s', h')) ↔
      (addr &&& s.addrMask) + 1 < 2 ^ 64)
  writeTypedFails : ∀ type addr val q, q % 4096 = 0 →
    alignDownToPage (addr &&& s.addrMask) ≤ q → q < (addr &&& s.addrMask) + type.size →
    s.canWriteAligned q = false →
    ((∃ s' h', tryWriteTyped cfg type s h addr val = some (false, s', h')) ↔
      (addr &&& s.addrMask) + type.size < 2 ^ 64)

namespace AddressSpace

variable {h : Heap} {s : AddressSpace} {p : MemoryMapPtr} {a b : Nat}

lemma Uniform.transparent (cfg : Config) (hwf : h.WF) (hs : s.WF h) (hu : Uniform h s) :
    Transparent cfg h s := by
  have ha := clearCaches_accessed s
  have hs' := hs.accessed ha
  have hu' := hu.accessed ha
  refine ⟨fun page hp => hu.findRangeAligned_eq hs hp, fun page hp => hu.findWNXRangeAligned_eq hs hp,
    fun addr => ?_, fun type addr => ?_,
    fun addr val => hu.tryWriteByte_clearCaches cfg hwf hs addr val,
    fun type addr val => hu.tryWriteTyped_clearCaches cfg hwf hs type addr val,
    fun addr val hw => ?_, fun type addr val q hq hlo hhi hw => ?_⟩
  · obtain ⟨h1, h2⟩ := tryReadByte_eq hwf hs addr
      (hu.lookupExact hwf hs (alignDownToPage_mod _))
    obtain ⟨h3, h4⟩ := tryReadByte_eq hwf hs' addr
      (hu'.lookupExact hwf hs' (alignDownToPage_mod _))
    rw [ha.readable] at h3 h4
    exact ⟨h3.trans h1.symm, h4.trans h2.symm⟩
  · rw [tryReadTyped_eq hwf hs type (hu.accessExact hwf hs _ _),
      tryReadTyped_eq hwf hs' type (hu'.accessExact hwf hs' _ _), ha.readable]
    rfl
  · exact (tryWriteByte_cases cfg hwf hs addr val).fails_iff hwf hs hu (mask_mask s addr) (by simp)
      (by simp) (alignDownToPage_mod _) le_rfl
      (by have := alignDownToPage_le (addr &&& s.addrMask); simp; omega) hw
  · have hlen : val.toList.length = type.size := val.toList_length
    have hpos := type.size_pos
    have hle := type.size_le
    have hiff := (tryWriteTyped_cases cfg hwf hs type addr val).fails_iff hwf hs hu
      (mask_mask s addr) (List.length_pos_iff.mp (by omega)) (by omega) hq hlo (by omega) hw
    rwa [hlen] at hiff

lemma lookup_stale (hs : s.WF h) (hoa : Owns h s p a) (hob : Owns h s p b) (hamod : a % 4096 = 0)
    (hacc : s.accessible a = true) (hno : s.accessible b = false) :
    ((s.findRangeAligned h a).1.findRangeAligned h b).2 ≠
      ((s.findRangeAligned h a).1.pageToMap b).getD s.invalid := by
  have hidx : s.pageToMap b = none := by
    cases hb : s.pageToMap b with
    | none => rfl
    | some q => exact absurd (((hs.index b q).mp hb).2.2.symm.trans hno) (by simp)
  have hagain : ((s.findRangeAligned h a).1.findRangeAligned h b).2 = p :=
    lookupCached_again ((hs.index a p).mpr ⟨hoa, hamod, hacc⟩)
      (findRangeAligned_eq hs hamod hoa hacc) (Heap.contains_iff.mpr hob.inside)
  have hsame : (s.findRangeAligned h a).1.pageToMap b = none := hidx
  rw [hagain, hsame, Option.getD_none]
  rintro rfl
  exact hob.valid hs.invalid

lemma wnxLookup_stale {h' : Heap} (hs : s.WF h) (hoa : Owns h s p a) (hob : Owns h s p b)
    (hamod : a % 4096 = 0) (hacc : s.writableNotExecutable a = true)
    (hno : s.writableNotExecutable b = false) (hshape : Heap.SameShape h h' p) :
    ((s.findWNXRangeAligned h a).1.findWNXRangeAligned h' b).2 ≠
      ((s.findWNXRangeAligned h a).1.wnxPageToMap b).getD s.invalid := by
  have hin : s.wnxPageToMap a = some p := (hs.wnxIndex a p).mpr ⟨hoa, hamod, hacc⟩
  have hfound : (s.findWNXRangeAligned h a).2 = p := by
    rcases (findWNXRangeAligned_spec hs a).2 with ho | ⟨_, hnone⟩
    · exact ho.unique hs hoa
    · exact absurd (hin.symm.trans hnone) (by simp)
  have hidx : (s.findWNXRangeAligned h a).1.wnxPageToMap b = none := by
    show s.wnxPageToMap b = none
    cases hb : s.wnxPageToMap b with
    | none => rfl
    | some q => exact absurd (((hs.wnxIndex b q).mp hb).2.2.symm.trans hno) (by simp)
  have hagain : ((s.findWNXRangeAligned h a).1.findWNXRangeAligned h' b).2 = p :=
    lookupCached_again hin hfound (Heap.contains_iff.mpr (by
      rw [hshape.base, hshape.limit]
      exact hob.inside))
  rw [hagain, hidx, Option.getD_none]
  rintro rfl
  exact hob.valid hs.invalid

end AddressSpace

namespace World

variable {cfg : Config} {w : World} {i a b : Nat} {s : AddressSpace} {p : MemoryMapPtr}

lemma Effect.uniform {w' : World} {op : Op} (hw : w.WF) (hop : op.isAccess = true)
    (he : Effect cfg w op w') (hu : ∀ s, w.spaces[i]? = some s → Uniform w.heap s) :
    ∀ s, w'.spaces[i]? = some s → Uniform w'.heap s := by
  obtain ⟨j, t, t', h', v, _, hj, hup, rfl⟩ := he.access hw hop
  intro s hs
  by_cases hij : i = j
  · subst hij
    rw [put_self hj] at hs
    cases hs
    exact hup.uniform (hu t hj)
  rw [put_of_ne hij] at hs
  exact (hu s hs).sameShape fun p _ => hup.touched.sameShape p

lemma owned_page {h : Heap} (hs : s.WF h) (ho : Owns h s p a) (hmod : a % 4096 = 0) :
    a &&& s.addrMask = a ∧ alignDownToPage a = a := by
  have hlt : a < s.addrMask := ho.inside.2.trans_le (hs.bounded p ho.mem)
  have hmask := mask_of_le hs hlt.le
  exact ⟨hmask, alignDownToPage_of_aligned (hmask ▸ mask_lt hs a) hmod⟩

section

variable (hw : w.WF) (hi : w.spaces[i]? = some s)
  (htrans : ∀ ops os w' s', (∀ op ∈ ops, op.isAccess = true) → (memory cfg).run ops w = some (os,
    w') → w'.spaces[i]? = some s' → Transparent cfg w'.heap s') (hoa : Owns w.heap s p a)
  (hob : Owns w.heap s p b) (hamod : a % 4096 = 0) (hbmod : b % 4096 = 0)

include hw hi htrans hoa hob hamod hbmod

lemma accessible_of_transparent (hacc : s.accessible a = true) : s.accessible b = true := by
  by_contra hno
  have hs := hw.space i s hi
  obtain ⟨hmask, halign⟩ := owned_page hs hoa hamod
  have hrun : (memory cfg).run [.tryReadByte i a] w =
      some ([.read (s.tryReadByte w.heap a).1 [(s.tryReadByte w.heap a).2.1]],
        w.put i (s.findRangeAligned w.heap a).1 w.heap) := by
    simp [Machine.run, memory, step, onSpace, hi, tryReadByte, findRange, hmask, halign]
  have ht := htrans _ _ _ _ (by simp [Op.isAccess, Op.isRead]) hrun (put_self hi)
  exact lookup_stale hs hoa hob hamod hacc (by simpa using hno) (ht.lookup b hbmod)

lemma writableNotExecutable_of_transparent (hacc : s.writableNotExecutable a = true) :
    s.writableNotExecutable b = true := by
  by_contra hno
  have hs := hw.space i s hi
  obtain ⟨hmask, halign⟩ := owned_page hs hoa hamod
  have hfound : (s.findWNXRangeAligned w.heap a).2 = p := by
    rcases (findWNXRangeAligned_spec hs a).2 with ho | ⟨_, hnone⟩
    · exact ho.unique hs hoa
    · exact absurd (((hs.wnxIndex a p).mpr ⟨hoa, hamod, hacc⟩).symm.trans hnone) (by simp)
  obtain ⟨h', hwrite, hwr⟩ := Heap.write_spec hw.heap 0 hoa.valid (hs.paged p hoa.mem hoa.valid)
    hoa.inside.1 hoa.inside.2
  have hrun : (memory cfg).run [.tryWriteByte i a 0] w =
      some ([.wrote true], w.put i (s.findWNXRangeAligned w.heap a).1 h') := by
    simp [Machine.run, memory, step, onSpace, hi, tryWriteByte, findWNXRange, hmask, halign,
      hfound, hwrite]
  have ht := htrans _ _ _ _ (by simp [Op.isAccess, Op.stores]) hrun (put_self hi)
  exact wnxLookup_stale hs hoa hob hamod hacc (by simpa using hno)
    ((hwr.touched hoa.valid).sameShape p) (ht.wnxLookup b hbmod)

end

end World

/-- **Transparency of the caches.** In a reachable world, the caches of an address space stay
transparent through every history of accesses exactly if each of its valid ranges has one permission
throughout. -/
theorem caches_transparent_iff {cfg : Config} {w : World} (hw : World.Reachable cfg w) {i : Nat}
    {s : AddressSpace} (hi : w.spaces[i]? = some s) :
    (∀ ops os w' s', (∀ op ∈ ops, op.isAccess = true) →
      (memory cfg).run ops w = some (os, w') → w'.spaces[i]? = some s' →
      Transparent cfg w'.heap s') ↔
    Uniform w.heap s := by
  constructor
  · intro htrans p a b hoa hob hamod hbmod
    refine ⟨Bool.eq_iff_iff.mpr ⟨?_, ?_⟩, Bool.eq_iff_iff.mpr ⟨?_, ?_⟩⟩
    · exact World.accessible_of_transparent hw.wf hi htrans hoa hob hamod hbmod
    · exact World.accessible_of_transparent hw.wf hi htrans hob hoa hbmod hamod
    · exact World.writableNotExecutable_of_transparent hw.wf hi htrans hoa hob hamod hbmod
    · exact World.writableNotExecutable_of_transparent hw.wf hi htrans hob hoa hbmod hamod
  · intro hu ops os w' s' hops hrun hs'
    obtain ⟨hwf', hu'⟩ := Machine.run_preserves (M := memory cfg)
      (I := fun w => w.WF ∧ ∀ s, w.spaces[i]? = some s → Uniform w.heap s)
      (P := fun _ op => op.isAccess = true)
      (fun w op o w' hI hop hstep =>
        have he := World.step_effect hI.1 (World.guarded_of_isAccess hop w) hstep
        ⟨he.wf hI.1, he.uniform hI.1 hop hI.2⟩)
      ⟨hw.wf, fun t ht => Option.mem_unique hi ht ▸ hu⟩
      (Machine.runMeets_of_forall (fun _ => hops) w) hrun
    exact (hu' s' hs').transparent cfg hwf'.heap (hwf'.space i s' hs')

/-- After a plain mapping the caches are transparent. -/
theorem caches_transparent_two_pages :
    ∃ w s, World.Reachable (amd64 false) w ∧ w.spaces[0]? = some s ∧
      Owns w.heap s 1 0x1000 ∧ Owns w.heap s 1 0x2000 ∧
      ∀ ops os w' s', (∀ op ∈ ops, op.isAccess = true) →
        (memory (amd64 false)).run ops w = some (os, w') → w'.spaces[0]? = some s' →
        Transparent (amd64 false) w'.heap s' := by
  obtain ⟨w, s, hw, hi, hmem, hb, hl, hvalid, hpages⟩ := World.reachable_eval (amd64 false)
    [.new, .addMap 0 0x1000 0x2000 none 0]
    (fun w s => 1 ∈ s.maps ∧ (w.heap.obj 1).baseAddress = 0x1000 ∧
      (w.heap.obj 1).limitAddress = 0x3000 ∧ w.heap.isValid 1 = true ∧
      ∀ p ∈ s.maps, w.heap.isValid p = true →
        ∀ a ∈ pagesIn (w.heap.obj p).baseAddress (w.heap.obj p).limitAddress,
          s.accessible a = true ∧ s.writableNotExecutable a = true)
    (by decide +kernel)
  have hv := (Heap.isValid_iff hw.wf.heap).mp hvalid
  have howns : ∀ a, 0x1000 ≤ a → a < 0x3000 → Owns w.heap s 1 a := fun a hlo hhi =>
    ⟨hmem, hv, by rw [Heap.mem_extent, hb, hl]; exact ⟨hlo, hhi⟩⟩
  refine ⟨w, s, hw, hi, howns _ (by decide) (by decide), howns _ (by decide) (by decide),
    (caches_transparent_iff hw hi).mpr ?_⟩
  have hall : ∀ p a, Owns w.heap s p a → a % 4096 = 0 →
      s.accessible a = true ∧ s.writableNotExecutable a = true := by
    intro p a ho hmod
    refine hpages p ho.mem ((Heap.isValid_iff hw.wf.heap).mpr ho.valid) a ?_
    exact (mem_pagesIn ((hw.wf.space 0 s hi).paged p ho.mem ho.valid).base).mpr
      ⟨hmod, ho.inside.1, ho.inside.2⟩
  intro p a b hoa hob hamod hbmod
  obtain ⟨h1, h2⟩ := hall p a hoa hamod
  obtain ⟨h3, h4⟩ := hall p b hob hbmod
  exact ⟨h1.trans h3.symm, h2.trans h4.symm⟩

/-- Two pages are mapped and the second is made read-only. After a write to the first page, a write
to the second succeeds; with empty caches it fails. A write across the end of the 64-bit space
succeeds in any case. -/
theorem protected_page_written_through_cache :
    ∃ os w s, (memory (amd64 false)).RunMeets World.Guarded
        [.new, .addMap 0 0x1000 0x2000 none 0, .setPermissions 0 0x2000 0x1000 true false false,
          .tryWriteByte 0 0x1000 5] World.init ∧
      (memory (amd64 false)).run
        [.new, .addMap 0 0x1000 0x2000 none 0, .setPermissions 0 0x2000 0x1000 true false false,
          .tryWriteByte 0 0x1000 5] World.init = some (os, w) ∧
      w.spaces[0]? = some s ∧ s.canWrite 0x2000 = false ∧
      (s.tryWriteByte (amd64 false) w.heap 0x2000 6).map (fun r => r.1) = some true ∧
      (s.clearCaches.tryWriteByte (amd64 false) w.heap 0x2000 6).map (fun r => r.1) =
        some false ∧
      s.canWrite (2 ^ 64 - 1) = false ∧
      (tryWriteTyped (amd64 false) .uint16 s w.heap (2 ^ 64 - 1) ⟨[1, 2], rfl⟩).map
        (fun r => r.1) = some true :=
  (World.run_eval (amd64 false) _ _ (by decide +kernel)).imp fun _ => .imp fun _ => .imp
    fun _ hfacts => ⟨by decide +kernel, hfacts⟩

end Vmill
