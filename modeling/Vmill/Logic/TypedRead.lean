import Vmill.Logic.Read

/-!
# Typed reads

`MAKE_TRY_READ` copies a value that ends in the range and the page of its first byte through a
pointer; otherwise the sized `TryRead` reads it byte by byte, with lookups of its own. In front of
the last page both ways deliver the same, whatever the index and the caches hold.
-/

namespace Vmill

open Base

namespace AddressSpace

variable {s s' : AddressSpace} {h : Heap} {page addr size a : Nat} {p : MemoryMapPtr} {ok : Bool}
  {vals : List UInt8} {type : ValueType}

lemma ValueType.size_pos (type : ValueType) : 0 < type.size := by
  cases type <;> decide

lemma ValueType.size_le (type : ValueType) : type.size ≤ 8 := by
  cases type <;> decide

lemma Owns.page_le (hs : s.WF h) (hpage : page % 4096 = 0) (ho : Owns h s p page) :
    page + 8192 ≤ 2 ^ 64 := by
  obtain ⟨_, hl, hlt⟩ := hs.paged p ho.mem ho.valid
  obtain ⟨_, hin⟩ := ho.inside
  omega

lemma inOnePage_iff (hs : s.WF h) (ha : a < 2 ^ 64) (ho : Owns h s p a) (hpos : 0 < size)
    (hle : size ≤ 8) :
    inOnePage (h.obj p) a (wrap64 (a + size - 1)) = true ↔
      a + size ≤ alignDownToPage a + 4096 := by
  have hop := (owns_alignDown_iff hs ha).mp ho
  have hbound := hop.page_le hs (alignDownToPage_mod a)
  have hlow := alignDownToPage_le a
  have hhigh := lt_alignDownToPage_add ha
  have hmod := alignDownToPage_mod a
  obtain ⟨_, hl, _⟩ := hs.paged p ho.mem ho.valid
  obtain ⟨hb, hin⟩ := ho.inside
  have hwrap : wrap64 (a + size - 1) = a + size - 1 := wrap64_of_lt (by omega)
  unfold inOnePage
  rw [hwrap, Bool.and_eq_true, Bool.and_eq_true, decide_eq_true_eq, decide_eq_true_eq,
    decide_eq_true_eq]
  constructor
  · rintro ⟨_, hsame⟩
    have hlast : a + size - 1 < alignDownToPage (a + size - 1) + 4096 :=
      lt_alignDownToPage_add (by omega)
    omega
  intro hfit
  refine ⟨⟨hb, by omega⟩, ?_⟩
  exact (alignDownToPage_of_mem hmod (by omega) (by omega) (by omega)).symm

lemma tryReadLoop_again {fuel page endAddr : Nat} (hlt : page < endAddr) :
    tryReadLoop h fuel (s.findRangeAligned h page).1 page addr endAddr =
      tryReadLoop h fuel s page addr endAddr := by
  cases fuel with
  | zero => rfl
  | succ fuel =>
  unfold tryReadLoop
  rw [if_pos hlt, if_pos hlt, findRangeAligned_twice]

lemma readBytes_map {p : MemoryMapPtr} {ptr : Nat → UInt8} {count : Nat}
    (hbytes : ∀ i < count, h.read p (a + i) = (true, ptr i)) :
    readBytes h p a count = (true, (List.range count).map ptr) := by
  induction count generalizing a ptr with
  | zero => rfl
  | succ count ih =>
  have hrest := @ih (a + 1) (fun i => ptr (i + 1)) fun i hi => by
    rw [Nat.add_assoc, Nat.add_comm 1 i]
    exact hbytes (i + 1) (by omega)
  have hfirst : h.read p a = (true, ptr 0) := hbytes 0 (by omega)
  simp only [readBytes, hfirst, hrest, if_true, List.range_succ_eq_map, List.map_cons, List.map_map]
  rfl

lemma tryRead_onePage (ha : addr &&& s.addrMask = a) (hlast : a < 2 ^ 64 - 4096) (hpos : 0 < size)
    (hfit : a + size ≤ alignDownToPage a + 4096) {ptr : Nat → UInt8}
    (hbytes : ∀ i < size, h.read (s.findRange h a).2 (a + i) = (true, ptr i)) :
    s.tryRead h addr size = some (true, (List.range size).map ptr, (s.findRange h a).1) := by
  have hle := alignDownToPage_le a
  have hmod := alignDownToPage_mod a
  have hsteps : kPageSteps = (2 ^ 52 - 1) + 1 + 1 := by decide
  have hpage := wrap64_add_page (alignDownToPage a) (by omega)
  have hcount : min (a + size) (alignDownToPage a + 4096) - a = size := by omega
  unfold findRange at hbytes
  simp only [tryRead, ha, hsteps, wrap64_of_lt (show a + size < 2 ^ 64 by omega)]
  rw [tryReadLoop, if_pos (by omega)]
  simp only [hpage, hcount, readBytes_map hbytes]
  rw [tryReadLoop, if_neg (by omega)]
  simp only [List.append_nil]
  rfl

lemma inOnePage_fits {r : MappedRange} (hend : a + size ≤ 2 ^ 64)
    (hone : inOnePage r a (wrap64 (a + size - 1)) = true) :
    r.baseAddress ≤ a ∧ a + size ≤ alignDownToPage a + 4096 := by
  simp only [inOnePage, wrap64_of_lt (show a + size - 1 < 2 ^ 64 by omega), Bool.and_eq_true,
    decide_eq_true_eq] at hone
  obtain ⟨⟨hbase, _⟩, hsame⟩ := hone
  have hlast := lt_alignDownToPage_add (show a + size - 1 < 2 ^ 64 by omega)
  exact ⟨hbase, by omega⟩

lemma tryReadTyped_of_found (hr : h.Rooted) (ha : addr &&& s.addrMask = a)
    (hlast : a < 2 ^ 64 - 4096) (hfound : (h.read (s.findRange h a).2 a).1 = true) :
    tryReadTyped type s h addr = s.tryRead h addr type.size := by
  have hpos := type.size_pos
  have hsize := type.size_le
  obtain ⟨ptr, hptr⟩ := Option.isSome_iff_exists.mp
    ((h.toReadOnlyVirtualAddress_isSome _ a).trans hfound)
  simp only [tryReadTyped, ha, hptr]
  split
  · rename_i hone
    obtain ⟨hbase, hfit⟩ := inOnePage_fits (by omega) hone
    exact (tryRead_onePage ha hlast hpos hfit fun i hi => hr.read_eq hptr hbase (by omega)).symm
  -- the value leaves the page or the range: the loop starts with a second lookup
  have hmask : a &&& (s.findRange h a).1.addrMask = a := ha ▸ mask_mask s addr
  have hle := alignDownToPage_le a
  simp only [tryRead, hmask, ha]
  exact tryReadLoop_again (by rw [wrap64_of_lt (by omega)]; omega)

lemma tryReadTyped_of_missing (hmissing : (h.read (s.findRange h (addr &&& s.addrMask)).2
    (addr &&& s.addrMask)).1 = false) :
    tryReadTyped type s h addr = some (false, [], (s.findRange h (addr &&& s.addrMask)).1) := by
  rw [← Heap.toReadOnlyVirtualAddress_isSome, Option.isSome_eq_false_iff, Option.isNone_iff_eq_none]
    at hmissing
  simp only [tryReadTyped, hmissing]

lemma tryRead_of_missing (ha : addr &&& s.addrMask = a) (hlast : a < 2 ^ 64 - 4096)
    (hpos : 0 < size) (hend : a + size < 2 ^ 64)
    (hmissing : (h.read (s.findRange h a).2 a).1 = false) :
    ∃ vals, s.tryRead h addr size = some (false, vals, (s.findRange h a).1) := by
  have hle := alignDownToPage_le a
  have hmod := alignDownToPage_mod a
  have hlt := lt_alignDownToPage_add (show a < 2 ^ 64 by omega)
  have hsteps : kPageSteps = 2 ^ 52 + 1 := by decide
  have hpage := wrap64_add_page (alignDownToPage a) (by omega)
  obtain ⟨count, hcount⟩ : ∃ count, min (a + size) (alignDownToPage a + 4096) - a = count + 1 :=
    ⟨min (a + size) (alignDownToPage a + 4096) - a - 1, by omega⟩
  unfold findRange at hmissing
  simp only [tryRead, ha, hsteps, wrap64_of_lt hend]
  rw [tryReadLoop, if_pos (by omega)]
  simp only [hpage, hcount, readBytes, hmissing]
  exact ⟨_, rfl⟩

lemma tryReadTyped_or_missing (hr : h.Rooted) (s : AddressSpace) (type : ValueType)
    (hlast : (addr &&& s.addrMask) < 2 ^ 64 - 4096) :
    tryReadTyped type s h addr = s.tryRead h addr type.size ∨
      ∃ vals s', tryReadTyped type s h addr = some (false, [], s') ∧
        s.tryRead h addr type.size = some (false, vals, s') := by
  have hsize := type.size_le
  cases hfound : (h.read (s.findRange h (addr &&& s.addrMask)).2 (addr &&& s.addrMask)).1 with
  | true => exact .inl (tryReadTyped_of_found hr rfl hlast hfound)
  | false =>
  obtain ⟨vals, hsized⟩ := tryRead_of_missing rfl hlast type.size_pos (by omega) hfound
  exact .inr ⟨vals, _, tryReadTyped_of_missing hfound, hsized⟩

/-- Nothing is found in the last page. -/
lemma tryReadTyped_last (hwf : h.WF) (hs : s.WF h) (type : ValueType)
    (hlast : 2 ^ 64 - 4096 ≤ (addr &&& s.addrMask)) : tryReadTyped type s h addr =
      some (false, [], (s.findRange h (addr &&& s.addrMask)).1) := by
  have halt := mask_lt hs addr
  refine tryReadTyped_of_missing ?_
  rw [Heap.read_eq h hwf, Heap.isValid_eq_false_iff hwf]
  rcases (findRangeAligned_spec hs (alignDownToPage (addr &&& s.addrMask))).2 with ho | ⟨hinv, _⟩
  · have hbound := ho.page_le hs (alignDownToPage_mod _)
    have hhigh := lt_alignDownToPage_add halt
    omega
  · unfold findRange
    rw [hinv, hs.invalid]

lemma tryReadTyped_eq (hwf : h.WF) (hs : s.WF h) (type : ValueType)
    (hx : AccessExact h s (addr &&& s.addrMask) type.size) :
    (tryReadTyped type s h addr).map (fun r => (r.1, r.2.1)) =
      Flat.tryReadTyped (readable h s) (addr &&& s.addrMask) type.size := by
  have halt := mask_lt hs addr
  have hread := h.read_eq hwf (s.findRange h (addr &&& s.addrMask)).2 (addr &&& s.addrMask)
  unfold Flat.tryReadTyped
  rcases readable_eq_none hwf hs halt (hx _ (.inl rfl)) with ⟨hnone, hinv⟩ | ⟨p, ho, hsome, hp⟩
  · rw [hinv, (Heap.isValid_eq_false_iff hwf).mpr hs.invalid] at hread
    rw [hnone, tryReadTyped_of_missing (by rw [hinv, hread])]
    rfl
  have hbound := ((owns_alignDown_iff hs halt).mp ho).page_le hs (alignDownToPage_mod _)
  have hhigh := lt_alignDownToPage_add halt
  rw [hp, (Heap.isValid_iff hwf).mpr ho.valid] at hread
  rw [hsome, tryReadTyped_of_found hwf.rooted rfl (by omega) (by rw [hp, hread]),
    tryRead_eq hwf hs hx]
  rfl

lemma tryReadTyped_accessed
    (hr : tryReadTyped type s h addr = some (ok, vals, s')) :
    Accessed s s' ∧ s'.traceHeads = s.traceHeads := by
  have ha : Accessed s (s.findRange h (addr &&& s.addrMask)).1 := findRangeAligned_accessed h s _
  simp only [tryReadTyped] at hr
  split at hr
  · simp only [Option.some.injEq, Prod.mk.injEq] at hr
    rw [← hr.2.2]
    exact ⟨ha, rfl⟩
  split at hr
  · simp only [Option.some.injEq, Prod.mk.injEq] at hr
    rw [← hr.2.2]
    exact ⟨ha, rfl⟩
  obtain ⟨ha', hheads⟩ := tryRead_accessed hr
  exact ⟨ha.trans ha', hheads⟩

end AddressSpace

end Vmill
