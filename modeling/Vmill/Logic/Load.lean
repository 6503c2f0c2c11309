import Vmill.Logic.Region
import Vmill.Workspace

/-!
# Loading page ranges

A range that ends at a page boundary within the address space becomes the interval of whole pages
around it, with the bytes of its file. Ranges that are apart can be loaded one after the other.
-/

namespace Vmill

open Base

variable {h : Heap} {s s' : AddressSpace} {files : List UInt8 → Option (List (List UInt8))}
  {page : PageRange}

namespace AddressSpace

lemma toReadWriteVirtualAddress_stores {h : Heap} (hwf : h.WF) {s : AddressSpace} (hs : s.WF h)
    {p : MemoryMapPtr} {a : Nat} (hown : Owns h s p a)
    (hacc : s.accessible (alignDownToPage a) = true) :
    ∃ s1 h1, s.toReadWriteVirtualAddress h a =
        some (s1, h1, p, some (sub64 a (h.obj p).baseAddress)) ∧
      (h1.obj p).baseAddress = (h.obj p).baseAddress ∧
      (h1.obj p).limitAddress = (h.obj p).limitAddress ∧
      ∀ vals : List UInt8, a + vals.length ≤ (h.obj p).limitAddress →
        Updates h s (h1.storeBytes p (sub64 a (h.obj p).baseAddress) vals) s1
          (overwrite (AddressSpace.view h s) a (vals.map some)) := by
  have hpaged := hs.paged p hown.mem hown.valid
  have hlimit := hpaged.lt
  obtain ⟨hbase, hlt⟩ := hown.inside
  have hmask : a &&& s.addrMask = a :=
    mask_of_le hs (by have := hs.bounded p hown.mem; omega)
  have hpage : Owns h s p (alignDownToPage a) :=
    (owns_alignDown_iff hs (by omega)).mp hown
  have hfind : (s.findRange h a).2 = p := findRangeAligned_eq hs (alignDownToPage_mod a) hpage hacc
  have haccessed : Accessed s (s.findRange h a).1 := (findRangeAligned_spec hs _).1
  obtain ⟨h1, hrw, hmade⟩ := Heap.toReadWriteVirtualAddress_spec hwf a hown.valid hpaged (by omega)
  refine ⟨(s.findRange h a).1, h1, ?_, hmade.base, hmade.limit, fun vals hfit => ?_⟩
  · simp only [toReadWriteVirtualAddress, hmask, hfind, hrw]
  have hstore := Heap.storeBytes_spec (a := a) hmade.array vals (by rwa [hmade.base])
    (by rwa [hmade.limit]) (by rwa [hmade.limit])
  rw [hmade.base] at hstore
  have hwrote := (hmade.trans hstore).congr (g := overwrite (h.byte p) a vals)
    fun x hx hxl => overwrite_congr (hmade.held x hx hxl) _ _
  have hlook := Updates.lookup h haccessed
  have hu := hlook.trans (Updates.of_stored hwf (hlook.wf hs)
    (by rw [haccessed.maps]; exact hown.mem) hown.valid
    (fun x hx hxl => Heap.mem_extent.mpr ⟨by omega, by omega⟩) (.inl hwrote))
  rwa [haccessed.view] at hu

end AddressSpace

open AddressSpace

/-- **Reads.** If one range owns `[lo, hi)`, and the file is long enough, the loop ends with its
bytes in the memory. -/
lemma loadPageRangeLoop_spec (hwf : h.WF) (hs : s.WF h) {p : MemoryMapPtr} {lo hi : Nat}
    (hlo : lo % 4096 = 0) (howns : ∀ a, lo ≤ a → a < hi → Owns h s p a)
    (hacc : ∀ a, a % 4096 = 0 → lo ≤ a → a < hi → s.accessible a = true) {baseAddr rangeSize : Nat}
    (hle : lo ≤ baseAddr) (hfit : baseAddr + rangeSize ≤ hi) {reads : List (List UInt8)}
    (hlen : rangeSize ≤ reads.flatten.length) :
    ∃ s' h', loadPageRangeLoop s h baseAddr rangeSize reads = some (s', h') ∧
      Updates h s h' s' (overwrite (AddressSpace.view h s) baseAddr
        ((reads.flatten.take rangeSize).map some)) := by
  induction reads generalizing h s baseAddr rangeSize with
  | nil =>
    obtain rfl : rangeSize = 0 := by simpa using hlen
    exact ⟨s, h, rfl, by simpa using Updates.refl h s⟩
  | cons chunk reads ih =>
  by_cases hsize : rangeSize = 0
  · subst hsize
    exact ⟨s, h, rfl, by simpa using Updates.refl h s⟩
  have hown := howns baseAddr hle (by omega)
  have hlimit := (hs.paged p hown.mem hown.valid).lt
  have hend := (howns (hi - 1) (by omega) (by omega)).inside.2
  have hbase := hown.inside.1
  have hpage : lo ≤ alignDownToPage baseAddr := by
    rw [alignDownToPage_eq, Nat.mod_eq_of_lt (by omega)]
    omega
  obtain ⟨s1, h1, hvirt, hbase1, hlimit1, hstores⟩ := toReadWriteVirtualAddress_stores hwf hs
    hown (hacc _ (alignDownToPage_mod baseAddr) hpage
      (by have := alignDownToPage_le baseAddr; omega))
  -- the part of the file that is read fits
  have hbuff : (chunk.take rangeSize).length ≤ rangeSize := by
    rw [List.length_take]
    omega
  have hroom : ¬ sub64 (h1.obj p).limitAddress (h1.obj p).baseAddress <
      sub64 baseAddr (h.obj p).baseAddress + (chunk.take rangeSize).length := by
    rw [hbase1, hlimit1, sub64_of_le (by omega) hlimit, sub64_of_le hbase (by omega)]
    omega
  have hu := hstores (chunk.take rangeSize) (by omega)
  -- the other reads
  have hshape : ∀ q ∈ s.maps, Heap.SameShape h _ q := fun q _ => hu.touched.sameShape q
  obtain ⟨s', h', hloop, hrest⟩ := ih (hu.heapWF hwf) (hu.wf hs)
    (fun a hge hlt => hu.accessed.owns.mpr ((Owns.sameShape hshape).mpr (howns a hge hlt)))
    (fun a hmod hge hlt => by rw [hu.accessed.accessible]; exact hacc a hmod hge hlt)
    (show lo ≤ baseAddr + (chunk.take rangeSize).length by omega)
    (show baseAddr + (chunk.take rangeSize).length +
      (rangeSize - (chunk.take rangeSize).length) ≤ hi by omega)
    (by
      rw [List.flatten_cons, List.length_append] at hlen
      rw [List.length_take]
      omega)
  refine ⟨s', h', ?_, ?_⟩
  · rw [loadPageRangeLoop, if_neg hsize, hvirt]
    simp only [if_neg hroom]
    rwa [wrap64_of_lt (by omega)]
  have hskip : rangeSize - (chunk.take rangeSize).length = rangeSize - chunk.length := by
    rw [List.length_take]
    omega
  rw [hu.view, hskip] at hrest
  rw [List.flatten_cons, List.take_append, List.map_append, overwrite_append,
    List.length_map]
  exact hu.trans hrest

/-- The range has a file, and ends on a page border inside the address space. -/
structure Loadable (s : AddressSpace) (page : PageRange) : Prop where
  lt : page.base < page.limit
  paged : page.limit % 4096 = 0
  fits : page.limit ≤ s.addrMask
  kind : page.kind ≠ .anonymousZeroRange

namespace Loadable

lemma limit_lt (hload : Loadable s page) (hs : s.WF h) : page.limit < 2 ^ 64 := by
  have hfits := hload.fits
  have hpaged := hload.paged
  rcases hs.mask with hm | hm <;> rw [hm] at hfits <;> omega

lemma size_eq (hload : Loadable s page) (hs : s.WF h) :
    sub64 page.limit page.base = page.limit - page.base :=
  sub64_of_le hload.lt.le (hload.limit_lt hs)

lemma pages (hload : Loadable s page) (hs : s.WF h) :
    alignDownToPage page.base + roundUpToPage (sub64 page.limit page.base) = page.limit := by
  have hlt := hload.lt
  have hpaged := hload.paged
  have hlimit := hload.limit_lt hs
  rw [hload.size_eq hs, alignDownToPage_eq, roundUpToPage_eq]
  omega

lemma inBounds (hload : Loadable s page) (hs : s.WF h) :
    InBounds s page.base (sub64 page.limit page.base) := by
  constructor
  · rw [hload.size_eq hs]
    have hlt := hload.lt
    omega
  rw [hload.pages hs]
  exact hload.fits

end Loadable

/-- The bytes that a range should hold. -/
def rangeBytes (page : PageRange) (reads : List (List UInt8)) : Nat → UInt8 :=
  overwrite (fun _ => 0) page.base (reads.flatten.take (page.limit - page.base))

/-- Memory holds the range as its file has it. -/
def InMemory (files : List UInt8 → Option (List (List UInt8))) (h : Heap) (s : AddressSpace)
    (page : PageRange) : Prop :=
  ∃ reads, files page.name = some reads ∧ page.limit - page.base ≤ reads.flatten.length ∧
    Held h s (alignDownToPage page.base) page.limit (rangeBytes page reads)

lemma InMemory.view (hin : InMemory files h s page) :
    ∃ reads, files page.name = some reads ∧ ∀ i, page.base + i < page.limit →
      i < reads.flatten.length ∧
        AddressSpace.view h s (page.base + i) = reads.flatten[i]? := by
  obtain ⟨reads, hfile, hlen, hheld⟩ := hin
  refine ⟨reads, hfile, fun i hi => ⟨by omega, ?_⟩⟩
  have hle := alignDownToPage_le page.base
  have hlength : i < (reads.flatten.take (page.limit - page.base)).length := by
    rw [List.length_take]
    omega
  rw [hheld.view _ (by omega) hi, rangeBytes, overwrite_of_mem hlength, List.getElem_take,
    List.getElem?_eq_getElem (by omega)]

/-- What loading one range from its file has done. -/
structure Loaded (files : List UInt8 → Option (List (List UInt8))) (page : PageRange) (h : Heap)
    (s : AddressSpace) (h' : Heap) (s' : AddressSpace) : Prop where
  heap : h'.WF
  space : s'.WF h'
  addrMask : s'.addrMask = s.addrMask
  inMemory : InMemory files h' s' page
  others : ∀ base limit bytes, Held h s base limit bytes →
    limit ≤ alignDownToPage page.base ∨ page.limit ≤ base → Held h' s' base limit bytes

section Range

variable {h1 h' : Heap} {s1 : AddressSpace}

/-- The file's bytes replace the range's. -/
lemma loadPageRangeFromFile_spec (hwf : h.WF) (hs : s.WF h) (hload : Loadable s page)
    {name : Option (List UInt8)} {offset : Nat}
    (hmap : s.addMap h page.base (sub64 page.limit page.base) name offset = some (s1, h1))
    {reads : List (List UInt8)} (hfile : files page.name = some reads)
    (hlen : page.limit - page.base ≤ reads.flatten.length) :
    ∃ s2 h2, loadPageRangeFromFile files s1 h1 page = some (s2, h2) ∧
      Updates h1 s1 h2 s2 (overwrite (AddressSpace.view h1 s1) page.base
        ((reads.flatten.take (page.limit - page.base)).map some)) := by
  obtain ⟨hr, hempty, hprot⟩ := addMap_spec hwf hs.toLaidOut (hload.inBounds hs) hmap
  rw [hload.pages hs] at hr hprot
  have howns : ∀ a, alignDownToPage page.base ≤ a → a < page.limit → Owns h1 s1 h.next a := by
    intro a hge hlt
    obtain ⟨kept, _, hperm⟩ := hr.maps
    refine ⟨hperm.mem_iff.mpr (by simp), by rw [hempty]; simp, ?_⟩
    rw [Heap.mem_extent, hr.newBase, hr.newLimit]
    exact ⟨hge, hlt⟩
  have hacc : ∀ a, a % 4096 = 0 → alignDownToPage page.base ≤ a → a < page.limit →
      s1.accessible a = true := by
    intro a hmod hge hlt
    have hread : s1.pageIsReadable a = true := by
      rw [hprot.readable, if_pos ⟨hmod, hge, hlt⟩]
    simp [accessible, canReadAligned, hread]
  have hlt := hload.lt
  obtain ⟨s2, h2, hloop, hu⟩ := loadPageRangeLoop_spec hr.grows.wf hr.wf
    (alignDownToPage_mod page.base) howns hacc (alignDownToPage_le page.base)
    (show page.base + (page.limit - page.base) ≤ page.limit by omega) hlen
  refine ⟨s2, h2, ?_, hu⟩
  simp only [loadPageRangeFromFile, hfile, hload.size_eq hs]
  rwa [if_neg (by omega)]

lemma loadPageRangeFromFile_file {s2 : AddressSpace} {h2 : Heap} (hs : s.WF h)
    (hload : Loadable s page) (hread : loadPageRangeFromFile files s1 h1 page = some (s2, h2)) :
    ∃ reads, files page.name = some reads ∧ page.limit - page.base ≤ reads.flatten.length := by
  unfold loadPageRangeFromFile at hread
  split at hread
  · cases hread
  rename_i reads hfile
  refine ⟨reads, hfile, ?_⟩
  rw [hload.size_eq hs] at hread
  by_contra hshort
  simp only [if_pos (Nat.lt_of_not_le hshort)] at hread
  cases hread

lemma loadPageRange_cases (hload : Loadable s page)
    (hrun : loadPageRange files s h page = some (s', h')) :
    ∃ s1 h1 s2, s.addMap h page.base (sub64 page.limit page.base) (mapPath page)
        (page.fileOffset.getD 0) = some (s1, h1) ∧
      loadPageRangeFromFile files s1 h1 page = some (s2, h') ∧
      s' = s2.setPermissions h' page.base (sub64 page.limit page.base) page.canRead page.canWrite
        page.canExec := by
  simp only [loadPageRange, if_neg hload.kind] at hrun
  split at hrun
  · cases hrun
  split at hrun
  · cases hrun
  rename_i s1 h1 hmap
  split at hrun
  · cases hrun
  rename_i s2 h2 hread
  cases hrun
  exact ⟨s1, h1, s2, hmap, hread, rfl⟩

lemma loadPageRange_spec (hwf : h.WF) (hs : s.WF h) (hload : Loadable s page)
    (hrun : loadPageRange files s h page = some (s', h')) : Loaded files page h s h' s' := by
  obtain ⟨s1, h1, s2, hmap, hread, rfl⟩ := loadPageRange_cases hload hrun
  obtain ⟨reads, hfile, hlen⟩ := loadPageRangeFromFile_file hs hload hread
  obtain ⟨s2', h2', hread', hu⟩ := loadPageRangeFromFile_spec hwf hs hload hmap hfile hlen
  obtain ⟨rfl, rfl⟩ := Prod.mk.inj (Option.mem_unique hread hread')
  obtain ⟨hr, hempty, hprot⟩ := addMap_spec hwf hs.toLaidOut (hload.inBounds hs) hmap
  rw [hload.pages hs] at hr hprot
  have hwf1 := hr.grows.wf
  have hwf2 := hu.heapWF hwf1
  have hs2 := hu.wf hr.wf
  have hlt := hload.lt
  have hle := alignDownToPage_le page.base
  refine ⟨hwf2, hs2.toLaidOut.setPermissions hwf2 _ _ _ _ _, ?_, ⟨reads, hfile, hlen, ?_⟩, ?_⟩
  · rw [(setPermissions_fields _ _ _ _ _ _ _).2.1, hu.accessed.addrMask, hr.addrMask]
  · have hheld : Held _ _ _ _ (rangeBytes page reads) :=
      (hr.region hwf1 hempty hprot).held.updates hu fun a hge hlt => by
        rw [overwrite_congr (g := fun _ => some 0) (hr.view_empty hwf1 hempty hge hlt)]
        exact overwrite_map some (fun _ => 0) _ _ a
    exact hheld.setPermissions hwf2 hs2 _ _ _ _ _
  intro base limit bytes hheld hapart
  have hkept := hheld.replaced hwf hwf1 hs hr hapart
  have hheld2 : Held _ _ base limit bytes := hkept.updates hu fun a hge hlt => by
    rw [overwrite_of_not_mem (by rw [List.length_map, List.length_take]; omega)]
    exact hkept.view a hge hlt
  exact hheld2.setPermissions hwf2 hs2 _ _ _ _ _

end Range

/-- Two ranges have no address in common. -/
def RangesApart (page page' : PageRange) : Prop := page.limit ≤ page'.base ∨ page'.limit ≤ page.base
deriving Decidable

lemma RangesApart.pages {page' : PageRange} (hapart : RangesApart page page')
    (hlimit : page.limit % 4096 = 0) (hlimit' : page'.limit % 4096 = 0) (hlt : page.limit < 2 ^ 64)
    (hlt' : page'.limit < 2 ^ 64) (hbase : page.base < page.limit)
    (hbase' : page'.base < page'.limit) :
    page.limit ≤ alignDownToPage page'.base ∨ page'.limit ≤ alignDownToPage page.base := by
  rw [alignDownToPage_eq, alignDownToPage_eq]
  rcases hapart with hle | hle
  · exact .inl (by omega)
  · exact .inr (by omega)

lemma Loadable.of_mask (hload : Loadable s page) (hmask : s'.addrMask = s.addrMask) :
    Loadable s' page :=
  { hload with fits := by rw [hmask]; exact hload.fits }

/-- **Loading.** Ranges that are apart are all in the memory in the end, and what was held apart
from them still is. -/
lemma loadPageRanges_spec {pages : List PageRange} {h' : Heap} (hwf : h.WF) (hs : s.WF h)
    (hload : ∀ page ∈ pages, Loadable s page) (hapart : pages.Pairwise RangesApart)
    (hrun : loadPageRanges files s h pages = some (s', h')) :
    (∀ page ∈ pages, InMemory files h' s' page) ∧
      ∀ base limit bytes, Held h s base limit bytes →
        (∀ page ∈ pages, limit ≤ alignDownToPage page.base ∨ page.limit ≤ base) →
        Held h' s' base limit bytes := by
  induction pages generalizing h s with
  | nil =>
    cases hrun
    exact ⟨nofun, fun _ _ _ hheld _ => hheld⟩
  | cons page pages ih =>
  rw [loadPageRanges] at hrun
  split at hrun
  · cases hrun
  rename_i s1 h1 hone
  have hfirst := hload page (.head _)
  have hl := loadPageRange_spec hwf hs hfirst hone
  obtain ⟨hpairs, hrest⟩ := List.pairwise_cons.mp hapart
  obtain ⟨hin, hothers⟩ := ih hl.heap hl.space
    (fun p hp => (hload p (.tail _ hp)).of_mask hl.addrMask) hrest hrun
  refine ⟨fun p hp => ?_, fun base limit bytes hheld hall => ?_⟩
  · rcases List.mem_cons.mp hp with rfl | hp
    · -- the ranges that follow leave the first one alone
      obtain ⟨reads, hfile, hlen, hheld⟩ := hl.inMemory
      refine ⟨reads, hfile, hlen, hothers _ _ _ hheld fun q hq => ?_⟩
      have hnext := hload q (.tail _ hq)
      have hpages := (hpairs q hq).pages hfirst.paged hnext.paged (hfirst.limit_lt hs)
        (hnext.limit_lt hs) hfirst.lt hnext.lt
      exact hpages
    · exact hin p hp
  exact hothers base limit bytes
    (hl.others base limit bytes hheld (hall page (.head _)))
    fun q hq => hall q (.tail _ hq)

/-- Nothing is mapped in `[lo, hi)`, and no valid range is inverted. -/
structure Vacant (h : Heap) (s : AddressSpace) (lo hi : Nat) : Prop where
  proper : ∀ p ∈ s.maps, (h.obj p).kind ≠ .invalid → (h.obj p).baseAddress < (h.obj p).limitAddress
  free : ∀ a, lo ≤ a → a < hi → AddressSpace.view h s a = none

namespace Vacant

variable {h' : Heap} {lo hi base limit : Nat}

lemma not_overlaps (hvac : Vacant h s lo hi) (hwf : h.WF) (hs : s.WF h) {p : MemoryMapPtr}
    (hp : p ∈ s.maps) (hv : (h.obj p).kind ≠ .invalid) : ¬ Overlaps h lo hi p ∨ hi ≤ lo := by
  by_contra hno
  push Not at hno
  obtain ⟨⟨h1, h2⟩, h3⟩ := hno
  have hproper := hvac.proper p hp hv
  -- the first address of the range, or of the interval
  refine (view_eq_none hwf hs).mp (hvac.free (max (h.obj p).baseAddress lo) (by omega) (by omega)) p
    ⟨hp, hv, Heap.mem_extent.mpr ⟨by omega, by omega⟩⟩

lemma replaced (hvac : Vacant h s lo hi) (hvac' : Vacant h s base limit) (hwf : h.WF)
    (hs : s.WF h) {new : MemoryMapPtr} (hr : Replaced h s h' s' new base limit) (hlt : base < limit)
    (hapart : limit ≤ lo ∨ hi ≤ base) : Vacant h' s' lo hi where
  proper y hy hv := by
    rcases hr.mem_cases hy with ⟨x, hx, ys, hc, hys⟩ | rfl
    · have hvx : (h.obj x).kind ≠ .invalid := fun he => hv ((hc.piece y hys).invalid.mpr he)
      refine hc.proper (fun hcut => ?_) (hvac.proper x hx hvx) y hys
      obtain ⟨h1, h2, h3⟩ := hcut
      rcases hvac'.not_overlaps hwf hs hx hvx with hno | hle
      · exact hno ⟨by omega, h2⟩
      · omega
    · rwa [hr.newBase, hr.newLimit]
  free a hge hlt := by
    rw [view_eq_none hr.grows.wf hr.wf]
    intro y hy
    rcases hr.owns hy with ⟨_, hin, hin'⟩ | ⟨x, hx, _⟩
    · omega
    · exact (view_eq_none hwf hs).mp (hvac.free a hge hlt) x hx

lemma updates (hvac : Vacant h s lo hi) {v : Nat → Option UInt8} (hu : Updates h s h' s' v)
    (hv : ∀ a, lo ≤ a → a < hi → v a = AddressSpace.view h s a) : Vacant h' s' lo hi where
  proper p hp hvalid := by
    rw [hu.accessed.maps] at hp
    have hshape := hu.touched.sameShape p
    rw [hshape.base, hshape.limit]
    exact hvac.proper p hp fun he => hvalid ((hu.touched.invalid_iff p).mpr he)
  free a hge hlt := by rw [hu.view, hv a hge hlt, hvac.free a hge hlt]

lemma setPermissions (hvac : Vacant h s lo hi) (hwf : h.WF) (hs : s.WF h) (b size : Nat)
    (r w x : Bool) : Vacant h (AddressSpace.setPermissions h s b size r w x) lo hi where
  proper p hp := by
    rw [(setPermissions_fields h s b size r w x).1] at hp
    exact hvac.proper p (mem_sortMaps.mp hp)
  free a hge hlt := by rw [setPermissions_view hwf hs, hvac.free a hge hlt]

end Vacant

/-- What a range needs to be loaded: the `CHECK` of its bounds passes, which are signed, and its
file is long enough. -/
structure Backed (files : List UInt8 → Option (List (List UInt8))) (page : PageRange) : Prop where
  signed : toInt64 page.base < toInt64 page.limit
  file : ∃ reads, files page.name = some reads ∧ page.limit - page.base ≤ reads.flatten.length

/-- A page range can be loaded where nothing is mapped. -/
lemma loadPageRange_isSome (hwf : h.WF) (hs : s.WF h) (hload : Loadable s page)
    (hback : Backed files page) (hvac : Vacant h s (alignDownToPage page.base) page.limit) :
    ∃ s' h', loadPageRange files s h page = some (s', h') ∧
      ∀ lo hi, Vacant h s lo hi → page.limit ≤ lo ∨ hi ≤ alignDownToPage page.base →
        Vacant h' s' lo hi := by
  have hle := alignDownToPage_le page.base
  have hlt := hload.lt
  have hno : ∀ p ∈ s.maps, (h.obj p).kind ≠ .invalid →
      ¬ Overlaps h (alignDownToPage page.base) page.limit p := by
    intro p hp hv
    rcases hvac.not_overlaps hwf hs hp hv with hno | hge
    · exact hno
    · omega
  obtain ⟨s1, h1, hmap⟩ := addMap_isSome hwf hs (hload.inBounds hs)
    (by
      intro p hp hover q hcow
      rw [hload.pages hs] at hover
      exact hno p hp (by rw [hcow]; simp) hover)
    (by
      intro p hp hv hcut
      rw [hload.pages hs] at hcut
      obtain ⟨_, h2, h3⟩ := hcut
      exact hno p hp hv ⟨by omega, h2⟩)
    (mapPath page) (page.fileOffset.getD 0)
  obtain ⟨reads, hfile, hlen⟩ := hback.file
  obtain ⟨s2, h2, hread, hu⟩ := loadPageRangeFromFile_spec hwf hs hload hmap hfile hlen
  obtain ⟨hr, _, _⟩ := addMap_spec hwf hs.toLaidOut (hload.inBounds hs) hmap
  rw [hload.pages hs] at hr
  refine ⟨s2.setPermissions h2 page.base (sub64 page.limit page.base) page.canRead page.canWrite
    page.canExec, h2, ?_, fun lo hi hvac' hapart => ?_⟩
  · unfold loadPageRange
    rw [if_neg (not_le.mpr hback.signed)]
    simp only [hmap, if_neg hload.kind, hread]
  · have hvac2 := (hvac'.replaced hvac hwf hs hr (by omega) hapart).updates hu fun a hge hlt =>
      overwrite_of_not_mem (by rw [List.length_map, List.length_take]; omega)
    exact hvac2.setPermissions (hu.heapWF hr.grows.wf) (hu.wf hr.wf) _ _ _ _ _

lemma loadPageRanges_isSome {pages : List PageRange} (hwf : h.WF) (hs : s.WF h)
    (hload : ∀ page ∈ pages, Loadable s page) (hback : ∀ page ∈ pages, Backed files page)
    (hapart : pages.Pairwise RangesApart)
    (hvac : ∀ page ∈ pages, Vacant h s (alignDownToPage page.base) page.limit) :
    ∃ s' h', loadPageRanges files s h pages = some (s', h') := by
  induction pages generalizing h s with
  | nil => exact ⟨s, h, rfl⟩
  | cons page pages ih =>
  have hfirst := hload page (.head _)
  obtain ⟨s1, h1, hone, hkeeps⟩ := loadPageRange_isSome hwf hs hfirst
    (hback page (.head _)) (hvac page (.head _))
  have hl := loadPageRange_spec hwf hs hfirst hone
  obtain ⟨hpairs, hrest⟩ := List.pairwise_cons.mp hapart
  rw [loadPageRanges, hone]
  refine ih hl.heap hl.space
    (fun p hp => (hload p (.tail _ hp)).of_mask hl.addrMask)
    (fun p hp => hback p (.tail _ hp)) hrest fun p hp => ?_
  have hnext := hload p (.tail _ hp)
  exact hkeeps _ _ (hvac p (.tail _ hp)) ((hpairs p hp).pages hfirst.paged
    hnext.paged (hfirst.limit_lt hs) (hnext.limit_lt hs) hfirst.lt hnext.lt)

end Vmill
