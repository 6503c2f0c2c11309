import Vmill.Logic.World

/-!
# Ranges are made of whole pages

The limit of a range is clamped to `addr_mask`, one less than the end of the address space: a range
that takes in the last page ends one byte short, and the first write to any of its pages fails the
`CHECK` of `ArrayMemoryMap`.
-/

namespace Vmill

open Base AddressSpace

/-- The page-rounded range of a mapping call, in exact arithmetic, is not empty, and ends in front
of the last page. -/
@[mk_iff]
structure AddressSpace.BelowLast (s : AddressSpace) (base size : Nat) : Prop where
  pos : 0 < size
  fits : base / 4096 * 4096 + (size + 4095) / 4096 * 4096 ≤ s.addrMask

instance (s : AddressSpace) (base size : Nat) : Decidable (BelowLast s base size) :=
  decidable_of_iff' _ (belowLast_iff ..)

/-- Every valid range is a positive number of pages long, so that its pages can be written, and
it contains its pages to the last byte. -/
structure AddressSpace.WholePages (h : Heap) (s : AddressSpace) : Prop where
  size : ∀ p ∈ s.maps, h.isValid p = true → 0 < (h.obj p).size ∧ (h.obj p).size % 4096 = 0
  writable : ∀ p ∈ s.maps, h.isValid p = true → ∀ a, (h.obj p).contains a = true →
    (h.toReadWriteVirtualAddress p a).isSome = true
  page : ∀ p ∈ s.maps, h.isValid p = true → ∀ a x, (h.obj p).contains a = true →
    a / 4096 = x / 4096 → (h.obj p).contains x = true
  index : ∀ a p, s.pageToMap a = some p → ∀ x, a ≤ x → x < a + 4096 →
    (h.obj p).contains x = true

namespace AddressSpace

variable {h h' : Heap} {base limit size : Nat} {s : AddressSpace}

/-- No range is empty. -/
def NonZero (h : Heap) (s : AddressSpace) : Prop :=
  ∀ p ∈ s.maps, (h.obj p).baseAddress < 2 ^ 64 ∧ (h.obj p).baseAddress ≠ (h.obj p).limitAddress

lemma Cut.nonZero {x y : MemoryMapPtr} {ys : List MemoryMapPtr} (hc : Cut h h' base limit x ys)
    (hlt : base < limit) (hx : (h.obj x).baseAddress ≠ (h.obj x).limitAddress)
    (hsame : y = x → h'.obj y = h.obj x) (hy : y ∈ ys) :
    (h'.obj y).baseAddress ≠ (h'.obj y).limitAddress := by
  obtain ⟨hbase, hlimit⟩ := hc.edges y hy
  rcases hc.eq_or_overlaps hy with heq | ⟨hover, hover'⟩
  · rwa [hsame heq]
  by_cases hcut : CutsHead h base limit x
  · obtain ⟨hhead, _, htail⟩ := hcut
    rcases hbase with hb | hb <;> rcases hlimit with hl | hl <;> omega
  by_cases hproper : (h.obj x).baseAddress < (h.obj x).limitAddress
  · exact Nat.ne_of_lt (hc.proper hcut hproper y hy)
  -- an inverted range that overlaps the interval lies inside it
  rcases hbase with hb | hb <;> rcases hlimit with hl | hl <;> omega

lemma Replaced.nonZero {s' : AddressSpace} {new : MemoryMapPtr}
    (hr : Replaced h s h' s' new base limit) (hs : s.WF h) (hp : NonZero h s) (hlt : base < limit)
    (hlt64 : limit < 2 ^ 64) : NonZero h' s' := by
  intro p hpm
  rcases hr.mem_cases hpm with ⟨x, hx, ys, hc, hys⟩ | hn
  · obtain ⟨hx64, hne⟩ := hp x hx
    refine ⟨?_, hc.nonZero hlt hne (fun heq => ?_) hys⟩
    · rcases (hc.edges p hys).1 with hb | hb
      · rwa [hb]
      · rwa [hb]
    · rw [heq, hr.grows.ext.obj x (hs.live x hx)]
  rw [hn, hr.newBase, hr.newLimit]
  exact ⟨hlt.trans hlt64, hlt.ne⟩

lemma nonZero_byShape (cfg : Config) : World.ByShape cfg NonZero where
  shape hp hk p hpm := by
    rw [(hk p hpm).base, (hk p hpm).limit]
    exact hp p hpm
  perm hp _ _ hperm p hpm := hp p (hperm.mem_iff.mp hpm)
  copied hc hp p hpm := by
    obtain ⟨maps', hf, hperm⟩ := hc.forked
    obtain ⟨x, hx, ys, ⟨y, rfl, hy⟩, hys⟩ := hf.clones.origin (hperm.mem_iff.mp hpm)
    rw [List.mem_singleton.mp hys, hy.base, hy.limit]
    exact hp x hx
  new {h} _ p hpm := by
    obtain ⟨hmaps, hobj⟩ := World.new_maps cfg h
    rw [hmaps] at hpm
    rw [List.mem_singleton.mp hpm, hobj]
    show 0 < 2 ^ 64 ∧ 0 ≠ getAddressMask cfg
    unfold getAddressMask
    split <;> decide

lemma size_of_paged {r : MappedRange} (hpg : r.Paged) (hlt : r.baseAddress < 2 ^ 64)
    (hne : r.baseAddress ≠ r.limitAddress) : 0 < r.size ∧ r.size % 4096 = 0 := by
  have hb := hpg.base
  have hl := hpg.limit
  have hl64 := hpg.lt
  unfold MappedRange.size sub64
  omega

lemma wholePages (hwf : h.WF) (hs : s.WF h) (hp : NonZero h s) : WholePages h s where
  size p hpm hv := by
    have hkind := (Heap.isValid_iff hwf).mp hv
    exact size_of_paged (hs.paged p hpm hkind) (hp p hpm).1 (hp p hpm).2
  writable p hpm hv a ha := by
    have hkind := (Heap.isValid_iff hwf).mp hv
    obtain ⟨hle, hlt⟩ := Heap.contains_iff.mp ha
    obtain ⟨h', hrw, _⟩ := Heap.toReadWriteVirtualAddress_spec hwf a hkind (hs.paged p hpm hkind)
      (by omega)
    rw [hrw]
    rfl
  page p hpm hv a x ha heq := by
    have hpg := hs.paged p hpm ((Heap.isValid_iff hwf).mp hv)
    have hb := hpg.base
    have hl := hpg.limit
    obtain ⟨hle, hlt⟩ := Heap.contains_iff.mp ha
    exact Heap.contains_iff.mpr ⟨by omega, by omega⟩
  index a p hidx x hle hlt := by
    obtain ⟨ho, hmod, _⟩ := (hs.index a p).mp hidx
    exact Heap.contains_iff.mpr ((owns_page_iff hs hmod hle hlt).mpr ho).inside

lemma BelowLast.inBounds (hf : BelowLast s base size) : InBounds s base size := by
  have hbase : base % 2 ^ 64 / 4096 ≤ base / 4096 := Nat.div_le_div_right (Nat.mod_le _ _)
  have hsize : (size + 4095) % 2 ^ 64 / 4096 ≤ (size + 4095) / 4096 :=
    Nat.div_le_div_right (Nat.mod_le _ _)
  refine ⟨hf.pos, Nat.le_trans ?_ hf.fits⟩
  rw [alignDownToPage_eq, roundUpToPage_eq]
  exact Nat.add_le_add (Nat.mul_le_mul_right _ hbase) (Nat.mul_le_mul_right _ hsize)

lemma BelowLast.roundUp_pos (hs : s.WF h) (hf : BelowLast s base size) :
    0 < roundUpToPage size := by
  have hpos := hf.pos
  have hfits := hf.fits
  rw [roundUpToPage_eq]
  rcases hs.mask with hm | hm <;> omega

end AddressSpace

namespace World

/-- A mapping call stays below the last page. -/
def MapsWithin (w : World) (op : Op) : Prop := w.OnRemap op BelowLast
deriving Decidable

lemma Effect.nonZero {cfg : Config} {w w' : World} {op : Op} (hw : w.WF) (hp : w.Each NonZero)
    (hmaps : MapsWithin w op) (he : Effect cfg w op w') : w'.Each NonZero := by
  refine he.each (nonZero_byShape cfg) hw hp ?_
  intro i base size m s s' h' hremaps htarget hi hb hrep
  have hs := hw.space i s hi
  have hpos := (OnRemap.elim hmaps htarget hremaps hi).roundUp_pos hs
  have hfits := hb.fits
  refine hrep.nonZero hs (hp i s hi) (by omega) ?_
  rcases hs.mask with hm | hm <;> omega

end World

/-- **Whole pages.** In every run whose mapping calls leave the last page of their address space
alone, every address space consists of whole pages. -/
theorem ranges_whole_pages {cfg : Config} {ops : List Op} {os : List Out} {w : World}
    (hmeets : (memory cfg).RunMeets World.MapsWithin ops World.init)
    (hrun : (memory cfg).run ops World.init = some (os, w)) {i : Nat} {s : AddressSpace}
    (hi : w.spaces[i]? = some s) : AddressSpace.WholePages w.heap s := by
  obtain ⟨hw, hp⟩ := World.run_invariant (I := fun w => w.Each NonZero) (P := World.MapsWithin)
    (fun w op hmaps => World.OnRemap.mono hmaps fun s base size hf => hf.inBounds)
    (fun w w' op hw hp hmaps he => he.nonZero hw hp hmaps)
    (fun j t hj => absurd hj (by simp [World.init])) hmeets hrun
  exact wholePages hw.heap (hw.space i s hi) (hp i s hi)

/-- Two pages in front of the last page of a 32-bit guest, the first of them unmapped again. -/
theorem ranges_whole_pages_below_last :
    ∃ os w s, (memory (x86 false)).run
        [.new, .addMap 0 0xffffd000 0x2000 none 0, .removeMap 0 0xffffd000 0x1000] World.init =
          some (os, w) ∧
      w.spaces[0]? = some s ∧ AddressSpace.WholePages w.heap s := by
  obtain ⟨os, w, s, hrun, hi, _⟩ := World.run_eval (x86 false)
    [.new, .addMap 0 0xffffd000 0x2000 none 0, .removeMap 0 0xffffd000 0x1000]
    (fun _ _ => True) (by decide +kernel)
  exact ⟨os, w, s, hrun, hi, ranges_whole_pages (by decide +kernel) hrun hi⟩

/-- The last page of a 32-bit guest is mapped: the range is one byte short of a page, and the first
write to the page does not return. -/
theorem last_page_not_whole :
    ∃ os w s p, (memory (x86 false)).run [.new, .addMap 0 0xfffff000 0x1000 none 0] World.init =
        some (os, w) ∧
      w.spaces[0]? = some s ∧ p ∈ s.maps ∧ w.heap.isValid p = true ∧
      (w.heap.obj p).size = 0xfff ∧ s.pageToMap 0xfffff000 = some p ∧
      (w.heap.obj p).contains 0xffffffff = false ∧
      w.heap.toReadWriteVirtualAddress p 0xfffff000 = none ∧
      (memory (x86 false)).step (.tryWriteByte 0 0xfffff000 1) w = none ∧
      ¬ AddressSpace.WholePages w.heap s := by
  obtain ⟨os, w, s, hrun, hi, hany, hstep⟩ := World.run_eval (x86 false)
    [.new, .addMap 0 0xfffff000 0x1000 none 0]
    (fun w s => (s.maps.any fun p => w.heap.isValid p && decide ((w.heap.obj p).size = 0xfff) &&
      decide (s.pageToMap 0xfffff000 = some p) && !(w.heap.obj p).contains 0xffffffff &&
      (w.heap.toReadWriteVirtualAddress p 0xfffff000).isNone) = true ∧
      ((memory (x86 false)).step (.tryWriteByte 0 0xfffff000 1) w).isNone = true)
    (by decide +kernel)
  obtain ⟨p, hpm, hp⟩ := List.any_eq_true.mp hany
  simp only [Bool.and_eq_true, decide_eq_true_eq, Bool.not_eq_true', Option.isNone_iff_eq_none]
    at hp hstep
  obtain ⟨⟨⟨⟨hv, hsize⟩, hidx⟩, hout⟩, hnone⟩ := hp
  refine ⟨os, w, s, p, hrun, hi, hpm, hv, hsize, hidx, hout, hnone, hstep, fun hwhole => ?_⟩
  have hmod := (hwhole.size p hpm hv).2
  rw [hsize] at hmod
  exact absurd hmod (by decide)

end Vmill
