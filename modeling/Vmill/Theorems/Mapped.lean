import Vmill.Theorems.Holes

/-!
# `IsMapped`, the ranges and `FindHole`

`IsMapped` looks into the page index, which leaves out the pages that nothing is permitted on: such
a page is not mapped for `IsMapped`, and not free for `FindHole`.
-/

namespace Vmill

open Base AddressSpace

namespace AddressSpace

variable {a : Nat}

/-- A valid range of the list contains the address. -/
def InValidRange (h : Heap) (s : AddressSpace) (a : Nat) : Prop :=
  ∃ p ∈ s.maps, h.isValid p = true ∧ (h.obj p).contains a = true

variable {h : Heap} {s : AddressSpace}

lemma inValidRange_iff (hwf : h.WF) : InValidRange h s a ↔ ∃ p, Owns h s p a := by
  constructor
  · rintro ⟨p, hmem, hv, hin⟩
    exact ⟨p, hmem, (Heap.isValid_iff hwf).mp hv, Heap.contains_iff.mp hin⟩
  rintro ⟨p, hmem, hv, hin⟩
  exact ⟨p, hmem, (Heap.isValid_iff hwf).mpr hv, Heap.contains_iff.mpr hin⟩

lemma inValidRange_page (hwf : h.WF) (hs : s.WF h) (ha : a < 2 ^ 64) :
    InValidRange h s (alignDownToPage a) ↔ InValidRange h s a := by
  rw [inValidRange_iff hwf, inValidRange_iff hwf]
  exact exists_congr fun p => (owns_alignDown_iff hs ha).symm

lemma isMapped_iff (hwf : h.WF) (hs : s.WF h) (ha : a < 2 ^ 64) :
    s.isMapped h a = true ↔
      InValidRange h s a ∧ s.accessible (alignDownToPage a) = true := by
  rw [← inValidRange_page hwf hs ha, inValidRange_iff hwf]
  unfold isMapped
  rw [if_neg (by rw [hs.alive]; decide)]
  constructor
  · intro hmapped
    split at hmapped
    · cases hmapped
    rename_i p hidx
    obtain ⟨ho, _, hacc⟩ := (hs.index _ p).mp hidx
    exact ⟨⟨p, ho⟩, hacc⟩
  rintro ⟨⟨p, ho⟩, hacc⟩
  rw [(hs.index _ p).mpr ⟨ho, alignDownToPage_mod a, hacc⟩]
  exact (Heap.isValid_iff hwf).mpr ho.valid

lemma findHole_page_iff (hwf : h.WF) (hs : s.WF h) (hp : Partitioned h s)
    (hb : PageBoundaries h s) {page : Nat} (hmod : page % 4096 = 0)
    (hfits : page + 4096 ≤ s.addrMask) :
    s.findHole h page (page + 4096) 4096 = some (some page) ↔ ¬ InValidRange h s page := by
  have hmask : s.addrMask < 2 ^ 64 := by rcases hs.mask with hm | hm <;> omega
  have hsub : SubOk fun a b => some (sub64 a b) := fun a b hle hlt =>
    congrArg some (sub64_of_le hle hlt)
  obtain ⟨r, hfind, hr⟩ := findHoleWith_spec hsub hp hb hmask hfits
    (show 0 < 4096 by decide) (show 4096 + 4095 < 2 ^ 64 by decide)
  rw [alignDownToPage_of_aligned (by omega) hmod, alignDownToPage_of_aligned (by omega) (by omega),
    roundUpToPage_of_aligned (by decide) (by decide)] at hr
  have heq : s.findHole h page (page + 4096) 4096 = some r := hfind
  rw [heq, inValidRange_iff hwf, Option.some.injEq]
  constructor
  · rintro rfl ⟨p, ho⟩
    obtain ⟨⟨q, hq, hat⟩, _⟩ := hr
    have hin := hat.within
    have hpq := hs.apart.eq_of_mem ho.mem hq ho.inside (Heap.mem_extent.mpr ⟨hin.1, by omega⟩)
    exact ho.valid (hpq ▸ (Heap.isValid_eq_false_iff hwf).mp hat.invalid)
  intro hfree
  obtain ⟨q, hq, hin⟩ := (hp.splits.cover page).mp (show page < s.addrMask by omega)
  have hinv : h.isValid q = false := by
    rw [Heap.isValid_eq_false_iff hwf]
    by_contra hv
    exact hfree ⟨q, hq, hv, hin⟩
  obtain ⟨hbase, hlimit⟩ := hb q hq
  rw [Heap.mem_extent] at hin
  have hroom : room h page (page + 4096) q = 4096 := by
    unfold room
    omega
  cases r with
  | none => exact absurd (hr q hq hinv) (by omega)
  | some hole =>
  obtain ⟨⟨_, _, hat⟩, _⟩ := hr
  have hinside := hat.inside
  exact congrArg some (by omega)

end AddressSpace

/-- **Mapped addresses.** In every reachable address space, for every address below the mask:
`IsMapped` tells whether it lies in a valid range, exactly if it does not lie in one whose page has
lost all permissions. On a partition, `FindHole` agrees under the same condition. -/
theorem isMapped_agrees_iff {cfg : Config} {w : World} (hw : World.Reachable cfg w) {i : Nat}
    {s : AddressSpace} (hi : w.spaces[i]? = some s) {a : Nat} (ha : a < s.addrMask) :
    ((s.isMapped w.heap a = true ↔ InValidRange w.heap s a) ↔
      (InValidRange w.heap s a → s.accessible (alignDownToPage a) = true)) ∧
    (Partitioned w.heap s → a % 4096 = 0 → a + 4096 ≤ s.addrMask →
      ((s.isMapped w.heap a = false ↔
          s.findHole w.heap a (a + 4096) 4096 = some (some a)) ↔
        (InValidRange w.heap s a → s.accessible (alignDownToPage a) = true))) := by
  have hwf := hw.wf.heap
  have hs := hw.wf.space i s hi
  have halt : a < 2 ^ 64 := by rcases hs.mask with hm | hm <;> omega
  have hmapped := isMapped_iff hwf hs halt
  refine ⟨?_, fun hp hmod hfits => ?_⟩
  · rw [hmapped]
    tauto
  · rw [findHole_page_iff hwf hs hp (hw.pageBoundaries i s hi) hmod hfits, ← Bool.not_eq_true,
      hmapped]
    tauto

/-- A mapped page and an unmapped one. -/
theorem isMapped_agrees_two_pages :
    ∃ w s, World.Reachable (amd64 false) w ∧ w.spaces[0]? = some s ∧
      (s.isMapped w.heap 0x1234 = true ↔ InValidRange w.heap s 0x1234) ∧
      (s.isMapped w.heap 0x3000 = false ↔
        s.findHole w.heap 0x3000 0x4000 0x1000 = some (some 0x3000)) := by
  obtain ⟨os, w, s, hrun, hi, hmask, hacc, hfree⟩ := World.run_eval (amd64 false)
    [.new, .addMap 0 0x1000 0x2000 none 0]
    (fun w s => s.addrMask = 2 ^ 64 - 1 ∧ s.accessible (alignDownToPage 0x1234) = true ∧
      (s.maps.all fun p => !(w.heap.isValid p && (w.heap.obj p).contains 0x3000)) = true)
    (by decide +kernel)
  have hw : World.Reachable (amd64 false) w := ⟨_, os, by decide +kernel, hrun⟩
  have hp := World.partitioned_of_run (by decide +kernel) hrun 0 s hi
  have hno : ¬ InValidRange w.heap s 0x3000 := by
    rintro ⟨p, hmem, hv, hin⟩
    have hall := List.all_eq_true.mp hfree p hmem
    rw [hv, hin] at hall
    cases hall
  refine ⟨w, s, hw, hi, ?_, ?_⟩
  · exact (isMapped_agrees_iff hw hi (by rw [hmask]; decide)).1.mpr fun _ => hacc
  · exact ((isMapped_agrees_iff hw hi (by rw [hmask]; decide)).2 hp (by decide)
      (by rw [hmask]; decide)).mpr fun hin => absurd hin hno

/-- All permissions of a mapped page are taken away: `FindHole` does not count it as free, and
`IsMapped` says no. -/
theorem isMapped_without_permission :
    ∃ w s, World.Reachable (amd64 false) w ∧ w.spaces[0]? = some s ∧ 0x1000 < s.addrMask ∧
      InValidRange w.heap s 0x1000 ∧ s.isMapped w.heap 0x1000 = false ∧
      s.findHole w.heap 0x1000 0x2000 0x1000 = some none := by
  obtain ⟨w, s, hw, hi, hlt, hany, hmapped, hfind⟩ := World.reachable_eval (amd64 false)
    [.new, .addMap 0 0x1000 0x2000 none 0, .setPermissions 0 0x1000 0x1000 false false false]
    (fun w s => 0x1000 < s.addrMask ∧
      (s.maps.any fun p => w.heap.isValid p && (w.heap.obj p).contains 0x1000) = true ∧
      s.isMapped w.heap 0x1000 = false ∧ s.findHole w.heap 0x1000 0x2000 0x1000 = some none)
    (by decide +kernel)
  obtain ⟨p, hmem, hin⟩ := List.any_eq_true.mp hany
  rw [Bool.and_eq_true] at hin
  exact ⟨w, s, hw, hi, hlt, ⟨p, hmem, hin⟩, hmapped, hfind⟩

end Vmill
