import Vmill.Logic.World

/-!
# Which pages `SetPermissions` changes

The base is rounded down and the size up, each by itself. If the base is not the start of a page,
the rounded interval may end in front of the last page that the bytes touch.
-/

namespace Vmill

open Base

namespace AddressSpace

variable {base size page : Nat}

/-- The interval has an address of the page. -/
def Touches (base size page : Nat) : Prop :=
  ∃ a, base ≤ a ∧ a < base + size ∧ a / 4096 * 4096 = page

/-- The three permissions of a page. -/
def permsAt (s : AddressSpace) (page : Nat) : Bool × Bool × Bool :=
  (s.pageIsReadable page, s.pageIsWritable page, s.pageIsExecutable page)

/-- `SetPermissions` gives the pages that the bytes touch the permissions, and no others. -/
structure ProtectsExactly (h : Heap) (s : AddressSpace) (base size : Nat) (r w x : Bool) :
    Prop where
  touched : ∀ page, Touches base size page →
    (setPermissions h s base size r w x).permsAt page = (r, w, x)
  others : ∀ page, page % 4096 = 0 → ¬ Touches base size page →
    (setPermissions h s base size r w x).permsAt page = s.permsAt page

/-- The pages of `[base, base + size)` that are not in the rounded interval; all of them, if the
rounded interval ends at the end of the 64-bit space. -/
def Missed (base size page : Nat) : Prop :=
  Touches base size page ∧
    (base / 4096 * 4096 + (size + 4095) / 4096 * 4096 ≤ page ∨
      base / 4096 * 4096 + (size + 4095) / 4096 * 4096 = 2 ^ 64)

lemma touches_iff : Touches base size page ↔
    0 < size ∧ page % 4096 = 0 ∧ base / 4096 * 4096 ≤ page ∧ page < base + size := by
  constructor
  · rintro ⟨a, hle, hlt, rfl⟩
    refine ⟨by omega, by omega, ?_, by omega⟩
    exact Nat.mul_le_mul_right _ (Nat.div_le_div_right hle)
  rintro ⟨hpos, hmod, hle, hlt⟩
  refine ⟨max base page, by omega, by omega, ?_⟩
  omega

lemma mem_permissionPages_iff (hlt : base + size < 2 ^ 64) :
    page ∈ permissionPages base size ↔ Touches base size page ∧ ¬ Missed base size page := by
  unfold permissionPages Missed
  rw [mem_pagesIn (alignDownToPage_mod base), alignDownToPage_eq, roundUpToPage_eq, touches_iff]
  unfold wrap64
  omega

lemma permsAt_setPermissions (h : Heap) (s : AddressSpace) (base size : Nat) (r w x : Bool)
    (page : Nat) : (setPermissions h s base size r w x).permsAt page =
      if page ∈ permissionPages base size then (r, w, x) else s.permsAt page := by
  obtain ⟨hr, hw, hx⟩ := setPermissions_perms h s base size r w x page
  unfold permsAt
  rw [hr, hw, hx]
  split <;> rfl

lemma not_missed_iff (hlt : base + size < 2 ^ 64) :
    (∀ page, ¬ Missed base size page) ↔
      size = 0 ∨ (base % 4096 + size ≤ (size + 4095) / 4096 * 4096 ∧
        base / 4096 * 4096 + (size + 4095) / 4096 * 4096 < 2 ^ 64) := by
  constructor
  · intro hnone
    by_cases hzero : size = 0
    · exact .inl hzero
    have hlast := hnone ((base + size - 1) / 4096 * 4096)
    unfold Missed at hlast
    rw [touches_iff] at hlast
    omega
  rintro hfit page ⟨htouch, hout⟩
  rw [touches_iff] at htouch
  omega

end AddressSpace

open AddressSpace

/-- **Protected pages.** For every base and size without wrap-around: `SetPermissions` changes
exactly the pages the bytes touch, exactly if those it misses have the new permissions already; it
misses none exactly if the bytes fit into as few pages as their number needs, in front of the last
one. -/
theorem setPermissions_exact_iff (h : Heap) (s : AddressSpace) {base size : Nat}
    (hlt : base + size < 2 ^ 64) (r w x : Bool) :
    (ProtectsExactly h s base size r w x ↔
      ∀ page, Missed base size page → s.permsAt page = (r, w, x)) ∧
    ((∀ page, ¬ Missed base size page) ↔
      size = 0 ∨ (base % 4096 + size ≤ (size + 4095) / 4096 * 4096 ∧
        base / 4096 * 4096 + (size + 4095) / 4096 * 4096 < 2 ^ 64)) := by
  refine ⟨⟨fun hexact page hmissed => ?_, fun hsame => ⟨fun page htouch => ?_,
    fun page _ hno => ?_⟩⟩, not_missed_iff hlt⟩
  · have hperms := hexact.touched page hmissed.1
    rwa [permsAt_setPermissions,
      if_neg fun hmem => ((mem_permissionPages_iff hlt).mp hmem).2 hmissed] at hperms
  · rw [permsAt_setPermissions]
    split
    · rfl
    · rename_i hout
      refine hsame page (Classical.byContradiction fun hnot => hout ?_)
      exact (mem_permissionPages_iff hlt).mpr ⟨htouch, hnot⟩
  · rw [permsAt_setPermissions,
      if_neg fun hmem => hno ((mem_permissionPages_iff hlt).mp hmem).1]

/-- Two pages from the middle of the first one are protected, and they fit. -/
theorem setPermissions_exact_inside :
    ∃ w s, World.Reachable (amd64 false) w ∧ w.spaces[0]? = some s ∧
      ProtectsExactly w.heap s 0x1800 0x1800 true false false := by
  obtain ⟨w, s, hw, hi, _⟩ := World.reachable_eval (amd64 false)
    [.new, .addMap 0 0x1000 0x3000 none 0] (fun _ _ => True) (by decide +kernel)
  obtain ⟨hexact, hnone⟩ := setPermissions_exact_iff w.heap s
    (show 0x1800 + 0x1800 < 2 ^ 64 by decide) true false false
  exact ⟨w, s, hw, hi,
    hexact.mpr fun page hmissed => absurd hmissed (hnone.mpr (.inr (by decide)) page)⟩

/-- One page worth of bytes from the middle of a page is made read-only: the second page that it
touches stays writable. -/
theorem setPermissions_misses_page :
    ∃ w s, World.Reachable (amd64 false) w ∧ w.spaces[0]? = some s ∧
      Touches 0x1800 0x1000 0x2000 ∧
      (setPermissions w.heap s 0x1800 0x1000 true false false).permsAt 0x2000 =
        (true, true, false) ∧
      ¬ ProtectsExactly w.heap s 0x1800 0x1000 true false false := by
  obtain ⟨w, s, hw, hi, hperms⟩ := World.reachable_eval (amd64 false)
    [.new, .addMap 0 0x1000 0x3000 none 0]
    (fun w s => (setPermissions w.heap s 0x1800 0x1000 true false false).permsAt 0x2000 =
      (true, true, false)) (by decide +kernel)
  have htouch : Touches 0x1800 0x1000 0x2000 := ⟨0x2000, by decide, by decide, by decide⟩
  refine ⟨w, s, hw, hi, htouch, hperms, fun hexact => ?_⟩
  exact absurd (hperms.symm.trans (hexact.touched _ htouch)) (by decide)

end Vmill
