import Vmill.Logic.World

/-!
# Regions

A region is an interval that ranges of its own cover. A call on another interval, or on another
address space, leaves it alone (`World.RegionsKept`).
-/

namespace Vmill

open Base

namespace AddressSpace

variable {h h' : Heap} {s s' : AddressSpace} {new : MemoryMapPtr} {base limit : Nat}

/-- Ranges inside `[base, limit)` hold the bytes. -/
structure Held (h : Heap) (s : AddressSpace) (base limit : Nat) (bytes : Nat → UInt8) : Prop where
  view : ∀ a, base ≤ a → a < limit → view h s a = some (bytes a)
  inside : ∀ p a, Owns h s p a → base ≤ a → a < limit → ∀ b ∈ h.extent p, base ≤ b ∧ b < limit

/-- Ranges inside `[base, limit)` hold the bytes, and the pages are writable. -/
structure Region (h : Heap) (s : AddressSpace) (base limit : Nat) (bytes : Nat → UInt8) : Prop where
  view : ∀ a, base ≤ a → a < limit → view h s a = some (bytes a)
  inside : ∀ p a, Owns h s p a → base ≤ a → a < limit → ∀ b ∈ h.extent p, base ≤ b ∧ b < limit
  writable : ∀ a, a % 4096 = 0 → base ≤ a → a < limit → s.pageIsWritable a = true

lemma Replaced.owns_within (hr : Replaced h s h' s' new base limit) {y : MemoryMapPtr} {a : Nat}
    (ho : Owns h' s' y a) : y = new ∨ ∃ x, Owns h s x a ∧ h'.extent y ⊆ h.extent x := by
  rcases hr.owns_cases ho with ⟨x, ys, hx, hc, hys⟩ | ⟨hnew, _⟩
  · exact .inr ⟨x, hx, (hc.piece y hys).inside⟩
  · exact .inl hnew

lemma Replaced.region (hwf' : h'.WF) (hr : Replaced h s h' s' new base limit)
    (hkind : (h'.obj new).kind = .empty) (hp : Protected s s' base limit true true false) :
    Region h' s' base limit (fun _ => 0) where
  view a hlo hhi := hr.view_empty hwf' hkind hlo hhi
  inside p a ho hlo hhi b hb := by
    rcases hr.owns ho with ⟨rfl, _⟩ | ⟨_, _, _, hout, _⟩
    · rwa [Heap.mem_extent, hr.newBase, hr.newLimit] at hb
    · omega
  writable a hmod hlo hhi := by
    rw [hp.writable, if_pos ⟨hmod, hlo, hhi⟩]

namespace Held

variable {lo hi : Nat} {bytes bytes' : Nat → UInt8}

lemma replaced (hheld : Held h s base limit bytes) (hwf : h.WF) (hwf' : h'.WF) (hs : s.WF h)
    {new : MemoryMapPtr} (hr : Replaced h s h' s' new lo hi) (hapart : limit ≤ lo ∨ hi ≤ base) :
    Held h' s' base limit bytes where
  view a hlo hhi := by
    rw [← hheld.view a hlo hhi]
    refine hr.view_outside hwf hwf' hs (by omega) fun p ho hcut => ?_
    -- the range would reach over the bounds
    obtain ⟨h1, h2, h3⟩ := hcut
    have hin := hheld.inside p a ho hlo hhi (h.obj p).baseAddress
      (Heap.mem_extent.mpr ⟨le_rfl, by omega⟩)
    omega
  inside p a ho hlo hhi b hb := by
    rcases hr.owns_within ho with rfl | ⟨x, hx, hsub⟩
    · have hin := ho.inside
      rw [Heap.mem_extent, hr.newBase, hr.newLimit] at hin
      omega
    · exact hheld.inside x a hx hlo hhi b (hsub hb)

lemma updates (hheld : Held h s base limit bytes) {v : Nat → Option UInt8}
    (hu : Updates h s h' s' v) (hv : ∀ a, base ≤ a → a < limit → v a = some (bytes' a)) :
    Held h' s' base limit bytes' where
  view a hlo hhi := by rw [hu.view, hv a hlo hhi]
  inside p a ho hlo hhi b hb := by
    have hshape : ∀ q ∈ s.maps, Heap.SameShape h h' q := fun q _ => hu.touched.sameShape q
    have ho' := (Owns.sameShape hshape).mp (hu.accessed.owns.mp ho)
    rw [(hu.touched.sameShape p).extent] at hb
    exact hheld.inside p a ho' hlo hhi b hb

lemma setPermissions (hheld : Held h s base limit bytes) (hwf : h.WF) (hs : s.WF h)
    (lo size : Nat) (r w x : Bool) :
    Held h (AddressSpace.setPermissions h s lo size r w x) base limit bytes where
  view a hle hlt := by rw [setPermissions_view hwf hs, hheld.view a hle hlt]
  inside p a ho hle hlt b hb := by
    refine hheld.inside p a ((owns_of_mem_iff fun q => ?_).mp ho) hle hlt b hb
    rw [(setPermissions_fields h s lo size r w x).1]
    exact mem_sortMaps

end Held

namespace Region

variable {lo hi : Nat} {bytes bytes' : Nat → UInt8}

lemma held (hreg : Region h s base limit bytes) : Held h s base limit bytes :=
  ⟨hreg.view, hreg.inside⟩

lemma replaced (hreg : Region h s base limit bytes) (hwf : h.WF) (hwf' : h'.WF) (hs : s.WF h)
    {new : MemoryMapPtr} (hr : Replaced h s h' s' new lo hi) {r w x : Bool}
    (hp : Protected s s' lo hi r w x) (hapart : limit ≤ lo ∨ hi ≤ base) :
    Region h' s' base limit bytes := by
  obtain ⟨hview, hinside⟩ := hreg.held.replaced hwf hwf' hs hr hapart
  refine ⟨hview, hinside, fun a hmod hlo hhi => ?_⟩
  rw [hp.writable, if_neg (by omega)]
  exact hreg.writable a hmod hlo hhi

lemma evolves (hreg : Region h s base limit bytes) (hs : s.WF h) (he : Heap.Evolves h h')
    (hview : AddressSpace.view h' s = AddressSpace.view h s) : Region h' s base limit bytes where
  view a hlo hhi := by rw [hview, hreg.view a hlo hhi]
  inside p a ho hlo hhi b hb := by
    have hshape : ∀ q ∈ s.maps, Heap.SameShape h h' q := fun q hq => he.shape q (hs.live q hq)
    rw [(hshape p ho.mem).extent] at hb
    exact hreg.inside p a ((Owns.sameShape hshape).mp ho) hlo hhi b hb
  writable := hreg.writable

lemma updates (hreg : Region h s base limit bytes) {v : Nat → Option UInt8}
    (hu : Updates h s h' s' v) (hv : ∀ a, base ≤ a → a < limit → v a = some (bytes' a)) :
    Region h' s' base limit bytes' := by
  obtain ⟨hview, hinside⟩ := hreg.held.updates hu hv
  refine ⟨hview, hinside, fun a hmod hlo hhi => ?_⟩
  rw [hu.accessed.canWrite]
  exact hreg.writable a hmod hlo hhi

lemma setPermissions (hreg : Region h s base limit bytes) (hwf : h.WF) (hs : s.WF h) {size : Nat}
    (hlo : lo % 4096 = 0) (hsize : size % 4096 = 0) (hfits : lo + size < 2 ^ 64) (r w x : Bool)
    (hapart : limit ≤ lo ∨ lo + size ≤ base) :
    Region h (AddressSpace.setPermissions h s lo size r w x) base limit bytes := by
  obtain ⟨hview, hinside⟩ := hreg.held.setPermissions hwf hs lo size r w x
  refine ⟨hview, hinside, fun a hmod hle hlt => ?_⟩
  rw [(setPermissions_perms h s lo size r w x a).2.1, if_neg]
  · exact hreg.writable a hmod hle hlt
  unfold permissionPages
  rw [alignDownToPage_of_aligned (by omega) hlo, roundUpToPage_of_aligned (by omega) hsize,
    wrap64_of_lt hfits, mem_pagesIn hlo]
  omega

end Region

end AddressSpace

namespace World

open AddressSpace

variable {lo hi : Nat}

/-- Every region outside of `[lo, hi)` of space `i` is still there. -/
def RegionsKept (w w' : World) (i lo hi : Nat) : Prop :=
  ∀ (j : Nat) (s : AddressSpace) (base limit : Nat) (bytes : Nat → UInt8), w.spaces[j]? = some s →
    Region w.heap s base limit bytes → (j = i → limit ≤ lo ∨ hi ≤ base) →
      ∃ s', w'.spaces[j]? = some s' ∧ s'.addrMask = s.addrMask ∧
        Region w'.heap s' base limit bytes

lemma RegionsKept.refl (w : World) (i lo hi : Nat) : RegionsKept w w i lo hi :=
  fun _ s _ _ _ hj hreg _ => ⟨s, hj, rfl, hreg⟩

variable {w : World} {i : Nat} {s s' : AddressSpace} {h' : Heap}

lemma regionsKept_put (hw : w.WF) (hi' : w.spaces[i]? = some s) (he : Heap.Evolves w.heap h')
    (hmask : s'.addrMask = s.addrMask)
    (hown : ∀ base limit bytes, Region w.heap s base limit bytes → limit ≤ lo ∨ hi ≤ base → Region
      h' s' base limit bytes)
    (hother : ∀ (j : Nat) (t : AddressSpace), w.spaces[j]? = some t → j ≠ i → view h' t = view
      w.heap t) : RegionsKept w (w.put i s' h') i lo hi := by
  intro j t base limit bytes hj hreg hapart
  by_cases hji : j = i
  · subst hji
    obtain rfl : s = t := Option.mem_unique hi' hj
    exact ⟨s', put_self hi', hmask, hown base limit bytes hreg (hapart rfl)⟩
  exact ⟨t, (put_of_ne hji).trans hj, rfl,
    hreg.evolves (hw.space j t hj) he (hother j t hj hji)⟩

lemma regionsKept_replaced (hw : w.WF) (hi' : w.spaces[i]? = some s) {new : MemoryMapPtr}
    (hr : Replaced w.heap s h' s' new lo hi) {r wr x : Bool} (hp : Protected s s' lo hi r wr x) :
    RegionsKept w (w.put i s' h') i lo hi := by
  have hheap := hw.heap
  refine regionsKept_put hw hi' (hr.grows.evolves hheap) hr.addrMask ?_ ?_
  · intro base limit bytes hreg hapart
    exact hreg.replaced hheap hr.grows.wf (hw.space i s hi') hr hp hapart
  intro j t hj _
  have ht := hw.space j t hj
  exact view_kept hheap hr.grows.wf ht (ht.evolves (hr.grows.evolves hheap)) fun p hpt =>
    hr.grows.kept hheap (ht.live p hpt)

lemma regionsKept_updates (hw : w.WF) (hi' : w.spaces[i]? = some s) {v : Nat → Option UInt8}
    (hu : Updates w.heap s h' s' v) (hv : ∀ a, a < lo ∨ hi ≤ a → v a = view w.heap s a) :
    RegionsKept w (w.put i s' h') i lo hi := by
  refine regionsKept_put hw hi' (hu.touched.evolves hw.heap) hu.accessed.addrMask ?_ ?_
  · intro base limit bytes hreg hapart
    refine hreg.updates hu fun a hle hlt => ?_
    rw [hv a (by omega), hreg.view a hle hlt]
  intro j t hj hji
  exact hw.view_of_ne hi' hj hji hu

lemma regionsKept_protect {size : Nat} (hw : w.WF) (hi' : w.spaces[i]? = some s)
    (hlo : lo % 4096 = 0) (hsize : size % 4096 = 0) (hfits : lo + size < 2 ^ 64) (r wr x : Bool) :
    RegionsKept w (w.put i (setPermissions w.heap s lo size r wr x) w.heap) i lo (lo + size) := by
  have hheap := hw.heap
  refine regionsKept_put hw hi' ((Heap.Grows.refl hheap).evolves hheap)
    (setPermissions_fields w.heap s lo size r wr x).2.1 ?_ fun _ _ _ _ => rfl
  intro base limit bytes hreg hapart
  exact hreg.setPermissions hheap (hw.space i s hi') hlo hsize hfits r wr x hapart

end World

end Vmill
