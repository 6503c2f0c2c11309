import Vmill.Logic.World

/-!
# Page boundaries and holes

The boundaries of all ranges are on pages in every reachable address space. If in addition no range
is empty, what `FindHole` returns is free.
-/

namespace Vmill

open Base

namespace AddressSpace

variable {h h' : Heap} {s : AddressSpace}

/-- Every range consists of pages, or ends at the mask. -/
def PageBoundaries (h : Heap) (s : AddressSpace) : Prop :=
  ∀ p ∈ s.maps, (h.obj p).baseAddress % 4096 = 0 ∧
    ((h.obj p).limitAddress % 4096 = 0 ∨ (h.obj p).limitAddress = s.addrMask)
deriving Decidable

lemma PageBoundaries.sameShape (hb : PageBoundaries h s)
    (hk : ∀ p ∈ s.maps, Heap.SameShape h h' p) : PageBoundaries h' s := by
  intro p hp
  rw [(hk p hp).base, (hk p hp).limit]
  exact hb p hp

lemma Replaced.pageBoundaries {s' : AddressSpace} {new : MemoryMapPtr} {base limit : Nat}
    (hr : Replaced h s h' s' new base limit) (hb : PageBoundaries h s)
    (hi : Interval s base limit) : PageBoundaries h' s' := by
  have hbm := hi.baseMod
  have hlm := hi.limitMod
  intro p hp
  rw [hr.addrMask]
  rcases hr.mem_cases hp with ⟨x, hx, ys, hc, hys⟩ | hn
  · obtain ⟨hbase, hlimit⟩ := hc.edges p hys
    have hedge := hb x hx
    omega
  rw [hn, hr.newBase, hr.newLimit]
  exact ⟨hbm, .inl hlm⟩

lemma pageBoundaries_byShape (cfg : Config) : World.ByShape cfg PageBoundaries where
  shape := PageBoundaries.sameShape
  perm hb _ hmask hperm p hp := by
    rw [hmask]
    exact hb p (hperm.mem_iff.mp hp)
  copied hc hb p hp := by
    obtain ⟨maps', hf, hperm⟩ := hc.forked
    obtain ⟨x, hx, ys, ⟨y, rfl, hy⟩, hys⟩ := hf.clones.origin (hperm.mem_iff.mp hp)
    rw [List.mem_singleton.mp hys, hy.base, hy.limit, hc.addrMask]
    exact hb x hx
  new {h} hwf p hp := by
    obtain ⟨hmaps, hobj⟩ := World.new_maps cfg h
    rw [hmaps] at hp
    rw [List.mem_singleton.mp hp, hobj, (new_spec cfg hwf).2.2.2]
    exact ⟨rfl, .inr rfl⟩

lemma addrMask_byShape (cfg : Config) :
    World.ByShape cfg (fun _ s => s.addrMask = getAddressMask cfg) where
  shape hm _ := hm
  perm hm _ hmask _ := hmask.trans hm
  copied hc hm := hc.addrMask.trans hm
  new hwf := (new_spec cfg hwf).2.2.2

end AddressSpace

open AddressSpace in
lemma World.Reachable.pageBoundaries {cfg : Config} {w : World} (hr : World.Reachable cfg w) :
    w.Each PageBoundaries := by
  refine hr.each (pageBoundaries_byShape cfg) ?_
  intro h h' s s' base size hs hp hb hrep
  exact hrep.pageBoundaries hp (hb.interval hs.toLaidOut)

namespace AddressSpace

variable {high : MemoryMapPtr} {above below : List MemoryMapPtr} {size hole : Nat}

/-- No range is empty or inverted. -/
def NoneEmpty (h : Heap) (s : AddressSpace) : Prop :=
  ∀ p ∈ s.maps, (h.obj p).baseAddress < (h.obj p).limitAddress
deriving Decidable

/-- Nothing is mapped in `[lo, hi)`. -/
def Free (h : Heap) (s : AddressSpace) (lo hi : Nat) : Prop :=
  ∀ p a, Owns h s p a → ¬ (lo ≤ a ∧ a < hi)

variable {h : Heap} {s : AddressSpace}

lemma free_of_invalid (hwf : h.WF) (hs : s.WF h) {q : MemoryMapPtr} (hq : q ∈ s.maps)
    (hinvalid : h.isValid q = false) : Free h s (h.obj q).baseAddress (h.obj q).limitAddress := by
  intro p a ho hin
  have hpq := hs.apart.eq_of_mem ho.mem hq ho.inside (Heap.mem_extent.mpr hin)
  rw [Heap.isValid_eq_false_iff hwf, ← hpq] at hinvalid
  exact ho.valid hinvalid

lemma free_between (hs : s.WF h) {low : MemoryMapPtr}
    (hmaps : s.maps.reverse = above ++ high :: low :: below)
    (hlow : (h.obj low).baseAddress < (h.obj low).limitAddress) :
    Free h s (h.obj low).limitAddress (h.obj high).baseAddress := by
  have hsorted : s.maps.reverse.Pairwise
      (fun p q => (h.obj q).baseAddress ≤ (h.obj p).baseAddress) := List.pairwise_reverse.mpr hs.sorted
  rw [hmaps] at hsorted
  obtain ⟨_, hhigh, habove⟩ := List.pairwise_append.mp hsorted
  obtain ⟨_, hlows⟩ := List.pairwise_cons.mp hhigh
  obtain ⟨hbelow, _⟩ := List.pairwise_cons.mp hlows
  have hmem : low ∈ s.maps := by
    rw [← List.mem_reverse, hmaps]
    simp
  intro p a ho hin
  obtain ⟨hpa, hap⟩ := Heap.mem_extent.mp ho.inside
  have hp := List.mem_reverse.mpr ho.mem
  rw [hmaps] at hp
  simp only [List.mem_append, List.mem_cons] at hp
  rcases hp with hp | rfl | rfl | hp
  · have hle := habove p hp high (.head _)
    omega
  · omega
  · omega
  have hle := hbelow p hp
  have heq := hs.apart.eq_of_mem ho.mem hmem
    (Heap.mem_extent.mpr ⟨hle, by omega⟩) (Heap.mem_extent.mpr ⟨le_rfl, hlow⟩)
  rw [heq] at hap
  omega

lemma gapBelow_free (hwf : h.WF) (hs : s.WF h) (hb : PageBoundaries h s)
    (hmaps : s.maps.reverse = above ++ high :: below) {highBase lowLimit : Nat}
    (hgap : gapBelow h high below = some (highBase, lowLimit)) :
    (NoneEmpty h s → Free h s lowLimit highBase) ∧
      (highBase % 4096 = 0 ∨ highBase = s.addrMask) := by
  have hmem : high ∈ s.maps := by
    rw [← List.mem_reverse, hmaps]
    simp
  have hedges := hb high hmem
  unfold gapBelow at hgap
  split at hgap
  case isTrue hvalid =>
      cases hgap
      exact ⟨fun _ => free_of_invalid hwf hs hmem (by simpa using hvalid), hedges.2⟩
  case isFalse hvalid =>
      split at hgap
      case h_1 => exact nomatch hgap
      case h_2 low below' =>
          cases hgap
          have hlow : low ∈ s.maps := by
            rw [← List.mem_reverse, hmaps]
            simp
          exact ⟨fun hne => free_between hs hmaps (hne low hlow), .inl hedges.1⟩

/-- A hole that is found lies in the bounds and is free. -/
lemma findHoleLoop_free (hwf : h.WF) (hs : s.WF h) (hb : PageBoundaries h s) {lo hi : Nat}
    (hlt : lo < hi) (hhi : hi ≤ s.addrMask) (hmod : hi % 4096 = 0) (hsize : size % 4096 = 0)
    {list : List MemoryMapPtr} (hmaps : s.maps.reverse = above ++ list)
    (hr : findHoleLoop (fun a b => some (sub64 a b)) h lo hi size list = some (some hole)) :
    hole % 4096 = 0 ∧ lo ≤ hole ∧ hole + size ≤ hi ∧
      (NoneEmpty h s → Free h s hole (hole + size)) := by
  have hmask : s.addrMask < 2 ^ 64 := by
    rcases hs.mask with hm | hm <;> rw [hm] <;> decide
  induction list generalizing above with
  | nil => exact nomatch hr
  | cons high below ih =>
  have hrest : findHoleLoop (fun a b => some (sub64 a b)) h lo hi size below =
      some (some hole) → _ :=
    ih (hmaps.trans (List.append_cons above high below))
  unfold findHoleLoop at hr
  split at hr
  case h_1 => exact nomatch hr
  case h_2 highBase lowLimit hgap =>
      obtain ⟨hfree, hedge⟩ := gapBelow_free hwf hs hb hmaps hgap
      split at hr
      · exact nomatch hr
      split at hr
      · exact nomatch hr
      split at hr
      · exact hrest hr
      have hroom : max lo lowLimit ≤ min hi highBase := by omega
      simp only [sub64_of_le hroom (by omega)] at hr
      split at hr
      · exact hrest hr
      case isFalse hfits =>
          have hle : size ≤ min hi highBase := by omega
          simp only [sub64_of_le hle (by omega)] at hr
          split at hr
          · obtain rfl := Option.some.inj (Option.some.inj hr)
            refine ⟨by omega, by omega, by omega, fun hne p a ho hin => hfree hne p a ho ?_⟩
            omega
          · exact nomatch hr

lemma findHole_free (hwf : h.WF) (hs : s.WF h) (hb : PageBoundaries h s) {min_ max_ : Nat}
    (hmax : max_ ≤ s.addrMask) (hlt : size < 2 ^ 64) (hsize : size % 4096 = 0)
    (hr : s.findHole h min_ max_ size = some (some hole)) :
    hole % 4096 = 0 ∧ alignDownToPage min_ ≤ hole ∧ hole + size ≤ max_ ∧
      (NoneEmpty h s → Free h s hole (hole + size)) := by
  have hround := roundUpToPage_of_aligned hlt hsize
  have hdown := alignDownToPage_le max_
  unfold findHole findHoleWith at hr
  split at hr
  · exact nomatch hr
  simp only [hround] at hr
  split at hr
  · exact nomatch hr
  split at hr
  · exact nomatch hr
  obtain ⟨hmod, hlo, hhi, hfree⟩ := findHoleLoop_free hwf hs hb (by omega) (by omega)
    (alignDownToPage_mod max_) hsize (List.nil_append s.maps.reverse).symm hr
  exact ⟨hmod, hlo, by omega, hfree⟩

end AddressSpace

end Vmill
