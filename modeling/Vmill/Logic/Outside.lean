import Vmill.Logic.Region

/-!
# What lies outside an interval

A call that maps an interval and later unmaps it leaves an invalid range there, and cuts the ranges
that reach over its bounds. What the interval held before is not put back.
-/

namespace Vmill

open Base

namespace AddressSpace

/-- The bounds of a range, and whether it is valid. -/
def rangeOf (h : Heap) (p : MemoryMapPtr) : Nat × Nat × Bool :=
  ((h.obj p).baseAddress, (h.obj p).limitAddress, h.isValid p)

/-- The ranges of an address space. -/
def rangeList (h : Heap) (s : AddressSpace) : List (Nat × Nat × Bool) := s.maps.map (rangeOf h)

/-- `[lo, hi)` overlaps a range with these bounds. -/
def overlapsRange (lo hi : Nat) (r : Nat × Nat × Bool) : Bool := decide (lo < r.2.1 ∧ r.1 < hi)

/-- The same ranges, valid or not, the same bytes and the same permissions. -/
structure Same (h : Heap) (s : AddressSpace) (h' : Heap) (s' : AddressSpace) : Prop where
  ranges : (rangeList h' s').Perm (rangeList h s)
  view : view h' s' = view h s
  readable : s'.pageIsReadable = s.pageIsReadable
  writable : s'.pageIsWritable = s.pageIsWritable
  executable : s'.pageIsExecutable = s.pageIsExecutable

lemma Same.refl (h : Heap) (s : AddressSpace) : Same h s h s := ⟨.refl _, rfl, rfl, rfl, rfl⟩

/-- The interval is one invalid range, and none of its pages has a permission. -/
structure Hollow (h : Heap) (s : AddressSpace) (lo hi : Nat) : Prop where
  alone : (rangeList h s).filter (overlapsRange lo hi) = [(lo, hi, false)]
  noPerms : ∀ a, a % 4096 = 0 → lo ≤ a → a < hi →
    s.pageIsReadable a = false ∧ s.pageIsWritable a = false ∧ s.pageIsExecutable a = false

/-- No range reaches over the bounds of the interval. -/
def NoneReachesOver (h : Heap) (s : AddressSpace) (lo hi : Nat) : Prop :=
  ∀ p ∈ s.maps, Overlaps h lo hi p →
    lo ≤ (h.obj p).baseAddress ∧ (h.obj p).limitAddress ≤ hi

/-- Nothing has changed outside of the interval, and no range reaches over its bounds. -/
structure SameOutside (h : Heap) (s : AddressSpace) (h' : Heap) (s' : AddressSpace)
    (lo hi : Nat) : Prop where
  ranges : ((rangeList h' s').filter fun r => !overlapsRange lo hi r).Perm
    ((rangeList h s).filter fun r => !overlapsRange lo hi r)
  inside : NoneReachesOver h' s' lo hi
  view : ∀ a, ¬ (lo ≤ a ∧ a < hi) → view h' s' a = view h s a
  readable : ∀ a, ¬ (a % 4096 = 0 ∧ lo ≤ a ∧ a < hi) → s'.pageIsReadable a = s.pageIsReadable a
  writable : ∀ a, ¬ (a % 4096 = 0 ∧ lo ≤ a ∧ a < hi) → s'.pageIsWritable a = s.pageIsWritable a
  executable : ∀ a, ¬ (a % 4096 = 0 ∧ lo ≤ a ∧ a < hi) →
    s'.pageIsExecutable a = s.pageIsExecutable a

variable {h h' h'' : Heap} {s s' s'' : AddressSpace} {new : MemoryMapPtr} {lo hi : Nat}

lemma Hollow.range (hv : Hollow h s lo hi) {p : MemoryMapPtr} (hp : p ∈ s.maps)
    (hover : Overlaps h lo hi p) :
    (h.obj p).baseAddress = lo ∧ (h.obj p).limitAddress = hi ∧ h.isValid p = false := by
  have hmem : rangeOf h p ∈ (rangeList h s).filter (overlapsRange lo hi) :=
    List.mem_filter.mpr ⟨List.mem_map_of_mem hp, decide_eq_true hover⟩
  rw [hv.alone, List.mem_singleton] at hmem
  simpa only [rangeOf, Prod.mk.injEq] using hmem

lemma Hollow.noneReachesOver (hv : Hollow h s lo hi) : NoneReachesOver h s lo hi := by
  intro p hp hover
  obtain ⟨hbase, hlimit, _⟩ := hv.range hp hover
  exact ⟨hbase.ge, hlimit.le⟩

lemma Hollow.view_eq_none (hv : Hollow h s lo hi) (hwf : h.WF) (hs : s.WF h) {a : Nat}
    (hlo : lo ≤ a) (hhi : a < hi) : AddressSpace.view h s a = none := by
  rw [AddressSpace.view_eq_none hwf hs]
  intro p ho
  obtain ⟨_, _, hinvalid⟩ := hv.range ho.mem ⟨hlo.trans_lt ho.inside.2, ho.inside.1.trans_lt hhi⟩
  exact ho.valid ((Heap.isValid_eq_false_iff hwf).mp hinvalid)

lemma NoneReachesOver.not_cutsHead (hn : NoneReachesOver h s lo hi) {p : MemoryMapPtr}
    (hp : p ∈ s.maps) : ¬ CutsHead h lo hi p := by
  rintro ⟨h1, h2, h3⟩
  have hin := hn p hp ⟨by omega, h2⟩
  omega

lemma rangeOf_eq (hwf : h.WF) (hwf' : h'.WF) {p : MemoryMapPtr} (hsame : Heap.SameShape h h' p) :
    rangeOf h' p = rangeOf h p := by
  have hvalid : h'.isValid p = h.isValid p := by
    rw [Bool.eq_iff_iff, Heap.isValid_iff hwf', Heap.isValid_iff hwf]
    exact not_congr hsame.invalid
  unfold rangeOf
  rw [hsame.base, hsame.limit, hvalid]

lemma kept_eq_filter {maps kept : List MemoryMapPtr} (href : Refines (Cut h h' lo hi) maps kept)
    (hn : ∀ p ∈ maps, Overlaps h lo hi p →
      lo ≤ (h.obj p).baseAddress ∧ (h.obj p).limitAddress ≤ hi) :
    kept = maps.filter fun p => !overlapsRange lo hi (rangeOf h p) := by
  induction href with
  | nil => rfl
  | @cons x ys xs zs hc _ ih =>
  have hrest := ih fun p hp => hn p (.tail _ hp)
  by_cases hover : Overlaps h lo hi x
  · have hin := hn x (.head _) hover
    have hx : overlapsRange lo hi (rangeOf h x) = true := decide_eq_true hover
    rw [hc.gone hover hin.1 hin.2, hrest, List.filter_cons_of_neg (by simp [hx])]
    rfl
  · have hx : overlapsRange lo hi (rangeOf h x) = false := decide_eq_false hover
    rw [hc.whole.resolve_right hover, hrest, List.filter_cons_of_pos (by simp [hx])]
    rfl

section Replaced

variable (hr : Replaced h s h' s' new lo hi)
include hr

lemma Replaced.rangeOf_new : rangeOf h' new = (lo, hi, h'.isValid new) := by
  unfold rangeOf
  rw [hr.newBase, hr.newLimit]

/-- Of the ranges afterwards, the interval overlaps the new one only. -/
lemma Replaced.overlapping (hlt : lo < hi) :
    (rangeList h' s').filter (overlapsRange lo hi) = [(lo, hi, h'.isValid new)] := by
  obtain ⟨kept, href, hperm⟩ := hr.maps
  have hnone : (kept.map (rangeOf h')).filter (overlapsRange lo hi) = [] := by
    refine List.filter_eq_nil_iff.mpr fun r hmem => ?_
    obtain ⟨y, hy, rfl⟩ := List.mem_map.mp hmem
    obtain ⟨x, _, ys, hc, hys⟩ := href.origin hy
    have hclear := hc.clear y hys
    refine fun hover => ?_
    obtain ⟨hlo, hhi⟩ : lo < (h'.obj y).limitAddress ∧ (h'.obj y).baseAddress < hi :=
      of_decide_eq_true hover
    omega
  have hnew : overlapsRange lo hi (lo, hi, h'.isValid new) = true := decide_eq_true ⟨hlt, hlt⟩
  have hfilter := (hperm.map (rangeOf h')).filter (overlapsRange lo hi)
  rw [List.map_append, List.filter_append, hnone, List.map_singleton, hr.rangeOf_new,
    List.filter_singleton, hnew] at hfilter
  exact List.perm_singleton.mp hfilter

/-- If no range reaches over the bounds, the other ranges are kept. -/
lemma Replaced.rangeList_perm (hwf : h.WF) (hs : s.WF h) (hn : NoneReachesOver h s lo hi) :
    (rangeList h' s').Perm
      ((rangeList h s).filter (fun r => !overlapsRange lo hi r) ++ [(lo, hi, h'.isValid new)]) := by
  obtain ⟨kept, href, hperm⟩ := hr.maps
  have hkept : kept.map (rangeOf h') = (rangeList h s).filter fun r => !overlapsRange lo hi r := by
    rw [rangeList, List.filter_map, kept_eq_filter href hn]
    refine List.map_congr_left fun p hp => rangeOf_eq hwf hr.grows.wf ?_
    have hobj := hr.grows.ext.obj p (hs.live p (List.mem_filter.mp hp).1)
    exact ⟨by rw [hobj], by rw [hobj], by rw [hobj]⟩
  have hmap := hperm.map (rangeOf h')
  rwa [List.map_append, hkept, List.map_singleton, hr.rangeOf_new] at hmap

lemma Replaced.sameOutside (hwf : h.WF) (hs : s.WF h) {r w x : Bool}
    (hp : Protected s s' lo hi r w x) (hn : NoneReachesOver h s lo hi) (hlt : lo < hi) :
    SameOutside h s h' s' lo hi where
  ranges := by
    have hnew : overlapsRange lo hi (lo, hi, h'.isValid new) = true := decide_eq_true ⟨hlt, hlt⟩
    have hfilter := (hr.rangeList_perm hwf hs hn).filter fun r => !overlapsRange lo hi r
    simpa [List.filter_filter, hnew] using hfilter
  inside p hp hover := by
    have hmem : rangeOf h' p ∈ (rangeList h' s').filter (overlapsRange lo hi) :=
      List.mem_filter.mpr ⟨List.mem_map_of_mem hp, decide_eq_true hover⟩
    rw [hr.overlapping hlt, List.mem_singleton, rangeOf, Prod.mk.injEq, Prod.mk.injEq] at hmem
    exact ⟨hmem.1.ge, hmem.2.1.le⟩
  view a hout := hr.view_outside hwf hr.grows.wf hs hout fun p ho => hn.not_cutsHead ho.mem
  readable a hout := by rw [hp.readable, if_neg hout]
  writable a hout := by rw [hp.writable, if_neg hout]
  executable a hout := by rw [hp.executable, if_neg hout]

end Replaced

lemma SameOutside.updates (hsame : SameOutside h s h' s' lo hi) {v : Nat → Option UInt8}
    (hwf : h'.WF) (hu : Updates h' s' h'' s'' v)
    (hv : ∀ a, ¬ (lo ≤ a ∧ a < hi) → v a = AddressSpace.view h' s' a) :
    SameOutside h s h'' s'' lo hi where
  ranges := by
    have hlist : rangeList h'' s'' = rangeList h' s' := by
      rw [rangeList, hu.accessed.maps]
      exact List.map_congr_left fun p _ =>
        rangeOf_eq hwf (hu.heapWF hwf) (hu.touched.sameShape p)
    rw [hlist]
    exact hsame.ranges
  inside p hp hover := by
    unfold Overlaps at hover
    rw [hu.touched.base, hu.touched.limit] at *
    exact hsame.inside p (hu.accessed.maps ▸ hp) hover
  view a hout := by rw [hu.view, hv a hout, hsame.view a hout]
  readable a hout := by rw [hu.accessed.canRead, hsame.readable a hout]
  writable a hout := by rw [hu.accessed.canWrite, hsame.writable a hout]
  executable a hout := by rw [hu.accessed.canExecute, hsame.executable a hout]

/-- An interval that was mapped and then unmapped: the address space is as it was if and only if the
interval was hollow. -/
lemma same_iff_hollow {h0 : Heap} {s0 : AddressSpace} (hwf0 : h0.WF) (hs0 : s0.WF h0) (hwf : h.WF)
    (hs : s.WF h) (hr : Replaced h s h' s' new lo hi) (hlt : lo < hi)
    (hkind : (h'.obj new).kind = .invalid) (hp : Protected s s' lo hi false false false)
    (hkept : Hollow h0 s0 lo hi → SameOutside h0 s0 h s lo hi) :
    Same h0 s0 h' s' ↔ Hollow h0 s0 lo hi := by
  have hinvalid : h'.isValid new = false := (Heap.isValid_eq_false_iff hr.grows.wf).mpr hkind
  constructor
  · intro hsame
    refine ⟨?_, fun a hmod hlo hhi => ?_⟩
    · have hfilter := hsame.ranges.filter (overlapsRange lo hi)
      rw [hr.overlapping hlt, hinvalid] at hfilter
      exact List.perm_singleton.mp hfilter.symm
    · rw [← hsame.readable, ← hsame.writable, ← hsame.executable, hp.readable, hp.writable,
        hp.executable, if_pos ⟨hmod, hlo, hhi⟩, if_pos ⟨hmod, hlo, hhi⟩, if_pos ⟨hmod, hlo, hhi⟩]
      exact ⟨rfl, rfl, rfl⟩
  intro hv
  have hout := hkept hv
  refine ⟨?_, funext fun a => ?_, funext fun a => ?_, funext fun a => ?_, funext fun a => ?_⟩
  · have hperm := hr.rangeList_perm hwf hs hout.inside
    rw [hinvalid, ← hv.alone] at hperm
    refine hperm.trans ((hout.ranges.append_right _).trans ?_)
    exact List.perm_append_comm.trans (List.filter_append_perm _ _)
  · by_cases hin : lo ≤ a ∧ a < hi
    · rw [hv.view_eq_none hwf0 hs0 hin.1 hin.2, hr.view_invalid hr.grows.wf hkind hin.1 hin.2]
    · rw [hr.view_outside hwf hr.grows.wf hs hin fun p ho => hout.inside.not_cutsHead ho.mem]
      exact hout.view a hin
  · rw [hp.readable]
    split
    case isTrue hin => exact (hv.noPerms a hin.1 hin.2.1 hin.2.2).1.symm
    case isFalse hin => exact hout.readable a hin
  · rw [hp.writable]
    split
    case isTrue hin => exact (hv.noPerms a hin.1 hin.2.1 hin.2.2).2.1.symm
    case isFalse hin => exact hout.writable a hin
  · rw [hp.executable]
    split
    case isTrue hin => exact (hv.noPerms a hin.1 hin.2.1 hin.2.2).2.2.symm
    case isFalse hin => exact hout.executable a hin

end AddressSpace

end Vmill
