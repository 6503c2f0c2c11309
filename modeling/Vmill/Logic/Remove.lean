import Vmill.Logic.Space

/-!
# Cutting an interval out of the ranges (`RemoveRange`)

The pieces make up the rest of the range, unless the interval overlaps the range only at its start
(`CutsHead`): that shape falls into the last branch of the source, which keeps `[mapBase, base)`, an
inverted and hence empty range.
-/

namespace Vmill

open Base

namespace Heap

variable {h : Heap}

/-- Ranges were added, none of them copy-on-write. -/
structure Grows (h h' : Heap) : Prop where
  ext : Extends h h'
  wf : h'.WF
  links : ∀ q q', (h'.obj q).kind = .copyOnWrite q' → (h.obj q).kind = .copyOnWrite q'
  uncached : ∀ q, h.next ≤ q → q < h'.next → (h'.obj q).codeVersionIsValid = false

namespace Grows

variable {h' h'' : Heap} {p : MemoryMapPtr}

lemma refl (hwf : h.WF) : Grows h h :=
  ⟨Extends.refl h, hwf, fun _ _ hq => hq, fun _ hq hlt => absurd hlt hq.not_gt⟩

lemma trans (h1 : Grows h h') (h2 : Grows h' h'') : Grows h h'' := by
  refine ⟨h1.ext.trans h2.ext, h2.wf, fun q q' hq => h1.links q q' (h2.links q q' hq), ?_⟩
  intro q hq hlt
  by_cases hq' : q < h'.next
  · rw [h2.ext.obj q hq']
    exact h1.uncached q hq hq'
  · exact h2.uncached q (Nat.not_lt.mp hq') hlt

lemma notParent (hg : Grows h h') (hp : h.NotParent p) : h'.NotParent p :=
  fun q hq => hp q (hg.links q p hq)

lemma extent (hg : Grows h h') (hp : p < h.next) : h'.extent p = h.extent p := by
  unfold Heap.extent
  rw [hg.ext.obj p hp]

lemma kept (hg : Grows h h') (hwf : h.WF) (hp : p < h.next) :
    Kept h h' p := hg.ext.kept hwf hg.wf hp

lemma notParent_fresh (hg : Grows h h') (hwf : h.WF) (hp : h.next ≤ p) : h'.NotParent p := by
  intro q hq
  exact absurd (hwf.parent_lt (hg.links q p hq)) (Nat.not_lt.mpr hp)

end Grows

lemma grows_alloc (hwf : h.WF) {r : MappedRange} (hr : ∀ q, r.kind ≠ .copyOnWrite q)
    (hcode : r.codeVersionIsValid = false) : Grows h (h.alloc r).1 := by
  refine ⟨extends_alloc h r, hwf.alloc hr, fun q q' hq => ?_, fun q hq hlt => ?_⟩
  · by_cases hqn : q = h.next
    · rw [hqn, alloc_obj_self] at hq
      exact absurd hq (hr q')
    · rwa [alloc_obj_of_ne h r hqn] at hq
  have hqn : q = h.next := Nat.le_antisymm (Nat.lt_succ_iff.mp hlt) hq
  rwa [hqn, alloc_obj_self]

lemma Copied.grows {h' : Heap} {p p' : MemoryMapPtr} {b l : Nat} (hc : Copied h h' p p' b l) :
    Grows h h' := by
  refine ⟨hc.ext, hc.wf, fun q q' hq => ?_, fun q hq hlt => ?_⟩
  · by_cases hqn : q < h.next
    · rwa [hc.ext.obj q hqn] at hq
    by_cases hqp : q = p'
    · rw [hqp] at hq
      exact absurd hq (hc.notCow q')
    have hge : h'.next ≤ q := by
      rw [hc.next]
      exact Nat.lt_of_le_of_ne (Nat.not_lt.mp hqn) (fun he => hqp (by rw [hc.ptr, he]))
    rw [hc.wf.unused q hge] at hq
    simp at hq
  have hqp : q = p' := by
    rw [hc.ptr]
    rw [hc.next] at hlt
    exact Nat.le_antisymm (Nat.lt_succ_iff.mp hlt) hq
  rw [hqp]
  exact hc.uncached

end Heap

namespace AddressSpace

variable {h h' : Heap} {x y : MemoryMapPtr} {b l base limit : Nat} {ranges : List MemoryMapPtr}

/-- `y` is a part of `x`, or `x` itself. -/
structure Piece (h h' : Heap) (x y : MemoryMapPtr) : Prop where
  live : y < h'.next
  fresh : y = x ∨ h.next ≤ y
  inside : h'.extent y ⊆ h.extent x
  invalid : (h'.obj y).kind = .invalid ↔ (h.obj x).kind = .invalid
  empty : (h'.obj y).kind = .empty ↔ (h.obj x).kind = .empty
  held : ∀ a ∈ h'.extent y, h'.byte y a = h.byte x a
  paged : (h.obj x).Paged → (h'.obj y).Paged

namespace Piece

variable {h1 : Heap}

lemma grow (hp : Piece h h1 x y) (hwf1 : h1.WF) (hg : Heap.Grows h1 h') : Piece h h' x y where
  live := hp.live.trans_le hg.ext.next
  fresh := hp.fresh
  inside := by rw [hg.extent hp.live]; exact hp.inside
  invalid := by rw [hg.ext.obj y hp.live]; exact hp.invalid
  empty := by rw [hg.ext.obj y hp.live]; exact hp.empty
  held a ha := by
    rw [hg.extent hp.live] at ha
    rw [hg.ext.byte hwf1 hg.wf hp.live]
    exact hp.held a ha
  paged hx := by rw [hg.ext.obj y hp.live]; exact hp.paged hx

lemma before (hp : Piece h1 h' x y) (hwf : h.WF) (hg : Heap.Grows h h1) (hx : x < h.next) :
    Piece h h' x y where
  live := hp.live
  fresh := hp.fresh.imp id (fun hy => hg.ext.next.trans hy)
  inside := by rw [← hg.extent hx]; exact hp.inside
  invalid := by rw [← hg.ext.obj x hx]; exact hp.invalid
  empty := by rw [← hg.ext.obj x hx]; exact hp.empty
  held a ha := by rw [hp.held a ha, hg.ext.byte hwf hg.wf hx]
  paged hpg := hp.paged (by rwa [hg.ext.obj x hx])

end Piece

lemma piece_of_copied (hc : Heap.Copied h h' x y b l) (hin : ∀ a, b ≤ a → a < l → a ∈ h.extent x)
    (hpg : (h.obj x).Paged → b % 4096 = 0 ∧ l % 4096 = 0 ∧ l < 2 ^ 64) : Piece h h' x y where
  live := by
    rw [hc.next, hc.ptr]
    exact Nat.lt_succ_self _
  fresh := .inr (Nat.le_of_eq hc.ptr.symm)
  inside a ha := by
    obtain ⟨hab, hal⟩ := ha
    rw [hc.base] at hab
    rw [hc.limit] at hal
    exact hin a hab hal
  invalid := hc.invalid
  empty := hc.empty
  held a ha := by
    obtain ⟨hab, hal⟩ := ha
    rw [hc.base] at hab
    rw [hc.limit] at hal
    exact hc.held a (Heap.contains_iff.mpr (hin a hab hal)) hab hal
  paged hx := by
    obtain ⟨hb, hl, hlt⟩ := hpg hx
    exact ⟨by rw [hc.base]; exact hb, by rw [hc.limit]; exact hl, by rw [hc.limit]; exact hlt⟩

/-- `[base, limit)` overlaps the range at its start, and only there. -/
def CutsHead (h : Heap) (base limit : Nat) (x : MemoryMapPtr) : Prop :=
  base < (h.obj x).baseAddress ∧ (h.obj x).baseAddress < limit ∧
    limit < (h.obj x).limitAddress
deriving Decidable

/-- The range has an address in the interval. -/
def Overlaps (h : Heap) (base limit : Nat) (x : MemoryMapPtr) : Prop :=
  base < (h.obj x).limitAddress ∧ (h.obj x).baseAddress < limit

/-- What is kept of a range when `[base, limit)` is removed. -/
structure Cut (h h' : Heap) (base limit : Nat) (x : MemoryMapPtr) (ys : List MemoryMapPtr) :
    Prop where
  piece : ∀ y ∈ ys, Piece h h' x y
  whole : ys = [x] ∨ Overlaps h base limit x
  gone : Overlaps h base limit x → base ≤ (h.obj x).baseAddress →
    (h.obj x).limitAddress ≤ limit → ys = []
  apart : Apart h'.extent ys
  clear : ∀ y ∈ ys, (h'.obj y).limitAddress ≤ base ∨ limit ≤ (h'.obj y).baseAddress
  bounded : ∀ y ∈ ys, (h'.obj y).limitAddress ≤ max (h.obj x).limitAddress limit
  -- all that lies outside the interval is kept, except when the head is cut
  cover : ¬ CutsHead h base limit x → ∀ a ∈ h.extent x, a < base ∨ limit ≤ a →
    ∃ y ∈ ys, a ∈ h'.extent y
  proper : ¬ CutsHead h base limit x → (h.obj x).baseAddress < (h.obj x).limitAddress →
    ∀ y ∈ ys, (h'.obj y).baseAddress < (h'.obj y).limitAddress
  lost : CutsHead h base limit x → ∀ y ∈ ys, ∀ a, a ∉ h'.extent y
  edges : ∀ y ∈ ys,
    ((h'.obj y).baseAddress = (h.obj x).baseAddress ∨ (h'.obj y).baseAddress = limit) ∧
      ((h'.obj y).limitAddress = (h.obj x).limitAddress ∨ (h'.obj y).limitAddress = base)

lemma Cut.eq_or_overlaps {ys : List MemoryMapPtr} (hc : Cut h h' base limit x ys) (hy : y ∈ ys) :
    y = x ∨ Overlaps h base limit x := by
  refine hc.whole.imp_left fun hys => ?_
  rw [hys] at hy
  exact List.mem_singleton.mp hy

lemma Cut.outside {ys : List MemoryMapPtr} (hc : Cut h h' base limit x ys) (hy : y ∈ ys) {a : Nat}
    (ha : a ∈ h'.extent y) : a < base ∨ limit ≤ a :=
  (hc.clear y hy).imp ha.2.trans_le fun hle => hle.trans ha.1

lemma mem_extent_copied {a : Nat} (hc : Heap.Copied h h' x y b l) :
    a ∈ h'.extent y ↔ b ≤ a ∧ a < l := by
  rw [Heap.mem_extent, hc.base, hc.limit]

lemma cut_one (hc : Heap.Copied h h' x y b l) (hover : Overlaps h base limit x)
    (hpg : (h.obj x).Paged → b % 4096 = 0 ∧ l % 4096 = 0 ∧ l < 2 ^ 64)
    (hpart : (h.obj x).baseAddress < base ∨ limit < (h.obj x).limitAddress)
    (hin : ∀ a, b ≤ a → a < l → a ∈ h.extent x) (hclear : l ≤ base ∨ limit ≤ b)
    (hbound : l ≤ max (h.obj x).limitAddress limit)
    (hcover : ¬ CutsHead h base limit x → ∀ a ∈ h.extent x, a < base ∨ limit ≤ a → b ≤ a ∧ a < l)
    (hproper : ¬ CutsHead h base limit x → b < l) (hlost : CutsHead h base limit x → l ≤ b)
    (hedges : (b = (h.obj x).baseAddress ∨ b = limit) ∧ (l = (h.obj x).limitAddress ∨ l = base)) :
    Cut h h' base limit x [y] := by
  refine ⟨?_, .inr hover, fun _ hlo hhi => by omega, List.pairwise_singleton _ _, ?_, ?_, ?_, ?_,
    ?_, ?_⟩
  · intro y' hy'
    rw [List.mem_singleton.mp hy']
    exact piece_of_copied hc hin hpg
  · intro y' hy'
    rwa [List.mem_singleton.mp hy', hc.base, hc.limit]
  · intro y' hy'
    rwa [List.mem_singleton.mp hy', hc.limit]
  · intro hno a ha hout
    exact ⟨y, List.mem_singleton_self y, (mem_extent_copied hc).mpr (hcover hno a ha hout)⟩
  · intro hno _ y' hy'
    rw [List.mem_singleton.mp hy', hc.base, hc.limit]
    exact hproper hno
  · intro hcut y' hy' a ha
    rw [List.mem_singleton.mp hy', mem_extent_copied hc] at ha
    have := hlost hcut
    omega
  intro y' hy'
  rwa [List.mem_singleton.mp hy', hc.base, hc.limit]

lemma cut_two {h1 h2 : Heap} (hwf : h.WF) {low high : MemoryMapPtr} (hx : x < h.next)
    (hb : base % 4096 = 0) (hl : limit % 4096 = 0) (hle : base ≤ limit) (hl64 : limit < 2 ^ 64)
    (hlow : (h.obj x).baseAddress < base) (hhigh : limit < (h.obj x).limitAddress)
    (hc1 : Heap.Copied h h1 x low (h.obj x).baseAddress base)
    (hc2 : Heap.Copied h1 h2 x high limit (h.obj x).limitAddress) :
    Cut h h2 base limit x [low, high] := by
  have hobj : h1.obj x = h.obj x := hc1.ext.obj x hx
  have hp1 : Piece h h2 x low := by
    refine (piece_of_copied hc1 (fun a hab hal => ⟨hab, by omega⟩) fun hpg => ?_).grow hc1.wf
      hc2.grows
    exact ⟨hpg.base, hb, by omega⟩
  have hp2 : Piece h h2 x high := by
    refine Piece.before (piece_of_copied hc2 (fun a hab hal => ?_) fun hpg => ?_) hwf hc1.grows hx
    · rw [Heap.mem_extent, hobj]
      exact ⟨by omega, hal⟩
    rw [hobj] at hpg
    exact ⟨hl, hpg.limit, hpg.lt⟩
  have hlowlt : low < h1.next := by
    rw [hc1.next, hc1.ptr]
    exact Nat.lt_succ_self _
  have hlowobj : h2.obj low = h1.obj low := hc2.ext.obj low hlowlt
  have hmem1 : ∀ a, a ∈ h2.extent low ↔ (h.obj x).baseAddress ≤ a ∧ a < base := by
    intro a
    rw [Heap.mem_extent, hlowobj, hc1.base, hc1.limit]
  have hmem2 : ∀ a, a ∈ h2.extent high ↔ limit ≤ a ∧ a < (h.obj x).limitAddress := by
    intro a
    exact mem_extent_copied hc2
  have hboth : ∀ y ∈ [low, high], y = low ∨ y = high := by simp
  refine ⟨?_, .inr ⟨by omega, by omega⟩, fun _ hlo => by omega, ?_, ?_, ?_, ?_, ?_, ?_, ?_⟩
  · intro y hy
    rcases hboth y hy with rfl | rfl
    · exact hp1
    · exact hp2
  · refine List.pairwise_cons.mpr ⟨fun y hy => ?_, List.pairwise_singleton _ _⟩
    rw [List.mem_singleton.mp hy]
    refine Set.disjoint_left.mpr fun a ha ha' => ?_
    rw [hmem1] at ha
    rw [hmem2] at ha'
    omega
  · intro y hy
    rcases hboth y hy with rfl | rfl
    · rw [hlowobj, hc1.limit]
      exact .inl le_rfl
    rw [hc2.base]
    exact .inr le_rfl
  · intro y hy
    rcases hboth y hy with rfl | rfl
    · rw [hlowobj, hc1.limit]
      omega
    rw [hc2.limit]
    omega
  · intro _ a ha hout
    obtain ⟨hab, hal⟩ := ha
    rcases hout with hout | hout
    · exact ⟨low, by simp, (hmem1 a).mpr ⟨hab, hout⟩⟩
    · exact ⟨high, by simp, (hmem2 a).mpr ⟨hout, hal⟩⟩
  · intro _ _ y hy
    rcases hboth y hy with rfl | rfl
    · rwa [hlowobj, hc1.base, hc1.limit]
    · rwa [hc2.base, hc2.limit]
  · intro hcut
    exact absurd hcut.1 (by omega)
  intro y hy
  rcases hboth y hy with rfl | rfl
  · rw [hlowobj, hc1.base, hc1.limit]
    exact ⟨.inl rfl, .inr rfl⟩
  rw [hc2.base, hc2.limit]
  exact ⟨.inr rfl, .inl rfl⟩

/-- What is left of a range after the pages of another are taken out. -/
lemma removeFromRange_spec (hwf : h.WF) {ys : List MemoryMapPtr} (hx : x < h.next)
    (hlt : (h.obj x).limitAddress < 2 ^ 64) (hb : base % 4096 = 0) (hl : limit % 4096 = 0)
    (hle : base ≤ limit) (hl64 : limit < 2 ^ 64)
    (hr : removeFromRange h x base limit = some (h', ys)) :
    Heap.Grows h h' ∧ Cut h h' base limit x ys := by
  simp only [removeFromRange] at hr
  split at hr
  · -- no overlap: the range itself is kept
    rename_i hno
    cases hr
    have hself : Piece h h x x :=
      ⟨hx, .inl rfl, fun _ ha => ha, Iff.rfl, Iff.rfl, fun _ _ => rfl, fun hp => hp⟩
    refine ⟨Heap.Grows.refl hwf, ?_, .inl rfl, fun ⟨_, _⟩ => by omega,
      List.pairwise_singleton _ _, ?_, ?_, ?_, ?_, ?_, ?_⟩
    · intro y hy
      rwa [List.mem_singleton.mp hy]
    · intro y hy
      rwa [List.mem_singleton.mp hy]
    · intro y hy
      rw [List.mem_singleton.mp hy]
      omega
    · intro _ a ha _
      exact ⟨x, List.mem_singleton_self x, ha⟩
    · intro _ hproper y hy
      rwa [List.mem_singleton.mp hy]
    · rintro ⟨hc1, hc2, hc3⟩
      omega
    · intro y hy
      rw [List.mem_singleton.mp hy]
      exact ⟨.inl rfl, .inl rfl⟩
  split at hr
  · -- the range lies in the interval: nothing is kept
    rename_i hin
    cases hr
    refine ⟨Heap.Grows.refl hwf, ?_, .inr ⟨by omega, by omega⟩, fun _ _ _ => rfl,
      List.Pairwise.nil, ?_, ?_, ?_, ?_, ?_, ?_⟩
    all_goals try exact fun y hy => absurd hy List.not_mem_nil
    · rintro _ a ⟨hab, hal⟩ hout
      omega
    · exact nofun
    · exact nofun
  split at hr
  · -- the interval lies strictly inside the range: both ends are kept
    rename_i hinside
    split at hr
    · simp at hr
    rename_i h1 low hlow
    split at hr
    · simp at hr
    rename_i h2 high hhigh
    cases hr
    have hc1 := Heap.copy_spec hwf hlt hlow
    have hc2 := Heap.copy_spec hc1.wf (by rwa [hc1.ext.obj x hx]) hhigh
    exact ⟨hc1.grows.trans hc2.grows,
      cut_two hwf hx hb hl hle hl64 hinside.1 hinside.2 hc1 hc2⟩
  split at hr
  · -- the interval is a prefix of the range
    rename_i hprefix
    split at hr
    · simp at hr
    rename_i h1 high hhigh
    cases hr
    have hc := Heap.copy_spec hwf hlt hhigh
    refine ⟨hc.grows, cut_one hc ⟨by omega, by omega⟩
      (fun hpg => ⟨hl, hpg.limit, hpg.lt⟩) (by omega) ?_ (.inr le_rfl) ?_ ?_ ?_ ?_
      ⟨.inr rfl, .inl rfl⟩⟩
    · intro a hab hal
      exact ⟨by omega, hal⟩
    · omega
    · rintro _ a ⟨hab, hal⟩ hout
      omega
    · intro _
      omega
    · rintro ⟨hc1, _, _⟩
      omega
  -- the last branch: a suffix is removed, or the head is cut
  rename_i hno hnin hninside hnprefix
  split at hr
  · simp at hr
  rename_i h1 low hlow
  cases hr
  have hc := Heap.copy_spec hwf hlt hlow
  refine ⟨hc.grows, cut_one hc ⟨by omega, by omega⟩
    (fun hpg => ⟨hpg.base, hb, by omega⟩) (by omega) ?_ (.inl le_rfl) ?_ ?_ ?_ ?_
    ⟨.inl rfl, .inr rfl⟩⟩
  · intro a hab hal
    exact ⟨hab, by omega⟩
  · omega
  · rintro hncut a ⟨hab, hal⟩ hout
    unfold CutsHead at hncut
    omega
  · intro hncut
    unfold CutsHead at hncut
    omega
  · rintro ⟨hc1, _, _⟩
    omega

lemma removeFromRange_isSome (hwf : h.WF) (hx : x < h.next)
    (hlt : (h.obj x).limitAddress < 2 ^ 64) (hb : base % 4096 = 0) (hl : limit % 4096 = 0)
    (hcow : Overlaps h base limit x → ∀ q, (h.obj x).kind ≠ .copyOnWrite q)
    (harr : (h.obj x).IsArray → (h.obj x).Paged ∧ ¬ CutsHead h base limit x) :
    ∃ h' ys, removeFromRange h x base limit = some (h', ys) := by
  simp only [removeFromRange]
  split
  · exact ⟨_, _, rfl⟩
  rename_i hno
  have hk := hcow ⟨by omega, by omega⟩
  split
  · exact ⟨_, _, rfl⟩
  split
  · rename_i hinside
    obtain ⟨h1, low, hlow⟩ := Heap.copy_isSome (b := (h.obj x).baseAddress) (l := base) hk
      fun ha => ⟨(harr ha).1.base, hb, by omega, by omega⟩
    have hobj : h1.obj x = h.obj x := (Heap.copy_spec hwf hlt hlow).ext.obj x hx
    obtain ⟨h2, high, hhigh⟩ := Heap.copy_isSome (h := h1) (p := x) (b := limit)
      (l := (h.obj x).limitAddress) (by rwa [hobj]) fun ha => by
        rw [hobj] at ha
        exact ⟨hl, (harr ha).1.limit, hlt, by omega⟩
    rw [hlow]
    simp only [hhigh]
    exact ⟨_, _, rfl⟩
  split
  · obtain ⟨h1, high, hhigh⟩ := Heap.copy_isSome (b := limit)
      (l := (h.obj x).limitAddress) hk fun ha => ⟨hl, (harr ha).1.limit, hlt, by omega⟩
    rw [hhigh]
    exact ⟨_, _, rfl⟩
  obtain ⟨h1, low, hlow⟩ := Heap.copy_isSome (b := (h.obj x).baseAddress) (l := base) hk
    fun ha => by
      obtain ⟨hpg, hncut⟩ := harr ha
      unfold CutsHead at hncut
      exact ⟨hpg.base, hb, by omega, by omega⟩
  rw [hlow]
  exact ⟨_, _, rfl⟩

namespace Cut

variable {h1 : Heap} {ys : List MemoryMapPtr}

lemma grow (hc : Cut h h1 base limit x ys) (hwf1 : h1.WF) (hg : Heap.Grows h1 h') :
    Cut h h' base limit x ys := by
  have hext : ∀ y ∈ ys, h'.extent y = h1.extent y := fun y hy => hg.extent (hc.piece y hy).live
  have hobj : ∀ y ∈ ys, h'.obj y = h1.obj y := fun y hy => hg.ext.obj y (hc.piece y hy).live
  refine ⟨fun y hy => (hc.piece y hy).grow hwf1 hg, hc.whole, hc.gone, ?_, ?_, ?_, ?_, ?_, ?_, ?_⟩
  · exact hc.apart.imp_of_mem (fun {y z} hy hz hd => by rw [hext y hy, hext z hz]; exact hd)
  · intro y hy
    rw [hobj y hy]
    exact hc.clear y hy
  · intro y hy
    rw [hobj y hy]
    exact hc.bounded y hy
  · intro hno a ha hout
    obtain ⟨y, hy, hay⟩ := hc.cover hno a ha hout
    exact ⟨y, hy, (hext y hy).symm ▸ hay⟩
  · intro hno hproper y hy
    rw [hobj y hy]
    exact hc.proper hno hproper y hy
  · intro hcut y hy a ha
    exact hc.lost hcut y hy a (hext y hy ▸ ha)
  intro y hy
  rw [hobj y hy]
  exact hc.edges y hy

lemma before (hc : Cut h1 h' base limit x ys) (hwf : h.WF) (hg : Heap.Grows h h1)
    (hx : x < h.next) : Cut h h' base limit x ys := by
  have hobj : h1.obj x = h.obj x := hg.ext.obj x hx
  have hcut : CutsHead h1 base limit x ↔ CutsHead h base limit x := by
    unfold CutsHead
    rw [hobj]
  have hover : Overlaps h1 base limit x ↔ Overlaps h base limit x := by
    unfold Overlaps
    rw [hobj]
  refine ⟨fun y hy => (hc.piece y hy).before hwf hg hx, hc.whole.imp_right hover.mp,
    fun ho => ?_, hc.apart, hc.clear, ?_, ?_, ?_, ?_, ?_⟩
  · rw [← hobj]
    exact hc.gone (hover.mpr ho)
  · intro y hy
    rw [← hobj]
    exact hc.bounded y hy
  · intro hno a ha hout
    exact hc.cover (fun hh => hno (hcut.mp hh)) a (by rwa [hg.extent hx]) hout
  · intro hno hproper
    exact hc.proper (fun hh => hno (hcut.mp hh)) (by rwa [hobj])
  · intro hh
    exact hc.lost (hcut.mpr hh)
  · intro y hy
    rw [← hobj]
    exact hc.edges y hy

end Cut

lemma removeRange_spec (hwf : h.WF) {kept : List MemoryMapPtr} (hlive : ∀ x ∈ ranges, x < h.next)
    (hlt : ∀ x ∈ ranges, (h.obj x).limitAddress < 2 ^ 64) (hb : base % 4096 = 0)
    (hl : limit % 4096 = 0) (hle : base ≤ limit) (hl64 : limit < 2 ^ 64)
    (hr : removeRange h ranges base limit = some (h', kept)) :
    Heap.Grows h h' ∧ Refines (Cut h h' base limit) ranges kept := by
  induction ranges generalizing h kept with
  | nil =>
    cases hr
    exact ⟨Heap.Grows.refl hwf, .nil⟩
  | cons x rest ih =>
  have hx := hlive x (.head _)
  simp only [removeRange] at hr
  split at hr
  · simp at hr
  rename_i h1 ys hhead
  split at hr
  · simp at hr
  rename_i h2 keptRest htail
  cases hr
  obtain ⟨hg1, hcut⟩ := removeFromRange_spec hwf hx (hlt x (.head _)) hb hl hle
    hl64 hhead
  have hrest : ∀ y ∈ rest, y < h.next := fun y hy => hlive y (.tail _ hy)
  obtain ⟨hg2, href⟩ := ih hg1.wf
    (fun y hy => (hrest y hy).trans_le hg1.ext.next)
    (fun y hy => by
      rw [hg1.ext.obj y (hrest y hy)]
      exact hlt y (.tail _ hy)) htail
  exact ⟨hg1.trans hg2, .cons (hcut.grow hg1.wf hg2)
    (href.imp fun y hy zs hz => hz.before hwf hg1 (hrest y hy))⟩

lemma removeRange_isSome (hwf : h.WF) (hlive : ∀ x ∈ ranges, x < h.next)
    (hlt : ∀ x ∈ ranges, (h.obj x).limitAddress < 2 ^ 64) (hb : base % 4096 = 0)
    (hl : limit % 4096 = 0) (hle : base ≤ limit) (hl64 : limit < 2 ^ 64)
    (hcow : ∀ x ∈ ranges, Overlaps h base limit x → ∀ q, (h.obj x).kind ≠ .copyOnWrite q)
    (harr : ∀ x ∈ ranges, (h.obj x).IsArray → (h.obj x).Paged ∧ ¬ CutsHead h base limit x) :
    ∃ h' kept, removeRange h ranges base limit = some (h', kept) := by
  induction ranges generalizing h with
  | nil => exact ⟨h, [], rfl⟩
  | cons x rest ih =>
  have hmem : ∀ y ∈ rest, y ∈ x :: rest := fun y hy => List.mem_cons_of_mem _ hy
  have hx : x ∈ x :: rest := (.head _)
  obtain ⟨h1, ys, hhead⟩ := removeFromRange_isSome hwf (hlive x hx) (hlt x hx) hb hl
    (hcow x hx) (harr x hx)
  obtain ⟨hg1, _⟩ := removeFromRange_spec hwf (hlive x hx) (hlt x hx) hb hl hle hl64 hhead
  have hobj : ∀ y ∈ rest, h1.obj y = h.obj y := fun y hy =>
    hg1.ext.obj y (hlive y (hmem y hy))
  obtain ⟨h2, kept, htail⟩ := ih hg1.wf
    (fun y hy => (hlive y (hmem y hy)).trans_le hg1.ext.next)
    (fun y hy => by rw [hobj y hy]; exact hlt y (hmem y hy))
    (fun y hy => by unfold Overlaps; rw [hobj y hy]; exact hcow y (hmem y hy))
    (fun y hy => by unfold CutsHead; rw [hobj y hy]; exact harr y (hmem y hy))
  refine ⟨h2, ys ++ kept, ?_⟩
  simp only [removeRange, hhead, htail]

end AddressSpace

end Vmill
