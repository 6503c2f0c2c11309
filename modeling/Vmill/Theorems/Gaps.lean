import Vmill.Logic.Hole

/-!
# When a hole is found

`FindHole` looks at one gap at a time, and unmapped pages that lie next to each other may belong to
different gaps, one for each `RemoveMap`.
-/

namespace Vmill

open Base

namespace AddressSpace

variable {p : MemoryMapPtr} {rest list : List MemoryMapPtr} {upper lower lo hi size : Nat}

/-- `size` bytes of whole unmapped pages from `a` on, in `[lo, hi)`. -/
structure UnmappedRun (h : Heap) (s : AddressSpace) (lo hi size a : Nat) : Prop where
  pos : 0 < size
  aligned : a % 4096 = 0
  inside : lo ≤ a ∧ a + size ≤ hi
  pages : a + size ≤ s.addrMask + 1
  unmapped : Free h s a (a + size)

/-- An invalid range, or the space between two ranges. -/
inductive Gap (h : Heap) (s : AddressSpace) : Nat → Nat → Prop
  | invalid (p : MemoryMapPtr) (mem : p ∈ s.maps) (notValid : h.isValid p = false) :
      Gap h s (h.obj p).baseAddress (h.obj p).limitAddress
  | between (below above : List MemoryMapPtr) (low high : MemoryMapPtr)
      (maps : s.maps = below ++ low :: high :: above) (valid : h.isValid high = true) :
      Gap h s (h.obj low).limitAddress (h.obj high).baseAddress

/-- The gaps in the order of the search. -/
def gapsFrom (h : Heap) : List MemoryMapPtr → List (Nat × Nat)
  | [] => []
  | p :: rest =>
    match gapBelow h p rest with
    | some gap => gap :: gapsFrom h rest
    | none => gapsFrom h rest

/-- There is room in the part of the gap below `hi` and above `lo`. -/
def Fits (lo hi size : Nat) (gap : Nat × Nat) : Prop := size ≤ min hi gap.1 - max lo gap.2

/-- The ranges follow each other downwards. -/
structure Descending (h : Heap) (list : List MemoryMapPtr) : Prop where
  order : list.Pairwise fun p q => (h.obj q).limitAddress ≤ (h.obj p).baseAddress
  proper : ∀ p ∈ list, (h.obj p).baseAddress < (h.obj p).limitAddress
  bounded : ∀ p ∈ list, (h.obj p).limitAddress < 2 ^ 64

lemma Descending.tail {h : Heap} (hd : Descending h (p :: rest)) : Descending h rest :=
  ⟨(List.pairwise_cons.mp hd.order).2, fun q hq => hd.proper q (.tail _ hq),
    fun q hq => hd.bounded q (.tail _ hq)⟩

lemma Descending.gap {h : Heap} (hd : Descending h (p :: rest))
    (hgap : gapBelow h p rest = some (upper, lower)) :
    lower ≤ upper ∧ upper < 2 ^ 64 ∧
      ∀ q ∈ rest, (h.obj q).limitAddress ≤ upper := by
  have hproper := hd.proper p (.head _)
  have hbounded := hd.bounded p (.head _)
  have horder := (List.pairwise_cons.mp hd.order).1
  unfold gapBelow at hgap
  split at hgap
  · cases hgap
    refine ⟨by omega, by omega, fun q hq => ?_⟩
    have hle := horder q hq
    omega
  split at hgap
  · exact nomatch hgap
  case h_2 low below =>
      cases hgap
      exact ⟨horder low (.head _), by omega, horder⟩

lemma gapsFrom_le {h : Heap} (hd : Descending h list) {top : Nat}
    (htop : ∀ q ∈ list, (h.obj q).limitAddress ≤ top) : ∀ gap ∈ gapsFrom h list, gap.1 ≤ top := by
  induction list with
  | nil => intro gap hmem; cases hmem
  | cons p rest ih =>
  have hrest := ih hd.tail fun q hq => htop q (.tail _ hq)
  have hp := htop p (.head _)
  have hproper := hd.proper p (.head _)
  intro gap hmem
  unfold gapsFrom at hmem
  split at hmem
  case h_1 first hgap =>
      rcases List.mem_cons.mp hmem with rfl | hmem
      · unfold gapBelow at hgap
        split at hgap
        · cases hgap
          exact hp
        split at hgap
        · cases hgap
        cases hgap
        show (h.obj p).baseAddress ≤ top
        omega
      · exact hrest gap hmem
  case h_2 => exact hrest gap hmem

/-- The loop finds a hole exactly if some gap can hold it. -/
lemma findHoleLoop_found {h : Heap} (hlt : lo < hi) (hhi : hi < 2 ^ 64) (hpos : 0 < size)
    (hd : Descending h list) :
    ∃ r, findHoleLoop (fun a b => some (sub64 a b)) h lo hi size list = some r ∧
      (r.isSome = true ↔ ∃ gap ∈ gapsFrom h list, Fits lo hi size gap) := by
  induction list with
  | nil => exact ⟨none, rfl, by simp [gapsFrom]⟩
  | cons p rest ih =>
  obtain ⟨r, hr, hiff⟩ := ih hd.tail
  unfold findHoleLoop gapsFrom
  cases hgap : gapBelow h p rest with
  | none =>
    -- the lowest range is valid, and there is nothing below it
    have hrest : rest = [] := by
      unfold gapBelow at hgap
      split at hgap
      · cases hgap
      split at hgap
      · rfl
      · cases hgap
    subst hrest
    exact ⟨none, rfl, by simp [gapsFrom]⟩
  | some gap =>
  obtain ⟨upper, lower⟩ := gap
  obtain ⟨hle, hbounded, hbelow⟩ := hd.gap hgap
  have hlower := gapsFrom_le hd.tail hbelow
  simp only [List.mem_cons, exists_eq_or_imp, Fits]
  by_cases hend : upper < lo
  · refine ⟨none, if_pos hend, ?_⟩
    simp only [Option.isSome_none, Bool.false_eq_true, false_iff, not_or, not_exists,
      not_and]
    refine ⟨by omega, fun gap hmem hfits => ?_⟩
    have hgapLe := hlower gap hmem
    omega
  rw [if_neg hend, if_neg (by omega)]
  by_cases habove : lower ≥ hi
  · refine ⟨r, by rw [if_pos habove]; exact hr, hiff.trans ?_⟩
    simp only [Fits]
    constructor
    · exact .inr
    rintro (hfits | hfits)
    · omega
    · exact hfits
  rw [if_neg habove, sub64_of_le (by omega) (by omega)]
  by_cases hsmall : min hi upper - max lo lower < size
  · refine ⟨r, by rw [if_pos hsmall]; exact hr, hiff.trans ?_⟩
    simp only [Fits]
    constructor
    · exact .inr
    rintro (hfits | hfits)
    · omega
    · exact hfits
  have hroom : size ≤ min hi upper := by omega
  refine ⟨some (min hi upper - size), ?_, by simp; omega⟩
  rw [if_neg hsmall, sub64_of_le hroom (by omega)]
  exact if_pos (by omega)

variable {h : Heap} {s : AddressSpace}

lemma order_of_noneEmpty (hs : s.WF h) (hne : NoneEmpty h s) :
    s.maps.Pairwise fun p q => (h.obj p).limitAddress ≤ (h.obj q).baseAddress := by
  refine (hs.sorted.and hs.apart).imp_of_mem ?_
  rintro p q hp hq ⟨hle, hdis⟩
  by_contra hlt
  exact Set.disjoint_left.mp hdis (Heap.mem_extent.mpr ⟨hle, by omega⟩)
    (Heap.mem_extent.mpr ⟨le_rfl, hne q hq⟩)

lemma descending_of_noneEmpty (hs : s.WF h) (hne : NoneEmpty h s) :
    Descending h s.maps.reverse := by
  refine ⟨List.pairwise_reverse.mpr (order_of_noneEmpty hs hne), ?_, ?_⟩
  · intro p hp
    exact hne p (List.mem_reverse.mp hp)
  intro p hp
  exact hs.toLaidOut.limit_lt p (List.mem_reverse.mp hp)

lemma mem_gapsFrom {gap : Nat × Nat} :
    gap ∈ gapsFrom h list ↔
      ∃ above p rest, list = above ++ p :: rest ∧ gapBelow h p rest = some gap := by
  induction list with
  | nil => simp [gapsFrom]
  | cons p rest ih =>
  have hsplit : (∃ above q rest', p :: rest = above ++ q :: rest' ∧
        gapBelow h q rest' = some gap) ↔
      gapBelow h p rest = some gap ∨ ∃ above q rest', rest = above ++ q :: rest' ∧
        gapBelow h q rest' = some gap := by
    constructor
    · rintro ⟨above, q, rest', heq, hq⟩
      cases above with
      | nil =>
        obtain ⟨rfl, rfl⟩ := List.cons.inj heq
        exact .inl hq
      | cons x above =>
      obtain ⟨rfl, rfl⟩ := List.cons.inj heq
      exact .inr ⟨above, q, rest', rfl, hq⟩
    rintro (hq | ⟨above, q, rest', rfl, hq⟩)
    · exact ⟨[], p, rest, rfl, hq⟩
    · exact ⟨p :: above, q, rest', rfl, hq⟩
  rw [hsplit, ← ih, gapsFrom]
  cases hgap : gapBelow h p rest with
  | none => simp
  | some first => simp [eq_comm]

lemma gap_iff : Gap h s lower upper ↔ (upper, lower) ∈ gapsFrom h s.maps.reverse := by
  rw [mem_gapsFrom]
  constructor
  · intro hg
    cases hg with
    | invalid p mem notValid =>
      obtain ⟨above, rest, heq⟩ := List.append_of_mem (List.mem_reverse.mpr mem)
      exact ⟨above, p, rest, heq, by simp [gapBelow, notValid]⟩
    | between below above low high maps valid =>
    refine ⟨above.reverse, high, low :: below.reverse, ?_, by simp [gapBelow, valid]⟩
    rw [maps]
    simp
  rintro ⟨above, p, rest, heq, hgap⟩
  unfold gapBelow at hgap
  split at hgap
  case isTrue hv =>
      cases hgap
      refine .invalid p ?_ (by simpa using hv)
      rw [← List.mem_reverse, heq]
      simp
  case isFalse hv =>
      split at hgap
      · exact nomatch hgap
      case h_2 low below =>
          cases hgap
          refine .between below.reverse above.reverse low p ?_ (by simpa using hv)
          rw [← List.reverse_reverse s.maps, heq]
          simp

lemma Gap.free (hwf : h.WF) (hs : s.WF h) (hne : NoneEmpty h s) (hg : Gap h s lower upper) :
    Free h s lower upper := by
  cases hg with
  | invalid p mem notValid => exact free_of_invalid hwf hs mem notValid
  | between below above low high maps valid =>
  have hmaps : s.maps.reverse = above.reverse ++ high :: low :: below.reverse := by
    rw [maps]
    simp
  exact free_between hs hmaps (hne low (by rw [maps]; simp))

lemma Gap.bounds (hs : s.WF h) (hne : NoneEmpty h s) (hb : PageBoundaries h s)
    (hg : Gap h s lower upper) : lower % 4096 = 0 ∧ upper ≤ s.addrMask := by
  cases hg with
  | invalid p mem notValid => exact ⟨(hb p mem).1, hs.bounded p mem⟩
  | between below above low high maps valid =>
  have hlow : low ∈ s.maps := by
    rw [maps]
    simp
  have hhigh : high ∈ s.maps := by
    rw [maps]
    simp
  have horder := order_of_noneEmpty hs hne
  rw [maps] at horder
  have hle := (List.pairwise_cons.mp (List.pairwise_append.mp horder).2.1).1 high
    (.head _)
  have hproper := hne high hhigh
  have hbound := hs.bounded high hhigh
  -- nothing lies above the end of the address space
  rcases (hb low hlow).2 with hmod | hend
  · exact ⟨hmod, by omega⟩
  · omega

lemma fits_iff_run (hlower : lower % 4096 = 0) (hlo : lo % 4096 = 0) (hpos : 0 < size) :
    Fits lo hi size (upper, lower) ↔
      ∃ a, a % 4096 = 0 ∧ (lo ≤ a ∧ a + size ≤ hi) ∧ lower ≤ a ∧ a + size ≤ upper := by
  unfold Fits
  constructor
  · intro hfits
    exact ⟨max lo lower, by omega, by omega, by omega, by omega⟩
  rintro ⟨a, _, _, _, _⟩
  omega

lemma findHole_found (hs : s.WF h) (hne : NoneEmpty h s) (hb : PageBoundaries h s)
    {min_ max_ : Nat} (hpos : 0 < roundUpToPage size) :
    (∃ hole, s.findHole h min_ max_ size = some (some hole)) ↔
      ∃ lower upper a, Gap h s lower upper ∧ a % 4096 = 0 ∧
        (alignDownToPage min_ ≤ a ∧ a + roundUpToPage size ≤ alignDownToPage max_) ∧
        lower ≤ a ∧ a + roundUpToPage size ≤ upper := by
  have hlo := alignDownToPage_mod min_
  have hhi := alignDownToPage_lt max_
  have hsize : size ≠ 0 := by
    rintro rfl
    exact absurd hpos (by decide)
  unfold findHole findHoleWith
  rw [if_neg hsize]
  generalize alignDownToPage min_ = lo at hlo ⊢
  generalize alignDownToPage max_ = hi at hhi ⊢
  generalize roundUpToPage size = rounded at hpos ⊢
  by_cases hlt : lo < hi
  · simp only [if_neg hlt.not_ge, sub64_of_le hlt.le hhi]
    by_cases hroom : rounded > hi - lo
    · rw [if_pos hroom]
      constructor
      · rintro ⟨hole, heq⟩
        exact nomatch heq
      rintro ⟨lower, upper, a, _, _, _, _, _⟩
      omega
    rw [if_neg hroom]
    obtain ⟨r, hr, hiff⟩ := findHoleLoop_found hlt hhi hpos (descending_of_noneEmpty hs hne)
    rw [hr]
    have hfound : (∃ hole, some r = some (some hole)) ↔ r.isSome = true := by
      rw [Option.isSome_iff_exists]
      simp
    rw [hfound, hiff]
    constructor
    · rintro ⟨⟨upper, lower⟩, hmem, hfits⟩
      have hg := gap_iff.mpr hmem
      obtain ⟨a, ha⟩ := (fits_iff_run (hg.bounds hs hne hb).1 hlo hpos).mp hfits
      exact ⟨lower, upper, a, hg, ha⟩
    rintro ⟨lower, upper, a, hg, ha⟩
    exact ⟨(upper, lower), gap_iff.mp hg,
      (fits_iff_run (hg.bounds hs hne hb).1 hlo hpos).mpr ⟨a, ha⟩⟩
  simp only [if_pos (Nat.not_lt.mp hlt)]
  constructor
  · rintro ⟨hole, heq⟩
    exact nomatch heq
  rintro ⟨lower, upper, a, _, _, _, _, _⟩
  omega

end AddressSpace

open AddressSpace

/-- **Completeness of `FindHole`.** In every reachable address space without empty ranges: if there
is a run of unmapped pages, then `FindHole` finds a hole exactly if such a run lies in one gap. -/
theorem findHole_iff_gap {cfg : Config} {w : World} (hw : World.Reachable cfg w) {i : Nat}
    {s : AddressSpace} (hs : w.spaces[i]? = some s) (hne : NoneEmpty w.heap s)
    {min_ max_ size a : Nat}
    (hrun : UnmappedRun w.heap s (alignDownToPage min_) (alignDownToPage max_)
      (roundUpToPage size) a) :
    (∃ hole, s.findHole w.heap min_ max_ size = some (some hole)) ↔
      ∃ b lower upper, UnmappedRun w.heap s (alignDownToPage min_) (alignDownToPage max_)
        (roundUpToPage size) b ∧ Gap w.heap s lower upper ∧
        lower ≤ b ∧ b + roundUpToPage size ≤ upper := by
  have hwf := hw.wf
  have hswf := hwf.space i s hs
  have hb := hw.pageBoundaries i s hs
  rw [findHole_found hswf hne hb hrun.pos]
  constructor
  · rintro ⟨lower, upper, b, hg, haligned, hinside, hlow, hup⟩
    refine ⟨b, lower, upper, ⟨hrun.pos, haligned, hinside, ?_, ?_⟩, hg, hlow, hup⟩
    · have hbound := (hg.bounds hswf hne hb).2
      omega
    · intro p c ho hin
      exact hg.free hwf.heap hswf hne p c ho (by omega)
  · rintro ⟨b, lower, upper, hrun', hg, hlow, hup⟩
    exact ⟨lower, upper, b, hg, hrun'.aligned, hrun'.inside, hlow, hup⟩

lemma AddressSpace.free_of_allInvalid {h : Heap} (hwf : h.WF) {s : AddressSpace}
    (hinv : ∀ p ∈ s.maps, h.isValid p = false) (lo hi : Nat) : Free h s lo hi := by
  intro p a ho
  exact absurd ((Heap.isValid_eq_false_iff hwf).mp (hinv p ho.mem)) ho.valid

/-- Three pages are unmapped at once: two of them are found. -/
theorem findHole_iff_gap_found :
    ∃ (w : World) (s : AddressSpace), World.Reachable (amd64 false) w ∧ w.spaces[0]? = some s ∧
      ∃ hole, s.findHole w.heap 0x10000 0x13000 0x1abc = some (some hole) := by
  obtain ⟨os, w, s, hrun, hi, hm, hne, hinv, hgap⟩ := World.run_eval (amd64 false)
    [.new, .addMap 0 0x10000 0x3000 none 0, .removeMap 0 0x10000 0x3000]
    (fun w s => s.addrMask = 2 ^ 64 - 1 ∧ NoneEmpty w.heap s ∧
      (∀ p ∈ s.maps, w.heap.isValid p = false) ∧
      ∃ p ∈ s.maps, (w.heap.obj p).baseAddress = 0x10000 ∧ (w.heap.obj p).limitAddress = 0x13000)
    (by decide +kernel)
  have hw : World.Reachable (amd64 false) w := ⟨_, os, by decide +kernel, hrun⟩
  obtain ⟨p, hp, hbase, hlimit⟩ := hgap
  have hrun' : UnmappedRun w.heap s (alignDownToPage 0x10000) (alignDownToPage 0x13000)
      (roundUpToPage 0x1abc) 0x10000 :=
    ⟨by decide, by decide, by decide, by rw [hm]; decide, free_of_allInvalid hw.wf.heap hinv _ _⟩
  refine ⟨w, s, hw, hi, (findHole_iff_gap hw hi hne hrun').mpr
    ⟨0x10000, _, _, hrun', .invalid p hp (hinv p hp), ?_, ?_⟩⟩
  · rw [hbase]
  · rw [hlimit]
    decide

/-- Two pages are unmapped one after the other: they are not found together, although no
range is empty. -/
theorem findHole_split_run :
    ∃ (w : World) (s : AddressSpace), World.Reachable (amd64 false) w ∧ w.spaces[0]? = some s ∧
      NoneEmpty w.heap s ∧
      UnmappedRun w.heap s (alignDownToPage 0x10000) (alignDownToPage 0x12000)
        (roundUpToPage 0x2000) 0x10000 ∧
      s.findHole w.heap 0x10000 0x12000 0x2000 = some none := by
  obtain ⟨w, s, hw, hi, hm, hne, hinv, hnone⟩ := World.reachable_eval (amd64 false)
    [.new, .addMap 0 0x10000 0x2000 none 0, .removeMap 0 0x10000 0x1000,
      .removeMap 0 0x11000 0x1000]
    (fun w s => s.addrMask = 2 ^ 64 - 1 ∧ NoneEmpty w.heap s ∧
      (∀ p ∈ s.maps, w.heap.isValid p = false) ∧
      s.findHole w.heap 0x10000 0x12000 0x2000 = some none)
    (by decide +kernel)
  exact ⟨w, s, hw, hi, hne, ⟨by decide, by decide, by decide, by rw [hm]; decide,
    free_of_allInvalid hw.wf.heap hinv _ _⟩, hnone⟩

end Vmill
