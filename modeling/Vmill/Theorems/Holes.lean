import Vmill.Logic.Hole
import Vmill.Theorems.Layout

/-!
# Finding holes

`FindHole` takes the upper end of the first gap from the top that is large enough. In an address
space whose ranges are a partition, these are the invalid ranges (`findHole_highest`).
-/

namespace Vmill

open Base AddressSpace

namespace AddressSpace

variable {h : Heap} {maps rest : List MemoryMapPtr} {lo hi size addrMask : Nat} {p : MemoryMapPtr}
  {r : Option Nat} {sub : Nat → Nat → Option Nat}

/-- A page-aligned place inside an invalid range, and inside the bounds. -/
structure HoleAt (h : Heap) (lo hi size : Nat) (p : MemoryMapPtr) (a : Nat) : Prop where
  invalid : h.isValid p = false
  aligned : a % 4096 = 0
  inside : lo ≤ a ∧ a + size ≤ hi
  within : (h.obj p).baseAddress ≤ a ∧ a + size ≤ (h.obj p).limitAddress

/-- How much of the range is inside the bounds. -/
def room (h : Heap) (lo hi : Nat) (p : MemoryMapPtr) : Nat :=
  min hi (h.obj p).limitAddress - max lo (h.obj p).baseAddress

/-- The answer of `FindHole` that is right for these ranges: the highest hole, or that
no invalid range has room for one. -/
def HighestHole (h : Heap) (lo hi size : Nat) (maps : List MemoryMapPtr) : Option Nat → Prop
  | some hole => (∃ p ∈ maps, HoleAt h lo hi size p hole) ∧
      ∀ a, ∀ p ∈ maps, HoleAt h lo hi size p a → a ≤ hole
  | none => ∀ p ∈ maps, h.isValid p = false → room h lo hi p < size

/-- A subtraction that does not wrap around. -/
def checkedSub (a b : Nat) : Option Nat := if b ≤ a then some (a - b) else none

/-- The ranges fill `[lo, hi)` in order. -/
def Tiled (h : Heap) : Nat → List MemoryMapPtr → Nat → Prop
  | lo, [], hi => lo = hi
  | lo, p :: ps, hi => (h.obj p).baseAddress = lo ∧ lo < (h.obj p).limitAddress ∧
      Tiled h (h.obj p).limitAddress ps hi

lemma tiled_of_splits (hle : lo ≤ hi)
    (hsorted : maps.Pairwise fun p q => (h.obj p).baseAddress ≤ (h.obj q).baseAddress)
    (hproper : ∀ p ∈ maps, (h.obj p).baseAddress < (h.obj p).limitAddress)
    (hsplits : Splits h.extent maps { a | lo ≤ a ∧ a < hi }) : Tiled h lo maps hi := by
  induction maps generalizing lo with
  | nil =>
    by_contra hne
    obtain ⟨p, hp, _⟩ := (hsplits.cover lo).mp
      ⟨le_rfl, Nat.lt_of_le_of_ne hle fun heq => hne heq⟩
    cases hp
  | cons p ps ih =>
  obtain ⟨hfirst, hrest⟩ := List.pairwise_cons.mp hsorted
  obtain ⟨hdis, hapart⟩ := List.pairwise_cons.mp hsplits.apart
  have hp := hproper p (.head _)
  have hinside : ∀ q ∈ p :: ps, ∀ a, (h.obj q).baseAddress ≤ a →
      a < (h.obj q).limitAddress → lo ≤ a ∧ a < hi :=
    fun q hq a h1 h2 => (hsplits.cover a).mpr ⟨q, hq, Heap.mem_extent.mpr ⟨h1, h2⟩⟩
  have hbase : (h.obj p).baseAddress = lo := by
    have hin := hinside p (.head _) _ le_rfl hp
    obtain ⟨q, hq, hmem⟩ := (hsplits.cover lo).mp ⟨le_rfl, by omega⟩
    have hlo := (Heap.mem_extent.mp hmem).1
    rcases List.mem_cons.mp hq with rfl | hq
    · omega
    have := hfirst q hq
    omega
  have hend := hinside p (.head _) ((h.obj p).limitAddress - 1) (by omega) (by omega)
  -- the other ranges start behind this one
  have hbehind : ∀ q ∈ ps, (h.obj p).limitAddress ≤ (h.obj q).baseAddress := by
    intro q hq
    by_contra hlt
    have hq' := hproper q (.tail _ hq)
    exact Set.disjoint_left.mp (hdis q hq)
      (Heap.mem_extent.mpr ⟨hfirst q hq, Nat.lt_of_not_le hlt⟩)
      (Heap.mem_extent.mpr ⟨le_rfl, hq'⟩)
  refine ⟨hbase, by omega, ih (by omega) hrest
    (fun q hq => hproper q (.tail _ hq)) ⟨hapart, fun a => ?_⟩⟩
  constructor
  · rintro ⟨hge, hlt⟩
    obtain ⟨q, hq, hmem⟩ := (hsplits.cover a).mp ⟨by omega, hlt⟩
    rcases List.mem_cons.mp hq with rfl | hq
    · have := (Heap.mem_extent.mp hmem).2
      omega
    · exact ⟨q, hq, hmem⟩
  rintro ⟨q, hq, hmem⟩
  have hin := Heap.mem_extent.mp hmem
  have hb := hbehind q hq
  exact ⟨by omega, (hinside q (.tail _ hq) a hin.1 hin.2).2⟩

lemma Tiled.append (ht : Tiled h lo (maps ++ [p]) hi) :
    Tiled h lo maps (h.obj p).baseAddress ∧ (h.obj p).baseAddress < (h.obj p).limitAddress ∧
      (h.obj p).limitAddress = hi := by
  induction maps generalizing lo with
  | nil =>
    obtain ⟨hbase, hlt, hend⟩ := ht
    exact ⟨hbase.symm, by omega, hend⟩
  | cons q qs ih =>
  obtain ⟨hbase, hlt, hrest⟩ := ht
  obtain ⟨h1, h2, h3⟩ := ih hrest
  exact ⟨⟨hbase, hlt, h1⟩, h2, h3⟩

lemma Tiled.limit_le (ht : Tiled h lo maps hi) :
    lo ≤ hi ∧ ∀ p ∈ maps, (h.obj p).limitAddress ≤ hi := by
  induction maps generalizing lo with
  | nil => exact ⟨Nat.le_of_eq ht, nofun⟩
  | cons q qs ih =>
  obtain ⟨hbase, hlt, hrest⟩ := ht
  obtain ⟨hle, hall⟩ := ih hrest
  exact ⟨by omega, List.forall_mem_cons.mpr ⟨hle, hall⟩⟩

/-- Bounds for which the search does not wrap around. -/
structure HoleBounds (addrMask lo hi size : Nat) : Prop where
  lt : lo < hi
  top : hi ≤ addrMask
  mask : addrMask < 2 ^ 64
  hiAligned : hi % 4096 = 0
  sizeAligned : size % 4096 = 0
  pos : 0 < size

/-- The subtraction is right where it does not wrap around. -/
def SubOk (sub : Nat → Nat → Option Nat) : Prop :=
  ∀ a b, b ≤ a → a < 2 ^ 64 → sub a b = some (a - b)

lemma HighestHole.skip (hr : HighestHole h lo hi size rest r)
    (hno : h.isValid p = false → room h lo hi p < size) :
    HighestHole h lo hi size (p :: rest) r := by
  cases r with
  | none =>
    exact List.forall_mem_cons.mpr ⟨hno, hr⟩
  | some hole =>
  obtain ⟨⟨q, hq, hat⟩, hmax⟩ := hr
  refine ⟨⟨q, List.mem_cons_of_mem _ hq, hat⟩, fun a q' hq' hat' => ?_⟩
  rcases List.mem_cons.mp hq' with rfl | hq'
  · have hroom := hno hat'.invalid
    have h1 := hat'.inside
    have h2 := hat'.within
    unfold room at hroom
    omega
  · exact hmax a q' hq' hat'

lemma highestHole_below (hpos : 0 < size)
    (hbelow : ∀ p ∈ maps, h.isValid p = false → (h.obj p).limitAddress < lo) :
    HighestHole h lo hi size maps none := by
  intro p hp hinv
  have := hbelow p hp hinv
  unfold room
  omega

lemma highestHole_found (hb : HoleBounds addrMask lo hi size) (hinv : h.isValid p = false)
    (hbase : (h.obj p).baseAddress % 4096 = 0)
    (hlimit : (h.obj p).limitAddress % 4096 = 0 ∨ (h.obj p).limitAddress = addrMask)
    (hbelow : ∀ q ∈ rest, (h.obj q).limitAddress ≤ (h.obj p).baseAddress)
    (hroom : size ≤ room h lo hi p) :
    HighestHole h lo hi size (p :: rest) (some (min hi (h.obj p).limitAddress - size)) := by
  have h1 := hb.hiAligned
  have h2 := hb.sizeAligned
  have h3 := hb.top
  have h4 := hb.pos
  unfold room at hroom
  refine ⟨⟨p, (.head _), hinv, by omega, by omega, by omega⟩, fun a q hq hat => ?_⟩
  have h5 := hat.inside
  have h6 := hat.within
  rcases List.mem_cons.mp hq with rfl | hq
  · omega
  have := hbelow q hq
  omega

lemma findHoleLoop_invalid (hsub : SubOk sub) (hb : HoleBounds addrMask lo hi size)
    (rest : List MemoryMapPtr) (hinv : h.isValid p = false)
    (hproper : (h.obj p).baseAddress < (h.obj p).limitAddress) :
    ((h.obj p).limitAddress < lo ∧ findHoleLoop sub h lo hi size (p :: rest) = some none) ∨
    (room h lo hi p < size ∧
      findHoleLoop sub h lo hi size (p :: rest) = findHoleLoop sub h lo hi size rest) ∨
    (size ≤ room h lo hi p ∧ findHoleLoop sub h lo hi size (p :: rest) =
      some (some (min hi (h.obj p).limitAddress - size))) := by
  have hlt := hb.lt
  have htop := hb.top
  have hmask := hb.mask
  have hpos := hb.pos
  have hgap : gapBelow h p rest = some ((h.obj p).limitAddress, (h.obj p).baseAddress) := by
    simp [gapBelow, hinv]
  rw [findHoleLoop]
  simp only [hgap]
  unfold room
  by_cases hlow : (h.obj p).limitAddress < lo
  · exact .inl ⟨hlow, if_pos hlow⟩
  rw [if_neg hlow, if_neg (by omega)]
  by_cases hhigh : (h.obj p).baseAddress ≥ hi
  · exact .inr (.inl ⟨by omega, if_pos hhigh⟩)
  rw [if_neg hhigh, hsub _ _ (by omega) (by omega)]
  simp only
  by_cases hsmall : min hi (h.obj p).limitAddress - max lo (h.obj p).baseAddress < size
  · exact .inr (.inl ⟨hsmall, if_pos hsmall⟩)
  rw [if_neg hsmall, hsub _ _ (by omega) (by omega)]
  simp only
  exact .inr (.inr ⟨by omega, if_pos (by omega)⟩)

lemma findHoleLoop_valid (hsub : SubOk sub) (hb : HoleBounds addrMask lo hi size)
    {q : MemoryMapPtr} (rest : List MemoryMapPtr) (hvalid : h.isValid p = true)
    (htouch : (h.obj q).limitAddress = (h.obj p).baseAddress) :
    ((h.obj p).baseAddress < lo ∧ findHoleLoop sub h lo hi size (p :: q :: rest) = some none) ∨
    findHoleLoop sub h lo hi size (p :: q :: rest) =
      findHoleLoop sub h lo hi size (q :: rest) := by
  have hlt := hb.lt
  have htop := hb.top
  have hmask := hb.mask
  have hpos := hb.pos
  have hgap : gapBelow h p (q :: rest) =
      some ((h.obj p).baseAddress, (h.obj p).baseAddress) := by
    simp [gapBelow, hvalid, htouch]
  rw [findHoleLoop]
  simp only [hgap]
  by_cases hlow : (h.obj p).baseAddress < lo
  · exact .inl ⟨hlow, if_pos hlow⟩
  rw [if_neg hlow, if_neg (by omega)]
  by_cases hhigh : (h.obj p).baseAddress ≥ hi
  · exact .inr (if_pos hhigh)
  rw [if_neg hhigh, hsub _ _ (by omega) (by omega)]
  exact .inr (if_pos (by omega))

lemma findHoleLoop_spec (hsub : SubOk sub) (hb : HoleBounds addrMask lo hi size) {top : Nat}
    (ht : Tiled h 0 maps.reverse top)
    (hpages : ∀ p ∈ maps, (h.obj p).baseAddress % 4096 = 0 ∧ ((h.obj p).limitAddress % 4096 = 0 ∨
      (h.obj p).limitAddress = addrMask)) :
    ∃ r, findHoleLoop sub h lo hi size maps = some r ∧ HighestHole h lo hi size maps r := by
  induction maps generalizing top with
  | nil => exact ⟨none, rfl, nofun⟩
  | cons p rest ih =>
  rw [List.reverse_cons] at ht
  obtain ⟨hrest, hproper, _⟩ := ht.append
  have hbelow : ∀ q ∈ rest, (h.obj q).limitAddress ≤ (h.obj p).baseAddress :=
    fun q hq => hrest.limit_le.2 q (List.mem_reverse.mpr hq)
  obtain ⟨r, hr, hspec⟩ := ih hrest fun q hq => hpages q (.tail _ hq)
  by_cases hinv : h.isValid p = false
  · rcases findHoleLoop_invalid hsub hb rest hinv hproper with
      ⟨hlow, heq⟩ | ⟨hsmall, heq⟩ | ⟨hroom, heq⟩
    · refine ⟨none, heq, highestHole_below hb.pos fun q hq _ => ?_⟩
      rcases List.mem_cons.mp hq with rfl | hq
      · exact hlow
      have := hbelow q hq
      omega
    · exact ⟨r, heq.trans hr, hspec.skip fun _ => hsmall⟩
    · obtain ⟨hbase, hend⟩ := hpages p (.head _)
      exact ⟨_, heq, highestHole_found hb hinv hbase hend hbelow hroom⟩
  have hvalid : h.isValid p = true := by simpa using hinv
  cases rest with
  | nil =>
    refine ⟨none, by simp [findHoleLoop, gapBelow, hvalid], fun q hq hq' => ?_⟩
    rw [List.mem_singleton.mp hq] at hq'
    exact absurd hq' hinv
  | cons q qs =>
  rw [List.reverse_cons] at hrest
  rcases findHoleLoop_valid hsub hb qs hvalid hrest.append.2.2 with ⟨hlow, heq⟩ | heq
  · refine ⟨none, heq, highestHole_below hb.pos fun q' hq' hq'' => ?_⟩
    rcases List.mem_cons.mp hq' with rfl | hq'
    · exact absurd hq'' hinv
    have := hbelow q' hq'
    omega
  · exact ⟨r, heq.trans hr, hspec.skip fun hq => absurd hq hinv⟩

lemma HighestHole.unique {r' : Option Nat} (hr : HighestHole h lo hi size maps r)
    (hr' : HighestHole h lo hi size maps r') : r = r' := by
  have hcontra : ∀ {hole}, HighestHole h lo hi size maps (some hole) →
      HighestHole h lo hi size maps none → False := by
    rintro hole ⟨⟨p, hp, hat⟩, _⟩ hnone
    have hroom := hnone p hp hat.invalid
    have h1 := hat.inside
    have h2 := hat.within
    unfold room at hroom
    omega
  cases r with
  | none =>
    cases r' with
    | none => rfl
    | some hole => exact (hcontra hr' hr).elim
  | some hole =>
  cases r' with
  | none => exact (hcontra hr hr').elim
  | some hole' =>
  obtain ⟨⟨p, hp, hat⟩, hmax⟩ := hr
  obtain ⟨⟨p', hp', hat'⟩, hmax'⟩ := hr'
  exact congrArg some (Nat.le_antisymm (hmax' hole p hp hat) (hmax hole' p' hp' hat'))

/-- The hole found is the highest. -/
lemma findHoleWith_spec (hsub : SubOk sub) {s : AddressSpace} (hp : Partitioned h s)
    (hb : PageBoundaries h s) (hmask : s.addrMask < 2 ^ 64) {min_ max_ : Nat}
    (hmax : max_ ≤ s.addrMask) (hsize : 0 < size) (hround : size + 4095 < 2 ^ 64) :
    ∃ r, s.findHoleWith sub h min_ max_ size = some r ∧
      HighestHole h (alignDownToPage min_) (alignDownToPage max_) (roundUpToPage size) s.maps r := by
  have hpos : 0 < roundUpToPage size := by
    rw [roundUpToPage_eq]
    omega
  have hhi := alignDownToPage_le max_
  have hhi' := alignDownToPage_mod max_
  have hsize' := roundUpToPage_mod size
  unfold findHoleWith
  generalize alignDownToPage min_ = lo
  generalize alignDownToPage max_ = hi at hhi hhi' ⊢
  generalize roundUpToPage size = rounded at hpos hsize' ⊢
  rw [if_neg (by omega)]
  by_cases hlt : lo ≥ hi
  · simp only [if_pos hlt]
    exact ⟨none, rfl, fun p _ _ => by unfold room; omega⟩
  simp only [if_neg hlt]
  rw [hsub _ _ (by omega) (by omega)]
  simp only
  by_cases hroom : rounded > hi - lo
  · rw [if_pos hroom]
    exact ⟨none, rfl, fun p _ _ => by unfold room; omega⟩
  rw [if_neg hroom]
  have hsplits : Splits h.extent s.maps { a | 0 ≤ a ∧ a < s.addrMask } := by
    have heq : { a | 0 ≤ a ∧ a < s.addrMask } = { a | a < s.addrMask } := by
      ext a
      simp
    rw [heq]
    exact hp.splits
  have ht := tiled_of_splits (Nat.zero_le _) hp.sorted hp.proper hsplits
  rw [← List.reverse_reverse s.maps] at ht
  have hbounds : HoleBounds s.addrMask lo hi rounded :=
    ⟨by omega, by omega, hmask, hhi', hsize', hpos⟩
  obtain ⟨r, hr, hspec⟩ := findHoleLoop_spec hsub hbounds ht
    (fun p hpm => hb p (List.mem_reverse.mp hpm))
  refine ⟨r, hr, ?_⟩
  cases r with
  | none => exact fun p hpm => hspec p (List.mem_reverse.mpr hpm)
  | some hole =>
  obtain ⟨⟨p, hpm, hat⟩, hmax⟩ := hspec
  exact ⟨⟨p, List.mem_reverse.mp hpm, hat⟩,
    fun a p hpm hat => hmax a p (List.mem_reverse.mpr hpm) hat⟩

end AddressSpace

/-- **Holes.** If the ranges are a partition with boundaries on pages: no `CHECK` of `FindHole`
fails and no subtraction underflows; a hole that it finds is aligned, in the bounds and in one
invalid range, and the highest such; if it finds none, no invalid range has enough room. -/
theorem findHole_highest {h : Heap} {s : AddressSpace} (hp : Partitioned h s)
    (hb : PageBoundaries h s) (hmask : s.addrMask < 2 ^ 64) (min_ max_ size : Nat)
    (hmax : max_ ≤ s.addrMask) (hsize : 0 < size) (hround : size + 4095 < 2 ^ 64) :
    ∃ r, s.findHole h min_ max_ size = some r ∧
      s.findHoleWith checkedSub h min_ max_ size = some r ∧
      HighestHole h (alignDownToPage min_) (alignDownToPage max_) (roundUpToPage size) s.maps r := by
  have h64 : SubOk fun a b => some (sub64 a b) := fun a b hle hlt => by
    simp only [sub64_of_le hle hlt]
  have hchecked : SubOk checkedSub := fun a b hle _ => if_pos hle
  obtain ⟨r, hr, hspec⟩ := findHoleWith_spec h64 hp hb hmask hmax hsize hround
  obtain ⟨r', hr', hspec'⟩ := findHoleWith_spec hchecked hp hb hmask hmax hsize hround
  exact ⟨r, hr, hspec.unique hspec' ▸ hr', hspec⟩

/-- Two pages are mapped in the middle of the bounds. Three pages fit above them, nine
do not fit anywhere. -/
theorem findHole_highest_above :
    ∃ (w : World) (s : AddressSpace), w.spaces[0]? = some s ∧
      s.findHole w.heap 0x8000 0x18765 0x2abc = some (some 0x15000) ∧
      s.findHole w.heap 0x8000 0x18765 0x8001 = some none ∧
      HighestHole w.heap 0x8000 0x18000 0x3000 s.maps (some 0x15000) := by
  obtain ⟨os, w, s, hrun, hi, hmask, hpages, hsome, hnone⟩ := World.run_eval (amd64 false)
    [.new, .addMap 0 0x10000 0x2000 none 0]
    (fun w s => s.addrMask = 2 ^ 64 - 1 ∧ PageBoundaries w.heap s ∧
      s.findHole w.heap 0x8000 0x18765 0x2abc = some (some 0x15000) ∧
      s.findHole w.heap 0x8000 0x18765 0x8001 = some none)
    (by decide +kernel)
  have hp := World.partitioned_of_run (by decide +kernel) hrun 0 s hi
  obtain ⟨r, hr, _, hspec⟩ := findHole_highest hp hpages (by rw [hmask]; decide) 0x8000 0x18765
    0x2abc (by rw [hmask]; decide) (by decide) (by decide)
  obtain rfl : some 0x15000 = r := Option.mem_unique hsome hr
  have hlo : alignDownToPage 0x8000 = 0x8000 := by decide
  have hhi : alignDownToPage 0x18765 = 0x18000 := by decide
  have hsize : roundUpToPage 0x2abc = 0x3000 := by decide
  rw [hlo, hhi, hsize] at hspec
  exact ⟨w, s, hi, hsome, hnone, hspec⟩

end Vmill
