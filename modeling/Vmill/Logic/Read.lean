import Vmill.Logic.Space
import Vmill.Spec.Flat

/-!
# Reads

A read of an address space is a read of flat memory, as long as the lookups it makes are exact. That
of an accessible or unmapped page always is.
-/

namespace Vmill

open Base

namespace AddressSpace

variable {s s' : AddressSpace} {h : Heap} {page addr count nextEnd endAddr fuel size a : Nat}
  {p : MemoryMapPtr} {ok : Bool} {vals : List UInt8}

/-- The byte at `a`, if its page may be accessed. -/
def readable (h : Heap) (s : AddressSpace) (a : Nat) : Option UInt8 :=
  if s.accessible (alignDownToPage a) then view h s a else none

lemma Accessed.readable (ha : Accessed s s') (h : Heap) : readable h s' = readable h s := by
  funext a
  unfold AddressSpace.readable
  rw [ha.accessible, ha.view]

/-- Whatever else has been looked up, a lookup of `page` gives its owner if the
page is accessible, and nothing otherwise. -/
def LookupExact (h : Heap) (s : AddressSpace) (page : Nat) : Prop :=
  ∀ s', Accessed s s' → (s'.findRangeAligned h page).2 =
    (if s.accessible page then rangeAt h s page else none).getD s.invalid

lemma LookupExact.accessed (hx : LookupExact h s page) (ha : Accessed s s') :
    LookupExact h s' page := by
  intro s'' ha'
  rw [hx s'' (ha.trans ha'), ha.accessible, ha.invalid]
  unfold rangeAt
  rw [ha.maps]

lemma lookupExact_of_accessible (hwf : h.WF) (hs : s.WF h) (hpage : page % 4096 = 0)
    (hacc : s.accessible page = true) : LookupExact h s page := by
  intro s' ha
  have hs' := hs.accessed ha
  rw [if_pos hacc]
  cases hr : rangeAt h s page with
  | none =>
    have hno := (rangeAt_eq_none hwf hs).mp hr
    rw [findRangeAligned_of_unmapped hs' (fun p ho => hno p (ha.owns.mp ho)), ha.invalid]
    rfl
  | some p =>
  have ho := (rangeAt_eq_some hwf hs).mp hr
  exact findRangeAligned_eq hs' hpage (ha.owns.mpr ho) (by rwa [ha.accessible])

/-- Each valid range has one permission throughout, as far as the two indexes
can tell. -/
def Uniform (h : Heap) (s : AddressSpace) : Prop :=
  ∀ p a b, Owns h s p a → Owns h s p b → a % 4096 = 0 → b % 4096 = 0 →
    s.accessible a = s.accessible b ∧ s.writableNotExecutable a = s.writableNotExecutable b

lemma Uniform.lookupExact (hwf : h.WF) (hs : s.WF h) (hu : Uniform h s)
    (hpage : page % 4096 = 0) : LookupExact h s page := by
  by_cases hacc : s.accessible page = true
  · exact lookupExact_of_accessible hwf hs hpage hacc
  intro s' ha
  have hs' := hs.accessed ha
  rw [if_neg hacc]
  obtain ⟨hres, _⟩ := lookupCached_spec h s'.lastMapCache s'.pageToMap s'.invalid page
  have hindex : ∀ a p, s'.pageToMap a = some p → ¬ Owns h s p page := by
    intro a p hap ho
    rw [ha.pageToMap] at hap
    obtain ⟨hoa, hamod, haacc⟩ := (hs.index a p).mp hap
    rw [← (hu p a page hoa ho hamod hpage).1] at hacc
    exact hacc haacc
  rcases hres with ⟨i, hc, hin⟩ | hi | ⟨hinv, _⟩
  · obtain ⟨a, hap⟩ := hs'.cached i _ hc
    have hoa := ((hs'.index a _).mp hap).1
    exact absurd ⟨ha.maps ▸ hoa.mem, hoa.valid, Heap.contains_iff.mp hin⟩ (hindex a _ hap)
  · exact absurd (ha.owns.mp ((hs'.index page _).mp hi).1) (hindex page _ hi)
  · exact hinv.trans ha.invalid

lemma readBytes_eq {mem : Nat → Option UInt8}
    (hread : ∀ a, addr ≤ a → a < addr + count → h.read p a = ((mem a).isSome, (mem a).getD 0)) :
    readBytes h p addr count = Flat.readBytes mem addr count := by
  induction count generalizing addr with
  | zero => rfl
  | succ count ih =>
  have hrest : readBytes h p (addr + 1) count = Flat.readBytes mem (addr + 1) count :=
    ih fun a ha hlt => hread a (by omega) (by omega)
  unfold readBytes Flat.readBytes
  rw [hread addr le_rfl (by omega)]
  cases mem addr with
  | none => rfl
  | some v => simp only [Option.isSome_some, if_true, hrest, Option.getD_some]

lemma readPage_eq (hwf : h.WF) (hs : s.WF h) (hpage : page % 4096 = 0) (hx : LookupExact h s page)
    (hchunk : addr < nextEnd → page ≤ addr) (hin : nextEnd ≤ page + 4096) (hlt : nextEnd ≤ 2 ^ 64) :
    readBytes h (s.findRangeAligned h page).2 addr (nextEnd - addr) =
      Flat.readBytes (readable h s) addr (nextEnd - addr) := by
  refine readBytes_eq fun a ha hac => ?_
  have hle : page ≤ a := by omega
  have hpa : a < page + 4096 := by omega
  rw [hx s (Accessed.refl s)]
  unfold readable
  rw [alignDownToPage_of_mem hpage hle hpa (by omega)]
  by_cases hacc : s.accessible page = true
  · rw [if_pos hacc, if_pos hacc]
    cases hr : rangeAt h s page with
    | none =>
      have hno := (rangeAt_eq_none hwf hs).mp hr
      have hnone : view h s a = none := (view_eq_none hwf hs).mpr fun p ho =>
        hno p ((owns_page_iff hs hpage hle hpa).mp ho)
      rw [hnone]
      exact Heap.read_of_invalid hs.invalid a
    | some p =>
    have ho := (rangeAt_eq_some hwf hs).mp hr
    have hoa := (owns_page_iff hs hpage hle hpa).mpr ho
    rw [hoa.view_eq hwf hs, Option.getD_some, Heap.read_eq h hwf,
      (Heap.isValid_iff hwf).mpr ho.valid]
    rfl
  rw [if_neg hacc, if_neg hacc]
  exact Heap.read_of_invalid hs.invalid a

/-- The pages a loop from `page` to `endAddr` can look up. It starts over at
page zero if it leaves the 64-bit space. -/
def Visits (page endAddr q : Nat) : Prop :=
  q % 4096 = 0 ∧ q < endAddr ∧ (page ≤ q ∨ 2 ^ 64 < endAddr + 4096)

lemma Visits.next {q : Nat} (hlt : page < endAddr) (hpage : page % 4096 = 0)
    (hend : endAddr ≤ 2 ^ 64) (hv : Visits (wrap64 (page + kPageSize)) endAddr q) :
    Visits page endAddr q := by
  obtain ⟨hq, hqe, hor⟩ := hv
  refine ⟨hq, hqe, ?_⟩
  unfold wrap64 kPageSize at hor
  omega

/-- The page loop reads what a flat memory would give. -/
lemma tryReadLoop_eq (hwf : h.WF) (hs : s.WF h) (hpage : page % 4096 = 0)
    (hend : endAddr ≤ 2 ^ 64) (hinv : min page endAddr ≤ addr)
    (hx : ∀ q, Visits page endAddr q → LookupExact h s q) :
    (tryReadLoop h fuel s page addr endAddr).map (fun r => (r.1, r.2.1)) =
      Flat.readLoop (readable h s) fuel page addr endAddr := by
  induction fuel generalizing s page addr with
  | zero => rfl
  | succ fuel ih =>
  simp only [tryReadLoop, Flat.readLoop]
  by_cases hlt : page < endAddr
  · rw [if_pos hlt, if_pos hlt]
    have hr := Flat.round hpage hlt hinv
    have ha := (findRangeAligned_spec hs page).1
    have hbelow := hr.below
    rw [readPage_eq hwf hs hpage (hx page ⟨hpage, hlt, .inl le_rfl⟩) hr.chunk
      hr.within (by omega)]
    have hrest := ih (hs.accessed ha) hr.pageMod hr.next (fun q hq =>
      (hx q (hq.next hlt hpage hend)).accessed ha)
    rw [ha.readable] at hrest
    rw [← hrest]
    obtain ⟨ok, vals⟩ := Flat.readBytes (readable h s) addr
      (min endAddr (wrap64 (page + kPageSize)) - addr)
    cases ok with
    | false => rfl
    | true =>
    cases tryReadLoop h fuel (s.findRangeAligned h page).1 (wrap64 (page + kPageSize))
        (max addr (min endAddr (wrap64 (page + kPageSize)))) endAddr with
    | none => rfl
    | some r => rfl
  rw [if_neg hlt, if_neg hlt]
  rfl

lemma tryReadLoop_accessed
    (hr : tryReadLoop h fuel s page addr endAddr = some (ok, vals, s')) :
    Accessed s s' ∧ s'.traceHeads = s.traceHeads := by
  induction fuel generalizing s s' page addr ok vals with
  | zero => exact absurd hr (by simp [tryReadLoop])
  | succ fuel ih =>
  have ha := findRangeAligned_accessed h s page
  simp only [tryReadLoop] at hr
  split at hr
  · split at hr
    · simp only [Option.some.injEq, Prod.mk.injEq] at hr
      rw [← hr.2.2]
      exact ⟨ha, rfl⟩
    split at hr
    · simp at hr
    rename_i hrest
    simp only [Option.some.injEq, Prod.mk.injEq] at hr
    rw [← hr.2.2]
    obtain ⟨hacc, hheads⟩ := ih hrest
    exact ⟨ha.trans hacc, hheads⟩
  simp only [Option.some.injEq, Prod.mk.injEq] at hr
  rw [← hr.2.2]
  exact ⟨.refl s, rfl⟩

/-- All lookups of the access are exact. -/
def AccessExact (h : Heap) (s : AddressSpace) (addr size : Nat) : Prop :=
  ∀ q, q = alignDownToPage addr ∨ Visits (alignDownToPage addr) (wrap64 (addr + size)) q →
    LookupExact h s q

lemma Uniform.accessExact (hwf : h.WF) (hs : s.WF h) (hu : Uniform h s) (addr size : Nat) :
    AccessExact h s addr size := by
  rintro q (rfl | hq)
  · exact hu.lookupExact hwf hs (alignDownToPage_mod addr)
  · exact hu.lookupExact hwf hs hq.1

lemma accessExact_of_accessible (hwf : h.WF) (hs : s.WF h) (hsize : 0 < size)
    (hend : addr + size + 4096 ≤ 2 ^ 64)
    (hacc : ∀ x, addr ≤ x → x < addr + size → s.accessible (alignDownToPage x) = true) :
    AccessExact h s addr size := by
  have hle := alignDownToPage_le addr
  have hfirst := hacc addr le_rfl (by omega)
  rintro q (rfl | ⟨hq, hqe, hor⟩)
  · exact lookupExact_of_accessible hwf hs (alignDownToPage_mod addr) hfirst
  rw [wrap64_of_lt (by omega)] at hqe hor
  refine lookupExact_of_accessible hwf hs hq ?_
  by_cases hqa : addr ≤ q
  · have hpage := hacc q hqa hqe
    rwa [alignDownToPage_of_aligned (by omega) hq] at hpage
  have hlow : alignDownToPage addr ≤ q := by omega
  have hsame : q = alignDownToPage addr := by
    have := alignDownToPage_mod addr
    have : addr < alignDownToPage addr + 4096 := lt_alignDownToPage_add (by omega)
    omega
  rwa [hsame]

lemma tryRead_eq (hwf : h.WF) (hs : s.WF h) (hx : AccessExact h s (addr &&& s.addrMask) size) :
    (s.tryRead h addr size).map (fun r => (r.1, r.2.1)) =
      Flat.tryRead (readable h s) (addr &&& s.addrMask) size := by
  have hle := alignDownToPage_le (addr &&& s.addrMask)
  exact tryReadLoop_eq hwf hs (alignDownToPage_mod _) (wrap64_lt _).le (by omega)
    (fun q hq => hx q (.inr hq))

lemma tryRead_accessed (hr : s.tryRead h addr size = some (ok, vals, s')) :
    Accessed s s' ∧ s'.traceHeads = s.traceHeads :=
  tryReadLoop_accessed hr

lemma readable_eq_none (hwf : h.WF) (hs : s.WF h) (ha : a < 2 ^ 64)
    (hx : LookupExact h s (alignDownToPage a)) :
    (readable h s a = none ∧ (s.findRange h a).2 = s.invalid) ∨
      ∃ p, Owns h s p a ∧ readable h s a = some (h.byte p a) ∧ (s.findRange h a).2 = p := by
  have hfind := hx s (Accessed.refl s)
  have hpage : ∀ p, Owns h s p a ↔ Owns h s p (alignDownToPage a) := fun p =>
    owns_alignDown_iff hs ha
  unfold readable findRange
  by_cases hacc : s.accessible (alignDownToPage a) = true
  · rw [if_pos hacc] at hfind ⊢
    cases hr : rangeAt h s (alignDownToPage a) with
    | none =>
      left
      rw [hr] at hfind
      exact ⟨(view_eq_none hwf hs).mpr fun p ho =>
        (rangeAt_eq_none hwf hs).mp hr p ((hpage p).mp ho), hfind⟩
    | some p =>
    right
    rw [hr] at hfind
    have ho := (hpage p).mpr ((rangeAt_eq_some hwf hs).mp hr)
    exact ⟨p, ho, ho.view_eq hwf hs, hfind⟩
  rw [if_neg hacc] at hfind ⊢
  exact .inl ⟨rfl, hfind⟩

lemma tryReadByte_eq (hwf : h.WF) (hs : s.WF h) (addr : Nat)
    (hx : LookupExact h s (alignDownToPage (addr &&& s.addrMask))) :
    (s.tryReadByte h addr).1 = (readable h s (addr &&& s.addrMask)).isSome ∧
      (s.tryReadByte h addr).2.1 = (readable h s (addr &&& s.addrMask)).getD 0 := by
  simp only [tryReadByte]
  rcases readable_eq_none hwf hs (mask_lt hs addr) hx with ⟨hnone, hinv⟩ | ⟨p, ho, hsome, hp⟩
  · rw [hnone, hinv, Heap.read_of_invalid hs.invalid]
    exact ⟨rfl, rfl⟩
  rw [hsome, hp, Heap.read_eq h hwf, (Heap.isValid_iff hwf).mpr ho.valid]
  exact ⟨rfl, rfl⟩

lemma tryReadByte_accessed (h : Heap) (s : AddressSpace) (addr : Nat) :
    Accessed s (s.tryReadByte h addr).2.2 := findRangeAligned_accessed h s _

lemma tryReadExecutable_accessed (h : Heap) (s : AddressSpace) (pc : Nat) :
    Accessed s (s.tryReadExecutable h pc).2.2 := findRangeAligned_accessed h s _

lemma tryReadExecutable_eq (hwf : h.WF) (hs : s.WF h) {pc : Nat}
    (hx : LookupExact h s (alignDownToPage (pc &&& s.addrMask))) :
    (s.tryReadExecutable h pc).1 =
        ((readable h s (pc &&& s.addrMask)).isSome && s.canExecute pc) ∧
      (s.tryReadExecutable h pc).2.1 = (readable h s (pc &&& s.addrMask)).getD 0 := by
  have hperm : (s.findRangeAligned h (alignDownToPage (pc &&& s.addrMask))).1.canExecuteAligned =
      s.canExecuteAligned := rfl
  simp only [tryReadExecutable, canExecute, hperm]
  rcases readable_eq_none hwf hs (mask_lt hs pc) hx with ⟨hnone, hinv⟩ | ⟨p, ho, hsome, hp⟩
  · unfold findRange at hinv
    rw [hnone, hinv, Heap.read_of_invalid hs.invalid]
    exact ⟨rfl, rfl⟩
  unfold findRange at hp
  rw [hsome, hp, Heap.read_eq h hwf, (Heap.isValid_iff hwf).mpr ho.valid]
  exact ⟨rfl, rfl⟩

/-! ## What a read that returned `true` delivers

Whatever the permissions and the caches are: a lookup gives the range that owns the
page or `invalid`, and a byte of `invalid` is never read. -/

lemma readBytes_length (hr : readBytes h p addr count = (true, vals)) : vals.length = count := by
  induction count generalizing addr vals with
  | zero =>
    obtain rfl : [] = vals := (Prod.mk.inj hr).2
    rfl
  | succ count ih =>
  simp only [readBytes] at hr
  split at hr
  · obtain ⟨hok, rfl⟩ := Prod.mk.inj hr
    rw [List.length_cons, ih (Prod.ext hok rfl)]
  · simp at hr

lemma readBytes_true (hwf : h.WF) (hr : readBytes h p addr count = (true, vals)) :
    (0 < count → h.isValid p = true) ∧
      ∀ i (hi : i < vals.length), vals[i] = h.byte p (addr + i) := by
  induction count generalizing addr vals with
  | zero =>
    obtain rfl : [] = vals := (Prod.mk.inj hr).2
    exact ⟨fun h0 => absurd h0 (by omega), fun i hi => absurd hi (by simp)⟩
  | succ count ih =>
  rw [readBytes, Heap.read_eq h hwf] at hr
  simp only at hr
  split at hr
  · rename_i hvalid
    obtain ⟨hok, rfl⟩ := Prod.mk.inj hr
    obtain ⟨_, hbytes⟩ := ih (Prod.ext hok rfl)
    refine ⟨fun _ => hvalid, fun i hi => ?_⟩
    cases i with
    | zero => rfl
    | succ i =>
    rw [List.getElem_cons_succ, hbytes]
    congr 1
    omega
  · simp at hr

lemma readPage_true (hwf : h.WF) (hs : s.WF h) (hpage : page % 4096 = 0)
    (hchunk : addr < nextEnd → page ≤ addr) (hin : nextEnd ≤ page + 4096)
    (hr : readBytes h (s.findRangeAligned h page).2 addr (nextEnd - addr) = (true, vals)) :
    vals.length = nextEnd - addr ∧
      ∀ i (hi : i < vals.length), view h s (addr + i) = some vals[i] := by
  have hlen := readBytes_length hr
  obtain ⟨hvalid, hbytes⟩ := readBytes_true hwf hr
  refine ⟨hlen, fun i hi => ?_⟩
  rcases (findRangeAligned_spec hs page).2 with ho | ⟨hinv, _⟩
  · have hoi : Owns h s (s.findRangeAligned h page).2 (addr + i) :=
      (owns_page_iff hs hpage (by omega) (by omega)).mpr ho
    rw [hoi.view_eq hwf hs, hbytes i hi]
  have hbad := hvalid (by omega)
  rw [hinv, (Heap.isValid_eq_false_iff hwf).mpr hs.invalid] at hbad
  simp at hbad

lemma tryReadLoop_length (hpage : page % 4096 = 0) (hinv : min page endAddr ≤ addr)
    (hr : tryReadLoop h fuel s page addr endAddr = some (true, vals, s')) :
    vals.length = endAddr - addr := by
  induction fuel generalizing s page addr vals with
  | zero => exact absurd hr (by simp [tryReadLoop])
  | succ fuel ih =>
  simp only [tryReadLoop] at hr
  split at hr
  · rename_i hlt
    have hround := Flat.round hpage hlt hinv
    have hbelow := hround.below
    split at hr
    · simp at hr
    rename_i first hfirst
    split at hr
    · simp at hr
    rename_i ok rest s1 hrest
    obtain ⟨rfl, rfl, rfl⟩ : ok = true ∧ first ++ rest = vals ∧ s1 = s' := by
      simpa using hr
    rw [List.length_append, readBytes_length hfirst, ih hround.pageMod hround.next hrest]
    omega
  obtain ⟨rfl, _⟩ : vals = [] ∧ s = s' := by simpa using hr
  rw [List.length_nil]
  omega

lemma tryReadLoop_true (hwf : h.WF) (hs : s.WF h) (hpage : page % 4096 = 0)
    (hinv : min page endAddr ≤ addr)
    (hr : tryReadLoop h fuel s page addr endAddr = some (true, vals, s')) :
    ∀ i (hi : i < vals.length), view h s (addr + i) = some vals[i] := by
  induction fuel generalizing s page addr vals with
  | zero => exact absurd hr (by simp [tryReadLoop])
  | succ fuel ih =>
  simp only [tryReadLoop] at hr
  split at hr
  · rename_i hlt
    have hround := Flat.round hpage hlt hinv
    have ha := findRangeAligned_accessed h s page
    generalize wrap64 (page + kPageSize) = pageEnd at hround hr
    generalize min endAddr pageEnd = nextEnd at hround hr
    split at hr
    · simp at hr
    rename_i first hfirst
    split at hr
    · simp at hr
    rename_i ok rest s1 hrest
    obtain ⟨rfl, rfl, rfl⟩ : ok = true ∧ first ++ rest = vals ∧ s1 = s' := by
      simpa using hr
    obtain ⟨hlen, hview⟩ := readPage_true hwf hs hpage hround.chunk hround.within hfirst
    have hrest := ih (hs.accessed ha) hround.pageMod hround.next hrest
    rw [ha.view] at hrest
    intro i hi
    by_cases hif : i < first.length
    · rw [List.getElem_append_left hif]
      exact hview i hif
    rw [List.length_append] at hi
    rw [List.getElem_append_right (by omega), ← hrest]
    congr 1
    omega
  obtain ⟨rfl, _⟩ : vals = [] ∧ s = s' := by simpa using hr
  exact fun i hi => absurd hi (by simp)

lemma tryRead_length (hend : (addr &&& s.addrMask) + size < 2 ^ 64)
    (hr : s.tryRead h addr size = some (true, vals, s')) : vals.length = size := by
  have hle := alignDownToPage_le (addr &&& s.addrMask)
  unfold tryRead at hr
  simp only [wrap64_of_lt hend] at hr
  have hlen := tryReadLoop_length (alignDownToPage_mod _) (by omega) hr
  omega

lemma tryRead_true (hwf : h.WF) (hs : s.WF h) (hend : (addr &&& s.addrMask) + size < 2 ^ 64)
    (hr : s.tryRead h addr size = some (true, vals, s')) :
    vals.length = size ∧
      ∀ i (hi : i < vals.length), view h s ((addr &&& s.addrMask) + i) = some vals[i] := by
  have hle := alignDownToPage_le (addr &&& s.addrMask)
  refine ⟨tryRead_length hend hr, ?_⟩
  unfold tryRead at hr
  simp only [wrap64_of_lt hend] at hr
  exact tryReadLoop_true hwf hs (alignDownToPage_mod _) (by omega) hr

lemma readBytes_of_valid (hwf : h.WF) (hvalid : (h.obj p).kind ≠ .invalid) (addr count : Nat) :
    (readBytes h p addr count).1 = true := by
  induction count generalizing addr with
  | zero => rfl
  | succ count ih =>
  unfold readBytes
  rw [Heap.read_eq h hwf, (Heap.isValid_iff hwf).mpr hvalid]
  exact ih (addr + 1)

/-- A read that ends in front of the last page returns. -/
lemma tryReadLoop_isSome (hend : endAddr ≤ 2 ^ 64 - 4096) (hpage : page % 4096 = 0)
    (hfuel : endAddr ≤ page + fuel * 4096) :
    ∃ r, tryReadLoop h (fuel + 1) s page addr endAddr = some r := by
  induction fuel generalizing s page addr with
  | zero =>
    rw [tryReadLoop, if_neg (by omega)]
    exact ⟨_, rfl⟩
  | succ fuel ih =>
  rw [tryReadLoop]
  split
  · rename_i hlt
    have hwrap := wrap64_add_page page (by omega)
    simp only [hwrap]
    split
    · exact ⟨_, rfl⟩
    obtain ⟨r, hrest⟩ := @ih (s.findRangeAligned h page).1 (page + 4096)
      (max addr (min endAddr (page + 4096))) (by omega) (by omega)
    rw [hrest]
    exact ⟨_, rfl⟩
  · exact ⟨_, rfl⟩

lemma tryRead_isSome (hend : (addr &&& s.addrMask) + size ≤ 2 ^ 64 - 4096) :
    ∃ r, s.tryRead h addr size = some r := by
  have hsteps : kPageSteps = 2 ^ 52 + 1 := by decide
  unfold tryRead
  simp only [wrap64_of_lt (show (addr &&& s.addrMask) + size < 2 ^ 64 by omega), hsteps]
  exact tryReadLoop_isSome hend (alignDownToPage_mod _) (by omega)

/-- More fuel does not change the result of a loop that has returned. -/
lemma tryReadLoop_mono {fuel' : Nat} {r : Bool × List UInt8 × AddressSpace} (hle : fuel ≤ fuel')
    (hr : tryReadLoop h fuel s page addr endAddr = some r) :
    tryReadLoop h fuel' s page addr endAddr = some r := by
  induction fuel generalizing s page addr fuel' r with
  | zero => cases hr
  | succ fuel ih =>
  obtain ⟨fuel', rfl⟩ : ∃ k, fuel' = k + 1 := ⟨fuel' - 1, by omega⟩
  simp only [tryReadLoop] at hr ⊢
  split
  · rename_i hlt
    rw [if_pos hlt] at hr
    split at hr
    · exact hr
    split at hr
    · cases hr
    rename_i hrest
    rw [ih (by omega) hrest]
    exact hr
  · rename_i hge
    rwa [if_neg hge] at hr

lemma tryReadLoop_unique {fuel' : Nat} {r r' : Bool × List UInt8 × AddressSpace}
    (hr : tryReadLoop h fuel s page addr endAddr = some r)
    (hr' : tryReadLoop h fuel' s page addr endAddr = some r') : r = r' := by
  have hmax := tryReadLoop_mono (le_max_left fuel fuel') hr
  exact Option.mem_unique hmax (tryReadLoop_mono (le_max_right fuel fuel') hr')

/-! ## Reads that end in the last page

The page counter wraps around to zero before it gets to such an end. Once the bytes in front of the
last page have been read, no page has a byte left to read, and nothing stops the loop. -/

/-- A read that is past the front of the last page and has to end inside it never returns. -/
lemma tryReadLoop_endless (hend : 2 ^ 64 - 4096 < endAddr) (hpage : page % 4096 = 0)
    (hlt : page < 2 ^ 64) (haddr : 2 ^ 64 - 4096 ≤ addr) :
    tryReadLoop h fuel s page addr endAddr = none := by
  induction fuel generalizing s page addr with
  | zero => rfl
  | succ fuel ih =>
  have hmod := wrap64_add_page_mod hpage
  have hnext := wrap64_lt (page + kPageSize)
  have hzero : min endAddr (wrap64 (page + kPageSize)) - addr = 0 := by omega
  have hrest : tryReadLoop h fuel (s.findRangeAligned h page).1 (wrap64 (page + kPageSize))
      (max addr (min endAddr (wrap64 (page + kPageSize)))) endAddr = none :=
    ih hmod hnext (by omega)
  rw [tryReadLoop, if_pos (by omega)]
  simp only [hzero, readBytes, hrest]

/-- A read that ends in the last page returns only if it fails in front of it. -/
lemma tryReadLoop_last (hend : 2 ^ 64 - 4096 < endAddr) (hpage : page % 4096 = 0)
    (hfront : page ≤ 2 ^ 64 - 4096) (hin : page ≤ addr ∧ addr < page + 4096) :
    tryReadLoop h fuel s page addr endAddr =
      (tryReadLoop h fuel s page addr (2 ^ 64 - 4096)).bind fun r =>
        if r.1 then none else some r := by
  induction fuel generalizing s page addr with
  | zero => rfl
  | succ fuel ih =>
  by_cases hlast : page = 2 ^ 64 - 4096
  · rw [tryReadLoop_endless hend hpage (by omega) (by omega), tryReadLoop, if_neg (by omega)]
    rfl
  have hwrap := wrap64_add_page page (by omega)
  have hmin : min endAddr (page + 4096) = page + 4096 := by omega
  have hmin' : min (2 ^ 64 - 4096) (page + 4096) = page + 4096 := by omega
  rw [tryReadLoop, tryReadLoop, if_pos (by omega), if_pos (by omega)]
  simp only [hwrap, hmin, hmin']
  split
  · rfl
  rw [ih (by omega) (by omega) (by omega)]
  cases tryReadLoop h fuel (s.findRangeAligned h page).1 (page + 4096)
      (max addr (page + 4096)) (2 ^ 64 - 4096) with
  | none => rfl
  | some r =>
  obtain ⟨ok, rest, s1⟩ := r
  cases ok <;> rfl

/-- A read at `addr` fails in front of the last page: `TryRead` of the bytes up to that page returns
`false`. -/
def FrontFails (h : Heap) (s : AddressSpace) (addr : Nat) : Prop :=
  (addr &&& s.addrMask) < 2 ^ 64 - 4096 ∧
    ∃ vals s', s.tryRead h addr (2 ^ 64 - 4096 - (addr &&& s.addrMask)) = some (false, vals, s')

lemma frontFails_iff (hs : s.WF h) (addr : Nat) : FrontFails h s addr ↔
    ∃ vals s', tryReadLoop h kPageSteps s (alignDownToPage (addr &&& s.addrMask))
      (addr &&& s.addrMask) (2 ^ 64 - 4096) = some (false, vals, s') := by
  have halt := mask_lt hs addr
  unfold FrontFails tryRead
  generalize addr &&& s.addrMask = a at halt ⊢
  by_cases ha : a < 2 ^ 64 - 4096
  · have hend : wrap64 (a + (2 ^ 64 - 4096 - a)) = 2 ^ 64 - 4096 := by
      rw [Nat.add_sub_cancel' ha.le]
      decide
    simp only [ha, true_and, hend]
  -- nothing is in front of the last page
  refine ⟨fun hfails => absurd hfails.1 ha, fun ⟨vals, s', hr⟩ => ?_⟩
  have hmod := alignDownToPage_mod a
  have hlow := lt_alignDownToPage_add halt
  unfold kPageSteps at hr
  rw [tryReadLoop, if_neg (by omega)] at hr
  simp at hr

/-- With enough fuel for the pages in front of it, a read that ends in the last page returns exactly
if it fails in front of it. -/
lemma tryReadLoop_last_iff (hs : s.WF h) (hend : 2 ^ 64 - 4096 < endAddr)
    (hfuel : 2 ^ 64 - 4096 ≤ alignDownToPage (addr &&& s.addrMask) + fuel * 4096) :
    (∃ r, tryReadLoop h (fuel + 1) s (alignDownToPage (addr &&& s.addrMask))
      (addr &&& s.addrMask) endAddr = some r) ↔ FrontFails h s addr := by
  have halt := mask_lt hs addr
  rw [frontFails_iff hs, show kPageSteps = 2 ^ 52 + 1 by decide]
  generalize addr &&& s.addrMask = a at halt hfuel ⊢
  have hmod := alignDownToPage_mod a
  have hle := alignDownToPage_le a
  rw [tryReadLoop_last hend hmod (by omega) ⟨hle, lt_alignDownToPage_add halt⟩]
  obtain ⟨⟨ok, vals, s'⟩, hr⟩ := @tryReadLoop_isSome s h (alignDownToPage a) a (2 ^ 64 - 4096) fuel
    le_rfl hmod hfuel
  obtain ⟨r, hr'⟩ := @tryReadLoop_isSome s h (alignDownToPage a) a (2 ^ 64 - 4096) (2 ^ 52)
    le_rfl hmod (Nat.le_add_left_of_le (by decide))
  obtain rfl := tryReadLoop_unique hr hr'
  rw [hr, hr']
  cases ok <;> simp

lemma tryRead_last_iff (hs : s.WF h)
    (hend : 2 ^ 64 - 4096 < wrap64 ((addr &&& s.addrMask) + size)) :
    (∃ r, s.tryRead h addr size = some r) ↔ FrontFails h s addr := by
  have hsteps : kPageSteps = 2 ^ 52 + 1 := by decide
  unfold tryRead
  rw [hsteps]
  exact tryReadLoop_last_iff hs hend (by omega)

/-- An unmapped byte in front of the last page stops the read there. -/
lemma frontFails_of_unmapped (hwf : h.WF) (hs : s.WF h) (ha : (addr &&& s.addrMask) ≤ a)
    (hlt : a < 2 ^ 64 - 4096) (hno : view h s a = none) : FrontFails h s addr := by
  obtain ⟨⟨ok, vals, s'⟩, hr⟩ := @tryRead_isSome s h addr (2 ^ 64 - 4096 - (addr &&& s.addrMask))
    (by omega)
  cases ok with
  | false => exact ⟨by omega, vals, s', hr⟩
  | true =>
  obtain ⟨hlen, hview⟩ := tryRead_true hwf hs (by omega) hr
  have hbyte := hview (a - (addr &&& s.addrMask)) (by omega)
  rw [Nat.add_sub_cancel' ha, hno] at hbyte
  cases hbyte

lemma tryRead_beyond (hs : s.WF h) (hsize : size < 2 ^ 64)
    (hwrap : 2 ^ 64 ≤ (addr &&& s.addrMask) + size)
    (hend : wrap64 ((addr &&& s.addrMask) + size) ≤ 2 ^ 64 - 4096) :
    ∃ s', s.tryRead h addr size = some (true, [], s') := by
  have haddr := mask_lt hs addr
  have hsteps : kPageSteps = (2 ^ 52 - 1) + 1 + 1 := by decide
  unfold tryRead
  simp only [hsteps]
  generalize addr &&& s.addrMask = a at haddr hwrap hend ⊢
  have hmod := alignDownToPage_mod a
  have hle := alignDownToPage_le a
  have hlow := lt_alignDownToPage_add haddr
  have hbelow : wrap64 (a + size) < a := by
    unfold wrap64
    omega
  generalize wrap64 (a + size) = endAddr at hend hbelow ⊢
  rw [tryReadLoop]
  by_cases hlt : alignDownToPage a < endAddr
  · have hpage := wrap64_add_page (alignDownToPage a) (by omega)
    have hzero : min endAddr (alignDownToPage a + 4096) - a = 0 := by omega
    rw [if_pos hlt]
    simp only [hpage, hzero, readBytes]
    rw [tryReadLoop, if_neg (by omega)]
    exact ⟨_, rfl⟩
  rw [if_neg hlt]
  exact ⟨_, rfl⟩

end AddressSpace

end Vmill
