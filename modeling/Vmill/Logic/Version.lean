import Vmill.Logic.Cache
import Vmill.Logic.World

/-!
# Code versions

`Versioned` says that every cached version is the hash of the bytes the range holds now. Only writes
can break that: the fast path never drops the cached version, and the page loop drops it for pages
that are executable at the time.
-/

namespace Vmill

open Base

namespace Heap

variable {hash : List UInt8 → Nat} {h h' : Heap} {p q : MemoryMapPtr} {f : Nat → UInt8}

instance (r : MappedRange) : Decidable r.IsArray :=
  match hk : r.kind with
  | .array d => .isTrue ⟨d, hk⟩
  | .invalid | .empty | .copyOnWrite _ => .isFalse fun ⟨_, hd⟩ => nomatch hk.symm.trans hd

/-- The range is an array with a cached version. -/
def HasVersion (h : Heap) (p : MemoryMapPtr) : Prop :=
  (h.obj p).IsArray ∧ (h.obj p).codeVersionIsValid = true
deriving Decidable

/-- The cached version is the hash of the bytes. -/
def VersionOk (hash : List UInt8 → Nat) (h : Heap) (p : MemoryMapPtr) : Prop :=
  ∀ data, (h.obj p).kind = .array data → (h.obj p).codeVersionIsValid = true →
    (h.obj p).codeVersion = hash (arrayBytes (h.obj p) data)

/-- All cached versions are right. -/
def Versioned (hash : List UInt8 → Nat) (h : Heap) : Prop := ∀ p, VersionOk hash h p

lemma versionOk_of_not (hno : ¬ HasVersion h p) : VersionOk hash h p :=
  fun data hk hvalid => absurd ⟨⟨data, hk⟩, hvalid⟩ hno

lemma VersionOk.congr (hok : VersionOk hash h p) (heq : h'.obj p = h.obj p) :
    VersionOk hash h' p := by
  unfold VersionOk at hok ⊢
  rwa [heq]

lemma Wrote.hasVersion (hw : Wrote h h' p f) (hq : HasVersion h' q) : HasVersion h q := by
  by_cases hqp : q = p
  · subst hqp
    by_cases harr : (h.obj q).IsArray
    · exact ⟨harr, (hw.version harr).1 ▸ hq.2⟩
    · exact absurd (hw.stale harr ▸ hq.2) (by simp)
  unfold HasVersion at hq ⊢
  rwa [hw.frame q hqp] at hq

lemma arrayBytes_congr {d d' : Nat → UInt8} (hk : (h.obj p).kind = .array d)
    (hk' : (h'.obj p).kind = .array d') (hb : (h'.obj p).baseAddress = (h.obj p).baseAddress)
    (hl : (h'.obj p).limitAddress = (h.obj p).limitAddress)
    (hle : (h.obj p).baseAddress ≤ (h.obj p).limitAddress) (hlt : (h.obj p).limitAddress < 2 ^ 64)
    (hheld : ∀ a, (h.obj p).baseAddress ≤ a → a < (h.obj p).limitAddress → h'.byte p a = h.byte p a) :
    arrayBytes (h'.obj p) d' = arrayBytes (h.obj p) d := by
  have hsize : (h'.obj p).size = (h.obj p).size := by
    unfold MappedRange.size
    rw [hb, hl]
  unfold arrayBytes
  rw [hsize]
  refine List.map_congr_left fun i hi => ?_
  have hi' : i < (h.obj p).limitAddress - (h.obj p).baseAddress := by
    have hlt' := List.mem_range.mp hi
    unfold MappedRange.size at hlt'
    rwa [sub64_of_le hle hlt] at hlt'
  have heq := hheld ((h.obj p).baseAddress + i) (by omega) (by omega)
  have hsub : sub64 ((h.obj p).baseAddress + i) (h.obj p).baseAddress = i := by
    rw [sub64_of_le (by omega) (by omega), Nat.add_sub_cancel_left]
  rwa [byte_of_array hk', byte_of_array hk, hb, hsub] at heq

lemma Wrote.versionOk (hw : Wrote h h' p f) (hok : VersionOk hash h p)
    (hle : (h.obj p).baseAddress ≤ (h.obj p).limitAddress) (hlt : (h.obj p).limitAddress < 2 ^ 64)
    (hsame : ∀ a, (h.obj p).baseAddress ≤ a → a < (h.obj p).limitAddress → f a = h.byte p a) :
    VersionOk hash h' p := by
  intro data hk hvalid
  obtain ⟨⟨d, hd⟩, hv⟩ := hw.hasVersion ⟨⟨data, hk⟩, hvalid⟩
  rw [(hw.version ⟨d, hd⟩).2, hok d hd hv]
  exact congrArg hash (arrayBytes_congr hd hk hw.base hw.limit hle hlt fun a hlo hhi =>
    (hw.held a hlo hhi).trans (hsame a hlo hhi)).symm

lemma Stored.frame (hst : Stored h h' p f) (hq : q ≠ p) : h'.obj q = h.obj q := by
  rcases hst with hw | ⟨rfl, _⟩
  · exact hw.frame q hq
  · rfl

lemma Stored.hasVersion (hst : Stored h h' p f) (hq : HasVersion h' q) : HasVersion h q := by
  rcases hst with hw | ⟨rfl, _⟩
  · exact hw.hasVersion hq
  · exact hq

lemma Stored.versionOk (hst : Stored h h' p (h.byte p)) (hok : VersionOk hash h p)
    (hle : (h.obj p).baseAddress ≤ (h.obj p).limitAddress) (hlt : (h.obj p).limitAddress < 2 ^ 64) :
    VersionOk hash h' p := by
  rcases hst with hw | ⟨rfl, _⟩
  · exact hw.versionOk hok hle hlt fun _ _ _ => rfl
  · exact hok

lemma invalidateCodeVersion_hasVersion (hq : HasVersion (h.invalidateCodeVersion p) q) :
    HasVersion h q ∧ q ≠ p := by
  have hne : q ≠ p := by
    rintro rfl
    unfold HasVersion invalidateCodeVersion at hq
    rw [set_obj_self] at hq
    exact absurd hq.2 (by simp)
  unfold HasVersion invalidateCodeVersion at hq
  rw [set_obj_of_ne _ _ hne] at hq
  exact ⟨hq, hne⟩

lemma invalidateCodeVersion_versionOk (hok : VersionOk hash h q) (p : MemoryMapPtr) :
    VersionOk hash (h.invalidateCodeVersion p) q := by
  by_cases hq : q = p
  · exact versionOk_of_not fun hhas => (invalidateCodeVersion_hasVersion hhas).2 hq
  · exact hok.congr (by unfold invalidateCodeVersion; rw [set_obj_of_ne _ _ hq])

lemma computeCodeVersion_versioned (hver : Versioned hash h) (p : MemoryMapPtr) :
    Versioned hash (h.computeCodeVersion hash p).1 := by
  unfold computeCodeVersion
  simp only
  split
  · rename_i d hd
    split
    · exact hver
    intro q data hk hvalid
    by_cases hq : q = h.root p
    · subst hq
      rw [set_obj_self] at hk ⊢
      obtain rfl : d = data := by
        have heq := hd.symm.trans hk
        injection heq
      rfl
    rw [set_obj_of_ne _ _ hq] at hk hvalid ⊢
    exact hver q data hk hvalid
  · exact hver

/-- At most, versions were computed and cached. -/
structure Cached (hash : List UInt8 → Nat) (h h' : Heap) : Prop where
  next : h'.next = h.next
  obj : ∀ p, h'.obj p = h.obj p ∨ ∃ data, (h.obj p).kind = .array data ∧
    (h.obj p).codeVersionIsValid = false ∧
    h'.obj p = { h.obj p with
      codeVersion := hash (arrayBytes (h.obj p) data), codeVersionIsValid := true }

lemma Cached.refl (hash : List UInt8 → Nat) (h : Heap) : Cached hash h h :=
  ⟨rfl, fun _ => .inl rfl⟩

lemma Cached.trans {h'' : Heap} (h1 : Cached hash h h') (h2 : Cached hash h' h'') :
    Cached hash h h'' := by
  refine ⟨h2.next.trans h1.next, fun p => ?_⟩
  rcases h1.obj p with heq | ⟨data, hk, hv, heq⟩
  · rw [← heq]
    exact h2.obj p
  -- a version that is there is not computed again
  rcases h2.obj p with heq' | ⟨data', _, hv', _⟩
  · exact .inr ⟨data, hk, hv, heq'.trans heq⟩
  rw [heq] at hv'
  simp at hv'

lemma computeCodeVersion_cached (hash : List UInt8 → Nat) (h : Heap) (p : MemoryMapPtr) :
    Cached hash h (h.computeCodeVersion hash p).1 := by
  unfold computeCodeVersion
  simp only
  split
  · rename_i d hd
    split
    · exact Cached.refl hash h
    rename_i hv
    refine ⟨rfl, fun q => ?_⟩
    by_cases hq : q = h.root p
    · subst hq
      exact .inr ⟨d, hd, by simpa using hv, set_obj_self ..⟩
    · exact .inl (set_obj_of_ne _ _ hq)
  · exact Cached.refl hash h

lemma Cached.kind (hc : Cached hash h h') (p : MemoryMapPtr) :
    (h'.obj p).kind = (h.obj p).kind := by
  rcases hc.obj p with heq | ⟨_, _, _, heq⟩
  · rw [heq]
  · rw [heq]

lemma Cached.root (hc : Cached hash h h') (p : MemoryMapPtr) : h'.root p = h.root p := by
  have hfrom : ∀ fuel p, h'.rootFrom fuel p = h.rootFrom fuel p := by
    intro fuel
    induction fuel with
    | zero => exact fun _ => rfl
    | succ fuel ih =>
    intro p
    unfold rootFrom
    rw [hc.kind p]
    split
    · exact ih _
    · rfl
  unfold Heap.root
  rw [hc.next, hfrom]

lemma Cached.version (hc : Cached hash h h') (p : MemoryMapPtr) :
    (h'.computeCodeVersion hash p).2 = (h.computeCodeVersion hash p).2 := by
  unfold computeCodeVersion
  rw [hc.root p]
  simp only
  rcases hc.obj (h.root p) with heq | ⟨data, hk, hv, heq⟩
  · rw [heq]
    cases (h.obj (h.root p)).kind with
    | array data => simp only; split <;> rfl
    | _ => rfl
  rw [heq]
  simp only [hk, hv]
  rfl

lemma Grows.versioned (hg : Grows h h') (hver : Versioned hash h) : Versioned hash h' := by
  intro q data hk hvalid
  by_cases hq : q < h.next
  · rw [hg.ext.obj q hq] at hk hvalid ⊢
    exact hver q data hk hvalid
  by_cases hq' : q < h'.next
  · exact absurd ((hg.uncached q (Nat.not_lt.mp hq) hq').symm.trans hvalid) (by simp)
  rw [hg.wf.unused q (Nat.not_lt.mp hq')] at hk
  simp at hk

end Heap

namespace AddressSpace

variable {hash : List UInt8 → Nat} {h h' : Heap} {cfg : Config} {s s' : AddressSpace}
  {page addr endAddr a x : Nat} {vals : List UInt8} {ok : Bool} {p : MemoryMapPtr}
  {I : AddressSpace → Heap → Nat → Nat → Prop} {J : AddressSpace → Heap → Prop}
  {v : Nat → Option UInt8}

lemma Forked.versioned {maps maps' : List MemoryMapPtr} (hf : Forked h h' maps maps')
    (hver : Heap.Versioned hash h) : Heap.Versioned hash h' := by
  intro q data hk hvalid
  by_cases hq : q < h.next
  · rcases hf.self q hq with heq | ⟨_, hna⟩
    · rw [heq] at hk hvalid ⊢
      exact hver q data hk hvalid
    · exact absurd ⟨data, hk⟩ hna
  by_cases hq' : q < h'.next
  · exact absurd ((hf.uncached q (Nat.not_lt.mp hq) hq').symm.trans hvalid) (by simp)
  rw [hf.wf.unused q (Nat.not_lt.mp hq')] at hk
  simp at hk

lemma noteCodeWrite_versionOk (cfg : Config) (s : AddressSpace) (page : Nat) (p : MemoryMapPtr)
    {q : MemoryMapPtr} (hok : Heap.VersionOk hash h q) :
    Heap.VersionOk hash (noteCodeWrite cfg s h page p).2 q := by
  unfold noteCodeWrite
  split
  · exact Heap.invalidateCodeVersion_versionOk hok p
  · exact hok

/-- What the page loop does to one writable page: `[addr, nextEnd)` is the part of
the access on it. -/
inductive PageWrite (cfg : Config) (s : AddressSpace) (h : Heap) (page addr nextEnd : Nat) :
    AddressSpace → Heap → Prop
  | owned (p : MemoryMapPtr) (h' : Heap) (vals : List UInt8) (owns : Owns h s p page)
      (length : vals.length = nextEnd - addr)
      (stored : Heap.Stored (noted cfg s h page p).2 h' p
        (overwrite ((noted cfg s h page p).2.byte p) addr vals))
      (skipped : nextEnd ≤ addr → h' = (noted cfg s h page p).2) :
      PageWrite cfg s h page addr nextEnd (noted cfg s h page p).1 h'
  | unowned (unowned : ∀ p, ¬ Owns h s p page) (skipped : nextEnd ≤ addr) :
      PageWrite cfg s h page addr nextEnd (noted cfg s h page s.invalid).1
        (noted cfg s h page s.invalid).2

/-- Where the page loop stands: the invariants of the heap and the address space,
and a page below the end of the access that is writable. -/
structure AtPage (s : AddressSpace) (h : Heap) (page addr endAddr : Nat) : Prop where
  heap : h.WF
  space : s.WF h
  aligned : page % 4096 = 0
  more : page < endAddr
  above : min page endAddr ≤ addr
  below : addr < page + 4096
  writable : s.canWriteAligned page = true

lemma writePage_skipped (hs : s.WF h) {nextEnd : Nat} {rest : List UInt8}
    (hpage : page % 4096 = 0) (hw : s.canWriteAligned page = true) (ho : Owns h s p page)
    (hrun : writePage cfg s h page addr (nextEnd - addr) vals = some (ok, s', h', rest))
    (hz : nextEnd ≤ addr) : h' = (noted cfg s h page p).2 := by
  have hacc : s.accessible page = true := by
    unfold accessible
    rw [hw]
    simp
  rw [Nat.sub_eq_zero_of_le hz] at hrun
  simp only [writePage, findRangeAligned_eq hs hpage ho hacc, writeBytes, Option.map_some,
    Option.some.injEq, Prod.mk.injEq] at hrun
  exact hrun.2.2.1.symm

/-- **Rule for the page loop.** What every page keeps, the loop keeps, until it ends or stops at a
page that it may not write or that is not mapped. -/
lemma tryWriteLoop_rule (cfg : Config)
    (hstep : ∀ s h page addr s' h' v, AtPage s h page addr endAddr → Updates h s h' s' v →
      PageWrite cfg s h page addr (min endAddr (page + 4096)) s' h' → I s h page addr → I s' h'
      (page + 4096) (max addr (min endAddr (page + 4096))))
    (hstop : ∀ s h page addr, AtPage s h page addr endAddr → (∀ p, ¬ Owns h s p page) → I s h page
      addr → J (noted cfg s h page s.invalid).1 (noted cfg s h page s.invalid).2)
    (hdone : ∀ s h page addr, page % 4096 = 0 → endAddr ≤ page ∨ s.canWriteAligned page = false → I
      s h page addr → J s h) {fuel : Nat} (hwf : h.WF) (hs : s.WF h) (hpage : page % 4096 = 0)
    (habove : min page endAddr ≤ addr) (hbelow : addr < page + 4096)
    (hlen : endAddr - addr ≤ vals.length) (hI : I s h page addr)
    (hrun : tryWriteLoop cfg fuel s h page addr endAddr vals = some (ok, s', h')) : J s' h' := by
  induction fuel generalizing h s page addr vals with
  | zero => exact absurd hrun (by simp [tryWriteLoop])
  | succ fuel ih =>
  rw [tryWriteLoop_succ] at hrun
  by_cases hlt : page < endAddr
  · rw [if_pos hlt] at hrun
    by_cases hw : s.canWriteAligned page = true
    · rw [if_pos hw] at hrun
      have hat : AtPage s h page addr endAddr := ⟨hwf, hs, hpage, hlt, habove, hbelow, hw⟩
      have hround := Flat.round hpage hlt habove
      -- the last page of the 64-bit space is not writable, so the loop does not wrap
      have hlast : page < 2 ^ 64 - 4096 := by
        by_contra hge
        have hno := hs.lastPage page (Nat.not_lt.mp hge)
        exact absurd (hno.symm.trans hw) (by simp)
      have hwrap := wrap64_add_page page (by omega)
      rw [hwrap] at hrun hround
      have hpageStep := fun s' h' v => hstep s h page addr s' h' v hat
      generalize min endAddr (page + 4096) = nextEnd at hrun hround hpageStep
      have hround_below := hround.below
      have hround_within := hround.within
      rcases writePage_cases cfg hwf hs vals hpage hw hround.chunk hround.within (by omega)
        with ⟨p, ho, h1, heq, hst⟩ | ⟨hno, rest, heq, hrest⟩
      · obtain ⟨v, hu⟩ := writePage_some cfg hwf hs hpage hw hround.chunk hround.within
          (by omega) heq
        have hpw : PageWrite cfg s h page addr nextEnd _ h1 :=
          .owned p h1 (vals.take (nextEnd - addr)) ho (by rw [List.length_take]; omega) hst
            (writePage_skipped hs hpage hw ho heq)
        rw [heq] at hrun
        exact ih (hu.heapWF hwf) (hu.wf hs) hround.pageMod hround.next (by omega)
          (by rw [List.length_drop]; omega) (hpageStep _ _ v hu hpw hI) hrun
      · obtain ⟨v, hu⟩ := writePage_some cfg hwf hs hpage hw hround.chunk hround.within
          (by omega) heq
        rw [heq] at hrun
        by_cases hz : nextEnd ≤ addr
        · rw [decide_eq_true hz, hrest hz] at hrun
          exact ih (hu.heapWF hwf) (hu.wf hs) hround.pageMod hround.next (by omega) (by omega)
            (hpageStep _ _ v hu (.unowned hno hz) hI) hrun
        rw [decide_eq_false hz] at hrun
        cases hrun
        exact hstop s h page addr hat hno hI
    · rw [if_neg hw] at hrun
      simp only [Option.some.injEq, Prod.mk.injEq] at hrun
      obtain ⟨_, rfl, rfl⟩ := hrun
      exact hdone s h page addr hpage (.inr (by simpa using hw)) hI
  · rw [if_neg hlt] at hrun
    simp only [Option.some.injEq, Prod.mk.injEq] at hrun
    obtain ⟨_, rfl, rfl⟩ := hrun
    exact hdone s h page addr hpage (.inl (Nat.not_lt.mp hlt)) hI

lemma tryWrite_rule (cfg : Config)
    (hstep : ∀ s h page x s' h' v, AtPage s h page x (wrap64 (addr + vals.length)) → Updates h s h'
      s' v → PageWrite cfg s h page x (min (wrap64 (addr + vals.length)) (page + 4096)) s' h' → I s
      h page x → I s' h' (page + 4096) (max x (min (wrap64 (addr + vals.length)) (page + 4096))))
    (hstop : ∀ s h page x, AtPage s h page x (wrap64 (addr + vals.length)) → (∀ p, ¬ Owns h s p
      page) → I s h page x → J (noted cfg s h page s.invalid).1 (noted cfg s h page s.invalid).2)
    (hdone : ∀ s h page x, page % 4096 = 0 → wrap64 (addr + vals.length) ≤ page ∨ s.canWriteAligned
      page = false → I s h page x → J s h) (hwf : h.WF) (hs : s.WF h) (ha : a &&& s.addrMask = addr)
    (hI : I s h (alignDownToPage addr) addr) (hrun : s.tryWrite cfg h a vals = some (ok, s', h')) :
    J s' h' := by
  have halt : addr < 2 ^ 64 := ha ▸ mask_lt hs a
  have hle := alignDownToPage_le addr
  have hwrap : wrap64 (addr + vals.length) ≤ addr + vals.length := Nat.mod_le _ _
  simp only [tryWrite, ha] at hrun
  exact tryWriteLoop_rule cfg hstep hstop hdone hwf hs (alignDownToPage_mod addr) (by omega)
    (lt_alignDownToPage_add halt) (by omega) hI hrun

/-- The loop gets from `page` to `x`. -/
def Reaches (h : Heap) (s : AddressSpace) (page x : Nat) : Prop :=
  ∀ y, page ≤ y → y ≤ x →
    s.canWriteAligned (alignDownToPage y) = true ∧ ∃ p, Owns h s p y

/-- The loop will get to an executable page of `p`. -/
def Due (h : Heap) (s : AddressSpace) (p : MemoryMapPtr) (page endAddr : Nat) : Prop :=
  ∃ q, page ≤ q ∧ q < endAddr ∧ Reaches h s page q ∧ Owns h s p q ∧
    s.canExecuteAligned (alignDownToPage q) = true

lemma Due.not_at_end (hlt64 : endAddr < 2 ^ 64) (hpage : page % 4096 = 0)
    (hend : endAddr ≤ page ∨ s.canWriteAligned page = false) : ¬ Due h s p page endAddr := by
  rintro ⟨q, hq, hlt, hr, _⟩
  rcases hend with hend | hend
  · omega
  have hw := (hr page le_rfl hq).1
  rw [alignDownToPage_of_aligned (by omega) hpage, hend] at hw
  simp at hw

lemma Owns.between {b c : Nat} (ha : Owns h s p a) (hc : Owns h s p c) (hab : a ≤ b)
    (hbc : b ≤ c) : Owns h s p b :=
  ⟨ha.mem, ha.valid, ha.inside.1.trans hab, hbc.trans_lt hc.inside.2⟩

lemma Updates.owns (hu : Updates h s h' s' v) : Owns h' s' p a ↔ Owns h s p a :=
  (hu.accessed.owns).trans (Owns.sameShape fun q _ => hu.touched.sameShape q)

lemma Updates.reaches (hu : Updates h s h' s' v) : Reaches h' s' page x ↔ Reaches h s page x := by
  unfold Reaches canWriteAligned
  rw [hu.accessed.canWrite]
  simp only [hu.owns]

lemma Updates.due (hu : Updates h s h' s' v) :
    Due h' s' p page endAddr ↔ Due h s p page endAddr := by
  unfold Due canExecuteAligned
  rw [hu.accessed.canExecute]
  simp only [hu.owns, hu.reaches]

lemma Reaches.of_next (hat : AtPage s h page addr endAddr) (ho : Owns h s p page)
    (hr : Reaches h s (page + 4096) x) : Reaches h s page x := by
  intro y hy hyx
  by_cases hlt : y < page + 4096
  · have hle := ho.page_le hat.space hat.aligned
    rw [alignDownToPage_of_mem hat.aligned hy hlt (by omega)]
    exact ⟨hat.writable, p, (owns_page_iff hat.space hat.aligned hy hlt).mpr ho⟩
  · exact hr y (Nat.not_lt.mp hlt) hyx

lemma Due.next (hat : AtPage s h page addr endAddr) (hd : Due h s p page endAddr)
    (hno : ¬ (Owns h s p page ∧ s.canExecuteAligned page = true)) :
    Due h s p (page + 4096) endAddr ∧
      (Owns h s p page → Owns h s p (page + 4096)) := by
  obtain ⟨q, hq, hlt, hr, ho, hx⟩ := hd
  have hge : page + 4096 ≤ q := by
    by_contra hin
    have hop := (owns_page_iff hat.space hat.aligned hq (Nat.not_le.mp hin)).mp ho
    have hle := hop.page_le hat.space hat.aligned
    rw [alignDownToPage_of_mem hat.aligned hq (Nat.not_le.mp hin) (by omega)] at hx
    exact hno ⟨hop, hx⟩
  exact ⟨⟨q, hge, hlt, fun y hy => hr y (by omega), ho, hx⟩,
    fun hop => hop.between ho (by omega) hge⟩

lemma AtPage.reaches (hat : AtPage s h page addr endAddr) (ho : Owns h s p page)
    (hle : page ≤ addr) : Reaches h s page addr ∧ Owns h s p addr := by
  have hbelow := hat.below
  have hlimit := ho.page_le hat.space hat.aligned
  refine ⟨fun y hy hya => ?_, (owns_page_iff hat.space hat.aligned hle hbelow).mpr ho⟩
  rw [alignDownToPage_of_mem hat.aligned hy (by omega) (by omega)]
  exact ⟨hat.writable, p, (owns_page_iff hat.space hat.aligned hy (by omega)).mpr ho⟩

/-- The invariant of the page loop. A version may be out of date on the way, as long as the loop is
still due to drop it. -/
structure Storing (hash : List UInt8 → Nat) (endAddr : Nat) (s : AddressSpace) (h : Heap)
    (page addr : Nat) : Prop where
  ok : ∀ p, Heap.VersionOk hash h p ∨ Owns h s p page ∧ Due h s p page endAddr
  due : ∀ p x, addr ≤ x → x < endAddr → Reaches h s page x → Owns h s p x →
    Heap.HasVersion h p → Due h s p page endAddr

lemma noteCodeWrite_versions (hon : cfg.versionCode = true) (s : AddressSpace) (h : Heap)
    (page : Nat) (p : MemoryMapPtr) :
    (∀ q, q ≠ p → (noteCodeWrite cfg s h page p).2.obj q = h.obj q) ∧
      (s.canExecuteAligned page = true →
        ¬ Heap.HasVersion (noteCodeWrite cfg s h page p).2 p) ∧
      (s.canExecuteAligned page = false → (noteCodeWrite cfg s h page p).2 = h) := by
  unfold noteCodeWrite
  rw [hon, Bool.true_and]
  cases hx : s.canExecuteAligned page with
  | true =>
    rw [if_pos rfl]
    refine ⟨fun q hq => ?_, fun _ hhas => ?_, fun hf => absurd hf (by simp)⟩
    · unfold Heap.invalidateCodeVersion
      rw [Heap.set_obj_of_ne _ _ hq]
    · exact (Heap.invalidateCodeVersion_hasVersion hhas).2 rfl
  | false =>
  rw [if_neg (by simp)]
  exact ⟨fun _ _ => rfl, fun hf => absurd hf (by simp), fun _ => rfl⟩

/-- One page of the write loop. -/
lemma Storing.step (hon : cfg.versionCode = true) (hat : AtPage s h page addr endAddr)
    (hu : Updates h s h' s' v) (hpw : PageWrite cfg s h page addr (min endAddr (page + 4096)) s' h')
    (hI : Storing cfg.hash endAddr s h page addr) :
    Storing cfg.hash endAddr s' h' (page + 4096) (max addr (min endAddr (page + 4096))) := by
  have hbelow := hat.below
  have hmore := hat.more
  cases hpw with
  | owned p _ vals ho hlen hst _ =>
    have hexec : (s.findRangeAligned h page).1.canExecuteAligned = s.canExecuteAligned := by
      funext a
      unfold canExecuteAligned
      rw [(findRangeAligned_spec hat.space page).1.canExecute]
    obtain ⟨hframe, hdrop, hsame⟩ :=
      noteCodeWrite_versions hon (s.findRangeAligned h page).1 h page p
    rw [hexec] at hdrop hsame
    generalize (noted cfg s h page p).2 = h1
      at hframe hdrop hsame hst
    -- the range of this page has a version afterwards only if the page is not code
    have hhas : Heap.HasVersion h' p → Heap.HasVersion h p ∧ s.canExecuteAligned page = false := by
      intro hv
      have hv1 := hst.hasVersion hv
      cases hx : s.canExecuteAligned page with
      | true => exact absurd hv1 (hdrop hx)
      | false => exact ⟨hsame hx ▸ hv1, rfl⟩
    have hother : ∀ q, q ≠ p → h'.obj q = h.obj q := fun q hq =>
      (hst.frame hq).trans (hframe q hq)
    have hlater : ∀ q, Heap.HasVersion h' q → Due h s q page endAddr →
        Due h s q (page + 4096) endAddr ∧ (Owns h s q page → Owns h s q (page + 4096)) := by
      intro q hv hd
      refine hd.next hat fun ⟨hop, hx⟩ => ?_
      obtain rfl := hop.unique hat.space ho
      exact absurd ((hhas hv).2.symm.trans hx) (by simp)
    refine ⟨fun q => ?_, fun q x hx hlt hr hoq hv => ?_⟩
    · by_cases hv : Heap.HasVersion h' q
      · by_cases hq : q = p
        · subst hq
          obtain ⟨hv0, hx⟩ := hhas hv
          obtain rfl := hsame hx
          by_cases hz : addr < min endAddr (page + 4096)
          · -- a byte of this page is stored, so the range is due
            have hpa : page ≤ addr := by
              have := hat.above
              omega
            obtain ⟨hreach, hoa⟩ := hat.reaches ho hpa
            have hd := hI.due q addr le_rfl (by omega) hreach hoa hv0
            exact .inr ⟨hu.owns.mpr ((hlater q hv hd).2 ho), hu.due.mpr (hlater q hv hd).1⟩
          rcases hI.ok q with hok | ⟨hoq, hd⟩
          · left
            obtain rfl : vals = [] := List.length_eq_zero_iff.mp (by omega)
            rw [overwrite_nil] at hst
            have hpg := hat.space.paged q ho.mem ho.valid
            have hin := ho.inside
            exact hst.versionOk hok (Nat.lt_of_le_of_lt hin.1 hin.2).le hpg.lt
          · exact .inr ⟨hu.owns.mpr ((hlater q hv hd).2 hoq), hu.due.mpr (hlater q hv hd).1⟩
        rcases hI.ok q with hok | ⟨hoq, hd⟩
        · exact .inl (hok.congr (hother q hq))
        · exact .inr ⟨hu.owns.mpr ((hlater q hv hd).2 hoq), hu.due.mpr (hlater q hv hd).1⟩
      · exact .inl (Heap.versionOk_of_not hv)
    rw [hu.reaches] at hr
    rw [hu.owns] at hoq
    have hv0 : Heap.HasVersion h q := by
      by_cases hq : q = p
      · subst hq
        exact (hhas hv).1
      unfold Heap.HasVersion at hv ⊢
      rwa [hother q hq] at hv
    exact hu.due.mpr (hlater q hv (hI.due q x (by omega) hlt (hr.of_next hat ho) hoq hv0)).1
  | unowned hno hz =>
    refine ⟨fun q => ?_, fun q x hx hlt _ _ _ => absurd hlt (by omega)⟩
    rcases hI.ok q with hok | ⟨hoq, _⟩
    · exact .inl (noteCodeWrite_versionOk cfg _ page _ hok)
    · exact absurd hoq (hno q)

/-- The write gets to `x`. -/
def StoresTo (h : Heap) (s : AddressSpace) (a n x : Nat) : Prop :=
  a ≤ x ∧ x < wrap64 (a + n) ∧ Reaches h s (alignDownToPage a) x

/-- A write through the page loop that stores to a range with a cached version stores to an
executable page of it as well. -/
def CodeNoted (h : Heap) (s : AddressSpace) (a n : Nat) : Prop :=
  ∀ p x, StoresTo h s a n x → Owns h s p x → Heap.HasVersion h p →
    ∃ q, StoresTo h s a n q ∧ Owns h s p q ∧ s.canExecuteAligned (alignDownToPage q) = true

/-- The write drops the versions of what it changes. -/
def WriteNoted (h : Heap) (s : AddressSpace) (a n : Nat) (quick : Bool) : Prop :=
  (quick = true → a + n ≤ alignDownToPage a + 4096 →
    ¬ Heap.HasVersion h (s.findWNXRange h a).2) ∧ CodeNoted h s a n

lemma tryWrite_versioned (hon : cfg.versionCode = true) (hwf : h.WF) (hs : s.WF h)
    (ha : a &&& s.addrMask = a) (hver : Heap.Versioned cfg.hash h)
    (hnoted : CodeNoted h s a vals.length) (hrun : s.tryWrite cfg h a vals = some (ok, s', h')) :
    Heap.Versioned cfg.hash h' := by
  have hle := alignDownToPage_le a
  refine tryWrite_rule cfg (J := fun _ h => Heap.Versioned cfg.hash h)
    (fun s h page addr s' h' v hat hu hpw hI => Storing.step hon hat hu hpw hI) ?_ ?_ hwf hs ha
    ?_ hrun
  · intro s h page addr _ hno hI p
    rcases hI.ok p with hok | ⟨ho, _⟩
    · exact noteCodeWrite_versionOk cfg _ page _ hok
    · exact absurd ho (hno p)
  · intro s h page addr hpage hend hI p
    rcases hI.ok p with hok | ⟨_, hd⟩
    · exact hok
    · exact absurd hd (Due.not_at_end (wrap64_lt _) hpage hend)
  · refine ⟨fun p => .inl (hver p), fun p x hax hxe hr ho hv => ?_⟩
    obtain ⟨q, ⟨hq, hqe, hrq⟩, hoq, hx⟩ := hnoted p x ⟨hax, hxe, hr⟩ ho hv
    exact ⟨q, by omega, hqe, hrq, hoq, hx⟩

/-- A write whose pages are noted leaves no stale version. -/
lemma WriteCases.versioned (hon : cfg.versionCode = true) (hwf : h.WF) (hs : s.WF h)
    (ha : a &&& s.addrMask = a) {quick : Bool}
    (hc : WriteCases cfg h s a vals quick (some (ok, s', h'))) (hver : Heap.Versioned cfg.hash h)
    (hnoted : WriteNoted h s a vals.length quick) : Heap.Versioned cfg.hash h' := by
  cases hc with
  | fast hq p s2 h2 hfound ho hacc _ hfit hw heq =>
    obtain ⟨_, _, rfl⟩ : ok = true ∧ s' = s2 ∧ h' = h2 := by simpa using heq
    intro q
    by_cases hqp : q = p
    · subst hqp
      exact Heap.versionOk_of_not fun hv => hnoted.1 hq hfit (hfound ▸ hw.hasVersion hv)
    · exact (hver q).congr (hw.frame q hqp)
  | slow s1 h1 hacc _ hp _ heq =>
  have hu := prepared_updates hwf hs hacc hp
  have hhas : ∀ q, Heap.HasVersion h1 q → Heap.HasVersion h q := by
    intro q hq
    rcases hp with rfl | ⟨p, _, hw⟩
    · exact hq
    · exact hw.hasVersion hq
  have hver1 : Heap.Versioned cfg.hash h1 := by
    rcases hp with rfl | ⟨p, ho, hw⟩
    · exact hver
    intro q
    by_cases hqp : q = p
    · subst hqp
      have hin := ho.inside
      exact hw.versionOk (hver q) (Nat.lt_of_le_of_lt hin.1 hin.2).le
        (hs.paged q ho.mem ho.valid).lt fun _ _ _ => rfl
    · exact (hver q).congr (hw.frame q hqp)
  refine tryWrite_versioned hon (hu.heapWF hwf) (hu.wf hs) (hacc.addrMask.symm ▸ ha) hver1 ?_
    heq.symm
  intro p x hst ho hv
  unfold StoresTo at hst ⊢
  simp only [hu.reaches, hu.owns, canExecuteAligned, hacc.canExecute] at hst ho ⊢
  exact hnoted.2 p x hst ho (hhas p hv)

end AddressSpace

namespace Heap

variable {h : Heap} {p : MemoryMapPtr}

/-- The bytes of a range. -/
def rangeBytes (h : Heap) (p : MemoryMapPtr) : List UInt8 :=
  (List.range (h.obj p).size).map (fun i => h.byte p ((h.obj p).baseAddress + i))

/-- The range has bytes of its own, or those of a parent. -/
def Backed (h : Heap) (p : MemoryMapPtr) : Prop :=
  (h.obj p).IsArray ∨ ∃ q, (h.obj p).kind = .copyOnWrite q

lemma rangeBytes_of_array {data : Nat → UInt8} (hk : (h.obj p).kind = .array data)
    (hle : (h.obj p).baseAddress ≤ (h.obj p).limitAddress) (hlt : (h.obj p).limitAddress < 2 ^ 64) :
    h.rangeBytes p = arrayBytes (h.obj p) data := by
  refine List.map_congr_left fun i hi => ?_
  have hi' := List.mem_range.mp hi
  unfold MappedRange.size at hi'
  rw [sub64_of_le hle hlt] at hi'
  rw [byte_of_array hk, sub64_of_le (by omega) (by omega), Nat.add_sub_cancel_left]

lemma VersionOk.computeCodeVersion {hash : List UInt8 → Nat} (hwf : h.WF)
    (hok : VersionOk hash h (h.root p)) (hp : Backed h p)
    (hle : (h.obj p).baseAddress ≤ (h.obj p).limitAddress) (hlt : (h.obj p).limitAddress < 2 ^ 64) :
    (h.computeCodeVersion hash p).2 = hash (h.rangeBytes p) := by
  -- the array that answers the call, and its bytes
  obtain ⟨data, hk, hbytes⟩ : ∃ data, (h.obj (h.root p)).kind = .array data ∧
      h.rangeBytes p = arrayBytes (h.obj (h.root p)) data := by
    rcases hp with ⟨data, hk⟩ | ⟨q, hk⟩
    · exact ⟨data, (root_of_array hk).symm ▸ hk,
        (root_of_array hk).symm ▸ rangeBytes_of_array hk hle hlt⟩
    obtain ⟨data, hq⟩ := hwf.parent p q hk
    have hb := hwf.base p q hk
    have hl := hwf.limit p q hk
    refine ⟨data, (root_of_cow hwf hk).symm ▸ hq, ?_⟩
    rw [root_of_cow hwf hk, ← rangeBytes_of_array hq (by rwa [hb, hl])
      (by rwa [hl])]
    unfold rangeBytes MappedRange.size
    rw [hb, hl]
    exact List.map_congr_left fun i _ => byte_of_cow hwf hk _
  rw [hbytes]
  unfold Heap.computeCodeVersion
  simp only [hk]
  split
  · rename_i hvalid
    exact hok data hk hvalid
  · rfl

end Heap

namespace World

open AddressSpace

variable {w : World} {op : Op} {Q : AddressSpace → Nat → Nat → Prop}

/-- `Q` holds of the address space, address and size of a write. -/
def OnStore (w : World) (op : Op) (Q : AddressSpace → Nat → Nat → Prop) : Prop :=
  ∀ i ∈ op.target, ∀ st ∈ op.stores, ∀ s ∈ w.spaces[i]?, Q s (st.1 &&& s.addrMask) st.2.length

instance (w : World) (op : Op) (Q : AddressSpace → Nat → Nat → Prop)
    [∀ s a n, Decidable (Q s a n)] : Decidable (w.OnStore op Q) :=
  inferInstanceAs (Decidable (∀ i ∈ _, _))

lemma OnStore.elim (hq : w.OnStore op Q) {i addr : Nat} {vals : List UInt8} {s : AddressSpace}
    (htarget : op.target = some i) (hstores : op.stores = some (addr, vals))
    (hi : w.spaces[i]? = some s) : Q s (addr &&& s.addrMask) vals.length :=
  hq i htarget _ hstores s hi

lemma OnStore.mono {R : AddressSpace → Nat → Nat → Prop} (hq : w.OnStore op Q)
    (himp : ∀ s a n, Q s a n → R s a n) : w.OnStore op R :=
  fun i htarget st hstores s hi => himp s _ _ (hq i htarget st hstores s hi)

lemma Effect.versioned {cfg : Config} (hon : cfg.versionCode = true) {w' : World} (hw : w.WF)
    (he : Effect cfg w op w') (hver : Heap.Versioned cfg.hash w.heap)
    (hnoted : w.OnStore op fun s a n => WriteNoted w.heap s a n op.isQuick) :
    Heap.Versioned cfg.hash w'.heap := by
  cases he with
  | read i s s' _ _ hi _ _ => exact hver
  | write i s s' h' addr vals ok hstores htarget hi hc =>
    have hs := hw.space i s hi
    exact hc.versioned hon hw.heap hs (mask_mask s addr) hver
      (OnStore.elim hnoted htarget hstores hi)
  | version i pc s _ hi =>
    show Heap.Versioned cfg.hash (computeCodeVersion cfg s w.heap pc).2.2
    unfold AddressSpace.computeCodeVersion
    rw [if_pos hon]
    exact Heap.computeCodeVersion_versioned hver _
  | mark i pc s _ hi => exact hver
  | replace i base size m s s' h' _ _ hi _ hrep _ _ => exact hrep.grows.versioned hver
  | protect i base size r wr x s _ hi => exact hver
  | fork i s s' h' _ hi hc =>
    obtain ⟨maps', hf, _⟩ := hc.forked
    exact hf.versioned hver
  | create _ => exact (new_spec cfg hw.heap).1.versioned hver

end World

end Vmill
