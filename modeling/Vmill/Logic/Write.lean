import Vmill.Logic.TypedRead

/-!
# Writes

`Updates h s h' s' v` says what any sequence of accesses amounts to: the memory is `v` now.
`WriteCases` splits the calls in two: the store was made through the index of writable,
non-executable pages (`fast`), or the loop was run (`slow`).
-/

namespace Vmill

open Base

namespace Heap

variable {h h' : Heap} {p : MemoryMapPtr} {f : Nat → UInt8}

/-- Range `p` holds `f` now, whether it was written or not. -/
def Stored (h h' : Heap) (p : MemoryMapPtr) (f : Nat → UInt8) : Prop :=
  Wrote h h' p f ∨
    (h' = h ∧ ∀ a, (h.obj p).baseAddress ≤ a → a < (h.obj p).limitAddress → h.byte p a = f a)

lemma Wrote.stored {h'' : Heap} {g : Nat → UInt8} (h1 : Wrote h h' p f) (h2 : Stored h' h'' p g) :
    Wrote h h'' p g := by
  rcases h2 with h2 | ⟨rfl, hg⟩
  · exact h1.trans h2
  refine h1.congr fun a ha hl => ?_
  rw [← h1.held a ha hl]
  exact hg a (by rwa [h1.base]) (by rwa [h1.limit])

lemma Stored.touched (hst : Stored h h' p f) (hk : (h.obj p).kind ≠ .invalid) :
    Touched (· = p) h h' := by
  rcases hst with hw | ⟨rfl, _⟩
  · exact hw.touched hk
  · exact Touched.refl _ _

lemma Stored.held (hst : Stored h h' p f) {a : Nat} (ha : a ∈ h.extent p) :
    h'.byte p a = f a := by
  rcases hst with hw | ⟨rfl, hf⟩
  · exact hw.held a ha.1 ha.2
  · exact hf a ha.1 ha.2

lemma invalidateCodeVersion_touched (h : Heap) (p : MemoryMapPtr) :
    Touched (fun _ => False) h (h.invalidateCodeVersion p) := by
  unfold invalidateCodeVersion
  refine ⟨rfl, fun q => ?_, fun q => ?_, fun q => ?_, fun q => .inl ?_⟩
  all_goals by_cases hq : q = p
  all_goals first
    | rw [hq, set_obj_self]
    | rw [set_obj_of_ne _ _ hq]

end Heap

namespace AddressSpace

variable {h h' : Heap} {s : AddressSpace} {p : MemoryMapPtr} {addr count page nextEnd : Nat}
  {vals : List UInt8}

/-- Accesses have been made, and the memory is `v` now. -/
structure Updates (h : Heap) (s : AddressSpace) (h' : Heap) (s' : AddressSpace)
    (v : Nat → Option UInt8) : Prop where
  touched : Heap.Touched (· ∈ s.maps) h h'
  accessed : Accessed s s'
  view : view h' s' = v

namespace Updates

variable {h'' : Heap} {s' s'' : AddressSpace} {v v' : Nat → Option UInt8}

lemma lookup (h : Heap) (ha : Accessed s s') : Updates h s h s' (AddressSpace.view h s) :=
  ⟨Heap.Touched.refl _ _, ha, ha.view h⟩

lemma refl (h : Heap) (s : AddressSpace) : Updates h s h s (AddressSpace.view h s) :=
  lookup h (Accessed.refl s)

lemma trans (h1 : Updates h s h' s' v) (h2 : Updates h' s' h'' s'' v') : Updates h s h'' s'' v' :=
  ⟨h1.touched.trans (h2.touched.mono fun q hq => by rw [← h1.accessed.maps]; exact hq),
    h1.accessed.trans h2.accessed, h2.view⟩

lemma heapWF (hu : Updates h s h' s' v) (hwf : h.WF) : h'.WF := hu.touched.wf hwf

lemma wf (hu : Updates h s h' s' v) (hs : s.WF h) : s'.WF h' := by
  refine WF.accessed (hs.sameShape (Nat.le_of_eq hu.touched.next.symm)
    (fun p _ => hu.touched.sameShape p) ?_ (fun p hp => hu.touched.notParent (hs.notParent p hp)))
    hu.accessed
  exact (hu.touched.invalid_iff _).mpr hs.invalid

/-- The same bytes are mapped. -/
lemma isSome_view (hu : Updates h s h' s' v) (hwf : h.WF) (hs : s.WF h) (a : Nat) :
    (AddressSpace.view h' s' a).isSome = (AddressSpace.view h s a).isSome := by
  have hnone : AddressSpace.view h' s' a = none ↔ AddressSpace.view h s a = none := by
    rw [view_eq_none (hu.heapWF hwf) (hu.wf hs), view_eq_none hwf hs]
    refine forall_congr' fun p => not_congr ?_
    rw [hu.accessed.owns, Owns.sameShape fun q _ => hu.touched.sameShape q]
  rw [Bool.eq_iff_iff, Option.isSome_iff_ne_none, Option.isSome_iff_ne_none]
  exact not_congr hnone

end Updates

lemma updates_of_untouched (hwf : h.WF) {s' : AddressSpace} (hs : s.WF h)
    (ht : Heap.Touched (fun _ => False) h h') (ha : Accessed s s') :
    Updates h s h' s' (view h s) := by
  have hu : Updates h s h' s' (view h' s') :=
    ⟨ht.mono fun _ hf => hf.elim, ha, rfl⟩
  refine ⟨hu.touched, ha, ?_⟩
  have hs' : s.WF h' := by
    have hu' : Updates h s h' s (view h' s) := ⟨hu.touched, Accessed.refl s, rfl⟩
    exact hu'.wf hs
  rw [ha.view]
  exact view_kept hwf (ht.wf hwf) hs hs'
    (fun p _ => ht.kept hwf (fun _ hf => hf.elim) (fun hf => hf))

lemma Updates.of_stored (hwf : h.WF) (hs : s.WF h) (hp : p ∈ s.maps)
    (hv : (h.obj p).kind ≠ .invalid) {chunk : List UInt8}
    (hin : ∀ x, addr ≤ x → x < addr + chunk.length → x ∈ h.extent p)
    (hst : Heap.Stored h h' p (overwrite (h.byte p) addr chunk)) :
    Updates h s h' s (overwrite (AddressSpace.view h s) addr (chunk.map some)) := by
  have ht := hst.touched hv
  have hu : Updates h s h' s (AddressSpace.view h' s) :=
    ⟨ht.mono fun q hq => by rw [hq]; exact hp, Accessed.refl s, rfl⟩
  have hwf' := hu.heapWF hwf
  have hs' := hu.wf hs
  have hshape : ∀ q ∈ s.maps, Heap.SameShape h h' q := fun q _ => ht.sameShape q
  refine { hu with view := ?_ }
  funext x
  by_cases hpx : Owns h s p x
  · have hpx' := (Owns.sameShape hshape).mpr hpx
    rw [hpx'.view_eq hwf' hs', hst.held hpx.inside, ← overwrite_map some]
    exact overwrite_congr (hpx.view_eq hwf hs).symm _ _
  -- outside the range nothing is stored, and the other ranges keep their bytes
  have hout : x < addr ∨ addr + (chunk.map some).length ≤ x := by
    rw [List.length_map]
    by_contra hno
    exact hpx ⟨hp, hv, hin x (by omega) (by omega)⟩
  rw [overwrite_of_not_mem hout]
  cases hr : rangeAt h s x with
  | none =>
    have hno := (rangeAt_eq_none hwf hs).mp hr
    rw [(view_eq_none hwf hs).mpr hno, view_eq_none hwf' hs']
    intro q hq
    exact hno q ((Owns.sameShape hshape).mp hq)
  | some q =>
  have hq := (rangeAt_eq_some hwf hs).mp hr
  have hne : q ≠ p := by
    rintro rfl
    exact hpx hq
  rw [hq.view_eq hwf hs, ((Owns.sameShape hshape).mpr hq).view_eq hwf' hs',
    ht.byte hwf (fun r hr => by rw [hr]; exact hs.notParent p hp) hne]

lemma writeBytes_spec (hwf : h.WF) (addr : Nat) (hv : (h.obj p).kind ≠ .invalid)
    (hpg : (h.obj p).Paged) (hin : ∀ x, addr ≤ x → x < addr + count → x ∈ h.extent p)
    (hlen : count ≤ vals.length) :
    ∃ h', writeBytes p h addr count vals = some (true, h', vals.drop count) ∧
      Heap.Stored h h' p (overwrite (h.byte p) addr (vals.take count)) := by
  induction count generalizing h addr vals with
  | zero => exact ⟨h, by cases vals <;> rfl, .inr ⟨rfl, fun a _ _ => by simp⟩⟩
  | succ count ih =>
  cases vals with
  | nil => simp at hlen
  | cons val vals =>
  obtain ⟨hb, hl⟩ := hin addr le_rfl (by omega)
  obtain ⟨h1, hwrite, hw⟩ := Heap.write_spec hwf val hv hpg hb hl
  have ht := hw.touched hv
  obtain ⟨h', hrun, hst⟩ : ∃ h',
      writeBytes p h1 (addr + 1) count vals = some (true, h', vals.drop count) ∧
        Heap.Stored h1 h' p (overwrite (h1.byte p) (addr + 1) (vals.take count)) :=
    ih (ht.wf hwf) (addr + 1) (fun he => hv ((ht.invalid_iff p).mp he))
      ((ht.sameShape p).paged hpg)
    (fun x hx hxl => by
      rw [(ht.sameShape p).extent]
      exact hin x (by omega) (by omega))
    (by simpa using hlen)
  refine ⟨h', ?_, .inl ((hw.stored hst).congr fun x hx hxl => ?_)⟩
  · simp only [writeBytes, hwrite, List.drop_succ_cons]
    exact hrun
  rw [List.take_succ_cons, overwrite_cons]
  exact overwrite_congr (hw.held x hx hxl) _ _

lemma writeBytes_of_invalid (addr : Nat) (hk : (h.obj p).kind = .invalid)
    (hlen : count ≤ vals.length) :
    (count = 0 ∧ writeBytes p h addr count vals = some (true, h, vals)) ∨
      (0 < count ∧ ∃ rest, writeBytes p h addr count vals = some (false, h, rest)) := by
  cases count with
  | zero => exact .inl ⟨rfl, by cases vals <;> rfl⟩
  | succ count =>
  cases vals with
  | nil => simp at hlen
  | cons val vals =>
  refine .inr ⟨Nat.succ_pos _, vals, ?_⟩
  simp only [writeBytes, Heap.write_of_invalid addr val hk]

/-- One round of the loop of `TryWrite`. -/
def writePage (cfg : Config) (s : AddressSpace) (h : Heap) (page addr count : Nat)
    (vals : List UInt8) : Option (Bool × AddressSpace × Heap × List UInt8) :=
  let (s, range) := s.findRangeAligned h page
  let (s, h) := noteCodeWrite cfg s h page range
  (writeBytes range h addr count vals).map (fun r => (r.1, s, r.2.1, r.2.2))

/-- The state of that round when the bytes are written, to range `p`. -/
abbrev noted (cfg : Config) (s : AddressSpace) (h : Heap) (page : Nat) (p : MemoryMapPtr) :
    AddressSpace × Heap :=
  noteCodeWrite cfg (s.findRangeAligned h page).1 h page p

lemma tryWriteLoop_succ (cfg : Config) (fuel : Nat) (s : AddressSpace) (h : Heap)
    (page addr endAddr : Nat) (vals : List UInt8) :
    tryWriteLoop cfg (fuel + 1) s h page addr endAddr vals =
      if page < endAddr then
        if s.canWriteAligned page then
          match writePage cfg s h page addr (min endAddr (wrap64 (page + kPageSize)) - addr)
              vals with
          | none => none
          | some (false, s, h, _) => some (false, s, h)
          | some (true, s, h, vals) =>
            tryWriteLoop cfg fuel s h (wrap64 (page + kPageSize))
              (max addr (min endAddr (wrap64 (page + kPageSize)))) endAddr vals
        else some (false, s, h)
      else some (true, s, h) := by
  simp only [tryWriteLoop, writePage]
  split
  · split
    · cases writeBytes (s.findRangeAligned h page).2
          (noteCodeWrite cfg (s.findRangeAligned h page).1 h page (s.findRangeAligned h page).2).2
          addr (min endAddr (wrap64 (page + kPageSize)) - addr) vals with
      | none => rfl
      | some r =>
        obtain ⟨ok, h', rest⟩ := r
        cases ok <;> rfl
    · rfl
  · rfl

lemma noteCodeWrite_accessed (cfg : Config) (s : AddressSpace) (h : Heap) (page : Nat)
    (p : MemoryMapPtr) : Accessed s (noteCodeWrite cfg s h page p).1 := by
  unfold noteCodeWrite
  split
  · exact { Accessed.refl s with }
  · exact Accessed.refl s

lemma noteCodeWrite_touched (cfg : Config) (s : AddressSpace) (h : Heap) (page : Nat)
    (p : MemoryMapPtr) : Heap.Touched (fun _ => False) h (noteCodeWrite cfg s h page p).2 := by
  unfold noteCodeWrite
  split
  · exact Heap.invalidateCodeVersion_touched h p
  · exact Heap.Touched.refl _ _

lemma writePage_cases (cfg : Config) (hwf : h.WF) (hs : s.WF h) (vals : List UInt8)
    (hpage : page % 4096 = 0) (hw : s.canWriteAligned page = true)
    (hchunk : addr < nextEnd → page ≤ addr) (hwithin : nextEnd ≤ page + 4096)
    (hlen : nextEnd - addr ≤ vals.length) :
    (∃ p, Owns h s p page ∧ ∃ h',
      writePage cfg s h page addr (nextEnd - addr) vals =
        some (true, (noted cfg s h page p).1, h', vals.drop (nextEnd - addr)) ∧
      Heap.Stored (noted cfg s h page p).2 h' p
        (overwrite ((noted cfg s h page p).2.byte p) addr (vals.take (nextEnd - addr)))) ∨
    ((∀ p, ¬ Owns h s p page) ∧ ∃ rest,
      writePage cfg s h page addr (nextEnd - addr) vals =
        some (decide (nextEnd ≤ addr), (noted cfg s h page s.invalid).1,
          (noted cfg s h page s.invalid).2, rest) ∧
      (nextEnd ≤ addr → rest = vals)) := by
  have hacc : s.accessible page = true := by
    unfold accessible
    rw [hw]
    simp
  have hfind := lookupExact_of_accessible hwf hs hpage hacc s (Accessed.refl s)
  rw [if_pos hacc] at hfind
  have ht : ∀ p, Heap.Touched (fun _ => False) h (noted cfg s h page p).2 :=
    fun p => noteCodeWrite_touched cfg _ h page p
  cases hr : rangeAt h s page with
  | none =>
    right
    rw [hr, Option.getD_none] at hfind
    refine ⟨(rangeAt_eq_none hwf hs).mp hr, ?_⟩
    have hk := ((ht s.invalid).invalid_iff s.invalid).mpr hs.invalid
    rcases writeBytes_of_invalid addr hk hlen with ⟨hz, hrun⟩ | ⟨hpos, rest, hrun⟩
    · refine ⟨vals, ?_, fun _ => rfl⟩
      simp only [writePage, hfind, hrun, Option.map_some]
      rw [decide_eq_true (by omega)]
    refine ⟨rest, ?_, fun hle => absurd hpos (by omega)⟩
    simp only [writePage, hfind, hrun, Option.map_some]
    rw [decide_eq_false (by omega)]
  | some p =>
  left
  rw [hr, Option.getD_some] at hfind
  have ho := (rangeAt_eq_some hwf hs).mp hr
  obtain ⟨h', hrun, hst⟩ := writeBytes_spec ((ht p).wf hwf) addr
    (fun he => ho.valid (((ht p).invalid_iff p).mp he))
    (((ht p).sameShape p).paged (hs.paged p ho.mem ho.valid))
    (fun x hx hxl => by
      rw [((ht p).sameShape p).extent]
      exact ((owns_page_iff hs hpage (by omega) (by omega)).mpr ho).inside) hlen
  refine ⟨p, ho, h', ?_, hst⟩
  simp only [writePage, hfind, hrun, Option.map_some]

lemma writePage_updates (cfg : Config) (hwf : h.WF) (hs : s.WF h) (vals : List UInt8)
    (hpage : page % 4096 = 0) (hw : s.canWriteAligned page = true)
    (hchunk : addr < nextEnd → page ≤ addr) (hwithin : nextEnd ≤ page + 4096)
    (hlen : nextEnd - addr ≤ vals.length) :
    (nextEnd - addr = 0 ∨ (view h s addr).isSome = true) ∧ (∃ s' h',
      writePage cfg s h page addr (nextEnd - addr) vals =
        some (true, s', h', vals.drop (nextEnd - addr)) ∧
      Updates h s h' s'
        (overwrite (view h s) addr ((vals.take (nextEnd - addr)).map some))) ∨
    ¬ (nextEnd - addr = 0 ∨ (view h s addr).isSome = true) ∧ (∃ s' h' rest,
      writePage cfg s h page addr (nextEnd - addr) vals = some (false, s', h', rest) ∧
      Updates h s h' s' (view h s)) := by
  have hnote : ∀ p, Updates h s (noted cfg s h page p).2 (noted cfg s h page p).1 (view h s) := fun p =>
    updates_of_untouched hwf hs (noteCodeWrite_touched cfg _ h page p)
      ((findRangeAligned_spec hs page).1.trans (noteCodeWrite_accessed cfg _ h page p))
  rcases writePage_cases cfg hwf hs vals hpage hw hchunk hwithin hlen with
    ⟨p, ho, h', hrun, hst⟩ | ⟨hno, rest, hrun, hrest⟩
  · left
    have hn := hnote p
    have hin : ∀ x, addr ≤ x → x < nextEnd → Owns h s p x := fun x hx hxl =>
      (owns_page_iff hs hpage (by omega) (by omega)).mpr ho
    refine ⟨?_, _, h', hrun, ?_⟩
    · by_cases hz : nextEnd - addr = 0
      · exact .inl hz
      right
      rw [(hin addr le_rfl (by omega)).view_eq hwf hs]
      rfl
    have hmem : p ∈ (noted cfg s h page p).1.maps := by
      rw [hn.accessed.maps]
      exact ho.mem
    have hup := Updates.of_stored (hn.heapWF hwf) (hn.wf hs) hmem
      (fun he => ho.valid ((hn.touched.invalid_iff p).mp he)) (fun x hx hxl => by
        rw [(hn.touched.sameShape p).extent]
        rw [List.length_take] at hxl
        exact (hin x hx (by omega)).inside) hst
    rw [hn.view] at hup
    exact hn.trans hup
  · have hview : addr < nextEnd → view h s addr = none := fun hlt =>
      (view_eq_none hwf hs).mpr fun p ho =>
        hno p ((owns_page_iff hs hpage (hchunk hlt) (by omega)).mp ho)
    by_cases hz : nextEnd ≤ addr
    · left
      have hzero : nextEnd - addr = 0 := by omega
      rw [decide_eq_true hz, hrest hz] at hrun
      rw [hzero] at hrun ⊢
      rw [List.take_zero, List.map_nil, overwrite_nil, List.drop_zero]
      exact ⟨.inl rfl, _, _, hrun, hnote s.invalid⟩
    right
    rw [decide_eq_false hz] at hrun
    refine ⟨?_, _, _, rest, hrun, hnote s.invalid⟩
    rw [hview (by omega)]
    simp only [Option.isSome_none, Bool.false_eq_true, or_false]
    omega

/-- The run `r` of a write on `s` has the result and the memory of `f`. -/
def Agrees (h : Heap) (s : AddressSpace) (r : Option (Bool × AddressSpace × Heap))
    (f : Option (Bool × (Nat → Option UInt8))) : Prop :=
  (r = none ∧ f = none) ∨
    ∃ ok s' h' v, r = some (ok, s', h') ∧ f = some (ok, v) ∧ Updates h s h' s' v

lemma Agrees.after {h1 : Heap} {s1 : AddressSpace} {v : Nat → Option UInt8}
    {r : Option (Bool × AddressSpace × Heap)} {f : Option (Bool × (Nat → Option UInt8))}
    (hu : Updates h s h1 s1 v) (ha : Agrees h1 s1 r f) : Agrees h s r f := by
  rcases ha with hnone | ⟨ok, s', h', v', hr, hf, hu'⟩
  · exact .inl hnone
  · exact .inr ⟨ok, s', h', v', hr, hf, hu.trans hu'⟩

/-- The page loop writes what a flat memory would hold. -/
lemma tryWriteLoop_agrees (cfg : Config) {fuel : Nat} (hwf : h.WF) (hs : s.WF h) {endAddr : Nat}
    (hpage : page % 4096 = 0) (hinv : min page endAddr ≤ addr)
    (hlen : endAddr - addr ≤ vals.length) :
    Agrees h s (tryWriteLoop cfg fuel s h page addr endAddr vals)
      (Flat.writeLoop s.pageIsWritable fuel (view h s) page addr endAddr vals) := by
  induction fuel generalizing h s page addr vals with
  | zero => exact .inl ⟨rfl, rfl⟩
  | succ fuel ih =>
  rw [tryWriteLoop_succ]
  simp only [Flat.writeLoop]
  by_cases hlt : page < endAddr
  · rw [if_pos hlt, if_pos hlt]
    by_cases hw : s.canWriteAligned page = true
    · rw [if_pos hw, if_pos (show s.pageIsWritable page = true from hw)]
      have hr := Flat.round hpage hlt hinv
      generalize wrap64 (page + kPageSize) = pageEnd at hr ⊢
      generalize min endAddr pageEnd = nextEnd at hr ⊢
      have hbelow := hr.below
      rcases writePage_updates cfg hwf hs vals hpage hw hr.chunk hr.within (by omega) with
        ⟨hok, s', h', hrun, hu⟩ | ⟨hfail, s', h', rest, hrun, hu⟩
      · rw [hrun, if_pos hok]
        have hrest : Agrees h' s'
            (tryWriteLoop cfg fuel s' h' pageEnd (max addr nextEnd) endAddr
              (vals.drop (nextEnd - addr)))
            (Flat.writeLoop s'.pageIsWritable fuel (view h' s') pageEnd (max addr nextEnd)
              endAddr (vals.drop (nextEnd - addr))) :=
          ih (hu.heapWF hwf) (hu.wf hs) hr.pageMod hr.next (by rw [List.length_drop]; omega)
        rw [hu.accessed.canWrite, hu.view] at hrest
        exact hrest.after hu
      · rw [hrun, if_neg hfail]
        exact .inr ⟨false, s', h', view h s, rfl, rfl, hu⟩
    rw [if_neg hw, if_neg (show ¬ s.pageIsWritable page = true from hw)]
    exact .inr ⟨false, s, h, view h s, rfl, rfl, Updates.refl h s⟩
  rw [if_neg hlt, if_neg hlt]
  exact .inr ⟨true, s, h, view h s, rfl, rfl, Updates.refl h s⟩

lemma tryWrite_agrees (cfg : Config) (hwf : h.WF) (hs : s.WF h) (addr : Nat) (vals : List UInt8) :
    Agrees h s (s.tryWrite cfg h addr vals)
      (Flat.tryWrite s.pageIsWritable (view h s) (addr &&& s.addrMask) vals) := by
  have hle := alignDownToPage_le (addr &&& s.addrMask)
  have hwrap : wrap64 ((addr &&& s.addrMask) + vals.length) ≤
      (addr &&& s.addrMask) + vals.length := Nat.mod_le _ _
  exact tryWriteLoop_agrees cfg hwf hs (alignDownToPage_mod _) (by omega) (by omega)

/-- How a write of `vals` at the masked address `a` goes; `q` says whether the call
has a fast path. -/
inductive WriteCases (cfg : Config) (h : Heap) (s : AddressSpace) (a : Nat) (vals : List UInt8)
    (q : Bool) (r : Option (Bool × AddressSpace × Heap)) : Prop
  | fast (quick : q = true) (p : MemoryMapPtr) (s' : AddressSpace) (h' : Heap)
      (found : p = (s.findWNXRange h a).2)
      (owns : Owns h s p a) (accessed : Accessed s s') (heads : s'.traceHeads = s.traceHeads)
      (fits : a + vals.length ≤ alignDownToPage a + 4096)
      (wrote : Heap.Wrote h h' p (overwrite (h.byte p) a vals)) (eq : r = some (true, s', h'))
  | slow (s1 : AddressSpace) (h1 : Heap) (accessed : Accessed s s1)
      (heads : s1.traceHeads = s.traceHeads)
      (prepared : h1 = h ∨ ∃ p, Owns h s p a ∧ Heap.Wrote h h1 p (h.byte p))
      (found : h1 = h ∨ q = true ∧ Owns h s (s.findWNXRange h a).2 a)
      (eq : r = s1.tryWrite cfg h1 a vals)

lemma tryWrite_cases (cfg : Config) (h : Heap) (s : AddressSpace) (addr : Nat) (vals : List UInt8) :
    WriteCases cfg h s (addr &&& s.addrMask) vals false (s.tryWrite cfg h addr vals) := by
  refine .slow s h (Accessed.refl s) rfl (.inl rfl) (.inl rfl) ?_
  unfold tryWrite
  rw [mask_mask s]

lemma findWNXRange_cases (hs : s.WF h) {a : Nat} (ha : a < 2 ^ 64) :
    Accessed s (s.findWNXRange h a).1 ∧ (s.findWNXRange h a).1.traceHeads = s.traceHeads ∧
      (Owns h s (s.findWNXRange h a).2 a ∨ (s.findWNXRange h a).2 = s.invalid) := by
  obtain ⟨hacc, hfound⟩ := findWNXRangeAligned_spec hs (alignDownToPage a)
  refine ⟨hacc, rfl, ?_⟩
  rcases hfound with ho | ⟨hinv, _⟩
  · exact .inl ((owns_alignDown_iff hs ha).mpr ho)
  · exact .inr hinv

lemma tryWriteByte_cases (cfg : Config) (hwf : h.WF) (hs : s.WF h) (addr : Nat) (val : UInt8) :
    WriteCases cfg h s (addr &&& s.addrMask) [val] true (s.tryWriteByte cfg h addr val) := by
  have halt := mask_lt hs addr
  simp only [tryWriteByte]
  generalize addr &&& s.addrMask = a at halt ⊢
  obtain ⟨hacc, hheads, ho | hinv⟩ := findWNXRange_cases hs halt
  · obtain ⟨h', hwrite, hw⟩ := Heap.write_spec hwf val ho.valid (hs.paged _ ho.mem ho.valid)
      ho.inside.1 ho.inside.2
    refine .fast rfl _ (s.findWNXRange h a).1 h' rfl ho hacc hheads ?_ ?_ ?_
    · have := lt_alignDownToPage_add halt
      simp only [List.length_singleton]
      omega
    · rwa [overwrite_cons, overwrite_nil]
    · rw [hwrite]
  refine .slow (s.findWNXRange h a).1 h hacc hheads (.inl rfl) (.inl rfl) ?_
  rw [hinv, Heap.write_of_invalid a val hs.invalid]

/-- A typed write, in the cases all writes share. -/
lemma tryWriteTyped_cases (cfg : Config) (hwf : h.WF) (hs : s.WF h) (type : ValueType)
    (addr : Nat) (val : List.Vector UInt8 type.size) :
    WriteCases cfg h s (addr &&& s.addrMask) val.toList true
      (tryWriteTyped cfg type s h addr val) := by
  have halt := mask_lt hs addr
  simp only [tryWriteTyped]
  generalize addr &&& s.addrMask = a at halt ⊢
  obtain ⟨hacc, hheads, ho | hinv⟩ := findWNXRange_cases hs halt
  · have hpg := hs.paged _ ho.mem ho.valid
    have hlt := ho.inside
    obtain ⟨h1, hrw, hw⟩ := Heap.toReadWriteVirtualAddress_spec hwf a ho.valid hpg
      (Nat.lt_of_le_of_lt hlt.1 hlt.2).le
    have hshape : inOnePage (h1.obj (s.findWNXRange h a).2) a (wrap64 (a + type.size - 1)) =
        inOnePage (h.obj (s.findWNXRange h a).2) a (wrap64 (a + type.size - 1)) := by
      unfold inOnePage
      rw [hw.base, hw.limit]
    rw [hrw]
    simp only
    by_cases hone : inOnePage (h.obj (s.findWNXRange h a).2) a (wrap64 (a + type.size - 1)) = true
    · rw [hshape, if_pos hone]
      have hfit := (inOnePage_iff hs halt ho type.size_pos type.size_le).mp hone
      have hlen : val.toList.length = type.size := val.toList_length
      have hend : a + val.toList.length ≤ (h.obj (s.findWNXRange h a).2).limitAddress := by
        have hop := (owns_alignDown_iff hs halt).mp ho
        have hin := hop.inside.2
        have hmod := alignDownToPage_mod a
        have hl := hpg.limit
        omega
      have hst := Heap.storeBytes_spec (a := a) hw.array val.toList (by rw [hw.base]; exact hlt.1)
        (by rwa [hw.limit]) (by rw [hw.limit]; exact hpg.lt)
      rw [hw.base] at hst
      refine .fast rfl _ (s.findWNXRange h a).1 _ rfl ho hacc hheads (by omega) ?_ rfl
      refine (hw.trans hst).congr fun x hx hxl => ?_
      exact overwrite_congr (hw.held x hx hxl) _ _
    rw [hshape, if_neg hone]
    exact .slow (s.findWNXRange h a).1 h1 hacc hheads (.inr ⟨_, ho, hw⟩) (.inr ⟨rfl, ho⟩) rfl
  refine .slow (s.findWNXRange h a).1 h hacc hheads (.inl rfl) (.inl rfl) ?_
  rw [hinv, Heap.toReadWriteVirtualAddress_of_invalid a hs.invalid]

namespace WriteCases

variable {cfg : Config} {a : Nat} {q : Bool} {r : Option (Bool × AddressSpace × Heap)}
  {s' : AddressSpace}

lemma prepared_updates (hwf : h.WF) (hs : s.WF h) {h1 : Heap} {s1 : AddressSpace}
    (ha : Accessed s s1) (hp : h1 = h ∨ ∃ p, Owns h s p a ∧ Heap.Wrote h h1 p (h.byte p)) :
    Updates h s h1 s1 (view h s) := by
  rcases hp with rfl | ⟨p, ho, hw⟩
  · exact Updates.lookup h1 ha
  have hst : Heap.Stored h h1 p (overwrite (h.byte p) a []) := by
    rw [overwrite_nil]
    exact .inl hw
  have hu := Updates.of_stored hwf hs ho.mem ho.valid
    (fun x hx hxl => absurd hxl (by simpa using hx)) hst
  rw [List.map_nil, overwrite_nil] at hu
  have hu1 := Updates.lookup h1 ha
  rw [hu.view] at hu1
  exact hu.trans hu1

lemma fast_updates (hwf : h.WF) (hs : s.WF h) (ha : a < 2 ^ 64) {p : MemoryMapPtr}
    (ho : Owns h s p a) (hacc : Accessed s s') (hfit : a + vals.length ≤ alignDownToPage a + 4096)
    (hw : Heap.Wrote h h' p (overwrite (h.byte p) a vals)) :
    Updates h s h' s' (overwrite (view h s) a (vals.map some)) := by
  have hop := (owns_alignDown_iff hs ha).mp ho
  have hle := alignDownToPage_le a
  have hu := Updates.of_stored hwf hs ho.mem ho.valid (fun x hx hxl =>
    ((owns_page_iff hs (alignDownToPage_mod a) (by omega) (by omega)).mpr hop).inside) (.inl hw)
  have hu1 := Updates.lookup h' hacc
  rw [hu.view] at hu1
  exact hu.trans hu1

lemma updates (hc : WriteCases cfg h s a vals q r) (hwf : h.WF) (hs : s.WF h) (ha : a < 2 ^ 64)
    {ok : Bool} (hr : r = some (ok, s', h')) : ∃ v, Updates h s h' s' v := by
  cases hc with
  | fast _ p s2 h2 _ ho hacc _ hfit hw heq =>
    rw [heq] at hr
    obtain ⟨_, rfl, rfl⟩ : true = ok ∧ s2 = s' ∧ h2 = h' := by simpa using hr
    exact ⟨_, fast_updates hwf hs ha ho hacc hfit hw⟩
  | slow s1 h1 hacc _ hp _ heq =>
  have hu := prepared_updates hwf hs hacc hp
  rcases (tryWrite_agrees cfg (hu.heapWF hwf) (hu.wf hs) a vals).after hu with
    ⟨hnone, _⟩ | ⟨ok', s2, h2, v, hsome, _, hu'⟩
  · rw [heq, hnone] at hr
    simp at hr
  · rw [heq, hsome] at hr
    obtain ⟨_, rfl, rfl⟩ : ok' = ok ∧ s2 = s' ∧ h2 = h' := by simpa using hr
    exact ⟨v, hu'⟩

lemma agrees (hc : WriteCases cfg h s a vals q r) (hwf : h.WF) (hs : s.WF h)
    (ha : a &&& s.addrMask = a) (hne : vals ≠ [])
    (hfast : Owns h s (s.findWNXRange h a).2 a → s.canWriteAligned (alignDownToPage a) = true) :
    Agrees h s r (Flat.tryWrite s.pageIsWritable (view h s) a vals) := by
  have halt : a < 2 ^ 64 := ha ▸ mask_lt hs a
  cases hc with
  | fast _ p s2 h2 hfound ho hacc _ hfit hw heq =>
    have hop := (owns_alignDown_iff hs halt).mp ho
    refine .inr ⟨true, s2, h2, _, heq, ?_, fast_updates hwf hs halt ho hacc hfit hw⟩
    refine Flat.tryWrite_onePage hne (hfast (hfound ▸ ho)) ?_ hfit
      (hop.page_le hs (alignDownToPage_mod a))
    rw [ho.view_eq hwf hs]
    rfl
  | slow s1 h1 hacc _ hp _ heq =>
  have hu := prepared_updates hwf hs hacc hp
  have hag := (tryWrite_agrees cfg (hu.heapWF hwf) (hu.wf hs) a vals).after hu
  rw [hacc.canWrite, hacc.addrMask, ha, hu.view] at hag
  rwa [heq]

end WriteCases

end AddressSpace

end Vmill
