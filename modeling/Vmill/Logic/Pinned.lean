import Vmill.Logic.Decode
import Vmill.Logic.Heads

/-!
# Versions below marks

A write leaves the versions below the marks alone if it drops all marks, or if every range that it
stores to and that holds marked code has its version cached; the page loop has two invariants for
that.
-/

namespace Vmill

open Base

namespace Heap

variable {hash : List UInt8 → Nat} {h h' : Heap} {p p' : MemoryMapPtr} {f : Nat → UInt8}

/-- The version that the range would report. -/
def versionOf (hash : List UInt8 → Nat) (h : Heap) (p : MemoryMapPtr) : Nat :=
  (h.computeCodeVersion hash p).2

lemma versionOf_of_root (hroot : h'.obj (h'.root p') = h.obj (h.root p)) :
    h'.versionOf hash p' = h.versionOf hash p := by
  unfold versionOf computeCodeVersion
  simp only [hroot]
  cases (h.obj (h.root p)).kind with
  | array data => simp only; split <;> rfl
  | _ => rfl

/-- The range and its parent are as they were. -/
def SameCode (h h' : Heap) (p : MemoryMapPtr) : Prop :=
  h'.obj p = h.obj p ∧ ∀ q, (h.obj p).kind = .copyOnWrite q → h'.obj q = h.obj q

lemma SameCode.versionOf (hwf : h.WF) (hwf' : h'.WF) (hsame : SameCode h h' p) :
    h'.versionOf hash p = h.versionOf hash p := by
  obtain ⟨hp, hparent⟩ := hsame
  apply versionOf_of_root
  by_cases hk : ∃ q, (h.obj p).kind = .copyOnWrite q
  · obtain ⟨q, hk⟩ := hk
    rw [root_of_cow hwf hk, root_of_cow hwf' (show _ = _ by rw [hp]; exact hk)]
    exact hparent q hk
  have hno : ∀ q, (h.obj p).kind ≠ .copyOnWrite q := fun q hq => hk ⟨q, hq⟩
  rwa [root_of_not_cow hno, root_of_not_cow (show ∀ q, _ ≠ _ by rw [hp]; exact hno)]

lemma versionOf_of_empty (hk : (h.obj p).kind = .empty) : h.versionOf hash p = 0 := by
  have hroot : h.root p = p := root_of_not_cow fun q => by
    rw [hk]
    intro hq
    cases hq
  unfold versionOf computeCodeVersion
  simp only [hroot, hk]

lemma versionOf_of_invalid (hk : (h.obj p).kind = .invalid) : h.versionOf hash p = 0 := by
  have hroot : h.root p = p := root_of_not_cow fun q => by
    rw [hk]
    intro hq
    cases hq
  unfold versionOf computeCodeVersion
  simp only [hroot, hk]

lemma HasVersion.versionOf (hv : HasVersion h p) :
    h.versionOf hash p = (h.obj p).codeVersion := by
  obtain ⟨⟨data, hk⟩, hvalid⟩ := hv
  unfold Heap.versionOf computeCodeVersion
  simp only [root_of_array hk, hk, hvalid, if_true]

lemma HasVersion.wrote (hv : HasVersion h p) (hw : Wrote h h' p f) : HasVersion h' p :=
  ⟨hw.array, (hw.version hv.1).1.trans hv.2⟩

lemma HasVersion.stored (hv : HasVersion h p) (hst : Stored h h' p f) : HasVersion h' p := by
  rcases hst with hw | ⟨rfl, _⟩
  · exact hv.wrote hw
  · exact hv

lemma Wrote.versionOf (hw : Wrote h h' p f) (hv : HasVersion h p) :
    h'.versionOf hash p = h.versionOf hash p := by
  rw [hv.versionOf, (hv.wrote hw).versionOf, (hw.version hv.1).2]

lemma Stored.versionOf (hst : Stored h h' p f) (hv : HasVersion h p) :
    h'.versionOf hash p = h.versionOf hash p := by
  rcases hst with hw | ⟨rfl, _⟩
  · exact hw.versionOf hv
  · rfl

lemma Cached.touched (hc : Cached hash h h') : Touched (fun _ => False) h h' := by
  refine ⟨hc.next, fun q => ?_, fun q => ?_, fun q => ?_, fun q => .inl (hc.kind q)⟩
  all_goals
    rcases hc.obj q with heq | ⟨_, _, _, heq⟩
    · rw [heq]
    · rw [heq]

/-- The cached versions of all parents are right. -/
def ParentsOk (hash : List UInt8 → Nat) (h : Heap) : Prop :=
  ∀ p q, (h.obj p).kind = .copyOnWrite q → VersionOk hash h q

lemma ParentsOk.congr (hpar : ParentsOk hash h)
    (hlinks : ∀ p q, (h'.obj p).kind = .copyOnWrite q → (∃ r, (h.obj r).kind = .copyOnWrite q ∧
      h'.obj q = h.obj q) ∨ ¬ HasVersion h' q) : ParentsOk hash h' := by
  intro p q hk
  rcases hlinks p q hk with ⟨r, hr, hq⟩ | hno
  · exact (hpar r q hr).congr hq
  · exact versionOk_of_not hno

lemma Cached.parentsOk (hc : Cached hash h h') (hpar : ParentsOk hash h) : ParentsOk hash h' := by
  intro p q hk
  rw [hc.kind] at hk
  rcases hc.obj q with heq | ⟨data, hdata, _, heq⟩
  · exact (hpar p q hk).congr heq
  intro data' hdata' _
  rw [hc.kind, hdata, MapKind.array.injEq] at hdata'
  subst hdata'
  rw [heq]
  rfl

lemma Grows.parentsOk (hg : Grows h h') (hwf : h.WF) (hpar : ParentsOk hash h) :
    ParentsOk hash h' :=
  hpar.congr fun p q hk =>
    .inl ⟨p, hg.links p q hk, hg.ext.obj q (hwf.parent_lt (hg.links p q hk))⟩

lemma Grows.sameCode (hg : Grows h h') (hwf : h.WF) (hp : p < h.next) : SameCode h h' p :=
  ⟨hg.ext.obj p hp, fun q hk => hg.ext.obj q (hwf.parent_lt hk)⟩

lemma ParentsOk.root (hpar : ParentsOk hash h) (hwf : h.WF) (hok : VersionOk hash h p) :
    VersionOk hash h (h.root p) := by
  by_cases hk : ∃ q, (h.obj p).kind = .copyOnWrite q
  · obtain ⟨q, hk⟩ := hk
    rw [root_of_cow hwf hk]
    exact hpar p q hk
  · rwa [root_of_not_cow fun q hq => hk ⟨q, hq⟩]

lemma versionOf_of_kept (hwf : h.WF) (hwf' : h'.WF) (hvalid : (h.obj p).kind ≠ .invalid)
    (hproper : (h.obj p).baseAddress ≤ (h.obj p).limitAddress)
    (hlt : (h.obj p).limitAddress < 2 ^ 64)
    (hbase : (h'.obj p').baseAddress = (h.obj p).baseAddress)
    (hlimit : (h'.obj p').limitAddress = (h.obj p).limitAddress)
    (hinv : (h'.obj p').kind = .invalid ↔ (h.obj p).kind = .invalid)
    (hempty : (h'.obj p').kind = .empty ↔ (h.obj p).kind = .empty)
    (hheld : ∀ a, h'.byte p' a = h.byte p a) (hok : VersionOk hash h (h.root p))
    (hok' : VersionOk hash h' (h'.root p')) : h'.versionOf hash p' = h.versionOf hash p := by
  by_cases hemp : (h.obj p).kind = .empty
  · rw [versionOf_of_empty hemp, versionOf_of_empty (hempty.mpr hemp)]
  have hbacked : ∀ (g : Heap) (q : MemoryMapPtr), (g.obj q).kind ≠ .invalid →
      (g.obj q).kind ≠ .empty → Backed g q := by
    intro g q hi he
    cases hk : (g.obj q).kind with
    | invalid => exact absurd hk hi
    | empty => exact absurd hk he
    | array data => exact .inl ⟨data, hk⟩
    | copyOnWrite r => exact .inr ⟨r, hk⟩
  have hbytes : h'.rangeBytes p' = h.rangeBytes p := by
    unfold rangeBytes MappedRange.size
    rw [hbase, hlimit]
    exact List.map_congr_left fun i _ => hheld _
  unfold versionOf
  rw [hok.computeCodeVersion hwf (hbacked h p hvalid hemp) hproper hlt,
    hok'.computeCodeVersion hwf' (hbacked h' p' (fun he => hvalid (hinv.mp he))
      fun he => hemp (hempty.mp he)) (by rwa [hbase, hlimit])
      (by rwa [hlimit]), hbytes]

end Heap

namespace AddressSpace

variable {cfg : Config} {h h' : Heap} {s s' : AddressSpace} {pc a page addr nextEnd endAddr : Nat}
  {p q : MemoryMapPtr} {vals : List UInt8} {ok quick : Bool} {v : Nat → Option UInt8}
  {P : MemoryMapPtr → Prop}

lemma versionAt_owned (hon : cfg.versionCode = true) (hwf : h.WF) (hs : s.WF h)
    (ho : Owns h s p (pc &&& s.addrMask)) : versionAt cfg h s pc = h.versionOf cfg.hash p := by
  have hop := (owns_alignDown_iff hs (mask_lt hs pc)).mp ho
  unfold versionAt
  rw [if_pos hon, (rangeAt_eq_some hwf hs).mpr hop]
  rfl

lemma versionAt_unowned (hon : cfg.versionCode = true) (hwf : h.WF) (hs : s.WF h)
    (hno : ∀ p, ¬ Owns h s p (pc &&& s.addrMask)) : versionAt cfg h s pc = 0 := by
  have hnone : rangeAt h s (alignDownToPage (pc &&& s.addrMask)) = none := by
    refine (rangeAt_eq_none hwf hs).mpr fun p hop => hno p ?_
    exact (owns_alignDown_iff hs (mask_lt hs pc)).mpr hop
  unfold versionAt
  rw [if_pos hon, hnone]
  exact Heap.versionOf_of_invalid hs.invalid

lemma versionAt_congr (hon : cfg.versionCode = true) (hwf : h.WF) (hwf' : h'.WF) (hs : s.WF h)
    (hs' : s'.WF h') (hmask : s'.addrMask = s.addrMask)
    (hfrom : ∀ p', Owns h' s' p' (pc &&& s.addrMask) → ∃ p, Owns h s p (pc &&& s.addrMask) ∧
      h'.versionOf cfg.hash p' = h.versionOf cfg.hash p)
    (hto : ∀ p, Owns h s p (pc &&& s.addrMask) → (∃ p', Owns h' s' p' (pc &&& s.addrMask)) ∨
      h.versionOf cfg.hash p = 0) : versionAt cfg h' s' pc = versionAt cfg h s pc := by
  by_cases howned' : ∃ p', Owns h' s' p' (pc &&& s.addrMask)
  · obtain ⟨p', ho'⟩ := howned'
    obtain ⟨p, ho, heq⟩ := hfrom p' ho'
    rw [versionAt_owned hon hwf hs ho, versionAt_owned hon hwf' hs' (hmask ▸ ho'), heq]
  have hno' : ∀ p', ¬ Owns h' s' p' (pc &&& s'.addrMask) := by
    intro p' ho'
    exact howned' ⟨p', hmask ▸ ho'⟩
  rw [versionAt_unowned hon hwf' hs' hno']
  by_cases howned : ∃ p, Owns h s p (pc &&& s.addrMask)
  · obtain ⟨p, ho⟩ := howned
    rw [versionAt_owned hon hwf hs ho]
    exact ((hto p ho).resolve_left howned').symm
  · exact (versionAt_unowned hon hwf hs fun p ho => howned ⟨p, ho⟩).symm

lemma versionAt_of_owns (hon : cfg.versionCode = true) (hwf : h.WF) (hwf' : h'.WF) (hs : s.WF h)
    (hs' : s'.WF h') (hmask : s'.addrMask = s.addrMask)
    (howns : ∀ p, Owns h' s' p (pc &&& s.addrMask) ↔ Owns h s p (pc &&& s.addrMask))
    (hver : ∀ p, Owns h s p (pc &&& s.addrMask) → h'.versionOf cfg.hash p = h.versionOf cfg.hash p) :
    versionAt cfg h' s' pc = versionAt cfg h s pc :=
  versionAt_congr hon hwf hwf' hs hs' hmask
    (fun p ho' => ⟨p, (howns p).mp ho', hver p ((howns p).mp ho')⟩)
    (fun p ho => .inl ⟨p, (howns p).mpr ho⟩)

lemma versionAt_frame (hon : cfg.versionCode = true) (hwf : h.WF) (he : Heap.Evolves h h')
    (hs : s.WF h) (hsame : ∀ p ∈ s.maps, (h.obj p).kind ≠ .invalid → Heap.SameCode h h' p)
    (pc : Nat) : versionAt cfg h' s pc = versionAt cfg h s pc :=
  versionAt_of_owns hon hwf he.wf hs (hs.evolves he) rfl
    (fun _ => Owns.sameShape fun p hp => he.shape p (hs.live p hp))
    (fun p ho => (hsame p ho.mem ho.valid).versionOf hwf he.wf)

/-- A trace head whose page may be accessed. -/
structure Marked (s : AddressSpace) (pc : Nat) : Prop where
  head : s.traceHeads pc = true
  accessible : s.accessible (alignDownToPage (pc &&& s.addrMask)) = true

/-- The range holds a marked trace head. -/
def HoldsMarked (h : Heap) (s : AddressSpace) (p : MemoryMapPtr) : Prop :=
  ∃ pc, Marked s pc ∧ Owns h s p (pc &&& s.addrMask)

/-- If the range holds marked code, it has a cached version. -/
def Pinned (h : Heap) (s : AddressSpace) (p : MemoryMapPtr) : Prop :=
  HoldsMarked h s p → Heap.HasVersion h p

/-- The write reaches an executable page. -/
def StoresToCode (h : Heap) (s : AddressSpace) (a n : Nat) : Prop :=
  ∃ x, StoresTo h s a n x ∧ s.canExecuteAligned (alignDownToPage x) = true

/-- The write gets to an executable page, or all it changes is pinned. -/
def WriteKeepsMarks (h : Heap) (s : AddressSpace) (a n : Nat) (quick : Bool) : Prop :=
  (quick = true → a + n ≤ alignDownToPage a + 4096 → Pinned h s (s.findWNXRange h a).2) ∧
    (StoresToCode h s a n ∨
      (quick = true → Pinned h s (s.findWNXRange h a).2) ∧
        ∀ p x, StoresTo h s a n x → Owns h s p x → Pinned h s p)

lemma Accessed.marked (ha : Accessed s s') (hheads : s'.traceHeads = s.traceHeads)
    (hm : Marked s' pc) : Marked s pc := by
  obtain ⟨hhead, hacc⟩ := hm
  rw [ha.accessible, ha.addrMask] at hacc
  exact ⟨hheads ▸ hhead, hacc⟩

lemma noteCodeWrite_obj_of_ne (cfg : Config) (s : AddressSpace) (h : Heap) (page : Nat)
    (hq : q ≠ p) : (noteCodeWrite cfg s h page p).2.obj q = h.obj q := by
  unfold noteCodeWrite
  split
  · exact Heap.set_obj_of_ne _ _ hq
  · rfl

lemma tryWrite_frame (hwf : h.WF) (hs : s.WF h)
    (hrun : s.tryWrite cfg h a vals = some (ok, s', h')) (hq : q ∉ s.maps)
    (hvalid : (h.obj q).kind ≠ .invalid) : h'.obj q = h.obj q := by
  have hinv : q ≠ s.invalid := fun heq => hvalid (heq ▸ hs.invalid)
  refine tryWrite_rule cfg
    (I := fun s1 h1 _ _ => Accessed s s1 ∧ h1.obj q = h.obj q) (J := fun _ h1 => h1.obj q = h.obj q)
    ?_ ?_ (fun _ _ _ _ _ _ hI => hI.2) hwf hs rfl ⟨Accessed.refl s, rfl⟩ hrun
  · intro s1 h1 page addr s2 h2 v _ hu hpw hI
    refine ⟨hI.1.trans hu.accessed, ?_⟩
    cases hpw with
    | owned p _ vals ho _ hst _ =>
      have hne : q ≠ p := fun heq => hq (heq ▸ hI.1.maps ▸ ho.mem)
      rw [hst.frame hne, noteCodeWrite_obj_of_ne cfg _ h1 page hne]
      exact hI.2
    | unowned _ _ =>
    rw [noteCodeWrite_obj_of_ne cfg _ h1 page (hI.1.invalid ▸ hinv)]
    exact hI.2
  · intro s1 h1 page addr _ _ hI
    rw [noteCodeWrite_obj_of_ne cfg _ h1 page (hI.1.invalid ▸ hinv)]
    exact hI.2

lemma WriteCases.frame (hwf : h.WF) (hs : s.WF h)
    (hc : WriteCases cfg h s a vals quick (some (ok, s', h'))) (hq : q ∉ s.maps)
    (hvalid : (h.obj q).kind ≠ .invalid) : h'.obj q = h.obj q := by
  cases hc with
  | fast _ p s2 h2 _ ho _ _ _ hw heq =>
    obtain ⟨_, _, rfl⟩ : ok = true ∧ s' = s2 ∧ h' = h2 := by simpa using heq
    exact hw.frame q fun hqp => hq (hqp ▸ ho.mem)
  | slow s1 h1 hacc _ hp _ heq =>
  have hu := prepared_updates hwf hs hacc hp
  have hprep : h1.obj q = h.obj q := by
    rcases hp with rfl | ⟨p, ho, hw⟩
    · rfl
    · exact hw.frame q fun hqp => hq (hqp ▸ ho.mem)
  rw [← hprep]
  exact tryWrite_frame (hu.heapWF hwf) (hu.wf hs) heq.symm (hacc.maps ▸ hq)
    (by rwa [hprep])

lemma noted_clears (hon : cfg.versionCode = true) (s : AddressSpace) (h : Heap) (page : Nat)
    (p : MemoryMapPtr) (hx : s.canExecuteAligned page = true) (x : Nat) :
    (noted cfg s h page p).1.traceHeads x = false := by
  have hx : (s.findRangeAligned h page).1.canExecuteAligned page = true := hx
  unfold noted noteCodeWrite
  rw [hon, hx, Bool.and_true, if_pos rfl]

lemma noted_of_data (cfg : Config) (s : AddressSpace) (h : Heap) (page : Nat) (p : MemoryMapPtr)
    (hx : s.canExecuteAligned page = false) :
    noted cfg s h page p = ((s.findRangeAligned h page).1, h) := by
  have hx : (s.findRangeAligned h page).1.canExecuteAligned page = false := hx
  unfold noted noteCodeWrite
  rw [hx, Bool.and_false, if_neg Bool.false_ne_true]

lemma PageWrite.code (hon : cfg.versionCode = true)
    (hpw : PageWrite cfg s h page addr nextEnd s' h') (hx : s.canExecuteAligned page = true)
    (x : Nat) : s'.traceHeads x = false := by
  cases hpw with
  | owned p _ vals _ _ _ _ => exact noted_clears hon s h page p hx x
  | unowned _ _ => exact noted_clears hon s h page s.invalid hx x

lemma PageWrite.data (hpw : PageWrite cfg s h page addr nextEnd s' h')
    (hx : s.canExecuteAligned page = false) :
    s'.traceHeads = s.traceHeads ∧
      ((∃ p f, Owns h s p page ∧ Heap.Stored h h' p f ∧ (nextEnd ≤ addr → h' = h)) ∨
        (∀ p, ¬ Owns h s p page) ∧ nextEnd ≤ addr ∧ h' = h) := by
  cases hpw with
  | owned p _ vals ho _ hst hskip =>
    rw [noted_of_data cfg s h page p hx] at hst hskip ⊢
    exact ⟨rfl, .inl ⟨p, _, ho, hst, hskip⟩⟩
  | unowned hno hz =>
  rw [noted_of_data cfg s h page s.invalid hx]
  exact ⟨rfl, .inr ⟨hno, hz, rfl⟩⟩

lemma PageWrite.cleared (hpw : PageWrite cfg s h page addr nextEnd s' h')
    (hc : ∀ x, s.traceHeads x = false) (x : Nat) : s'.traceHeads x = false := by
  by_contra hx
  rw [Bool.not_eq_false] at hx
  have hold : s.traceHeads x = true := by
    cases hpw with
    | owned p _ vals _ _ _ _ => exact noted_heads cfg h page p hx
    | unowned _ _ => exact noted_heads cfg h page s.invalid hx
  exact absurd ((hc x).symm.trans hold) (by simp)

/-- The marks are gone, or the loop will get to an executable page. -/
def Clearing (endAddr : Nat) (s : AddressSpace) (h : Heap) (page : Nat) : Prop :=
  (∀ x, s.traceHeads x = false) ∨ ∃ p, Due h s p page endAddr

lemma Clearing.step (hon : cfg.versionCode = true) (hat : AtPage s h page addr endAddr)
    (hu : Updates h s h' s' v) (hpw : PageWrite cfg s h page addr nextEnd s' h')
    (hI : Clearing endAddr s h page) : Clearing endAddr s' h' (page + 4096) := by
  cases hx : s.canExecuteAligned page with
  | true => exact .inl (hpw.code hon hx)
  | false =>
  rcases hI with hc | ⟨p, hd⟩
  · exact .inl (hpw.cleared hc)
  have hnext := hd.next hat fun hcode => absurd (hx.symm.trans hcode.2) (by simp)
  exact .inr ⟨p, hu.due.mpr hnext.1⟩

lemma tryWrite_clears (hon : cfg.versionCode = true) (hwf : h.WF) (hs : s.WF h)
    (ha : a &&& s.addrMask = a) (hcode : StoresToCode h s a vals.length)
    (hrun : s.tryWrite cfg h a vals = some (ok, s', h')) (x : Nat) : s'.traceHeads x = false := by
  have hle := alignDownToPage_le a
  refine tryWrite_rule cfg (I := fun s h page _ => Clearing (wrap64 (a + vals.length)) s h page)
    (J := fun s _ => ∀ x, s.traceHeads x = false)
    (fun s h page addr s' h' v hat hu hpw hI => hI.step hon hat hu hpw) ?_ ?_ hwf hs ha ?_ hrun x
  · intro s h page addr hat hno hI x
    rcases hI with hc | ⟨p, q, hq, _, hr, _⟩
    · by_contra hx
      rw [Bool.not_eq_false] at hx
      exact absurd ((hc x).symm.trans (noted_heads cfg h page s.invalid hx)) (by simp)
    obtain ⟨r, hor⟩ := (hr page le_rfl hq).2
    exact absurd hor (hno r)
  · intro s h page addr hpage hend hI
    rcases hI with hc | ⟨p, hd⟩
    · exact hc
    · exact absurd hd (Due.not_at_end (wrap64_lt _) hpage hend)
  · obtain ⟨q, ⟨hq, hqe, hr⟩, hx⟩ := hcode
    obtain ⟨p, ho⟩ := (hr q (by omega) le_rfl).2
    exact .inr ⟨p, q, by omega, hqe, hr, ho, hx⟩

/-- The marks are gone; or they are `heads`, the ranges in `P` have the versions that they had in
`h0`, and those yet to be stored to have them cached. -/
def Keeping (hash : List UInt8 → Nat) (P : MemoryMapPtr → Prop) (h0 : Heap) (heads : Nat → Bool)
    (endAddr : Nat) (s : AddressSpace) (h : Heap) (page addr : Nat) : Prop :=
  (∀ x, s.traceHeads x = false) ∨
    s.traceHeads = heads ∧ (∀ p, P p → h.versionOf hash p = h0.versionOf hash p) ∧
      ∀ p x, addr ≤ x → x < endAddr → Reaches h s page x → Owns h s p x → P p →
        Heap.HasVersion h p

lemma Keeping.step (hon : cfg.versionCode = true) {h0 : Heap} {heads : Nat → Bool}
    (hat : AtPage s h page addr endAddr) (hu : Updates h s h' s' v)
    (hpw : PageWrite cfg s h page addr (min endAddr (page + 4096)) s' h')
    (hI : Keeping cfg.hash P h0 heads endAddr s h page addr) :
    Keeping cfg.hash P h0 heads endAddr s' h' (page + 4096)
      (max addr (min endAddr (page + 4096))) := by
  have hbelow := hat.below
  have hmore := hat.more
  cases hx : s.canExecuteAligned page with
  | true => exact .inl (hpw.code hon hx)
  | false =>
  rcases hI with hc | ⟨hheads, hver, hlater⟩
  · exact .inl (hpw.cleared hc)
  obtain ⟨hsame, ⟨p, f, ho, hst, hskip⟩ | ⟨hno, hz, rfl⟩⟩ := hpw.data hx
  · -- the range of this page, if it is stored to
    have hself : P p → h'.versionOf cfg.hash p = h.versionOf cfg.hash p ∧
        (Heap.HasVersion h p → Heap.HasVersion h' p) := by
      intro hP
      by_cases hz : min endAddr (page + 4096) ≤ addr
      · rw [hskip hz]
        exact ⟨rfl, id⟩
      have hpa : page ≤ addr := by
        have := hat.above
        omega
      obtain ⟨hreach, hoa⟩ := hat.reaches ho hpa
      have hv := hlater p addr le_rfl (by omega) hreach hoa hP
      exact ⟨hst.versionOf hv, fun hv => hv.stored hst⟩
    have hother : ∀ q, q ≠ p → Heap.SameCode h h' q := fun q hq =>
      ⟨hst.frame hq, fun r hk => hst.frame fun hr =>
        hat.space.notParent p ho.mem q (hr ▸ hk)⟩
    refine .inr ⟨hsame.trans hheads, fun q hP => ?_, fun q x hxa hlt hr hoq hP => ?_⟩
    · by_cases hq : q = p
      · subst hq
        rw [(hself hP).1, hver q hP]
      · rw [(hother q hq).versionOf hat.heap (hu.heapWF hat.heap), hver q hP]
    rw [hu.reaches] at hr
    rw [hu.owns] at hoq
    have hv := hlater q x (by omega) hlt (hr.of_next hat ho) hoq hP
    by_cases hq : q = p
    · subst hq
      exact (hself hP).2 hv
    unfold Heap.HasVersion at hv ⊢
    rwa [(hother q hq).1]
  · exact .inr ⟨hsame.trans hheads, hver, fun q x hxa hlt => absurd hlt (by omega)⟩

lemma tryWrite_keeps (hon : cfg.versionCode = true) (hwf : h.WF) (hs : s.WF h)
    (ha : a &&& s.addrMask = a)
    (hpinned : ∀ p x, StoresTo h s a vals.length x → Owns h s p x → P p → Heap.HasVersion h p)
    (hrun : s.tryWrite cfg h a vals = some (ok, s', h')) :
    (∀ x, s'.traceHeads x = false) ∨ s'.traceHeads = s.traceHeads ∧
      ∀ p, P p → h'.versionOf cfg.hash p = h.versionOf cfg.hash p := by
  refine tryWrite_rule cfg
    (I := Keeping cfg.hash P h s.traceHeads (wrap64 (a + vals.length)))
    (J := fun s1 h1 => (∀ x, s1.traceHeads x = false) ∨ s1.traceHeads = s.traceHeads ∧
      ∀ p, P p → h1.versionOf cfg.hash p = h.versionOf cfg.hash p)
    (fun s h page addr s' h' v hat hu hpw hI => hI.step hon hat hu hpw) ?_ ?_ hwf hs ha ?_ hrun
  · intro s1 h1 page addr _ _ hI
    cases hx : s1.canExecuteAligned page with
    | true => exact .inl (noted_clears hon s1 h1 page _ hx)
    | false =>
    rw [noted_of_data cfg s1 h1 page _ hx]
    exact hI.imp_right fun hkept => ⟨hkept.1, hkept.2.1⟩
  · intro s1 h1 page addr _ _ hI
    exact hI.imp_right fun hkept => ⟨hkept.1, hkept.2.1⟩
  · exact .inr ⟨rfl, fun _ _ => rfl, fun p x hax hxe hr ho hP =>
      hpinned p x ⟨hax, hxe, hr⟩ ho hP⟩

/-- A head still marked after a write kept its version. -/
lemma WriteCases.marked (hon : cfg.versionCode = true) (hwf : h.WF) (hs : s.WF h)
    (ha : a &&& s.addrMask = a) (hc : WriteCases cfg h s a vals quick (some (ok, s', h')))
    (hkeeps : WriteKeepsMarks h s a vals.length quick) (hm : Marked s' pc) :
    Marked s pc ∧ versionAt cfg h' s' pc = versionAt cfg h s pc := by
  obtain ⟨v, hu⟩ := hc.updates hwf hs (ha ▸ mask_lt hs a) rfl
  -- a write to the range `p0`, whose version is cached if it holds marked code
  have hwrote : ∀ (g : Heap) (p0 : MemoryMapPtr) (f : Nat → UInt8), p0 ∈ s.maps → g.WF →
      Heap.Wrote h g p0 f → Pinned h s p0 → ∀ p, HoldsMarked h s p →
      g.versionOf cfg.hash p = h.versionOf cfg.hash p := by
    intro g p0 f hmem hg hw hpin p hp
    by_cases heq : p = p0
    · subst heq
      exact hw.versionOf (hpin hp)
    exact Heap.SameCode.versionOf hwf hg ⟨hw.frame p heq, fun r hk => hw.frame r fun hr =>
      hs.notParent p0 hmem p (hr ▸ hk)⟩
  -- it is enough that the marks are the same, and the versions of ranges that hold marked code
  suffices hkept : s'.traceHeads = s.traceHeads ∧ ∀ p, HoldsMarked h s p →
      h'.versionOf cfg.hash p = h.versionOf cfg.hash p by
    have hold := hu.accessed.marked hkept.1 hm
    exact ⟨hold, versionAt_of_owns hon hwf (hu.heapWF hwf) hs (hu.wf hs) hu.accessed.addrMask
      (fun p => hu.owns) fun p ho => hkept.2 p ⟨pc, hold, ho⟩⟩
  have hhead := hm.head
  cases hc with
  | fast hq p s2 h2 hfound ho _ hheads hfit hw heq =>
    obtain ⟨_, rfl, rfl⟩ : ok = true ∧ s' = s2 ∧ h' = h2 := by simpa using heq
    exact ⟨hheads, hwrote h' p _ ho.mem (hu.heapWF hwf) hw (hfound ▸ hkeeps.1 hq hfit)⟩
  | slow s1 h1 hacc hheads hp hfound heq =>
  have hu1 := prepared_updates hwf hs hacc hp
  have hmask : a &&& s1.addrMask = a := hacc.addrMask.symm ▸ ha
  have hstores : ∀ x, StoresTo h1 s1 a vals.length x ↔ StoresTo h s a vals.length x := by
    intro x
    unfold StoresTo
    rw [hu1.reaches]
  rcases hkeeps.2 with ⟨x, hst, hx⟩ | ⟨hquick, hpinned⟩
  · have hcode : StoresToCode h1 s1 a vals.length := by
      refine ⟨x, (hstores x).mpr hst, ?_⟩
      unfold canExecuteAligned
      rwa [hacc.canExecute]
    have hclear := tryWrite_clears hon (hu1.heapWF hwf) (hu1.wf hs) hmask hcode heq.symm pc
    exact absurd (hclear.symm.trans hhead) (by simp)
  -- turning the range of the first byte into an array
  have hprep : ∀ p, HoldsMarked h s p →
      h1.versionOf cfg.hash p = h.versionOf cfg.hash p := by
    rcases hp with rfl | ⟨p0, ho, hw⟩
    · exact fun _ _ => rfl
    rcases hfound with rfl | ⟨hq, ho'⟩
    · exact fun _ _ => rfl
    · exact hwrote h1 p0 _ ho.mem (hu1.heapWF hwf) hw (ho'.unique hs ho ▸ hquick hq)
  have hcached : ∀ p, HoldsMarked h s p → Heap.HasVersion h p → Heap.HasVersion h1 p := by
    intro p _ hv
    rcases hp with rfl | ⟨p0, ho, hw⟩
    · exact hv
    by_cases heq' : p = p0
    · subst heq'
      exact hv.wrote hw
    unfold Heap.HasVersion at hv ⊢
    rwa [hw.frame p heq']
  have hloop := tryWrite_keeps hon (hu1.heapWF hwf) (hu1.wf hs) hmask
    (P := HoldsMarked h s) (fun p x hst ho hP => hcached p hP
      (hpinned p x ((hstores x).mp hst) (hu1.owns.mp ho) hP)) heq.symm
  rcases hloop with hclear | ⟨hheads', hver⟩
  · exact absurd ((hclear pc).symm.trans hhead) (by simp)
  · exact ⟨hheads'.trans hheads, fun p hP => (hver p hP).trans (hprep p hP)⟩

end AddressSpace

end Vmill
