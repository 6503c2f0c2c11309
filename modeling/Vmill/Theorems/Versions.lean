import Vmill.Logic.Version

/-!
# Code versions identify code

A write through the fast path leaves an old version behind.
-/

namespace Vmill

open Base AddressSpace

namespace World

variable {cfg : Config} {w : World}

/-- `ComputeCodeVersion(pc)` on address space `i` answers `v`, for an array or a
copy-on-write range that holds `bytes`. -/
def CodeVersion (cfg : Config) (w : World) (i pc v : Nat) (bytes : List UInt8) : Prop :=
  ∃ s p, w.spaces[i]? = some s ∧ p = (s.findRange w.heap (pc &&& s.addrMask)).2 ∧
    Heap.Backed w.heap p ∧ (computeCodeVersion cfg s w.heap pc).1 = v ∧
    w.heap.rangeBytes p = bytes

/-- The side condition of a call: mappings do not wrap around, and a write drops
the cached version of every range that it stores to. -/
def DropsVersions (w : World) (op : Op) : Prop :=
  Guarded w op ∧ w.OnStore op fun s a n => WriteNoted w.heap s a n op.isQuick

/-- The worlds that guarded calls lead to, if writes drop the versions of what they change. -/
def ReachableDropping (cfg : Config) (w : World) : Prop :=
  ∃ ops os, (memory cfg).RunMeets DropsVersions ops init ∧
    (memory cfg).run ops init = some (os, w)

lemma ReachableDropping.versioned (hon : cfg.versionCode = true) (hr : ReachableDropping cfg w) :
    w.WF ∧ Heap.Versioned cfg.hash w.heap := by
  obtain ⟨ops, os, hmeets, hrun⟩ := hr
  refine run_invariant (I := fun w => Heap.Versioned cfg.hash w.heap) (fun _ _ hP => hP.1)
    (fun w w' op hw hver hP he => he.versioned hon hw hver hP.2) ?_ hmeets hrun
  intro p data hk
  exact absurd hk (by simp [init, newRange])

lemma CodeVersion.eq_hash (hon : cfg.versionCode = true) (hw : w.WF)
    (hver : Heap.Versioned cfg.hash w.heap) {i pc v : Nat} {bytes : List UInt8}
    (hc : CodeVersion cfg w i pc v bytes) : v = cfg.hash bytes := by
  obtain ⟨s, p, hi, rfl, hbacked, rfl, rfl⟩ := hc
  have hs := hw.space i s hi
  -- the range found is one of the address space: the other outcome is invalid
  have ho : Owns w.heap s (s.findRange w.heap (pc &&& s.addrMask)).2
      (alignDownToPage (pc &&& s.addrMask)) := by
    rcases (findRangeAligned_spec hs (alignDownToPage (pc &&& s.addrMask))).2 with
      ho | ⟨hinv, _⟩
    · exact ho
    · rw [findRange, hinv] at hbacked
      rcases hbacked with ⟨data, hk⟩ | ⟨q, hk⟩
      · exact absurd (hs.invalid.symm.trans hk) (by simp)
      · exact absurd (hs.invalid.symm.trans hk) (by simp)
  have hin := ho.inside
  unfold AddressSpace.computeCodeVersion
  rw [if_pos hon]
  exact (hver _).computeCodeVersion hw.heap hbacked (Nat.lt_of_le_of_lt hin.1 hin.2).le
    (hs.limit_lt _ ho.mem)

lemma writeNoted_of_first {h : Heap} {s : AddressSpace} {a n : Nat} {quick : Bool}
    (hfast : quick = true → ¬ Heap.HasVersion h (s.findWNXRange h a).2)
    (hfirst : ∀ p ∈ s.maps, Heap.HasVersion h p → (h.obj p).contains a = true ∧ s.canExecuteAligned
      (alignDownToPage a) = true) : WriteNoted h s a n quick := by
  refine ⟨fun hq _ => hfast hq, fun p x hst ho hv => ?_⟩
  obtain ⟨hax, hxe, hr⟩ := hst
  obtain ⟨hcontains, hx⟩ := hfirst p ho.mem hv
  exact ⟨a, ⟨le_rfl, hax.trans_lt hxe, fun y hy hya => hr y hy (by omega)⟩,
    ⟨ho.mem, ho.valid, Heap.contains_iff.mp hcontains⟩, hx⟩

end World

/-- **Code versions.** In every run whose writes drop the cached version of every range they store
to, the version of an array or a copy-on-write range is the hash of its bytes; so, if `Hash` has no
collisions, equal versions mean equal bytes, at any points of any runs. -/
theorem code_version_identifies_code {cfg : Config} (hon : cfg.versionCode = true) :
    (∀ w i pc v bytes, World.ReachableDropping cfg w → World.CodeVersion cfg w i pc v bytes →
      v = cfg.hash bytes) ∧
    (Function.Injective cfg.hash → ∀ w w' i j pc pc' v bytes bytes',
      World.ReachableDropping cfg w → World.ReachableDropping cfg w' →
      World.CodeVersion cfg w i pc v bytes → World.CodeVersion cfg w' j pc' v bytes' →
      bytes = bytes') := by
  have hhash : ∀ w i pc v bytes, World.ReachableDropping cfg w →
      World.CodeVersion cfg w i pc v bytes → v = cfg.hash bytes := by
    intro w i pc v bytes hr hc
    obtain ⟨hw, hver⟩ := hr.versioned hon
    exact hc.eq_hash hon hw hver
  refine ⟨hhash, fun hinj w w' i j pc pc' v bytes bytes' hr hr' hc hc' => hinj ?_⟩
  exact (hhash w i pc v bytes hr hc).symm.trans (hhash w' j pc' v bytes' hr' hc')

/-- Code is written, made executable, versioned, and written again in place. -/
theorem code_version_rewritten :
    ∃ w v bytes, World.ReachableDropping (amd64 true) w ∧
      World.CodeVersion (amd64 true) w 0 0x1000 v bytes ∧ v = (amd64 true).hash bytes := by
  obtain ⟨os, w, s, hrun, hi, hvers⟩ := World.run_eval (amd64 true)
    [.new, .addMap 0 0x1000 0x1000 none 0, .tryWriteByte 0 0x1000 5,
      .setPermissions 0 0x1000 0x1000 true true true, .computeCodeVersion 0 0x1000,
      .tryWriteByte 0 0x1000 6, .computeCodeVersion 0 0x1000]
    (fun w s => Heap.HasVersion w.heap (s.findRange w.heap (0x1000 &&& s.addrMask)).2)
    (by decide +kernel)
  have hmeets : (memory (amd64 true)).RunMeets (fun w op => World.Guarded w op ∧
      w.OnStore op fun s a _ =>
        ¬ Heap.HasVersion w.heap (s.findWNXRange w.heap a).2 ∧
        ∀ p ∈ s.maps, Heap.HasVersion w.heap p → (w.heap.obj p).contains a = true ∧
          s.canExecuteAligned (alignDownToPage a) = true)
      [.new, .addMap 0 0x1000 0x1000 none 0, .tryWriteByte 0 0x1000 5,
      .setPermissions 0 0x1000 0x1000 true true true, .computeCodeVersion 0 0x1000,
      .tryWriteByte 0 0x1000 6, .computeCodeVersion 0 0x1000] World.init := by decide +kernel
  have hr : World.ReachableDropping (amd64 true) w :=
    ⟨_, os, hmeets.mono fun w op hP => ⟨hP.1, hP.2.mono fun s a n hQ =>
      World.writeNoted_of_first (fun _ => hQ.1) hQ.2⟩, hrun⟩
  have hc : World.CodeVersion (amd64 true) w 0 0x1000 _ _ :=
    ⟨s, _, hi, rfl, .inl hvers.1, rfl, rfl⟩
  exact ⟨w, _, _, hr, hc, (code_version_identifies_code rfl).1 w 0 0x1000 _ _ hr hc⟩

lemma amd64_hash_injective (versionCode : Bool) :
    Function.Injective (amd64 versionCode).hash := by
  have hconcat : ∀ (l : List UInt8) (b : UInt8),
      (amd64 versionCode).hash (l ++ [b]) = 256 * (amd64 versionCode).hash l + b.toNat :=
    fun l b => List.foldl_concat ..
  have hpos : ∀ l : List UInt8, 0 < (amd64 versionCode).hash l := by
    intro l
    induction l using List.reverseRecOn with
    | nil => exact Nat.one_pos
    | append_singleton l b ih =>
    rw [hconcat]
    omega
  have hnil : (amd64 versionCode).hash [] = 1 := rfl
  intro l
  induction l using List.reverseRecOn with
  | nil =>
    intro l' heq
    cases l' using List.reverseRecOn with
    | nil => rfl
    | append_singleton l' b =>
    have := hpos l'
    rw [hconcat, hnil] at heq
    omega
  | append_singleton l b ih =>
  intro l' heq
  cases l' using List.reverseRecOn with
  | nil =>
    have := hpos l
    rw [hconcat, hnil] at heq
    omega
  | append_singleton l' b' =>
  have hb := b.toNat_lt
  have hb' := b'.toNat_lt
  rw [hconcat, hconcat] at heq
  obtain rfl : b = b' := UInt8.toNat_inj.mp (by omega)
  obtain rfl : l = l' := ih (by omega)
  rfl

lemma Heap.byte_of_rangeBytes_eq {h h' : Heap} {p p' : MemoryMapPtr} (hsize : (h.obj p).size ≠ 0)
    (heq : h.rangeBytes p = h'.rangeBytes p') :
    h.byte p (h.obj p).baseAddress = h'.byte p' (h'.obj p').baseAddress := by
  have hlen := congrArg List.length heq
  have hhead := congrArg List.head? heq
  unfold rangeBytes at hlen hhead
  rw [List.length_map, List.length_map, List.length_range, List.length_range] at hlen
  rw [List.head?_map, List.head?_map, List.head?_range, List.head?_range, if_neg hsize,
    if_neg (hlen ▸ hsize)] at hhead
  exact Option.some.inj hhead

/-- A byte is written, the version computed, and the byte written again through the fast path: the
version is the same, and the bytes are not. -/
theorem code_version_outlives_write :
    Function.Injective (amd64 true).hash ∧ ∃ w w' v bytes bytes' os os',
      (memory (amd64 true)).run [.new, .addMap 0 0x1000 0x1000 none 0, .tryWriteByte 0 0x1000 5,
        .computeCodeVersion 0 0x1000] World.init = some (os, w) ∧
      (memory (amd64 true)).run [.tryWriteByte 0 0x1000 6] w = some (os', w') ∧
      World.CodeVersion (amd64 true) w 0 0x1000 v bytes ∧
      World.CodeVersion (amd64 true) w' 0 0x1000 v bytes' ∧ bytes ≠ bytes' := by
  refine ⟨amd64_hash_injective true, ?_⟩
  obtain ⟨os, w, s, hrun, hi, hvers, hsize, hbyte, hcall⟩ := World.run_eval (amd64 true)
    [.new, .addMap 0 0x1000 0x1000 none 0, .tryWriteByte 0 0x1000 5, .computeCodeVersion 0 0x1000]
    (fun w s => Heap.HasVersion w.heap (s.findRange w.heap (0x1000 &&& s.addrMask)).2 ∧
      (w.heap.obj (s.findRange w.heap (0x1000 &&& s.addrMask)).2).size ≠ 0 ∧
      w.heap.byte (s.findRange w.heap (0x1000 &&& s.addrMask)).2
        (w.heap.obj (s.findRange w.heap (0x1000 &&& s.addrMask)).2).baseAddress = 5 ∧
      (s.tryWriteByte (amd64 true) w.heap 0x1000 6).any (fun r => decide (
        Heap.HasVersion r.2.2 (r.2.1.findRange r.2.2 (0x1000 &&& r.2.1.addrMask)).2 ∧
        r.2.2.byte (r.2.1.findRange r.2.2 (0x1000 &&& r.2.1.addrMask)).2
          (r.2.2.obj (r.2.1.findRange r.2.2 (0x1000 &&& r.2.1.addrMask)).2).baseAddress = 6 ∧
        (computeCodeVersion (amd64 true) r.2.1 r.2.2 0x1000).1 =
          (computeCodeVersion (amd64 true) s w.heap 0x1000).1)) = true)
    (by decide +kernel)
  obtain ⟨⟨ok, s', h'⟩, hwrite, hafter⟩ := (Option.any_eq_true _ _).mp hcall
  obtain ⟨hvers', hbyte', hsame⟩ := of_decide_eq_true hafter
  refine ⟨w, w.put 0 s' h', _, _, _, os, [.wrote ok], hrun, ?_,
    ⟨s, _, hi, rfl, .inl hvers.1, rfl, rfl⟩,
    ⟨s', _, World.put_self hi, rfl, .inl hvers'.1, hsame, rfl⟩, fun heq => ?_⟩
  · refine Machine.run_cons ?_ rfl
    simp only [memory, World.step, World.onSpace, hi, hwrite, Option.map_some]
  · have hfirst := Heap.byte_of_rangeBytes_eq hsize heq
    exact absurd (hbyte.symm.trans (hfirst.trans hbyte')) (by decide)

end Vmill
