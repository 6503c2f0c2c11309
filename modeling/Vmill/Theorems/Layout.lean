import Vmill.Logic.World

/-!
# What mapping and unmapping do to an address space

`RemoveRange` sends an overlap with a range at its start only (`CutsHead`) to its last branch, which
is meant for an overlap at the end.
-/

namespace Vmill

open Base AddressSpace

/-- The ranges are sorted by base, none is empty, and every address below the
mask lies in exactly one of them. -/
structure AddressSpace.Partitioned (h : Heap) (s : AddressSpace) : Prop where
  sorted : s.maps.Pairwise (fun p q => (h.obj p).baseAddress ≤ (h.obj q).baseAddress)
  proper : ∀ p ∈ s.maps, (h.obj p).baseAddress < (h.obj p).limitAddress
  splits : Splits h.extent s.maps { a | a < s.addrMask }

namespace AddressSpace

variable {h h' : Heap} {s s' : AddressSpace}

lemma Partitioned.sameShape (hp : Partitioned h s) (hk : ∀ p ∈ s.maps, Heap.SameShape h h' p) :
    Partitioned h' s := by
  refine ⟨?_, ?_, ?_, ?_⟩
  · exact hp.sorted.imp_of_mem (fun {p q} hpm hqm hle => by
      rw [(hk p hpm).base, (hk q hqm).base]; exact hle)
  · intro p hpm
    rw [(hk p hpm).base, (hk p hpm).limit]
    exact hp.proper p hpm
  · exact hp.splits.apart.imp_of_mem (fun {p q} hpm hqm hd => by
      rw [(hk p hpm).extent, (hk q hqm).extent]; exact hd)
  intro a
  rw [hp.splits.cover a]
  exact exists_congr fun p => and_congr_right fun hpm => by rw [(hk p hpm).extent]

lemma Partitioned.of_perm (hp : Partitioned h s) (hs' : s'.WF h)
    (hmask : s'.addrMask = s.addrMask) (hperm : s'.maps.Perm s.maps) : Partitioned h s' := by
  refine ⟨hs'.sorted, fun p hpm => hp.proper p (hperm.mem_iff.mp hpm), ?_⟩
  rw [hmask]
  exact hp.splits.perm hperm.symm

lemma Replaced.partitioned {new : MemoryMapPtr} {base limit : Nat}
    (hr : Replaced h s h' s' new base limit) (hp : Partitioned h s) (hlt : base < limit)
    (hfits : limit ≤ s.addrMask) (hhead : ∀ p ∈ s.maps, ¬ CutsHead h base limit p) :
    Partitioned h' s' := by
  obtain ⟨kept, href, hperm⟩ := hr.maps
  have hcut : Refines (fun x ys => Cut h h' base limit x ys ∧ ¬ CutsHead h base limit x ∧
      (h.obj x).baseAddress < (h.obj x).limitAddress) s.maps kept :=
    href.imp fun x hx ys hc => ⟨hc, hhead x hx, hp.proper x hx⟩
  -- the pieces of a range make up the range less the interval
  have hkept : Splits h'.extent kept ({ a | a < s.addrMask } \ { a | base ≤ a ∧ a < limit }) := by
    refine hcut.splits hp.splits ?_
    rintro x ys ⟨hc, hno, _⟩
    refine ⟨hc.apart, fun a => ⟨?_, ?_⟩⟩
    · rintro ⟨hin, hout⟩
      simp only [Set.mem_ofPred_eq] at hout
      exact hc.cover hno a hin (by omega)
    rintro ⟨y, hy, ha⟩
    refine ⟨(hc.piece y hy).inside ha, ?_⟩
    have hout := hc.outside hy ha
    simp only [Set.mem_ofPred_eq]
    omega
  have hnew : h'.extent new = { a | base ≤ a ∧ a < limit } := by
    unfold Heap.extent
    rw [hr.newBase, hr.newLimit]
  refine ⟨hr.wf.sorted, ?_, ?_⟩
  · intro p hpm
    rcases List.mem_append.mp (hperm.mem_iff.mp hpm) with hk | hn
    · obtain ⟨x, _, ys, ⟨hc, hno, hproper⟩, hys⟩ := hcut.origin hk
      exact hc.proper hno hproper p hys
    · rwa [List.mem_singleton.mp hn, hr.newBase, hr.newLimit]
  rw [hr.addrMask]
  refine (hkept.append_singleton hnew ?_).perm hperm.symm
  intro a ha
  simp only [Set.mem_ofPred_eq] at ha ⊢
  omega

lemma Copied.partitioned (hc : AddressSpace.Copied h s h' s') (hp : Partitioned h s) :
    Partitioned h' s' := by
  obtain ⟨maps', hf, hperm⟩ := hc.forked
  have hextent : ∀ x ys, (∃ y, ys = [y] ∧ CloneOf h h' x y) →
      Splits h'.extent ys (h.extent x \ ∅) := by
    rintro x ys ⟨y, rfl, hy⟩
    have heq : h'.extent y = h.extent x := by
      unfold Heap.extent
      rw [hy.base, hy.limit]
    refine ⟨List.pairwise_singleton _ _, fun a => ?_⟩
    simp [heq]
  have hsplits := hf.clones.splits hp.splits hextent
  rw [Set.sdiff_empty] at hsplits
  refine ⟨hc.copy.sorted, ?_, ?_⟩
  · intro p hpm
    obtain ⟨x, hx, ys, ⟨y, rfl, hy⟩, hys⟩ := hf.clones.origin (hperm.mem_iff.mp hpm)
    rw [List.mem_singleton.mp hys, hy.base, hy.limit]
    exact hp.proper x hx
  rw [hc.addrMask]
  exact hsplits.perm hperm.symm

lemma new_partitioned (cfg : Config) (hwf : h.WF) : Partitioned (new cfg h).2 (new cfg h).1 := by
  obtain ⟨hmaps, hobj⟩ := World.new_maps cfg h
  obtain ⟨_, hwfs, _, hmask⟩ := new_spec cfg hwf
  have hpos : 0 < getAddressMask cfg := by
    unfold getAddressMask
    split <;> decide
  refine ⟨hwfs.sorted, ?_, ?_, ?_⟩
  · intro p hpm
    rw [hmaps] at hpm
    rwa [List.mem_singleton.mp hpm, hobj]
  · rw [hmaps]
    exact List.pairwise_singleton _ _
  intro a
  rw [hmaps, hmask]
  simp only [List.mem_singleton, exists_eq_left, Heap.mem_extent, hobj, Set.mem_ofPred_eq]
  exact ⟨fun ha => ⟨Nat.zero_le _, ha⟩, fun ha => ha.2⟩

end AddressSpace

namespace World

variable {cfg : Config} {w : World}

/-- The mapping calls whose interval is a non-empty page range below the mask and
cuts the head of no range. -/
def MapsCleanly (w : World) (op : Op) : Prop :=
  w.OnRemap op (fun s base size => InBounds s base size ∧ roundUpToPage size ≠ 0 ∧
    ∀ p ∈ s.maps, ¬ CutsHead w.heap (alignDownToPage base)
      (alignDownToPage base + roundUpToPage size) p)
deriving Decidable

/-- All address spaces are partitioned. -/
def Partitioned (w : World) : Prop :=
  ∀ (i : Nat) (s : AddressSpace), w.spaces[i]? = some s → AddressSpace.Partitioned w.heap s

lemma partitioned_byShape (cfg : Config) : ByShape cfg AddressSpace.Partitioned where
  shape := Partitioned.sameShape
  perm := Partitioned.of_perm
  copied := Copied.partitioned
  new := new_partitioned cfg

lemma Effect.partitioned {w' : World} {op : Op} (hw : w.WF) (hp : Partitioned w)
    (hc : MapsCleanly w op) (he : Effect cfg w op w') : Partitioned w' := by
  refine he.each (partitioned_byShape cfg) hw hp ?_
  intro i base size m s s' h' hremaps htarget hi hb hrep
  obtain ⟨_, hne, hhead⟩ := OnRemap.elim hc htarget hremaps hi
  exact hrep.partitioned (hp i s hi) (by omega) hb.fits hhead

lemma partitioned_of_run {ops : List Op} {os : List Out}
    (hclean : (memory cfg).RunMeets MapsCleanly ops init)
    (hrun : (memory cfg).run ops init = some (os, w)) : Partitioned w :=
  (run_invariant (I := Partitioned) (P := MapsCleanly)
    (fun w op hc => OnRemap.mono hc fun s base size hq => hq.1)
    (fun w w' op hw hp hc he => he.partitioned hw hp hc)
    (fun i s hi => absurd hi (by simp [init])) hclean hrun).2

end World

/-- **Partition.** In every run whose mapping calls are clean, every address
space that is reached is partitioned. -/
theorem reachable_partitioned {cfg : Config} {ops : List Op} {os : List Out} {w : World}
    (hclean : (memory cfg).RunMeets World.MapsCleanly ops World.init)
    (hrun : (memory cfg).run ops World.init = some (os, w)) {i : Nat} {s : AddressSpace}
    (hi : w.spaces[i]? = some s) : AddressSpace.Partitioned w.heap s :=
  World.partitioned_of_run hclean hrun i s hi

/-- Mapping two pages and unmapping the second is clean. -/
theorem reachable_partitioned_two_pages :
    ∃ os w s, (memory (amd64 false)).run
        [.new, .addMap 0 0x1000 0x2000 none 0, .removeMap 0 0x2000 0x1000] World.init =
          some (os, w) ∧
      w.spaces[0]? = some s ∧ AddressSpace.Partitioned w.heap s := by
  obtain ⟨os, w, s, hrun, hi, _⟩ := World.run_eval (amd64 false)
    [.new, .addMap 0 0x1000 0x2000 none 0, .removeMap 0 0x2000 0x1000]
    (fun _ _ => True) (by decide +kernel)
  exact ⟨os, w, s, hrun, hi, reachable_partitioned (by decide +kernel) hrun hi⟩

/-- Two pages are mapped at `0x1000`, then two at `0`: the inverted range `[0x1000, 0)` is left
behind, and nothing covers `[0x2000, 0x3000)`. -/
theorem addMap_over_head_not_partitioned :
    ∃ os w s, (memory (amd64 false)).RunMeets World.Guarded
        [.new, .addMap 0 0x1000 0x2000 none 0, .addMap 0 0 0x2000 none 0] World.init ∧
      (memory (amd64 false)).run
        [.new, .addMap 0 0x1000 0x2000 none 0, .addMap 0 0 0x2000 none 0] World.init =
          some (os, w) ∧
      w.spaces[0]? = some s ∧
      s.maps.map (fun p => ((w.heap.obj p).baseAddress, (w.heap.obj p).limitAddress)) =
        [(0, 0x2000), (0x1000, 0), (0x3000, 2 ^ 64 - 1)] ∧
      ¬ AddressSpace.Partitioned w.heap s := by
  obtain ⟨os, w, s, hrun, hi, hmaps⟩ := World.run_eval (amd64 false)
    [.new, .addMap 0 0x1000 0x2000 none 0, .addMap 0 0 0x2000 none 0]
    (fun w s =>
      s.maps.map (fun p => ((w.heap.obj p).baseAddress, (w.heap.obj p).limitAddress)) =
        [(0, 0x2000), (0x1000, 0), (0x3000, 2 ^ 64 - 1)])
    (by decide +kernel)
  refine ⟨os, w, s, by decide +kernel, hrun, hi, hmaps, fun hp => ?_⟩
  have hin : (0x1000, 0) ∈ s.maps.map
      (fun p => ((w.heap.obj p).baseAddress, (w.heap.obj p).limitAddress)) := by
    rw [hmaps]
    simp
  obtain ⟨p, hpm, hpe⟩ := List.mem_map.mp hin
  have hlt := hp.proper p hpm
  rw [(Prod.mk.inj hpe).1, (Prod.mk.inj hpe).2] at hlt
  omega

/-- Outside `[base, limit)` every guest address keeps its byte (or stays
unmapped) and its permissions; inside, every address holds `content` and is
readable and writable as `perm` says, and not executable. -/
structure AddressSpace.MapsOnly (h : Heap) (s : AddressSpace) (h' : Heap) (s' : AddressSpace)
    (base limit : Nat) (content : Option UInt8) (perm : Bool) : Prop where
  outside : ∀ a ≤ s.addrMask, ¬ (base ≤ a ∧ a < limit) → view h' s' a = view h s a ∧
    s'.canRead a = s.canRead a ∧ s'.canWrite a = s.canWrite a ∧ s'.canExecute a = s.canExecute a
  inside : ∀ a, base ≤ a → a < limit → view h' s' a = content ∧
    s'.canRead a = perm ∧ s'.canWrite a = perm ∧ s'.canExecute a = false

namespace AddressSpace

variable {h h' : Heap} {s s' : AddressSpace} {base size : Nat}

lemma Replaced.mapsOnly_iff (hwf : h.WF) (hs : s.WF h) {new : MemoryMapPtr} {limit : Nat}
    (hi : Interval s base limit) (hr : Replaced h s h' s' new base limit) {perm : Bool}
    (hp : Protected s s' base limit perm perm false) {content : Option UInt8}
    (hcontent : ∀ a, base ≤ a → a < limit → view h' s' a = content) :
    MapsOnly h s h' s' base limit content perm ↔
      ∀ p ∈ s.maps, (h.obj p).kind ≠ .invalid → ¬ CutsHead h base limit p := by
  have hwf' := hr.grows.wf
  have hperm := fun a (ha : a ≤ s.addrMask) => hp.at hs hr.addrMask hi ha
  constructor
  · intro hm p hpm hv hcut
    obtain ⟨hsome, hnone⟩ := hr.view_lost hwf hwf' hs hpm hv hcut
    rw [← (hm.outside limit hi.fits (by omega)).1, hnone] at hsome
    simp at hsome
  intro hhead
  constructor
  · intro a ha hout
    have hpa := hperm a ha
    simp only [if_neg hout] at hpa
    exact ⟨hr.view_outside hwf hwf' hs hout fun p ho => hhead p ho.mem ho.valid, hpa⟩
  intro a hlo hhi
  have hpa := hperm a ((Nat.le_of_lt hhi).trans hi.fits)
  simp only [if_pos (And.intro hlo hhi)] at hpa
  exact ⟨hcontent a hlo hhi, hpa⟩

lemma addMap_mapsOnly_iff (hwf : h.WF) (hs : s.WF h) (hb : InBounds s base size)
    {name : Option (List UInt8)} {offset : Nat}
    (hrun : s.addMap h base size name offset = some (s', h')) :
    MapsOnly h s h' s' (alignDownToPage base) (alignDownToPage base + roundUpToPage size)
        (some 0) true ↔
      ∀ p ∈ s.maps, (h.obj p).kind ≠ .invalid → ¬ CutsHead h (alignDownToPage base)
        (alignDownToPage base + roundUpToPage size) p := by
  obtain ⟨hr, hk, hp⟩ := addMap_spec hwf hs.toLaidOut hb hrun
  exact hr.mapsOnly_iff hwf hs (hb.interval hs.toLaidOut) hp
    fun a hlo hhi => hr.view_empty hr.grows.wf hk hlo hhi

lemma removeMap_mapsOnly_iff (hwf : h.WF) (hs : s.WF h) (hb : InBounds s base size)
    (hrun : s.removeMap h base size = some (s', h')) :
    MapsOnly h s h' s' (alignDownToPage base) (alignDownToPage base + roundUpToPage size)
        none false ↔
      ∀ p ∈ s.maps, (h.obj p).kind ≠ .invalid → ¬ CutsHead h (alignDownToPage base)
        (alignDownToPage base + roundUpToPage size) p := by
  obtain ⟨hr, hk, hp⟩ := removeMap_spec hwf hs.toLaidOut hb hrun
  exact hr.mapsOnly_iff hwf hs (hb.interval hs.toLaidOut) hp
    fun a hlo hhi => hr.view_invalid hr.grows.wf hk hlo hhi

end AddressSpace

/-- **Frame.** `AddMap` and `RemoveMap` in a reachable world: the call returns and changes nothing
outside its interval exactly if the interval overlaps no valid range only at its start. -/
theorem remap_frame_iff {cfg : Config} {w : World} (hw : World.Reachable cfg w) {i : Nat}
    {s : AddressSpace} (hi : w.spaces[i]? = some s) {base size : Nat}
    (hb : InBounds s base size) (name : Option (List UInt8)) (offset : Nat)
    (hcow : ∀ p ∈ s.maps, Overlaps w.heap (alignDownToPage base)
      (alignDownToPage base + roundUpToPage size) p →
        ∀ q, (w.heap.obj p).kind ≠ .copyOnWrite q) :
    ((∃ s' h', s.addMap w.heap base size name offset = some (s', h') ∧
        MapsOnly w.heap s h' s' (alignDownToPage base)
          (alignDownToPage base + roundUpToPage size) (some 0) true) ↔
      ∀ p ∈ s.maps, (w.heap.obj p).kind ≠ .invalid → ¬ CutsHead w.heap (alignDownToPage base)
        (alignDownToPage base + roundUpToPage size) p) ∧
    ((∃ s' h', s.removeMap w.heap base size = some (s', h') ∧
        MapsOnly w.heap s h' s' (alignDownToPage base)
          (alignDownToPage base + roundUpToPage size) none false) ↔
      ∀ p ∈ s.maps, (w.heap.obj p).kind ≠ .invalid → ¬ CutsHead w.heap (alignDownToPage base)
        (alignDownToPage base + roundUpToPage size) p) := by
  have hwf := hw.wf.heap
  have hs := hw.wf.space i s hi
  refine ⟨⟨?_, fun hhead => ?_⟩, ⟨?_, fun hhead => ?_⟩⟩
  · rintro ⟨s', h', hrun, hm⟩
    exact (addMap_mapsOnly_iff hwf hs hb hrun).mp hm
  · obtain ⟨s', h', hrun⟩ := addMap_isSome hwf hs hb hcow hhead name offset
    exact ⟨s', h', hrun, (addMap_mapsOnly_iff hwf hs hb hrun).mpr hhead⟩
  · rintro ⟨s', h', hrun, hm⟩
    exact (removeMap_mapsOnly_iff hwf hs hb hrun).mp hm
  · obtain ⟨s', h', hrun⟩ := removeMap_isSome hwf hs hb hcow hhead
    exact ⟨s', h', hrun, (removeMap_mapsOnly_iff hwf hs hb hrun).mpr hhead⟩

/-- Unmapping the second of two mapped pages. -/
theorem removeMap_frame_two_pages :
    ∃ w s s' h', World.Reachable (amd64 false) w ∧ w.spaces[0]? = some s ∧
      s.removeMap w.heap 0x2000 0x1000 = some (s', h') ∧
      MapsOnly w.heap s h' s' 0x2000 0x3000 none false := by
  obtain ⟨w, s, hw, hi, hb, hall⟩ := World.reachable_eval (amd64 false)
    [.new, .addMap 0 0x1000 0x2000 none 0]
    (fun w s => InBounds s 0x2000 0x1000 ∧ ∀ p ∈ s.maps,
      ¬ CutsHead w.heap 0x2000 0x3000 p ∧ ∀ q, (w.heap.obj p).kind ≠ .copyOnWrite q)
    (by decide +kernel)
  obtain ⟨s', h', hcall, hm⟩ := (remap_frame_iff hw hi hb none 0
    (fun p hp _ => (hall p hp).2)).2.mpr fun p hp _ => (hall p hp).1
  exact ⟨w, s, s', h', hw, hi, hcall, hm⟩

/-- Two pages are mapped at `0x1000`, then two at `0`: address `0x2000` is unmapped afterwards. -/
theorem addMap_over_head_unmaps :
    ∃ w s s' h', World.Reachable (amd64 false) w ∧ w.spaces[0]? = some s ∧
      InBounds s 0 0x2000 ∧ (∀ p ∈ s.maps, ∀ q, (w.heap.obj p).kind ≠ .copyOnWrite q) ∧
      s.addMap w.heap 0 0x2000 none 0 = some (s', h') ∧
      view w.heap s 0x2000 = some 0 ∧ view h' s' 0x2000 = none := by
  obtain ⟨w, s, hw, hi, hb, hcow, hbefore, hafter⟩ := World.reachable_eval (amd64 false)
    [.new, .addMap 0 0x1000 0x2000 none 0]
    (fun w s => InBounds s 0 0x2000 ∧
      (∀ p ∈ s.maps, ∀ q, (w.heap.obj p).kind ≠ .copyOnWrite q) ∧
      view w.heap s 0x2000 = some 0 ∧
      (s.addMap w.heap 0 0x2000 none 0).any (fun r => decide (view r.2 r.1 0x2000 = none)) = true)
    (by decide +kernel)
  obtain ⟨⟨s', h'⟩, hcall, hnone⟩ := (Option.any_eq_true _ _).mp hafter
  exact ⟨w, s, s', h', hw, hi, hb, hcow, hcall, hbefore,
    of_decide_eq_true hnone⟩

end Vmill
