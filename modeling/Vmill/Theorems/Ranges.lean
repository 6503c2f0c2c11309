import Vmill.Logic.World

/-!
# The laws of `Copy` and `Clone`

A copy-on-write range cannot be copied: the constructor behind `CopyOnWriteMemoryMap::Copy` computes
the file offset from the member `parent` before there is one (its argument is called `parent_`).
-/

namespace Vmill

open Base AddressSpace

namespace Heap

variable {h h' : Heap} {p p' : MemoryMapPtr}

/-- `Copy` of a page interval of the range gives a range over that interval that
reads the same. -/
def CopyLaw (h : Heap) (p : MemoryMapPtr) : Prop :=
  ∀ b l, b % 4096 = 0 → l % 4096 = 0 → b < l → (h.obj p).baseAddress ≤ b →
    l ≤ (h.obj p).limitAddress → ∃ h' p', h.copy p b l = some (h', p') ∧
      (h'.obj p').baseAddress = b ∧ (h'.obj p').limitAddress = l ∧
      (h'.obj p').offset = wrap64 ((h.obj p).offset + (b - (h.obj p).baseAddress)) ∧
      ∀ a, b ≤ a → a < l → h'.read p' a = h.read p a

/-- `Clone` gives a range with the same bounds, offset, validity and bytes, and
leaves the range itself as it was to a reader. -/
def CloneLaw (h : Heap) (p : MemoryMapPtr) : Prop :=
  ∀ h' p', h.clone p = (h', p') →
    (h'.obj p').baseAddress = (h.obj p).baseAddress ∧
      (h'.obj p').limitAddress = (h.obj p).limitAddress ∧
      (h'.obj p').offset = (h.obj p).offset ∧ h'.isValid p' = h.isValid p ∧
      (∀ a, h'.read p' a = h.read p a) ∧ ∀ a, h'.read p a = h.read p a

lemma read_congr (hwf : h.WF) (hwf' : h'.WF) {a : Nat}
    (hinv : (h'.obj p').kind = .invalid ↔ (h.obj p).kind = .invalid)
    (hbyte : h'.byte p' a = h.byte p a) :
    h'.isValid p' = h.isValid p ∧ h'.read p' a = h.read p a := by
  have hvalid : h'.isValid p' = h.isValid p := by
    rw [Bool.eq_iff_iff, isValid_iff hwf', isValid_iff hwf]
    exact not_congr hinv
  rw [read_eq h' hwf', read_eq h hwf, hvalid, hbyte]
  exact ⟨rfl, rfl⟩

lemma copyLaw_of_not_cow (hwf : h.WF) (hlt : (h.obj p).limitAddress < 2 ^ 64)
    (hcow : ∀ q, (h.obj p).kind ≠ .copyOnWrite q) : CopyLaw h p := by
  intro b l hb hl hbl hlo hhi
  obtain ⟨h', p', hcopy⟩ := copy_isSome hcow fun _ =>
    ⟨hb, hl, hhi.trans_lt hlt, hbl.le⟩
  have hc := copy_spec hwf hlt hcopy
  refine ⟨h', p', hcopy, hc.base, hc.limit, ?_, fun a hba hal => ?_⟩
  · rw [hc.offset, sub64_of_le hlo (by omega)]
  have hin : (h.obj p).contains a = true := contains_iff.mpr ⟨by omega, by omega⟩
  exact (read_congr hwf hc.wf hc.invalid (hc.held a hin hba hal)).2

lemma cloneLaw (hwf : h.WF) (hp : p < h.next) (hnp : h.NotParent p) : CloneLaw h p := by
  rintro h' p' hclone
  have hc := clone_spec hwf hp hnp
  rw [hclone] at hc
  have hread := fun a => read_congr hwf hc.wf hc.invalid (hc.held a)
  exact ⟨hc.base, hc.limit, hc.offset, (hread 0).1, fun a => (hread a).2,
    fun a => (read_congr hwf hc.wf hc.kept.invalid (hc.kept.held a)).2⟩

lemma clone_of_cow {q : MemoryMapPtr} (hk : (h.obj p).kind = .copyOnWrite q)
    (hclone : h.clone p = (h', p')) :
    (h'.obj p').baseAddress = (h.obj q).baseAddress ∧
      (h'.obj p').limitAddress = (h.obj q).limitAddress ∧
      (h'.obj p').offset = (h.obj q).offset := by
  simp only [clone, hk] at hclone
  have hobj : h'.obj p' = h.copyOnWriteOf q := by
    rw [← (Prod.mk.inj hclone).1, ← (Prod.mk.inj hclone).2]
    exact Function.update_self _ _ _
  rw [hobj]
  exact ⟨rfl, rfl, rfl⟩

end Heap

lemma AddressSpace.clone_after_removeMap {h : Heap} (hwf : h.WF) {s : AddressSpace} (hs : s.WF h)
    {base size : Nat} (hb : InBounds s base size) {s' : AddressSpace} {h' : Heap}
    (hrun : s.removeMap h base size = some (s', h')) {a : Nat} (hlo : alignDownToPage base ≤ a)
    (hhi : a < alignDownToPage base + roundUpToPage size) :
    view (s'.clone h').2 (s'.clone h').1 a = none := by
  obtain ⟨hr, hk, _⟩ := removeMap_spec hwf hs.toLaidOut hb hrun
  rw [(AddressSpace.clone_spec hr.grows.wf hr.wf).copyView]
  exact hr.view_invalid hr.grows.wf hk hlo hhi

/-- **Copy and Clone.** A range of a reachable address space satisfies both laws exactly if it is
not a copy-on-write range. Where `RemoveMap` returns, a copy does not have what it unmapped. The
clone of any copy-on-write object has the bounds of its parent. -/
theorem copy_clone_laws_iff {cfg : Config} {w : World} (hw : World.Reachable cfg w) {i : Nat}
    {s : AddressSpace} (hi : w.spaces[i]? = some s) :
    (∀ p ∈ s.maps, (Heap.CopyLaw w.heap p ∧ Heap.CloneLaw w.heap p ↔
      ((w.heap.obj p).baseAddress < (w.heap.obj p).limitAddress →
        ∀ q, (w.heap.obj p).kind ≠ .copyOnWrite q))) ∧
    (∀ base size s' h', InBounds s base size → s.removeMap w.heap base size = some (s', h') →
      ∀ a, alignDownToPage base ≤ a → a < alignDownToPage base + roundUpToPage size →
        view (s'.clone h').2 (s'.clone h').1 a = none) ∧
    ∀ (h h' : Heap) (p p' q : MemoryMapPtr), (h.obj p).kind = .copyOnWrite q →
      h.clone p = (h', p') →
      (h'.obj p').baseAddress = (h.obj q).baseAddress ∧
        (h'.obj p').limitAddress = (h.obj q).limitAddress ∧
        (h'.obj p').offset = (h.obj q).offset := by
  have hwf := hw.wf.heap
  have hs := hw.wf.space i s hi
  refine ⟨fun p hp => ⟨?_, fun hcond => ⟨?_, ?_⟩⟩, ?_,
    fun h h' p p' q hk hclone => Heap.clone_of_cow hk hclone⟩
  · rintro ⟨hcopy, _⟩ hne q hk
    -- the whole range is a page interval, and `Copy` of it does not return
    have hpg := hs.paged p hp (by rw [hk]; simp)
    obtain ⟨h', p', hsome, _⟩ := hcopy _ _ hpg.base hpg.limit hne le_rfl le_rfl
    rw [Heap.copy_of_cow hk] at hsome
    simp at hsome
  · by_cases hne : (w.heap.obj p).baseAddress < (w.heap.obj p).limitAddress
    · exact Heap.copyLaw_of_not_cow hwf (hs.limit_lt p hp) (hcond hne)
    · intro b l _ _ hbl hlo hhi
      exact absurd (hlo.trans_lt (hbl.trans_le hhi)) hne
  · exact Heap.cloneLaw hwf (hs.live p hp) (hs.notParent p hp)
  · intro base size s' h' hb hrun a hlo hhi
    exact clone_after_removeMap hwf hs hb hrun hlo hhi

/-- The two pages of a mapping that has been written. -/
theorem copy_clone_laws_array :
    ∃ w s, World.Reachable (amd64 false) w ∧ w.spaces[0]? = some s ∧ 1 ∈ s.maps ∧
      (w.heap.obj 1).limitAddress = 0x3000 ∧
      Heap.CopyLaw w.heap 1 ∧ Heap.CloneLaw w.heap 1 := by
  obtain ⟨w, s, hw, hi, hmem, hlimit, hcow⟩ := World.reachable_eval (amd64 false)
    [.new, .addMap 0 0x1000 0x2000 none 0, .tryWriteByte 0 0x1000 7]
    (fun w s => 1 ∈ s.maps ∧ (w.heap.obj 1).limitAddress = 0x3000 ∧
      ∀ q, (w.heap.obj 1).kind ≠ .copyOnWrite q)
    (by decide +kernel)
  exact ⟨w, s, hw, hi, hmem, hlimit,
    ((copy_clone_laws_iff hw hi).1 1 hmem).mpr fun _ => hcow⟩

/-- After the address space has been copied, the first page of its range cannot be copied, and
unmapping the second page does not return. -/
theorem copied_range_not_copyable :
    ∃ w s, World.Reachable (amd64 false) w ∧ w.spaces[0]? = some s ∧ 1 ∈ s.maps ∧
      (w.heap.obj 1).baseAddress = 0x1000 ∧ (w.heap.obj 1).limitAddress = 0x3000 ∧
      w.heap.isValid 1 = true ∧ InBounds s 0x2000 0x1000 ∧
      (w.heap.copy 1 0x1000 0x2000).isNone = true ∧
      (s.removeMap w.heap 0x2000 0x1000).isNone = true :=
  World.reachable_eval (amd64 false)
    [.new, .addMap 0 0x1000 0x2000 none 0, .tryWriteByte 0 0x1000 7, .copy 0] _ (by decide +kernel)

end Vmill
