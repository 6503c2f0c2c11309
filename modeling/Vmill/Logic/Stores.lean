import Vmill.Logic.Faults
import Vmill.Logic.Guest

/-!
# What a copy into the guest stores

Whether a byte write faults can depend on the caches, so of a copy in general only this is known:
each place holds what it held before, or a byte that the copy has for it.
-/

namespace Vmill

open Base AddressSpace

namespace AddressSpace

/-- A byte store changes its byte or nothing. -/
lemma tryWriteByte_updates (cfg : Config) {h : Heap} (hwf : h.WF) {s : AddressSpace} (hs : s.WF h)
    (addr : Nat) (val : UInt8) :
    ∃ ok s' h' v, s.tryWriteByte cfg h addr val = some (ok, s', h') ∧ Updates h s h' s' v ∧
      (v = view h s ∨ v = Function.update (view h s) (addr &&& s.addrMask) (some val)) := by
  have halt := mask_lt hs addr
  have hmask := mask_mask s addr
  have hlast := hs.lastPage (2 ^ 64 - 4096) le_rfl
  have hc := tryWriteByte_cases cfg hwf hs addr val
  generalize addr &&& s.addrMask = a at halt hmask hc ⊢
  generalize s.tryWriteByte cfg h addr val = r at hc ⊢
  have hone : overwrite (view h s) a ([val].map some) = Function.update (view h s) a (some val) := by
    rw [List.map_singleton, overwrite_cons, overwrite_nil]
  cases hc with
  | fast _ p s' h' _ ho hacc _ hfit hw heq =>
    have hu := WriteCases.fast_updates hwf hs halt ho hacc hfit hw
    exact ⟨true, s', h', _, heq, hu, .inr hone⟩
  | slow s1 h1 hacc _ hp _ heq =>
  have hu := WriteCases.prepared_updates hwf hs hacc hp
  have hag := (tryWrite_agrees cfg (hu.heapWF hwf) (hu.wf hs) a [val]).after hu
  rw [← heq, hacc.canWrite, hacc.addrMask, hmask, hu.view] at hag
  obtain ⟨⟨ok, mem⟩, hflat⟩ := Flat.tryWrite_isSome (view h s) a [val] hlast
  rw [hflat] at hag
  rcases hag with ⟨_, hnone⟩ | ⟨ok', s', h', mem', hr, hf, hu'⟩
  · exact nomatch hnone
  cases hf
  obtain ⟨k, hst⟩ := Flat.tryWrite_stores hlast (view_whole hwf hs) halt hflat
  refine ⟨ok, s', h', mem, hr, hu', ?_⟩
  rw [hst.result]
  cases k with
  | zero => exact .inl (overwrite_nil _ _)
  | succ k => exact .inr (by rw [List.take_succ_cons, List.take_nil]; exact hone)

end AddressSpace

namespace Guest

variable {addr i : Nat} {vals : List UInt8} {cfg : Config}

/-- The guest's heap and address space are well-formed, as those of `World.Reachable` are. -/
structure WF (g : Guest) : Prop where
  heap : g.heap.WF
  space : g.space.WF g.heap

/-- The memory of the guest. -/
def mem (g : Guest) : Nat → Option UInt8 := view g.heap g.space

/-- The guest becomes `g'`, and each place of its memory holds what it held before, or a byte that
`S` has for it. -/
structure Wrote (g g' : Guest) (S : Nat → UInt8 → Prop) : Prop where
  updates : Updates g.heap g.space g'.heap g'.space g'.mem
  stored : ∀ x, g'.mem x = g.mem x ∨ ∃ val, S x val ∧ g'.mem x = some val

/-- Nothing is stored. -/
abbrev Looked (g g' : Guest) : Prop := g.Wrote g' fun _ _ => False

variable {g g' g'' : Guest} {S S' : Nat → UInt8 → Prop}

lemma Wrote.refl (g : Guest) (S : Nat → UInt8 → Prop) : g.Wrote g S :=
  ⟨Updates.refl _ _, fun _ => .inl rfl⟩

lemma Looked.mem_eq (h : g.Looked g') : g'.mem = g.mem :=
  funext fun x => (h.stored x).resolve_right fun ⟨_, hfalse, _⟩ => hfalse

lemma Wrote.trans (h : g.Wrote g' S) (h' : g'.Wrote g'' S) : g.Wrote g'' S where
  updates := Updates.trans h.updates h'.updates
  stored x := (h'.stored x).elim (fun heq => heq ▸ h.stored x) .inr

lemma Wrote.wf (h : g.Wrote g' S) (hg : g.WF) : g'.WF :=
  ⟨h.updates.heapWF hg.heap, h.updates.wf hg.space⟩

lemma Wrote.accessed (h : g.Wrote g' S) : Accessed g.space g'.space := h.updates.accessed

lemma Wrote.addrT (h : g.Wrote g' S) (n : Nat) : g'.addrT n = g.addrT n := by
  unfold Guest.addrT
  rw [h.accessed.addrMask]

lemma canRead_accessed (hacc : Accessed g.space g'.space) :
    g'.space.canRead = g.space.canRead := by
  funext a
  unfold AddressSpace.canRead canReadAligned
  rw [hacc.addrMask, hacc.canRead]

lemma canWrite_accessed (hacc : Accessed g.space g'.space) :
    g'.space.canWrite = g.space.canWrite := by
  funext a
  unfold AddressSpace.canWrite canWriteAligned
  rw [hacc.addrMask, hacc.canWrite]

lemma canReadMemory_accessed (hacc : Accessed g.space g'.space) (addr size : Nat) :
    g'.canReadMemory addr size = g.canReadMemory addr size := by
  unfold canReadMemory numReadableBytes
  rw [canRead_accessed hacc, numBytesLoop_congr g' g hacc.addrMask]

lemma numWritableBytes_accessed (hacc : Accessed g.space g'.space) (addr size : Nat) :
    g'.numWritableBytes addr size = g.numWritableBytes addr size := by
  unfold numWritableBytes
  rw [canWrite_accessed hacc, numBytesLoop_congr g' g hacc.addrMask]

lemma canWriteMemory_accessed (hacc : Accessed g.space g'.space) (addr size : Nat) :
    g'.canWriteMemory addr size = g.canWriteMemory addr size := by
  unfold canWriteMemory
  rw [numWritableBytes_accessed hacc]

lemma readMemory8_accessed (g : Guest) (a : Nat) :
    Accessed g.space (g.readMemory8 a).2.space ∧ (g.readMemory8 a).2.heap = g.heap := by
  unfold readMemory8
  dsimp only
  split <;> exact ⟨tryReadByte_accessed _ _ a, rfl⟩

lemma readMemory8_looked (g : Guest) (a : Nat) : g.Looked (g.readMemory8 a).2 := by
  obtain ⟨hacc, hheap⟩ := readMemory8_accessed g a
  have hu : Updates g.heap g.space (g.readMemory8 a).2.heap (g.readMemory8 a).2.space g.mem := by
    rw [hheap]
    exact Updates.lookup _ hacc
  have hmem : (g.readMemory8 a).2.mem = g.mem := hu.view
  exact ⟨hmem ▸ hu, fun x => .inl (congrFun hmem x)⟩

lemma copyFromLoop_looked (g : Guest) (addr count i : Nat) :
    g.Looked (copyFromLoop addr count i g).2 := by
  induction count generalizing g i with
  | zero => exact Wrote.refl g _
  | succ count ih =>
  exact (readMemory8_looked g (g.addrT (addr + i))).trans (ih _ (i + 1))

lemma writeMemory8_wrote (cfg : Config) (hg : g.WF) (a : Nat) (val : UInt8)
    (hS : S (g.addrT a) val) : ∃ g', g.writeMemory8 cfg a val = some g' ∧ g.Wrote g' S := by
  obtain ⟨ok, s', h', v, hr, hu, hv⟩ := tryWriteByte_updates cfg hg.heap hg.space a val
  have hwrote (task : Option Task) : g.Wrote ⟨task, s', h'⟩ S := by
    have hmem : Guest.mem ⟨task, s', h'⟩ = v := hu.view
    refine ⟨hmem ▸ hu, fun x => ?_⟩
    rw [hmem]
    rcases hv with rfl | rfl
    · exact .inl rfl
    by_cases hx : x = g.addrT a
    · rw [hx]
      exact .inr ⟨val, hS, Function.update_self ..⟩
    · exact .inl (Function.update_of_ne hx _ _)
  unfold writeMemory8
  rw [hr]
  cases ok with
  | true => exact ⟨_, rfl, hwrote _⟩
  | false => exact ⟨_, rfl, hwrote _⟩

lemma copyToLoop_wrote (cfg : Config) (hg : g.WF) (addr : Nat) (vals : List UInt8) (i : Nat)
    (hS : ∀ k val, vals[k]? = some val → S (g.addrT (addr + (i + k))) val) :
    ∃ g', copyToLoop cfg addr vals i g = some g' ∧ g.Wrote g' S := by
  induction vals generalizing g i with
  | nil => exact ⟨g, rfl, Wrote.refl g S⟩
  | cons val vals ih =>
  have hfirst : S (g.addrT (g.addrT (addr + i))) val := by
    rw [show g.addrT (g.addrT (addr + i)) = g.addrT (addr + i) from mask_mask g.space _]
    exact hS 0 val rfl
  obtain ⟨g1, hwrite, hw⟩ := writeMemory8_wrote cfg hg (g.addrT (addr + i)) val hfirst
  obtain ⟨g', hrest, hw'⟩ := ih (hw.wf hg) (i + 1) fun k val hk => by
    rw [hw.addrT, Nat.add_right_comm i 1 k]
    exact hS (k + 1) val hk
  simp only [copyToLoop, hwrite]
  exact ⟨g', hrest, hw.trans hw'⟩

/-- A copy stores its bytes at most, each at its place. -/
lemma copyToMemory_wrote (cfg : Config) (hg : g.WF) (addr : Nat) (data : List UInt8)
    (hS : ∀ k val, data[k]? = some val → S (g.addrT (addr + k)) val) :
    ∃ g', g.copyToMemory cfg addr data = some g' ∧ g.Wrote g' S :=
  copyToLoop_wrote cfg hg addr data 0 fun k val hk => by
    rw [Nat.zero_add]
    exact hS k val hk

end Guest

end Vmill
