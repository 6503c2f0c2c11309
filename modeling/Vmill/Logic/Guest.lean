import Vmill.Runtime.Memory
import Vmill.Logic.Access

/-!
# Byte accesses and copies

A copy of mapped bytes of accessible pages leaves the task alone.
-/

namespace Vmill

open Base AddressSpace

namespace AddressSpace

variable {h : Heap} {s : AddressSpace} {addr : Nat}

lemma tryReadByte_of_accessible (hwf : h.WF) (hs : s.WF h) (haddr : addr ≤ s.addrMask)
    (hacc : s.accessible (alignDownToPage addr) = true) {b : UInt8} (hb : view h s addr = some b) :
    ∃ s', s.tryReadByte h addr = (true, b, s') ∧ Accessed s s' := by
  have hmask := mask_of_le hs haddr
  have hread : readable h s addr = some b := by
    unfold readable
    rw [if_pos hacc, hb]
  have hx := lookupExact_of_accessible hwf hs (alignDownToPage_mod addr) hacc
  obtain ⟨hok, hval⟩ := tryReadByte_eq hwf hs addr (by rwa [hmask])
  rw [hmask, hread] at hok hval
  exact ⟨_, Prod.ext hok (Prod.ext hval rfl), tryReadByte_accessed _ _ addr⟩

lemma tryWriteByte_of_writable (cfg : Config) (hwf : h.WF) (hs : s.WF h)
    (haddr : addr ≤ s.addrMask) (hw : s.canWriteAligned (alignDownToPage addr) = true)
    (hv : (view h s addr).isSome = true) (val : UInt8) :
    ∃ s' h', s.tryWriteByte cfg h addr val = some (true, s', h') ∧
      Updates h s h' s' (Function.update (view h s) addr (some val)) := by
  have hmask := mask_of_le hs haddr
  have halt : addr < 2 ^ 64 := hmask ▸ mask_lt hs addr
  have hpage := lt_alignDownToPage_add halt
  obtain ⟨p, ho⟩ := exists_owner hwf hs hv
  have hend := ((owns_page_iff hs (alignDownToPage_mod addr) (alignDownToPage_le addr)
    hpage).mp ho).page_le hs (alignDownToPage_mod addr)
  have hflat : Flat.tryWrite s.pageIsWritable (view h s) addr [val] =
      some (true, overwrite (view h s) addr [some val]) :=
    Flat.tryWrite_onePage (by simp) hw hv (by rw [List.length_singleton]; omega) hend
  have hag := tryWriteValue_agrees (.byte val) cfg hwf hs addr fun _ _ => by rw [hmask]; exact hw
  rw [hmask] at hag
  rcases hag with ⟨_, hnone⟩ | ⟨ok, s', h', v, hr, hf, hu⟩
  · exact absurd (hflat.symm.trans hnone) (by simp)
  obtain ⟨rfl, rfl⟩ := Prod.mk.inj (Option.mem_unique hf hflat)
  refine ⟨s', h', hr, ?_⟩
  rwa [overwrite_cons, overwrite_nil] at hu

end AddressSpace

namespace Guest

variable {g : Guest} {addr i : Nat}

/-- The bytes `lo` to `hi` of a buffer are in the space, permitted and mapped. -/
@[mk_iff]
structure Copyable (g : Guest) (can : Nat → Bool) (addr lo hi : Nat) : Prop where
  fits : ∀ k, lo ≤ k → k < hi → addr + k ≤ g.space.addrMask
  can : ∀ k, lo ≤ k → k < hi → can (alignDownToPage (addr + k)) = true
  mapped : ∀ k, lo ≤ k → k < hi → (view g.heap g.space (addr + k)).isSome = true

lemma addrT_of_le (hs : g.space.WF g.heap) {n : Nat} (hn : n ≤ g.space.addrMask) :
    g.addrT n = n := mask_of_le hs hn

lemma copyFromLoop_length (g : Guest) (addr count i : Nat) :
    (copyFromLoop addr count i g).1.length = count := by
  induction count generalizing g i with
  | zero => rfl
  | succ count ih => simp only [copyFromLoop, List.length_cons, ih]

/-- The bytes read one by one are the memory's. -/
lemma copyFromLoop_spec (hwf : g.heap.WF) (hs : g.space.WF g.heap) {count : Nat}
    (hc : g.Copyable g.space.accessible addr i (i + count)) :
    (copyFromLoop addr count i g).2.task = g.task ∧
      (copyFromLoop addr count i g).2.heap = g.heap ∧
      Accessed g.space (copyFromLoop addr count i g).2.space ∧
      (copyFromLoop addr count i g).1.map some =
        (List.range' i count).map (fun k => view g.heap g.space (addr + k)) := by
  induction count generalizing g i with
  | zero => exact ⟨rfl, rfl, Accessed.refl _, rfl⟩
  | succ count ih =>
  have hfits := hc.fits i le_rfl (by omega)
  obtain ⟨b, hb⟩ := Option.isSome_iff_exists.mp (hc.mapped i le_rfl (by omega))
  obtain ⟨s', hrun, ha⟩ := tryReadByte_of_accessible hwf hs hfits
    (hc.can i le_rfl (by omega)) hb
  have hread : g.readMemory8 (g.addrT (addr + i)) = (b, { g with space := s' }) := by
    unfold readMemory8
    rw [addrT_of_le hs hfits, hrun]
    rfl
  have hc' : Copyable { g with space := s' } s'.accessible addr (i + 1) (i + 1 + count) :=
    { fits := fun k h1 h2 => by
        rw [ha.addrMask]
        exact hc.fits k (by omega) (by omega)
      can := fun k h1 h2 => by
        rw [ha.accessible]
        exact hc.can k (by omega) (by omega)
      mapped := fun k h1 h2 => by
        rw [ha.view]
        exact hc.mapped k (by omega) (by omega) }
  obtain ⟨htask, hheap, hacc, hvals⟩ := ih (g := { g with space := s' }) hwf (hs.accessed ha) hc'
  simp only [copyFromLoop, hread]
  refine ⟨htask, hheap, ha.trans hacc, ?_⟩
  rw [List.map_cons, hvals, List.range'_succ, List.map_cons, hb, ha.view]

/-- Bytes stored one by one overwrite the memory. -/
lemma copyToLoop_spec (cfg : Config) (hwf : g.heap.WF) (hs : g.space.WF g.heap)
    {vals : List UInt8} (hc : g.Copyable g.space.canWriteAligned addr i (i + vals.length)) :
    ∃ g', copyToLoop cfg addr vals i g = some g' ∧ g'.task = g.task ∧
      Updates g.heap g.space g'.heap g'.space
        (overwrite (view g.heap g.space) (addr + i) (vals.map some)) := by
  induction vals generalizing g i with
  | nil =>
    refine ⟨g, rfl, rfl, ?_⟩
    rw [List.map_nil, overwrite_nil]
    exact Updates.refl _ _
  | cons val vals ih =>
  rw [List.length_cons] at hc
  have hfits := hc.fits i le_rfl (by omega)
  obtain ⟨s', h', hrun, hu⟩ := tryWriteByte_of_writable cfg hwf hs hfits
    (hc.can i le_rfl (by omega)) (hc.mapped i le_rfl (by omega)) val
  have hwrite : g.writeMemory8 cfg (g.addrT (addr + i)) val =
      some { g with space := s', heap := h' } := by
    unfold writeMemory8
    rw [addrT_of_le hs hfits, hrun]
  have hc' : Copyable { g with space := s', heap := h' } s'.canWriteAligned addr (i + 1)
      (i + 1 + vals.length) :=
    { fits := fun k h1 h2 => by
        rw [hu.accessed.addrMask]
        exact hc.fits k (by omega) (by omega)
      can := fun k h1 h2 => by
        unfold canWriteAligned
        rw [hu.accessed.canWrite]
        exact hc.can k (by omega) (by omega)
      mapped := fun k h1 h2 => by
        rw [hu.view, Function.update_of_ne (by omega)]
        exact hc.mapped k (by omega) (by omega) }
  obtain ⟨g', hrest, htask, hu'⟩ := ih (g := { g with space := s', heap := h' })
    (hu.heapWF hwf) (hu.wf hs) hc'
  refine ⟨g', ?_, htask, ?_⟩
  · simp only [copyToLoop, hwrite]
    exact hrest
  rw [List.map_cons, overwrite_cons]
  rw [hu.view] at hu'
  exact hu.trans hu'

end Guest

end Vmill
