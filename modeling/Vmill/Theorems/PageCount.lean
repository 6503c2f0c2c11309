import Vmill.Logic.World

/-!
# How many pages an access visits

If the end of the access is in the last page of the 64-bit space, the page counter wraps around
before it gets to the end, and `TryRead` goes on with page zero, unless a byte in front of that page
has stopped it.
-/

namespace Vmill

open Base

namespace AddressSpace

variable {h : Heap} {s : AddressSpace} {fuel page addr endAddr : Nat}

/-- The sized read returns after visiting at most `pages` pages. -/
def ReadsWithin (h : Heap) (s : AddressSpace) (addr size pages : Nat) : Prop :=
  ∃ r, tryReadLoop h (pages + 1) s (alignDownToPage (addr &&& s.addrMask)) (addr &&& s.addrMask)
    (wrap64 ((addr &&& s.addrMask) + size)) = some r

/-- The sized write returns after visiting at most `pages` pages. -/
def WritesWithin (cfg : Config) (h : Heap) (s : AddressSpace) (addr : Nat) (vals : List UInt8)
    (pages : Nat) : Prop :=
  ∃ r, tryWriteLoop cfg (pages + 1) s h (alignDownToPage (addr &&& s.addrMask))
    (addr &&& s.addrMask) (wrap64 ((addr &&& s.addrMask) + vals.length)) vals = some r

lemma end_le_pages {a : Nat} (ha : a < 2 ^ 64) (size : Nat) :
    wrap64 (a + size) ≤ alignDownToPage a + (size / 4096 + 2) * 4096 := by
  have hwrap : wrap64 (a + size) ≤ a + size := Nat.mod_le _ _
  have hlt := lt_alignDownToPage_add ha
  omega

lemma writesWithin {cfg : Config} (hwf : h.WF) (hs : s.WF h) (addr : Nat) (vals : List UInt8) :
    WritesWithin cfg h s addr vals (vals.length / 4096 + 2) := by
  have halt := mask_lt hs addr
  have hlast := hs.lastPage (2 ^ 64 - 4096) le_rfl
  unfold WritesWithin
  generalize addr &&& s.addrMask = a at halt ⊢
  have hle := alignDownToPage_le a
  have hwrap : wrap64 (a + vals.length) ≤ a + vals.length := Nat.mod_le _ _
  have hend := wrap64_lt (a + vals.length)
  obtain ⟨r, hflat⟩ : ∃ r, Flat.writeLoop s.pageIsWritable (vals.length / 4096 + 2 + 1) (view h s)
      (alignDownToPage a) a (wrap64 (a + vals.length)) vals = some r :=
    Flat.writeLoop_isSome hlast (alignDownToPage_mod a) (by omega) (end_le_pages halt vals.length)
  have hagrees : Agrees h s _ (some r) := hflat ▸ tryWriteLoop_agrees cfg hwf hs
    (alignDownToPage_mod a) (show min (alignDownToPage a) (wrap64 (a + vals.length)) ≤ a by omega)
    (show wrap64 (a + vals.length) - a ≤ vals.length by omega)
  rcases hagrees with ⟨_, hnone⟩ | ⟨ok, s', h', v, hrun, _⟩
  · cases hnone
  · exact ⟨_, hrun⟩

lemma readsWithin_iff (hs : s.WF h) (addr size : Nat) :
    ReadsWithin h s addr size (size / 4096 + 2) ↔
      wrap64 ((addr &&& s.addrMask) + size) ≤ 2 ^ 64 - 4096 ∨ FrontFails h s addr := by
  have halt := mask_lt hs addr
  have hpages := end_le_pages halt size
  unfold ReadsWithin
  by_cases hend : wrap64 ((addr &&& s.addrMask) + size) ≤ 2 ^ 64 - 4096
  · exact ⟨fun _ => .inl hend, fun _ => tryReadLoop_isSome hend (alignDownToPage_mod _) hpages⟩
  · rw [tryReadLoop_last_iff hs (by omega) (by omega), or_iff_right hend]

end AddressSpace

open AddressSpace

/-- **Pages visited.** In every reachable address space of a 64-bit guest the sized `TryWrite` of
`size` bytes returns after visiting at most `size / 4096 + 2` pages; and so does the sized
`TryRead`, exactly if the access does not end inside the last page, or fails in front of it. The
latter holds whenever a byte in front of the last page is not mapped. -/
theorem access_pages_iff {cfg : Config} {w : World} (hw : World.Reachable cfg w) {i : Nat}
    {s : AddressSpace} (hi : w.spaces[i]? = some s) (hmask : s.addrMask = 2 ^ 64 - 1)
    (addr size : Nat) :
    (∀ vals : List UInt8, vals.length = size →
      WritesWithin cfg w.heap s addr vals (size / 4096 + 2)) ∧
    (ReadsWithin w.heap s addr size (size / 4096 + 2) ↔
      wrap64 (addr + size) ≤ 2 ^ 64 - 4096 ∨ FrontFails w.heap s addr) ∧
    ((∃ x, addr % 2 ^ 64 ≤ x ∧ x < 2 ^ 64 - 4096 ∧ view w.heap s x = none) →
      FrontFails w.heap s addr) := by
  have hwf := hw.wf.heap
  have hs := hw.wf.space i s hi
  have haddr : addr &&& s.addrMask = addr % 2 ^ 64 := by
    rw [hmask, Nat.and_two_pow_sub_one_eq_mod]
  have hend : wrap64 ((addr &&& s.addrMask) + size) = wrap64 (addr + size) := by
    rw [haddr]
    exact Nat.mod_add_mod _ _ _
  refine ⟨fun vals hlen => ?_, ?_, fun ⟨x, hx, hlt, hno⟩ => ?_⟩
  · rw [← hlen]
    exact writesWithin hwf hs addr vals
  · rw [← hend]
    exact readsWithin_iff hs addr size
  · exact frontFails_of_unmapped hwf hs (haddr ▸ hx) hlt hno

/-- A read of sixteen bytes visits at most two pages, and so does one of ten bytes that ends in the
last page behind an unmapped one. -/
theorem access_pages_sixteen :
    ∃ w s, World.Reachable (amd64 false) w ∧ w.spaces[0]? = some s ∧
      WritesWithin (amd64 false) w.heap s 0x1ff8 (List.replicate 16 7) 2 ∧
      ReadsWithin w.heap s 0x1ff8 16 2 ∧ ReadsWithin w.heap s (2 ^ 64 - 4100) 10 2 := by
  obtain ⟨w, s, hw, hi, hmask, hno⟩ := World.reachable_eval (amd64 false)
    [.new, .addMap 0 0x1000 0x2000 none 0]
    (fun w s => s.addrMask = 2 ^ 64 - 1 ∧ view w.heap s (2 ^ 64 - 4100) = none)
    (by decide +kernel)
  obtain ⟨hwrites, hreads, _⟩ := access_pages_iff hw hi hmask 0x1ff8 16
  obtain ⟨_, hlast, hfront⟩ := access_pages_iff hw hi hmask (2 ^ 64 - 4100) 10
  exact ⟨w, s, hw, hi, hwrites _ rfl, hreads.mpr (.inl (by decide)),
    hlast.mpr (.inr (hfront ⟨2 ^ 64 - 4100, by decide, by decide, hno⟩))⟩

/-- The ten bytes of an 80-bit float eleven bytes in front of the end of the address space: the
read does not return, however many pages it visits. -/
theorem read_pages_endless :
    ∃ w s, World.Reachable (amd64 false) w ∧ w.spaces[0]? = some s ∧ s.addrMask = 2 ^ 64 - 1 ∧
      (∀ pages, ¬ ReadsWithin w.heap s (2 ^ 64 - 11) 10 pages) ∧
      s.tryRead w.heap (2 ^ 64 - 11) 10 = none := by
  obtain ⟨w, s, hw, hi, hmask⟩ := World.reachable_eval (amd64 false) [.new]
    (fun _ s => s.addrMask = 2 ^ 64 - 1) (by decide +kernel)
  have ha : (2 ^ 64 - 11) &&& s.addrMask = 2 ^ 64 - 11 := by
    rw [hmask]
    decide
  have hnone : ∀ fuel, tryReadLoop w.heap fuel s (alignDownToPage (2 ^ 64 - 11)) (2 ^ 64 - 11)
      (wrap64 (2 ^ 64 - 11 + 10)) = none := fun fuel =>
    tryReadLoop_endless (by decide) (by decide) (by decide) (by decide)
  refine ⟨w, s, hw, hi, hmask, fun pages hwithin => ?_, ?_⟩
  · obtain ⟨r, hr⟩ := hwithin
    rw [ha, hnone] at hr
    cases hr
  · simp only [tryRead, ha, hnone]

end Vmill
