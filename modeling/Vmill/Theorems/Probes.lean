import Vmill.Logic.Buffer
import Vmill.Logic.World

/-!
# Probing guest buffers

Three things are missed:

* a buffer that does not start on a page boundary can have one more page than probes;
* a 32-bit guest's page boundary is that of the wrapped address, but the distance has 64 bits;
* the counter is an `addr_t`, and goes around if nothing stops it.
-/

namespace Vmill

open Base AddressSpace

/-- `n` is the length of the longest prefix of the first `size` numbers on which `ok`
holds. -/
structure LongestPrefix (ok : Nat → Prop) (size n : Nat) : Prop where
  le : n ≤ size
  all : ∀ k, k < n → ok k
  stops : n < size → ¬ ok n

lemma LongestPrefix.unique {ok : Nat → Prop} {size n m : Nat} (hn : LongestPrefix ok size n)
    (hm : LongestPrefix ok size m) : n = m := by
  rcases Nat.lt_trichotomy n m with hlt | heq | hgt
  · exact absurd (hm.all n hlt) (hn.stops (hlt.trans_le hm.le))
  · exact heq
  · exact absurd (hn.all m hgt) (hm.stops (hgt.trans_le hn.le))

namespace Guest

variable {g : Guest} {can perms : Nat → Bool} {addr : Nat}

/-- The probes of a buffer tell how much of it is accessible: one that spans the whole address space
has an inaccessible byte; if every probe passes, so does the last byte; and for a 32-bit guest the
first probe that fails is in front of the end of the address space. -/
structure ProbesTell (g : Guest) (can : Nat → Bool) (addr size : Nat) : Prop where
  ends : g.space.addrMask + 1 < size + 4096 → ∃ k, ¬ g.ByteOk can addr k
  last : (∀ i < size, i % 4096 = 0 → g.ByteOk can addr i) → ∀ k, k + 1 = size →
    g.ByteOk can addr k
  below : g.space.addrMask = 2 ^ 32 - 1 → ∀ i < size, i % 4096 = 0 →
    g.space.addrMask < addr + i → (∀ j < i, j % 4096 = 0 → g.ByteOk can addr j) →
      g.ByteOk can addr i

section Pages

variable {size j : Nat}

lemma byteOk_eq (hmask : g.MaskOk)
    (hcan : ∀ a, can a = perms (alignDownToPage (g.addrT a))) (k : Nat) :
    g.ByteOk can addr k ↔ perms ((addr + k) % (g.space.addrMask + 1) / 4096 * 4096) = true := by
  have hpage : alignDownToPage (g.addrT (g.addrT (addr + k))) =
      (addr + k) % (g.space.addrMask + 1) / 4096 * 4096 := by
    rw [alignDownToPage_eq, addrT_eq_mod hmask, addrT_eq_mod hmask]
    rcases hmask with hm | hm <;> rw [hm] <;> omega
  unfold ByteOk
  rw [hcan, hpage]

lemma byteOk_congr (hmask : g.MaskOk)
    (hcan : ∀ a, can a = perms (alignDownToPage (g.addrT a))) {k : Nat}
    (hjk : (addr + j) / 4096 = (addr + k) / 4096) : g.ByteOk can addr j ↔ g.ByteOk can addr k := by
  have hpage : (addr + j) % (g.space.addrMask + 1) / 4096 =
      (addr + k) % (g.space.addrMask + 1) / 4096 := by
    rcases hmask with hm | hm <;> rw [hm] <;> omega
  rw [byteOk_eq hmask hcan, byteOk_eq hmask hcan, hpage]

lemma byteOk_probe (hmask : g.MaskOk)
    (hcan : ∀ a, can a = perms (alignDownToPage (g.addrT a))) (k : Nat) :
    g.ByteOk can addr k ↔ g.ByteOk can addr (((addr + k) / 4096 - addr / 4096) * 4096) :=
  byteOk_congr hmask hcan (by omega)

lemma longestPrefix_of_fails
    (hmask : g.MaskOk)
    (hcan : ∀ a, can a = perms (alignDownToPage (g.addrT a))) (hj : j % 4096 = 0) (hsize : j < size)
    (hfail : ¬ g.ByteOk can addr j) (hpass : ∀ k < j, k % 4096 = 0 → g.ByteOk can addr k) :
    LongestPrefix (g.ByteOk can addr) size ((addr + j) / 4096 * 4096 - addr) where
  le := by omega
  all k hk := (byteOk_probe hmask hcan k).mpr (hpass _ (by omega) (by omega))
  stops _ hok := hfail ((byteOk_congr hmask hcan (by omega)).mp hok)

lemma byteOk_of_all (hmask : g.MaskOk)
    (hcan : ∀ a, can a = perms (alignDownToPage (g.addrT a)))
    (hpass : ∀ k ≤ g.space.addrMask, k % 4096 = 0 → g.ByteOk can addr k) (k : Nat) :
    g.ByteOk can addr k := by
  -- the probe of the page of byte `k`, before and after the counter wraps
  obtain ⟨m, hm4, hm⟩ : ∃ m, m % 4096 = 0 ∧ (g.ByteOk can addr k ↔ g.ByteOk can addr m) :=
    ⟨_, Nat.mul_mod_left _ _, byteOk_probe hmask hcan k⟩
  have hwrap : (addr + m) % (g.space.addrMask + 1) =
      (addr + m % (g.space.addrMask + 1)) % (g.space.addrMask + 1) := by simp
  rw [hm, byteOk_eq hmask hcan, hwrap, ← byteOk_eq hmask hcan]
  refine hpass _ (Nat.le_of_lt_succ (Nat.mod_lt _ (Nat.succ_pos _))) ?_
  rcases hmask with hmask | hmask <;> rw [hmask] <;> omega

lemma byteOk_of_last (hmask : g.MaskOk)
    (hcan : ∀ a, can a = perms (alignDownToPage (g.addrT a)))
    (hpass : ∀ k < size, k % 4096 = 0 → g.ByteOk can addr k)
    (hlast : ∀ k, k + 1 = size → g.ByteOk can addr k) (k : Nat) (hk : k < size) :
    g.ByteOk can addr k := by
  by_cases hprobed : ((addr + k) / 4096 - addr / 4096) * 4096 < size
  · exact (byteOk_probe hmask hcan k).mpr (hpass _ hprobed (Nat.mul_mod_left _ _))
  · exact (byteOk_congr hmask hcan (k := size - 1) (by omega)).mpr (hlast _ (by omega))

lemma sub64_boundary (hmask : g.MaskOk)
    (haddr : addr ≤ g.space.addrMask) (hj : j ≤ g.space.addrMask) (hpos : 4096 ≤ j) :
    sub64 (alignDownToPage (g.addrT (addr + j))) addr =
      if g.space.addrMask = 2 ^ 32 - 1 ∧ g.space.addrMask < addr + j then
        (addr + j) / 4096 * 4096 - addr + 2 ^ 64 - 2 ^ 32
      else (addr + j) / 4096 * 4096 - addr := by
  rw [addrT_eq_mod hmask, alignDownToPage_eq]
  unfold sub64
  rcases hmask with hm | hm <;> rw [hm] at haddr hj ⊢ <;> split <;> omega

lemma prefix_iff_of_fails (hmask : g.MaskOk)
    (hcan : ∀ a, can a = perms (alignDownToPage (g.addrT a))) (haddr : addr ≤ g.space.addrMask)
    (hj : j % 4096 = 0) (hsize : j < size) (hspace : j ≤ g.space.addrMask)
    (hfail : ¬ g.ByteOk can addr j) (hpass : ∀ k < j, k % 4096 = 0 → g.ByteOk can addr k) :
    (∃ n, g.numBytesLoop can addr size kPageSteps 0 = some n ∧
      LongestPrefix (g.ByteOk can addr) size n) ↔
    ¬ (g.space.addrMask = 2 ^ 32 - 1 ∧ g.space.addrMask < addr + j) := by
  have hprefix := longestPrefix_of_fails hmask hcan hj hsize hfail hpass
  have hfuel : j < 0 + kPageSteps * 4096 := by
    unfold kPageSteps
    rcases hmask with hm | hm <;> rw [hm] at hspace <;> omega
  rw [numBytesLoop_fails hmask (Nat.zero_le _) rfl hj hsize hspace hfail hpass hfuel]
  constructor
  · rintro ⟨n, hn, hlong⟩ hwrap
    have hpos : j ≠ 0 := by omega
    have heq := hlong.unique hprefix
    rw [if_pos hpos, sub64_boundary hmask haddr hspace (by omega), if_pos hwrap] at hn
    have := Option.some.inj hn
    omega
  intro hwrap
  refine ⟨_, rfl, ?_⟩
  by_cases hzero : j = 0
  · subst hzero
    have hstart : (addr + 0) / 4096 * 4096 - addr = 0 := by omega
    rwa [hstart] at hprefix
  · rwa [if_pos hzero, sub64_boundary hmask haddr hspace (by omega), if_neg hwrap]

lemma numBytesLoop_longest (hmask : g.MaskOk)
    (hcan : ∀ a, can a = perms (alignDownToPage (g.addrT a))) (haddr : addr ≤ g.space.addrMask)
    (hsize : size < 2 ^ 64) :
    (∃ n, g.numBytesLoop can addr size kPageSteps 0 = some n ∧
      LongestPrefix (g.ByteOk can addr) size n) ↔ g.ProbesTell can addr size := by
  classical
  by_cases hfail : ∃ j, j % 4096 = 0 ∧ ¬ g.ByteOk can addr j ∧ j < size ∧ j ≤ g.space.addrMask
  · -- the first probe that fails
    obtain ⟨hj, hnot, hlt, hspace⟩ := Nat.find_spec hfail
    have hpass : ∀ k < Nat.find hfail, k % 4096 = 0 → g.ByteOk can addr k := by
      intro k hk hk4
      by_contra hno
      exact Nat.find_min hfail hk ⟨hk4, hno, by omega, by omega⟩
    rw [prefix_iff_of_fails hmask hcan haddr hj hlt hspace hnot hpass]
    constructor
    · intro hwrap
      refine ⟨fun _ => ⟨_, hnot⟩,
        fun hall => absurd (hall _ hlt hj) hnot, fun h32 i hi hi4 hbeyond hbefore => ?_⟩
      by_contra hno
      rcases Nat.lt_or_ge (Nat.find hfail) i with hji | hij
      · exact hnot (hbefore _ hji hj)
      · exact hwrap ⟨h32, by omega⟩
    rintro htell ⟨h32, hbeyond⟩
    exact hnot (htell.below h32 _ hlt hj hbeyond hpass)
  have hpass : ∀ k < size, k ≤ g.space.addrMask → k % 4096 = 0 → g.ByteOk can addr k := by
    intro k hk hkm hk4
    by_contra hno
    exact hfail ⟨k, hk4, hno, hk, hkm⟩
  by_cases hlong : g.space.addrMask + 1 < size + 4096
  · -- every page of the address space passes
    have hall : ∀ k, g.ByteOk can addr k := byteOk_of_all hmask hcan fun k hk hk4 =>
      hpass k (by rcases hmask with hm | hm <;> rw [hm] at hk hlong <;> omega) hk hk4
    rw [numBytesLoop_diverges hmask rfl (Nat.zero_le _) hlong hall]
    constructor
    · rintro ⟨n, hn, _⟩
      simp at hn
    intro htell
    obtain ⟨k, hk⟩ := htell.ends hlong
    exact absurd (hall k) hk
  have hprobes : ∀ k < size, k % 4096 = 0 → g.ByteOk can addr k :=
    fun k hk hk4 => hpass k hk (by omega) hk4
  have hroom : size + 4096 ≤ g.space.addrMask + 1 := by omega
  have hpos : 0 < size + 4096 := by omega
  have hfuel : size + 4096 ≤ 0 + kPageSteps * 4096 := by
    unfold kPageSteps
    omega
  rw [numBytesLoop_passes hmask rfl hroom hpos hprobes hfuel]
  constructor
  · rintro ⟨n, hn, hpre⟩
    cases hn
    exact ⟨fun h => absurd h hlong, fun _ k hk => hpre.all k (by omega),
      fun _ i hi hi4 _ _ => hprobes i hi hi4⟩
  intro htell
  exact ⟨size, rfl, le_rfl, byteOk_of_last hmask hcan hprobes (htell.last hprobes),
    fun h => absurd h (Nat.lt_irrefl _)⟩

end Pages

lemma perms_of_byteOk (hmask : g.MaskOk)
    (hcan : ∀ a, can a = perms (alignDownToPage (g.addrT a))) {k : Nat}
    (hfits : addr + k ≤ g.space.addrMask) (hok : g.ByteOk can addr k) :
    perms (alignDownToPage (addr + k)) = true := by
  have hself : g.addrT (addr + k) = addr + k := by
    rw [addrT_eq_mod hmask]
    exact Nat.mod_eq_of_lt (by omega)
  unfold ByteOk at hok
  rwa [hcan, hself, hself] at hok

lemma byteOk_of_checked (hmask : g.MaskOk)
    (hcan : ∀ a, can a = perms (alignDownToPage (g.addrT a))) {size : Nat}
    (haddr : addr ≤ g.space.addrMask) (hsize : size < 2 ^ 64) (htell : g.ProbesTell can addr size)
    (hchecked : (g.numBytesLoop can addr size kPageSteps 0).map (fun n => decide (size = n)) = some
      true) (k : Nat) (hk : k < size) : g.ByteOk can addr k := by
  obtain ⟨n, hn, hprefix⟩ := (numBytesLoop_longest hmask hcan haddr hsize).mpr htell
  rw [hn, Option.map_some] at hchecked
  obtain rfl : size = n := of_decide_eq_true (Option.some.inj hchecked)
  exact hprefix.all k hk

/-- The buffer is in the address space, and every byte of it is in a valid range. -/
structure MappedBuffer (g : Guest) (addr size : Nat) : Prop where
  fits : addr + size ≤ g.space.addrMask + 1
  mapped : ∀ k < size, (view g.heap g.space (addr + k)).isSome = true

end Guest

open Guest

/-- **Probing.** `NumReadableBytes` and `NumWritableBytes` return the length of the longest
accessible prefix of the buffer exactly when the probes tell. Then a check that succeeds on a mapped
buffer makes the copy safe. -/
theorem numBytes_prefix (g : Guest)
    (hmask : g.space.addrMask = 2 ^ 32 - 1 ∨ g.space.addrMask = 2 ^ 64 - 1) {addr size : Nat}
    (haddr : addr ≤ g.space.addrMask) (hsize : size < 2 ^ 64) :
    ((∃ n, g.numReadableBytes addr size = some n ∧
        LongestPrefix (g.ByteOk g.space.canRead addr) size n) ↔
      g.ProbesTell g.space.canRead addr size) ∧
    ((∃ n, g.numWritableBytes addr size = some n ∧
        LongestPrefix (g.ByteOk g.space.canWrite addr) size n) ↔
      g.ProbesTell g.space.canWrite addr size) ∧
    ∀ (cfg : Config) (w : World) (i : Nat), World.Reachable cfg w → w.heap = g.heap →
      w.spaces[i]? = some g.space → g.MappedBuffer addr size →
      (g.ProbesTell g.space.canRead addr size → g.canReadMemory addr size = some true →
        (g.copyFromMemory addr size).2.task = g.task) ∧
      (g.ProbesTell g.space.canWrite addr size → g.canWriteMemory addr size = some true →
        ∀ data : List UInt8, data.length = size →
          ∃ g', g.copyToMemory cfg addr data = some g' ∧ g'.task = g.task) := by
  have hread : ∀ a, g.space.canRead a = g.space.canReadAligned (alignDownToPage (g.addrT a)) :=
    fun _ => rfl
  have hwrite : ∀ a, g.space.canWrite a = g.space.canWriteAligned (alignDownToPage (g.addrT a)) :=
    fun _ => rfl
  refine ⟨numBytesLoop_longest hmask hread haddr hsize,
    numBytesLoop_longest hmask hwrite haddr hsize, ?_⟩
  intro cfg w i hw hheap hi hbuf
  have hwf : g.heap.WF := hheap ▸ hw.wf.heap
  have hs : g.space.WF g.heap := hheap ▸ hw.wf.space i _ hi
  have hfits : ∀ k < size, addr + k ≤ g.space.addrMask := by
    intro k hk
    have := hbuf.fits
    omega
  constructor
  · intro htell hchecked
    have hok := byteOk_of_checked hmask hread haddr hsize htell hchecked
    have hc : g.Copyable g.space.accessible addr 0 (0 + size) :=
      { fits := fun k _ hk => hfits k (by omega)
        can := fun k _ hk => by
          unfold accessible
          rw [perms_of_byteOk hmask hread (hfits k (by omega)) (hok k (by omega))]
          rfl
        mapped := fun k _ hk => hbuf.mapped k (by omega) }
    exact (copyFromLoop_spec hwf hs hc).1
  · rintro htell hchecked data rfl
    have hok := byteOk_of_checked hmask hwrite haddr hsize htell hchecked
    have hc : g.Copyable g.space.canWriteAligned addr 0 (0 + data.length) :=
      { fits := fun k _ hk => hfits k (by omega)
        can := fun k _ hk => perms_of_byteOk hmask hwrite (hfits k (by omega)) (hok k (by omega))
        mapped := fun k _ hk => hbuf.mapped k (by omega) }
    obtain ⟨g', hrun, htask, _⟩ := copyToLoop_spec cfg hwf hs hc
    exact ⟨g', hrun, htask⟩

/-- Two bytes across a page boundary, on mapped pages that may be accessed. -/
theorem numBytes_prefix_across_pages :
    ∃ (w : World) (s : AddressSpace), World.Reachable (amd64 false) w ∧ w.spaces[0]? = some s ∧
      let g : Guest := { task := some (Task.init 0), space := s, heap := w.heap }
      (∃ n, g.numReadableBytes 0x1fff 2 = some n ∧
        LongestPrefix (g.ByteOk g.space.canRead 0x1fff) 2 n) ∧
      (g.copyFromMemory 0x1fff 2).2.task = g.task ∧
      ∃ g', g.copyToMemory (amd64 false) 0x1fff [1, 2] = some g' ∧ g'.task = g.task := by
  obtain ⟨w, s, hw, hi, hm, ⟨hr, hwr⟩, ⟨hv0, hv1⟩, hcr, hcw⟩ :=
    World.reachable_eval (amd64 false) [.new, .addMap 0 0x1000 0x2000 none 0]
      (fun w s => s.addrMask = 2 ^ 64 - 1 ∧
        (s.canRead 0x2000 = true ∧ s.canWrite 0x2000 = true) ∧
        ((view w.heap s 0x1fff).isSome = true ∧ (view w.heap s 0x2000).isSome = true) ∧
        canReadMemory { task := some (Task.init 0), space := s, heap := w.heap } 0x1fff 2 =
          some true ∧
        canWriteMemory { task := some (Task.init 0), space := s, heap := w.heap } 0x1fff 2 =
          some true)
      (by decide +kernel)
  let g : Guest := { task := some (Task.init 0), space := s, heap := w.heap }
  have hgm : g.space.addrMask = 2 ^ 64 - 1 := hm
  have htell : ∀ can : Nat → Bool, can 0x2000 = true → g.ProbesTell can 0x1fff 2 := by
    intro can hcan
    refine ⟨fun h => absurd h (by rw [hgm]; decide), fun _ k hk => ?_,
      fun h => absurd (hgm.symm.trans h) (by decide)⟩
    obtain rfl : k = 1 := by omega
    unfold ByteOk addrT
    rwa [hgm]
  have hbuf : g.MappedBuffer 0x1fff 2 := by
    refine ⟨by rw [hgm]; decide, fun k hk => ?_⟩
    rcases (show k = 0 ∨ k = 1 by omega) with rfl | rfl
    · exact hv0
    · exact hv1
  have haddr : 0x1fff ≤ g.space.addrMask := by rw [hgm]; decide
  have hsize : 2 < 2 ^ 64 := by decide
  obtain ⟨hread, _, hcopy⟩ := numBytes_prefix g (.inr hgm) haddr hsize
  obtain ⟨hfrom, hto⟩ := hcopy (amd64 false) w 0 hw rfl hi hbuf
  exact ⟨w, s, hw, hi, hread.mpr (htell _ hr), hfrom (htell _ hr) hcr,
    hto (htell _ hwr) hcw [1, 2] rfl⟩

/-- The second page may not be accessed: only the first page is probed, and the copy faults. -/
theorem last_page_not_probed :
    ∃ (w : World) (s : AddressSpace), World.Reachable (amd64 false) w ∧ w.spaces[0]? = some s ∧
      let g : Guest := { task := some (Task.init 0), space := s, heap := w.heap }
      g.MappedBuffer 0x1fff 2 ∧ g.numReadableBytes 0x1fff 2 = some 2 ∧
      ¬ LongestPrefix (g.ByteOk g.space.canRead 0x1fff) 2 2 ∧
      g.canReadMemory 0x1fff 2 = some true ∧
      (g.copyFromMemory 0x1fff 2).2.task.map (·.memAccessFault) =
        some { address := 0x2000, accessSize := 1, kind := .onRead, valueType := .integer } := by
  obtain ⟨w, s, hw, hi, hm, hr, ⟨hv0, hv1⟩, hn, hcr, hfault⟩ :=
    World.reachable_eval (amd64 false)
      [.new, .addMap 0 0x1000 0x1000 none 0, .addMap 0 0x2000 0x1000 none 0,
        .setPermissions 0 0x2000 0x1000 false false false]
      (fun w s => s.addrMask = 2 ^ 64 - 1 ∧ s.canRead 0x2000 = false ∧
        ((view w.heap s 0x1fff).isSome = true ∧ (view w.heap s 0x2000).isSome = true) ∧
        numReadableBytes { task := some (Task.init 0), space := s, heap := w.heap } 0x1fff 2 =
          some 2 ∧
        canReadMemory { task := some (Task.init 0), space := s, heap := w.heap } 0x1fff 2 =
          some true ∧
        (copyFromMemory { task := some (Task.init 0), space := s, heap := w.heap }
          0x1fff 2).2.task.map (·.memAccessFault) =
            some { address := 0x2000, accessSize := 1, kind := .onRead, valueType := .integer })
      (by decide +kernel)
  refine ⟨w, s, hw, hi, ⟨by rw [hm]; decide, fun k hk => ?_⟩, hn, ?_,
    hcr, hfault⟩
  · rcases (show k = 0 ∨ k = 1 by omega) with rfl | rfl
    · exact hv0
    · exact hv1
  · intro hprefix
    have hlast := hprefix.all 1 (by decide)
    unfold ByteOk addrT at hlast
    rw [hm] at hlast
    exact absurd (hr.symm.trans hlast) (by decide)

end Vmill
