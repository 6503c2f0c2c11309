import Vmill.Logic.Stores

/-!
# Buffers in guest memory

A buffer whose bytes are all mapped, on pages that may be read or written, passes its check and is
copied without a fault. What the copy leaves of the memory is an equation.
-/

namespace Vmill

open Base AddressSpace

namespace Guest

variable {g g' g'' : Guest} {can : Nat → Bool} {addr : Nat}

/-- The test `can` holds of byte `k` of the buffer at `addr`. -/
def ByteOk (g : Guest) (can : Nat → Bool) (addr k : Nat) : Prop := can (g.addrT (addr + k)) = true

/-- The guest has 32-bit or 64-bit addresses. -/
abbrev MaskOk (g : Guest) : Prop :=
  g.space.addrMask = 2 ^ 32 - 1 ∨ g.space.addrMask = 2 ^ 64 - 1

section Loop

variable {size fuel i : Nat}

lemma addrT_eq_mod (hmask : g.MaskOk) (n : Nat) : g.addrT n = n % (g.space.addrMask + 1) := by
  unfold addrT
  rcases hmask with hm | hm <;> rw [hm, Nat.and_two_pow_sub_one_eq_mod] <;> rfl

lemma numBytesLoop_of_ok (hlt : i < size) (hok : g.ByteOk can addr i) :
    g.numBytesLoop can addr size (fuel + 1) i =
      g.numBytesLoop can addr size fuel (g.addrT (i + 4096)) := by
  unfold ByteOk at hok
  rw [numBytesLoop, if_pos hlt, if_pos hok]

lemma numBytesLoop_of_not_ok (hlt : i < size) (hok : ¬ g.ByteOk can addr i) :
    g.numBytesLoop can addr size (fuel + 1) i =
      some (if i ≠ 0 then sub64 (alignDownToPage (g.addrT (addr + i))) addr else 0) := by
  unfold ByteOk at hok
  rw [numBytesLoop, if_pos hlt, if_neg hok]

lemma numBytesLoop_fails (hmask : g.MaskOk)
    {j : Nat} (hij : i ≤ j) (hi : i % 4096 = 0) (hj : j % 4096 = 0) (hsize : j < size)
    (hspace : j ≤ g.space.addrMask) (hfail : ¬ g.ByteOk can addr j)
    (hpass : ∀ k < j, k % 4096 = 0 → g.ByteOk can addr k) (hfuel : j < i + fuel * 4096) :
    g.numBytesLoop can addr size fuel i =
      some (if j ≠ 0 then sub64 (alignDownToPage (g.addrT (addr + j))) addr else 0) := by
  induction fuel generalizing i with
  | zero => omega
  | succ fuel ih =>
  rcases Nat.eq_or_lt_of_le hij with rfl | hlt
  · exact numBytesLoop_of_not_ok hsize hfail
  have hnext : g.addrT (i + 4096) = i + 4096 := by
    rw [addrT_eq_mod hmask]
    exact Nat.mod_eq_of_lt (by omega)
  rw [numBytesLoop_of_ok (by omega) (hpass i hlt hi), hnext]
  exact ih (by omega) (by omega) (by omega)

lemma numBytesLoop_passes (hmask : g.MaskOk)
    (hi : i % 4096 = 0) (hroom : size + 4096 ≤ g.space.addrMask + 1) (hle : i < size + 4096)
    (hpass : ∀ k < size, k % 4096 = 0 → g.ByteOk can addr k)
    (hfuel : size + 4096 ≤ i + fuel * 4096) : g.numBytesLoop can addr size fuel i = some size := by
  induction fuel generalizing i with
  | zero => omega
  | succ fuel ih =>
  by_cases hlt : i < size
  · have hnext : g.addrT (i + 4096) = i + 4096 := by
      rw [addrT_eq_mod hmask]
      exact Nat.mod_eq_of_lt (by omega)
    rw [numBytesLoop_of_ok hlt (hpass i hlt hi), hnext]
    exact ih (by omega) (by omega) (by omega)
  · rw [numBytesLoop, if_neg hlt, Nat.min_eq_right (by omega)]

lemma numBytesLoop_diverges
    (hmask : g.MaskOk) (hi : i % 4096 = 0)
    (hle : i ≤ g.space.addrMask) (hlong : g.space.addrMask + 1 < size + 4096)
    (hpass : ∀ k, g.ByteOk can addr k) : g.numBytesLoop can addr size fuel i = none := by
  induction fuel generalizing i with
  | zero => rfl
  | succ fuel ih =>
  have hnext : g.addrT (i + 4096) % 4096 = 0 ∧ g.addrT (i + 4096) ≤ g.space.addrMask ∧
      i < size := by
    rw [addrT_eq_mod hmask]
    rcases hmask with hm | hm <;> rw [hm] at hle hlong ⊢ <;> omega
  rw [numBytesLoop_of_ok hnext.2.2 (hpass i)]
  exact ih hnext.1 hnext.2.1

lemma numBytesLoop_first (hmask : g.MaskOk) (hpos : 0 < size) (hfirst : can (g.addrT addr) = false) :
    g.numBytesLoop can addr size kPageSteps 0 = some 0 :=
  numBytesLoop_fails hmask (Nat.le_refl 0) rfl rfl hpos (Nat.zero_le _)
    (Bool.eq_false_iff.mp hfirst) (fun k hk => absurd hk (Nat.not_lt_zero k)) (by decide)

lemma numBytesLoop_small (hmask : g.MaskOk)
    (hpos : 0 < size) (hsize : size ≤ 4096) :
    g.numBytesLoop can addr size kPageSteps 0 =
      some (if can (g.addrT addr) then size else 0) := by
  by_cases hok : g.ByteOk can addr 0
  · have hcan : can (g.addrT addr) = true := hok
    rw [if_pos hcan]
    refine numBytesLoop_passes hmask rfl ?_ (Nat.add_pos_right _ (by decide)) ?_ ?_
    · rcases hmask with hm | hm <;> rw [hm] <;> omega
    · intro k hk hmod
      obtain rfl : k = 0 := by omega
      exact hok
    have hsteps : 2 ≤ kPageSteps := by decide
    omega
  have hcan : ¬ can (g.addrT addr) = true := hok
  rw [if_neg hcan]
  exact numBytesLoop_first hmask hpos (Bool.eq_false_iff.mpr hcan)

lemma checked_small (hmask : g.MaskOk)
    (hpos : 0 < size) (hsize : size ≤ 4096) :
    (g.numBytesLoop can addr size kPageSteps 0).map (fun n => decide (size = n)) =
      some (can (g.addrT addr)) := by
  rw [numBytesLoop_small hmask hpos hsize, Option.map_some]
  cases can (g.addrT addr) with
  | true => rw [if_pos rfl, decide_eq_true rfl]
  | false => rw [if_neg (by decide), decide_eq_false hpos.ne']

lemma canReadMemory_small (hmask : g.MaskOk)
    (hpos : 0 < size) (hsize : size ≤ 4096) :
    g.canReadMemory addr size = some (g.space.canRead (g.addrT addr)) :=
  checked_small hmask hpos hsize

lemma canWriteMemory_small (hmask : g.MaskOk)
    (hpos : 0 < size) (hsize : size ≤ 4096) :
    g.canWriteMemory addr size = some (g.space.canWrite (g.addrT addr)) :=
  checked_small hmask hpos hsize

end Loop

/-! ## Buffers -/

/-- Every byte of the buffer is mapped, on a readable page, and the buffer does not wrap around. -/
abbrev MayRead (g : Guest) (addr size : Nat) : Prop :=
  g.Copyable g.space.canReadAligned addr 0 size

/-- Every byte of the buffer is mapped, on a writable page, and the buffer does not wrap around. -/
abbrev MayWrite (g : Guest) (addr size : Nat) : Prop :=
  g.Copyable g.space.canWriteAligned addr 0 size

instance (g : Guest) (can : Nat → Bool) (addr lo hi : Nat) :
    Decidable (g.Copyable can addr lo hi) :=
  decidable_of_iff' _ (g.copyable_iff can addr lo hi)

/-- What memory holds in a buffer. -/
def bytesAt (g : Guest) (addr size : Nat) : List UInt8 :=
  (List.range size).map fun k => (g.mem (addr + k)).getD 0

/-- Without a fault the guest becomes `g'`, with `m` in its memory. -/
structure Becomes (g g' : Guest) (m : Nat → Option UInt8) : Prop where
  task : g'.task = g.task
  updates : Updates g.heap g.space g'.heap g'.space m

section
variable {m m' : Nat → Option UInt8} {size n : Nat}

lemma Becomes.refl (g : Guest) : g.Becomes g g.mem := ⟨rfl, Updates.refl _ _⟩

lemma Becomes.trans (h : g.Becomes g' m) (h' : g'.Becomes g'' m') : g.Becomes g'' m' :=
  ⟨h'.task.trans h.task, h.updates.trans h'.updates⟩

lemma Becomes.mem (h : g.Becomes g' m) : g'.mem = m := h.updates.view

lemma Becomes.wf (h : g.Becomes g' m) (hg : g.WF) : g'.WF :=
  ⟨h.updates.heapWF hg.heap, h.updates.wf hg.space⟩

lemma Becomes.addrMask (h : g.Becomes g' m) : g'.space.addrMask = g.space.addrMask :=
  h.updates.accessed.addrMask

lemma Becomes.addrT (h : g.Becomes g' m) (n : Nat) : g'.addrT n = g.addrT n := by
  unfold Guest.addrT
  rw [h.addrMask]

lemma bytesAt_congr (h : ∀ k < size, g'.mem (addr + k) = g.mem (addr + k)) :
    g'.bytesAt addr size = g.bytesAt addr size := by
  refine List.map_congr_left fun k hk => ?_
  rw [h k (List.mem_range.mp hk)]

section
variable (hu : Updates g.heap g.space g'.heap g'.space m) (hg : g.WF)
include hu hg

/-- The same buffers may be accessed afterwards. -/
lemma Copyable.updates {can can' : Nat → Bool} {lo hi : Nat} (hcan : can' = can)
    (hc : g.Copyable can addr lo hi) : g'.Copyable can' addr lo hi where
  fits k hlo hhi := hu.accessed.addrMask ▸ hc.fits k hlo hhi
  can k hlo hhi := hcan ▸ hc.can k hlo hhi
  mapped k hlo hhi := (hu.isSome_view hg.heap hg.space _).trans (hc.mapped k hlo hhi)

lemma MayRead.updates (hb : g.MayRead addr size) : g'.MayRead addr size :=
  Copyable.updates hu hg (funext fun a => congrFun hu.accessed.canRead a) hb

lemma MayWrite.updates (hb : g.MayWrite addr size) : g'.MayWrite addr size :=
  Copyable.updates hu hg (funext fun a => congrFun hu.accessed.canWrite a) hb

end

lemma Becomes.mayRead (h : g.Becomes g' m) (hg : g.WF) (hb : g.MayRead addr size) :
    g'.MayRead addr size := hb.updates h.updates hg

lemma Becomes.mayWrite (h : g.Becomes g' m) (hg : g.WF) (hb : g.MayWrite addr size) :
    g'.MayWrite addr size := hb.updates h.updates hg

lemma Copyable.mono {lo hi lo' hi' : Nat} (hc : g.Copyable can addr lo hi) (hlo : lo ≤ lo')
    (hhi : hi' ≤ hi) : g.Copyable can addr lo' hi' where
  fits k h h' := hc.fits k (hlo.trans h) (h'.trans_le hhi)
  can k h h' := hc.can k (hlo.trans h) (h'.trans_le hhi)
  mapped k h h' := hc.mapped k (hlo.trans h) (h'.trans_le hhi)

lemma Copyable.shift {lo hi : Nat} (hc : g.Copyable can addr lo (lo + hi)) :
    g.Copyable can (addr + lo) 0 hi where
  fits k _ h := by
    rw [Nat.add_assoc]
    exact hc.fits _ (by omega) (by omega)
  can k _ h := by
    rw [Nat.add_assoc]
    exact hc.can _ (by omega) (by omega)
  mapped k _ h := by
    rw [Nat.add_assoc]
    exact hc.mapped _ (by omega) (by omega)

lemma le_of_mapped (hg : g.WF) (h : (g.mem n).isSome) : n ≤ g.space.addrMask := by
  obtain ⟨p, ho⟩ := exists_owner hg.heap hg.space h
  exact ho.inside.2.le.trans (hg.space.bounded p ho.mem)

/-- Nothing is mapped in the last page. -/
lemma Copyable.room (hg : g.WF) (hc : g.Copyable can addr 0 size) :
    size + 4096 ≤ g.space.addrMask + 1 := by
  have hmask := hg.space.mask
  rcases Nat.eq_zero_or_pos size with rfl | hpos
  · rcases hmask with hm | hm <;> rw [hm] <;> decide
  obtain ⟨p, ho⟩ := exists_owner hg.heap hg.space (hc.mapped (size - 1) (Nat.zero_le _) (by omega))
  have hlimit := hg.space.bounded p ho.mem
  have hpaged := (hg.space.paged p ho.mem ho.valid).limit
  have hin := ho.inside.2
  rcases hmask with hm | hm <;> rw [hm] at hlimit ⊢ <;> omega

section
variable {test : Nat → Bool} (hg : g.WF) (htest : ∀ a, test a = can (alignDownToPage (g.addrT a)))
  (hc : g.Copyable can addr 0 size)
include hg htest hc

lemma Copyable.byteOk {k : Nat} (hk : k < size) : g.ByteOk test addr k := by
  have hfits := hc.fits k (Nat.zero_le _) hk
  unfold ByteOk
  rw [htest, addrT_of_le hg.space hfits, addrT_of_le hg.space hfits]
  exact hc.can k (Nat.zero_le _) hk

lemma Copyable.numBytesLoop : g.numBytesLoop test addr size kPageSteps 0 = some size := by
  have hroom := hc.room hg
  refine numBytesLoop_passes hg.space.mask rfl hroom (by omega)
    (fun k hk _ => hc.byteOk hg htest hk) ?_
  have hmask := hg.space.mask
  unfold kPageSteps
  rcases hmask with hm | hm <;> rw [hm] at hroom <;> omega

end

lemma MayRead.check (hg : g.WF) (hb : g.MayRead addr size) :
    g.canReadMemory addr size = some true := by
  have hloop : g.numBytesLoop g.space.canRead addr size kPageSteps 0 = some size :=
    Copyable.numBytesLoop hg (fun _ => rfl) hb
  unfold canReadMemory numReadableBytes
  rw [hloop, Option.map_some, decide_eq_true rfl]

lemma MayWrite.check (hg : g.WF) (hb : g.MayWrite addr size) :
    g.canWriteMemory addr size = some true := by
  have hloop : g.numBytesLoop g.space.canWrite addr size kPageSteps 0 = some size :=
    Copyable.numBytesLoop hg (fun _ => rfl) hb
  unfold canWriteMemory numWritableBytes
  rw [hloop, Option.map_some, decide_eq_true rfl]

lemma MayRead.bytesAt (hb : g.MayRead addr size) :
    (g.bytesAt addr size).map some = (List.range size).map fun k => g.mem (addr + k) := by
  unfold Guest.bytesAt
  rw [List.map_map]
  refine List.map_congr_left fun k hk => ?_
  obtain ⟨b, hb⟩ := Option.isSome_iff_exists.mp
    (hb.mapped k (Nat.zero_le _) (List.mem_range.mp hk))
  rw [Function.comp_apply, Guest.mem, hb]
  rfl

/-- A copy of a readable buffer gives its bytes. -/
lemma MayRead.copyFromMemory (hg : g.WF) (hb : g.MayRead addr size) :
    ∃ g', g.copyFromMemory addr size = (g.bytesAt addr size, g') ∧ g.Becomes g' g.mem := by
  have hc : g.Copyable g.space.accessible addr 0 (0 + size) :=
    { fits := fun k hlo hk => hb.fits k hlo (by omega)
      can := fun k hlo hk => by
        unfold accessible
        rw [hb.can k hlo (by omega)]
        rfl
      mapped := fun k hlo hk => hb.mapped k hlo (by omega) }
  obtain ⟨htask, hheap, hacc, hvals⟩ := copyFromLoop_spec hg.heap hg.space hc
  refine ⟨_, Prod.ext ?_ rfl, htask, ?_⟩
  · refine List.map_injective_iff.mpr (Option.some_injective _) ?_
    rw [hb.bytesAt, ← List.range_eq_range'] at *
    exact hvals
  · unfold Guest.copyFromMemory
    rw [hheap]
    exact Updates.lookup _ hacc

lemma MayRead.tryReadMemory (hg : g.WF) (hb : g.MayRead addr size) :
    ∃ g', g.tryReadMemory addr size = some (some (g.bytesAt addr size), g') ∧
      g.Becomes g' g.mem := by
  obtain ⟨g', hcopy, hbecomes⟩ := hb.copyFromMemory hg
  refine ⟨g', ?_, hbecomes⟩
  unfold Guest.tryReadMemory
  rw [hb.check hg, hcopy]

/-- A copy to a writable buffer leaves its bytes there. -/
lemma MayWrite.copyToMemory (cfg : Config) (hg : g.WF) (hb : g.MayWrite addr size)
    {data : List UInt8} (hlen : data.length ≤ size) :
    ∃ g', g.copyToMemory cfg addr data = some g' ∧
      g.Becomes g' (overwrite g.mem addr (data.map some)) := by
  have hc : g.Copyable g.space.canWriteAligned addr 0 (0 + data.length) :=
    Copyable.mono hb le_rfl (by omega)
  obtain ⟨g', hcopy, htask, hu⟩ := copyToLoop_spec cfg hg.heap hg.space hc
  exact ⟨g', hcopy, htask, hu⟩

lemma MayWrite.tryWriteMemory (cfg : Config) (hg : g.WF) {data : List UInt8}
    (hb : g.MayWrite addr data.length) :
    ∃ g', g.tryWriteMemory cfg addr data = some (true, g') ∧
      g.Becomes g' (overwrite g.mem addr (data.map some)) := by
  obtain ⟨g', hcopy, hbecomes⟩ := hb.copyToMemory cfg hg le_rfl
  refine ⟨g', ?_, hbecomes⟩
  unfold Guest.tryWriteMemory
  rw [hb.check hg, hcopy]
  rfl

/-- A part of a writable buffer is writable. -/
lemma MayWrite.part {lo : Nat} (hb : g.MayWrite addr size) (hfits : lo + n ≤ size) :
    g.MayWrite (addr + lo) n := Copyable.shift (Copyable.mono hb (Nat.zero_le _) hfits)

/-- All of the buffer may be read, or not even its first byte. -/
def ReadsOrFails (g : Guest) (addr size : Nat) : Prop :=
  g.MayRead addr size ∨ 0 < size ∧ g.space.canRead (g.addrT addr) = false
deriving Decidable

/-- All of the buffer may be written, or not even its first byte. -/
def WritesOrFails (g : Guest) (addr size : Nat) : Prop :=
  g.MayWrite addr size ∨ 0 < size ∧ g.space.canWrite (g.addrT addr) = false
deriving Decidable

lemma checked_first (hg : g.WF) (hpos : 0 < size) (hfirst : can (g.addrT addr) = false) :
    (g.numBytesLoop can addr size kPageSteps 0).map (fun n => decide (size = n)) = some false := by
  rw [numBytesLoop_first hg.space.mask hpos hfirst, Option.map_some, decide_eq_false hpos.ne']

end

end Guest

end Vmill
