import Vmill.Logic.Zone

/-!
# Allocators

The blocks of a bump allocator are aligned, disjoint, and in one contiguous mapping (`area_blocks`);
those of a zone, in use or free, are disjoint pieces of the area (`zone_blocks`).
-/

namespace Vmill

open Base

/-- A block that was allocated. -/
structure AreaBlock where
  base : Nat
  size : Nat
  align : Nat
deriving DecidableEq, Repr

/-- The addresses of the block. -/
def AreaBlock.den (b : AreaBlock) : Set Nat := Set.Ico b.base (b.base + b.size)

/-- A call of `Allocate`, with what `mmap` will return. -/
structure AreaRequest where
  size : Nat
  align : Nat
  first : Option Nat
  grow : Option Nat

/-- An allocator, the host's memory and the blocks given out. -/
structure AreaState where
  area : AreaAllocator
  host : Host
  blocks : List AreaBlock

namespace AreaState

/-- A new allocator. -/
def start (perms : AreaAllocationPerms) (preferredBase pageSize : Nat) (bytes : Nat → UInt8) :
    AreaState :=
  { area := .new perms preferredBase pageSize
    host := { maps := [], bytes := bytes }
    blocks := [] }

/-- One `Allocate`. -/
def step (r : AreaRequest) (σ : AreaState) : Option (Nat × AreaState) :=
  match σ.area.allocate σ.host r.size r.align r.first r.grow with
  | none => none
  | some (ret, a, h) =>
    some (ret, { area := a, host := h, blocks := σ.blocks ++ [⟨ret, r.size, r.align⟩] })

/-- The call does not wrap around. -/
def Fits (σ : AreaState) (r : AreaRequest) : Prop := σ.area.Fits r.size r.align r.first
deriving Decidable

/-- The blocks are inside the area, aligned, and apart from each other. -/
structure Good (σ : AreaState) : Prop where
  area : σ.area.WF σ.host.maps
  unmapped : σ.area.base = 0 → σ.blocks = []
  inside : ∀ b ∈ σ.blocks, σ.area.base ≤ b.base ∧ b.base + b.size ≤ σ.area.bump
  aligned : ∀ b ∈ σ.blocks, b.align ≠ 0 → b.align ∣ b.base
  apart : Apart AreaBlock.den σ.blocks

end AreaState

/-- The area allocator as a machine. -/
def areaAllocator : Machine AreaState AreaRequest Nat where
  step := AreaState.step

namespace AreaState

variable {σ σ' : AreaState}

lemma good_start (perms : AreaAllocationPerms) (preferredBase : Nat) {k : Nat} (hk : k < 64)
    (bytes : Nat → UInt8) : (start perms preferredBase (2 ^ k) bytes).Good where
  area := AreaAllocator.new_wf perms preferredBase hk
  unmapped _ := rfl
  inside _ hb := absurd hb List.not_mem_nil
  aligned _ hb := absurd hb List.not_mem_nil
  apart := List.Pairwise.nil

lemma Good.step (hg : σ.Good) {r : AreaRequest} (hfits : σ.Fits r) {ret : Nat}
    (hs : areaAllocator.step r σ = some (ret, σ')) : σ'.Good := by
  simp only [areaAllocator, AreaState.step] at hs
  split at hs
  · simp at hs
  rename_i ret' a h hal
  simp only [Option.some.injEq, Prod.mk.injEq] at hs
  obtain ⟨rfl, rfl⟩ := hs
  have ha := AreaAllocator.allocate_spec hg.area hfits hal
  have hends := ha.ends
  -- the area is where it was, unless there was none, and then there are no blocks
  have hold : ∀ b ∈ σ.blocks, a.base ≤ b.base ∧ b.base + b.size ≤ σ.area.bump := by
    intro b hb
    rcases ha.base with hzero | hbase
    · rw [hg.unmapped hzero] at hb
      cases hb
    rw [hbase]
    exact hg.inside b hb
  refine ⟨ha.wf, fun hzero => absurd hzero ha.mapped, fun b hb => ?_, fun b hb => ?_, ?_⟩
  · rcases List.mem_append.mp hb with hb | hb
    · obtain ⟨h1, h2⟩ := hold b hb
      have hbehind := ha.behind
      exact ⟨h1, by simp only; omega⟩
    rw [List.mem_singleton.mp hb]
    exact ⟨ha.inside, Nat.le_of_eq hends⟩
  · rcases List.mem_append.mp hb with hb | hb
    · exact hg.aligned b hb
    rw [List.mem_singleton.mp hb]
    exact ha.aligned
  refine hg.apart.append_singleton fun b hb => ?_
  have hbehind := ha.behind
  obtain ⟨_, hend⟩ := hg.inside b hb
  refine Set.disjoint_left.mpr fun x hx hx' => ?_
  have hlt := hx.2
  have hle : ret' ≤ x := hx'.1
  omega

lemma run_blocks {requests : List AreaRequest} {rets : List Nat}
    (hrun : areaAllocator.run requests σ = some (rets, σ')) :
    σ'.blocks = σ.blocks ++
      List.zipWith (fun r ret => ⟨ret, r.size, r.align⟩) requests rets := by
  induction requests generalizing σ rets with
  | nil =>
    simp only [Machine.run_nil, Option.some.injEq, Prod.mk.injEq] at hrun
    obtain ⟨rfl, rfl⟩ := hrun
    simp
  | cons r rs ih =>
  obtain ⟨ret, rets', σ1, hs, hr, rfl⟩ := Machine.run_cons_eq_some hrun
  simp only [areaAllocator, AreaState.step] at hs
  split at hs
  · simp at hs
  cases hs
  rw [ih hr, List.append_assoc]
  rfl

end AreaState

/-- **Areas.** After every sequence of `Allocate` calls, as long as no address exceeds 64 bits: the
mappings follow each other without gaps, and the blocks are aligned as asked for, below the bump
pointer, in the mappings, and pairwise disjoint. -/
theorem area_blocks (perms : AreaAllocationPerms) (preferredBase : Nat) {k : Nat} (hk : k < 64)
    (bytes : Nat → UInt8) {requests : List AreaRequest} {rets : List Nat} {σ : AreaState}
    (hfits : areaAllocator.RunMeets AreaState.Fits requests
      (AreaState.start perms preferredBase (2 ^ k) bytes))
    (hrun : areaAllocator.run requests (AreaState.start perms preferredBase (2 ^ k) bytes) =
      some (rets, σ)) :
    (σ.area.base ≤ σ.area.bump ∧ σ.area.bump ≤ σ.area.limit) ∧
    σ.area.pageSize ∣ σ.area.limit - σ.area.base ∧
    Contiguous σ.area.base σ.host.maps σ.area.limit ∧
    σ.blocks = List.zipWith (fun r ret => ⟨ret, r.size, r.align⟩) requests rets ∧
    (∀ b ∈ σ.blocks, (b.align ≠ 0 → b.align ∣ b.base) ∧
      ∀ x ∈ b.den, σ.area.contains x = true ∧ ∃ m ∈ σ.host.maps, m.1 ≤ x ∧ x < m.1 + m.2) ∧
    Apart AreaBlock.den σ.blocks := by
  have hg : σ.Good := Machine.run_preserves (fun _ _ _ _ hg hf hs => hg.step hf hs)
    (AreaState.good_start perms preferredBase hk bytes) hfits hrun
  refine ⟨hg.area.bump, hg.area.pages, hg.area.mapped, AreaState.run_blocks hrun,
    fun b hb => ⟨hg.aligned b hb, ?_⟩, hg.apart⟩
  intro x hx
  obtain ⟨hlo, hhi⟩ := hg.inside b hb
  have hge : b.base ≤ x := hx.1
  have hlt : x < b.base + b.size := hx.2
  have hlimit := hg.area.bump.2
  refine ⟨?_, (hg.area.mapped.mapped_iff x).mpr ⟨by omega, by omega⟩⟩
  unfold AreaAllocator.contains
  rw [decide_eq_true (by omega), decide_eq_true (by omega)]
  rfl

/-- Two blocks with odd alignments, the second of which makes the area grow. -/
theorem area_blocks_grow :
    ∃ rets σ, areaAllocator.run [⟨100, 64, some 0x10000, none⟩, ⟨5000, 48, none, some 0x11000⟩]
      (AreaState.start .rw 0 (2 ^ 12) fun _ => 7) = some (rets, σ) ∧
    rets = [0x10000, 0x10080] ∧ σ.area.limit = 0x12000 ∧ Apart AreaBlock.den σ.blocks := by
  have heval : ((areaAllocator.run
      [⟨100, 64, some 0x10000, none⟩, ⟨5000, 48, none, some 0x11000⟩]
      (AreaState.start .rw 0 (2 ^ 12) fun _ => 7)).any fun r =>
        decide (r.1 = [0x10000, 0x10080] ∧ r.2.area.limit = 0x12000)) = true := by
    decide +kernel
  obtain ⟨⟨rets, σ⟩, hrun, hfacts⟩ := (Option.any_eq_true _ _).mp heval
  obtain ⟨hrets, hlimit⟩ := of_decide_eq_true hfacts
  have hall := area_blocks .rw 0 (by decide) (fun _ => 7) (by decide +kernel) hrun
  exact ⟨rets, σ, hrun, hrets, hlimit, hall.2.2.2.2.2⟩

/-- A zone allocator and the allocations that are in use. -/
structure ZoneState where
  zone : ZoneAllocator
  host : Host
  live : List ZoneAllocation

/-- What is done with a zone: `Allocate`, with what `mmap` will return, `Free` of an
allocation in use, and a write to one of its bytes. -/
inductive ZoneOp where
  | allocate (size : Nat) (first grow : Option Nat)
  | free (i : Nat)
  | write (i offset : Nat) (val : UInt8)

namespace ZoneState

variable {σ : ZoneState}

/-- A new allocator. -/
def start (perms : AreaAllocationPerms) (preferredBase pageSize : Nat) (bytes : Nat → UInt8) :
    ZoneState :=
  { zone := .new perms preferredBase pageSize
    host := { maps := [], bytes := bytes }
    live := [] }

/-- One call. -/
def step : ZoneOp → ZoneState → Option (Option ZoneAllocation × ZoneState)
  | .allocate size first grow, σ =>
    match σ.zone.allocate σ.host size first grow with
    | none => none
    | some (alloc, z, h) => some (some alloc, { zone := z, host := h, live := σ.live ++ [alloc] })
  | .free i, σ =>
    match σ.live[i]? with
    | none => none
    | some alloc => some (none, { σ with zone := σ.zone.free alloc, live := σ.live.eraseIdx i })
  | .write i offset val, σ =>
    match σ.live[i]? with
    | none => none
    | some alloc =>
      if offset < alloc.size then
        some (none, { σ with
          host := σ.host.fill (alloc.base + offset) (alloc.base + offset + 1) val })
      else none

/-- If the area has to grow, nothing wraps around. -/
def Fits (σ : ZoneState) : ZoneOp → Prop
  | .allocate size first _ =>
    (σ.zone.takeFree size).isNone = true → σ.zone.allocator.Fits size 64 first
  | _ => True

instance (σ : ZoneState) (op : ZoneOp) : Decidable (σ.Fits op) := by
  cases op <;> unfold Fits <;> infer_instance

/-- The blocks in use and the free ones. -/
def blocks (σ : ZoneState) : List ZoneAllocation := σ.live ++ σ.zone.freeBlocks

/-- All blocks are inside the area and apart from each other. -/
structure Good (σ : ZoneState) : Prop where
  area : σ.zone.allocator.WF σ.host.maps
  unmapped : σ.zone.allocator.base = 0 → σ.blocks = []
  inside : ∀ b ∈ σ.blocks, σ.zone.allocator.base ≤ b.base ∧
    b.base + b.size ≤ σ.zone.allocator.bump
  apart : Apart ZoneAllocation.den σ.blocks

lemma good_start (perms : AreaAllocationPerms) (preferredBase : Nat) {k : Nat} (hk : k < 64)
    (bytes : Nat → UInt8) : (start perms preferredBase (2 ^ k) bytes).Good where
  area := AreaAllocator.new_wf perms preferredBase hk
  unmapped _ := rfl
  inside _ hb := absurd hb List.not_mem_nil
  apart := List.Pairwise.nil

lemma Good.nonzero (hg : σ.Good) {b : ZoneAllocation} (hb : b ∈ σ.blocks) :
    b.base ≠ 0 ∧ b.base + b.size < 2 ^ 64 := by
  obtain ⟨hlo, hhi⟩ := hg.inside b hb
  have hbump := hg.area.bump.2
  have hlimit := hg.area.limit
  refine ⟨fun hzero => ?_, by omega⟩
  have hnil := hg.unmapped (by omega)
  rw [hnil] at hb
  cases hb

lemma Good.of_perm {σ' : ZoneState} (hg : σ.Good) (hp : σ'.blocks.Perm σ.blocks)
    (hzone : σ'.zone.allocator = σ.zone.allocator) (hmaps : σ'.host.maps = σ.host.maps) :
    σ'.Good where
  area := hzone ▸ hmaps ▸ hg.area
  unmapped h0 := by
    rw [hg.unmapped (hzone ▸ h0)] at hp
    exact hp.eq_nil
  inside b hb := hzone ▸ hg.inside b (hp.mem_iff.mp hb)
  apart := hg.apart.perm hp.symm

end ZoneState

/-- The zone allocator as a machine. -/
def zoneAllocator : Machine ZoneState ZoneOp (Option ZoneAllocation) where
  step := ZoneState.step

namespace ZoneState

variable {σ : ZoneState} {alloc : ZoneAllocation} {h : Host} {size : Nat} {z : ZoneAllocator}

/-- What a call returns and does to the allocations in use. -/
def Returns (σ : ZoneState) : ZoneOp → Option ZoneAllocation → ZoneState → Prop
  | .allocate size _ _, out, σ' => ∃ alloc, out = some alloc ∧ σ'.live = σ.live ++ [alloc] ∧
      size ≤ alloc.size ∧
      (∀ x, alloc.base ≤ x → x < alloc.base + size → σ'.host.bytes x = 0) ∧
      ∀ b ∈ σ.live, ∀ x ∈ b.den, σ'.host.bytes x = σ.host.bytes x
  | .free i, out, σ' => out = none ∧ σ'.live = σ.live.eraseIdx i ∧
      σ'.host.bytes = σ.host.bytes
  | .write i _ _, out, σ' => out = none ∧ σ'.live = σ.live ∧
      ∀ j b, j ≠ i → σ.live[j]? = some b → ∀ x ∈ b.den, σ'.host.bytes x = σ.host.bytes x

lemma Good.clear (hapart : Apart ZoneAllocation.den (σ.live ++ [alloc]))
    (hsize : size ≤ alloc.size) (hbytes : ∀ b ∈ σ.live, ∀ x ∈ b.den, h.bytes x = σ.host.bytes x) :
    (∀ x, alloc.base ≤ x → x < alloc.base + size →
      (h.fill alloc.base (alloc.base + size) 0).bytes x = 0) ∧
    ∀ b ∈ σ.live, ∀ x ∈ b.den,
      (h.fill alloc.base (alloc.base + size) 0).bytes x = σ.host.bytes x := by
  refine ⟨fun x hlo hhi => ?_, fun b hb x hx => ?_⟩
  · unfold Host.fill
    simp only
    rw [if_pos ⟨hlo, hhi⟩]
  have hdis : Disjoint b.den alloc.den :=
    (List.pairwise_append.mp hapart).2.2 b hb alloc (List.mem_singleton.mpr rfl)
  unfold Host.fill
  simp only
  rw [if_neg fun hin => Set.disjoint_left.mp hdis hx ⟨hin.1, by omega⟩]
  exact hbytes b hb x hx

lemma Good.fresh (hg : σ.Good) {ret : Nat} {a : AreaAllocator}
    (ha : σ.zone.allocator.Allocated σ.host size 64 ret a h) :
    Good { zone := { σ.zone with allocator := a }, host := h, live := σ.live ++ [⟨ret, size⟩] } := by
  have hblocks : (σ.live ++ [(⟨ret, size⟩ : ZoneAllocation)] ++ σ.zone.freeBlocks).Perm
      (σ.blocks ++ [⟨ret, size⟩]) := by
    unfold blocks
    rw [List.append_assoc, List.append_assoc]
    exact List.perm_append_comm.append_left σ.live
  have hbehind := ha.behind
  have hends := ha.ends
  have hold : ∀ b ∈ σ.blocks, a.base ≤ b.base ∧ b.base + b.size ≤ σ.zone.allocator.bump := by
    intro b hb
    rcases ha.base with hzero | hbase
    · rw [hg.unmapped hzero] at hb
      cases hb
    rw [hbase]
    exact hg.inside b hb
  refine ⟨ha.wf, fun hzero => absurd hzero ha.mapped, fun b hb => ?_, ?_⟩
  · rcases List.mem_append.mp (hblocks.mem_iff.mp hb) with hb | hb
    · obtain ⟨h1, h2⟩ := hold b hb
      exact ⟨h1, by simp only; omega⟩
    rw [List.mem_singleton.mp hb]
    exact ⟨ha.inside, Nat.le_of_eq hends⟩
  refine (hg.apart.append_singleton fun b hb => ?_).perm hblocks.symm
  obtain ⟨_, hend⟩ := hg.inside b hb
  refine Set.disjoint_left.mpr fun x hx hx' => ?_
  have hlt := hx.2
  have hle : ret ≤ x := hx'.1
  omega

lemma Good.reused (hg : σ.Good) {whole : ZoneAllocation} {others rest : List ZoneAllocation}
    (hbefore : σ.zone.freeBlocks.Perm (whole :: others))
    (hafter : z.freeBlocks.Perm (rest ++ others)) (hallocator : z.allocator = σ.zone.allocator)
    (hapart : Apart ZoneAllocation.den (alloc :: rest))
    (hwithin : ∀ b ∈ alloc :: rest, whole.base ≤ b.base ∧ b.base + b.size ≤ whole.base + whole.size) :
    Good { zone := z, host := σ.host, live := σ.live ++ [alloc] } := by
  have hold : σ.blocks.Perm (whole :: (σ.live ++ others)) :=
    (hbefore.append_left σ.live).trans List.perm_middle
  have hnew : (σ.live ++ [alloc] ++ z.freeBlocks).Perm ((alloc :: rest) ++ (σ.live ++ others)) := by
    refine (hafter.append_left _).trans ?_
    rw [List.append_assoc, ← List.append_assoc [alloc]]
    exact List.perm_append_comm_assoc σ.live (alloc :: rest) others
  have hwhole := hg.inside whole (hold.mem_iff.mpr (.head _))
  have hmem : whole ∈ σ.blocks := hold.mem_iff.mpr (.head _)
  refine ⟨hallocator ▸ hg.area, fun hzero => ?_, fun b hb => ?_, ?_⟩
  · simp only [hallocator] at hzero
    rw [hg.unmapped hzero] at hmem
    cases hmem
  · simp only [hallocator]
    rcases List.mem_append.mp (hnew.mem_iff.mp hb) with hb | hb
    · have := hwithin b hb
      omega
    · exact hg.inside b (hold.mem_iff.mpr (.tail _ hb))
  refine ((hg.apart.perm hold).cut hapart fun b hb x hx => ?_).perm hnew.symm
  obtain ⟨hlo, hhi⟩ := hwithin b hb
  have hge : b.base ≤ x := hx.1
  have hlt : x < b.base + b.size := hx.2
  exact ⟨by omega, by omega⟩

lemma Good.allocate (hg : σ.Good) {first grow : Option Nat}
    (hfits : σ.Fits (.allocate size first grow))
    (hr : σ.zone.allocate σ.host size first grow = some (alloc, z, h)) :
    Good { zone := z, host := h, live := σ.live ++ [alloc] } ∧ size ≤ alloc.size ∧
      (∀ x, alloc.base ≤ x → x < alloc.base + size → h.bytes x = 0) ∧
      ∀ b ∈ σ.live, ∀ x ∈ b.den, h.bytes x = σ.host.bytes x := by
  unfold ZoneAllocator.allocate at hr
  split at hr
  · simp at hr
  rename_i alloc' z' h' hfind
  cases hr
  have hfree : ∀ b ∈ σ.zone.freeBlocks, b.base ≠ 0 ∧ b.base + b.size < 2 ^ 64 :=
    fun b hb => hg.nonzero (List.mem_append_right _ hb)
  have hfound := ZoneAllocator.findBlock_cases hg.area hfree
    (fun hnone => hfits (by rw [hnone]; rfl)) hfind
  -- clearing the block changes neither the mappings nor the blocks
  have hfill : ∀ {alloc : ZoneAllocation} {z : ZoneAllocator} {h : Host},
      Good { zone := z, host := h, live := σ.live ++ [alloc] } → size ≤ alloc.size →
      (∀ b ∈ σ.live, ∀ x ∈ b.den, h.bytes x = σ.host.bytes x) →
      Good { zone := z, host := h.fill alloc.base (alloc.base + size) 0,
             live := σ.live ++ [alloc] } ∧ size ≤ alloc.size ∧
        (∀ x, alloc.base ≤ x → x < alloc.base + size →
          (h.fill alloc.base (alloc.base + size) 0).bytes x = 0) ∧
        ∀ b ∈ σ.live, ∀ x ∈ b.den,
          (h.fill alloc.base (alloc.base + size) 0).bytes x = σ.host.bytes x := by
    intro alloc z h hgood hsize hbytes
    exact ⟨hgood.of_perm (List.Perm.refl _) rfl rfl, hsize,
      Good.clear (List.pairwise_append.mp hgood.apart).1 hsize hbytes⟩
  cases hfound with
  | fresh ret a _ hal =>
    refine hfill (hg.fresh hal) le_rfl fun b hb x hx => ?_
    obtain ⟨hlo, hhi⟩ := hg.inside b (List.mem_append_left _ hb)
    have hbump := hg.area.bump.2
    have hge : b.base ≤ x := hx.1
    have hlt : x < b.base + b.size := hx.2
    exact hal.bytes x (by omega) (by omega)
  | reused whole _ others rest _ hbefore hafter hallocator henough hapart hwithin =>
  exact hfill (hg.reused hbefore hafter hallocator hapart hwithin) henough
    fun _ _ _ _ => rfl

lemma Good.step {σ' : ZoneState} (hg : σ.Good) {op : ZoneOp} (hfits : σ.Fits op)
    {out : Option ZoneAllocation} (hs : zoneAllocator.step op σ = some (out, σ')) :
    σ'.Good ∧ σ.Returns op out σ' := by
  simp only [zoneAllocator] at hs
  cases op with
  | allocate size first grow =>
    simp only [ZoneState.step] at hs
    split at hs
    · simp at hs
    rename_i alloc z h hal
    cases hs
    obtain ⟨hgood, hspec⟩ := hg.allocate hfits hal
    exact ⟨hgood, alloc, rfl, rfl, hspec⟩
  | free i =>
    simp only [ZoneState.step] at hs
    split at hs
    · simp at hs
    rename_i alloc hi
    cases hs
    obtain ⟨hlt, heq⟩ := List.getElem?_eq_some_iff.mp hi
    have hmem : alloc ∈ σ.live := List.mem_of_getElem? hi
    have hfree := σ.zone.free_perm (hg.nonzero (List.mem_append_left _ hmem)).1
    refine ⟨hg.of_perm ?_ (ZoneAllocator.free_allocator _ _) rfl, rfl, rfl, rfl⟩
    have hlive : (alloc :: σ.live.eraseIdx i).Perm σ.live :=
      heq ▸ List.getElem_cons_eraseIdx_perm hlt
    exact ((hfree.append_left _).trans List.perm_middle).trans
      (hlive.append_right σ.zone.freeBlocks)
  | write i offset val =>
  simp only [ZoneState.step] at hs
  split at hs
  · simp at hs
  rename_i alloc hi
  split at hs
  · rename_i hoff
    cases hs
    refine ⟨hg.of_perm (List.Perm.refl _) rfl rfl, rfl, rfl, fun j b hji hj x hx => ?_⟩
    have hlive : Apart ZoneAllocation.den σ.live := (List.pairwise_append.mp hg.apart).1
    have hdis : Disjoint b.den alloc.den := hlive.disjoint_of_ne hji hj hi
    unfold Host.fill
    simp only
    rw [if_neg fun hin => Set.disjoint_left.mp hdis hx ⟨by omega, by omega⟩]
  · simp at hs

end ZoneState

/-- **Zones.** After every sequence of `Allocate`, `Free` and writes, as long as no address exceeds
64 bits: allocations in use and free blocks are disjoint and inside the area; `Allocate` returns a
cleared block of at least the size asked for; and only a write to it changes an allocation in use.
-/
theorem zone_blocks (perms : AreaAllocationPerms) (preferredBase : Nat) {k : Nat} (hk : k < 64)
    (bytes : Nat → UInt8) {ops : List ZoneOp} {outs : List (Option ZoneAllocation)}
    {σ : ZoneState}
    (hfits : zoneAllocator.RunMeets ZoneState.Fits ops
      (ZoneState.start perms preferredBase (2 ^ k) bytes))
    (hrun : zoneAllocator.run ops (ZoneState.start perms preferredBase (2 ^ k) bytes) =
      some (outs, σ)) :
    Apart ZoneAllocation.den (σ.live ++ σ.zone.freeBlocks) ∧
    (∀ b ∈ σ.live ++ σ.zone.freeBlocks, ∀ x ∈ b.den, σ.zone.allocator.contains x = true) ∧
    ∀ op out σ', σ.Fits op → zoneAllocator.step op σ = some (out, σ') → σ.Returns op out σ' := by
  have hg : σ.Good := Machine.run_preserves (fun _ _ _ _ hg hf hs => (hg.step hf hs).1)
    (ZoneState.good_start perms preferredBase hk bytes) hfits hrun
  refine ⟨hg.apart, fun b hb x hx => ?_, fun op out σ' hf hs => (hg.step hf hs).2⟩
  obtain ⟨hlo, hhi⟩ := hg.inside b hb
  have hge : b.base ≤ x := hx.1
  have hlt : x < b.base + b.size := hx.2
  unfold AreaAllocator.contains
  rw [decide_eq_true (by omega), decide_eq_true (by omega)]
  rfl

/-- A block of 16384 bytes is given back and split. -/
theorem zone_blocks_split :
    ∃ outs σ, zoneAllocator.run
      [.allocate 16384 (some 0x10000) none, .free 0, .allocate 4000 none none, .write 0 5 7,
        .allocate 8200 none none]
      (ZoneState.start .rw 0 (2 ^ 16) fun _ => 7) = some (outs, σ) ∧
    σ.live = [⟨0x13060, 4000⟩, ⟨0x11058, 8200⟩] ∧
    Apart ZoneAllocation.den (σ.live ++ σ.zone.freeBlocks) := by
  have heval : ((zoneAllocator.run
      [.allocate 16384 (some 0x10000) none, .free 0, .allocate 4000 none none, .write 0 5 7,
        .allocate 8200 none none]
      (ZoneState.start .rw 0 (2 ^ 16) fun _ => 7)).any fun r =>
        decide (r.2.live = [⟨0x13060, 4000⟩, ⟨0x11058, 8200⟩])) = true := by
    decide +kernel
  obtain ⟨⟨outs, σ⟩, hrun, hlive⟩ := (Option.any_eq_true _ _).mp heval
  exact ⟨outs, σ, hrun, of_decide_eq_true hlive,
    (zone_blocks .rw 0 (by decide) (fun _ => 7) (by decide +kernel) hrun).1⟩

end Vmill
