import Vmill.Program.Use
import Vmill.Theorems.Permissions

/-!
# Dead address spaces

`Kill` keeps the permission sets and the index of writable, non-executable pages: the probes still
approve of such a page, and a write to it succeeds (`killed_space_written`).
-/

namespace Vmill

open Base

namespace AddressSpace

variable {h : Heap} {s : AddressSpace} {addr n : Nat}

/-- The access is not empty and does not wrap around. -/
def EndsInSpace (s : AddressSpace) (addr n : Nat) : Prop :=
  0 < n ∧ (addr &&& s.addrMask) + n < 2 ^ 64
deriving Decidable

/-- Nothing is mapped, cached or permitted. -/
structure Inert (h : Heap) (s : AddressSpace) : Prop where
  dead : s.isDead = true
  maps : s.maps = []
  index : ∀ a, s.pageToMap a = none
  wnxIndex : ∀ a, s.wnxPageToMap a = none
  cache : ∀ i, s.lastMapCache i = none
  wnxCache : ∀ i, s.wnxLastMapCache i = none
  invalid : (h.obj s.invalid).kind = .invalid
  read : ∀ addr, s.canRead addr = false
  write : ∀ addr, s.canWrite addr = false

lemma lookupCached_none {cache index : Nat → Option MemoryMapPtr} (hcache : ∀ i, cache i = none)
    (hindex : ∀ a, index a = none) (invalid : MemoryMapPtr) (page : Nat) :
    lookupCached h cache index invalid page = (cache, invalid) := by
  simp only [lookupCached, cacheHit, hcache, hindex]

lemma mask_idem (s : AddressSpace) (addr : Nat) :
    (addr &&& s.addrMask) &&& s.addrMask = addr &&& s.addrMask := by
  rw [Nat.and_assoc, Nat.and_self]

lemma EndsInSpace.first (hend : s.EndsInSpace addr n) :
    alignDownToPage (addr &&& s.addrMask) < wrap64 ((addr &&& s.addrMask) + n) := by
  obtain ⟨hpos, hlt⟩ := hend
  have hle := alignDownToPage_le (addr &&& s.addrMask)
  rw [wrap64_of_lt hlt]
  omega

lemma EndsInSpace.count (hend : s.EndsInSpace addr n)
    (hlast : (addr &&& s.addrMask) + n + 4096 ≤ 2 ^ 64) :
    0 < min (wrap64 ((addr &&& s.addrMask) + n))
      (wrap64 (alignDownToPage (addr &&& s.addrMask) + kPageSize)) - (addr &&& s.addrMask) := by
  obtain ⟨hpos, hlt⟩ := hend
  have hle := alignDownToPage_le (addr &&& s.addrMask)
  have hin := lt_alignDownToPage_add (show addr &&& s.addrMask < 2 ^ 64 by omega)
  have hmod := alignDownToPage_mod (addr &&& s.addrMask)
  rw [wrap64_of_lt hlt, wrap64_of_lt (by unfold kPageSize; omega)]
  unfold kPageSize
  omega

namespace Inert

variable {vals : List UInt8}

lemma findRangeAligned (hi : Inert h s) (page : Nat) :
    s.findRangeAligned h page = (s, s.invalid) := by
  unfold AddressSpace.findRangeAligned
  rw [lookupCached_none hi.cache hi.index]

lemma findWNXRangeAligned (hi : Inert h s) (page : Nat) :
    s.findWNXRangeAligned h page = (s, s.invalid) := by
  unfold AddressSpace.findWNXRangeAligned
  rw [lookupCached_none hi.wnxCache hi.wnxIndex]

lemma not_cow (hi : Inert h s) (q : MemoryMapPtr) : (h.obj s.invalid).kind ≠ .copyOnWrite q := by
  rw [hi.invalid]
  exact MapKind.noConfusion

lemma read_invalid (hi : Inert h s) (addr : Nat) : h.read s.invalid addr = (false, 0) := by
  unfold Heap.read
  rw [Heap.root_of_not_cow hi.not_cow]
  simp only [hi.invalid]

lemma readOnly_invalid (hi : Inert h s) (addr : Nat) :
    h.toReadOnlyVirtualAddress s.invalid addr = none := by
  unfold Heap.toReadOnlyVirtualAddress
  rw [Heap.root_of_not_cow hi.not_cow]
  simp only [hi.invalid]

lemma tryRead (hi : Inert h s) {n : Nat} (hend : s.EndsInSpace addr n)
    (hlast : (addr &&& s.addrMask) + n + 4096 ≤ 2 ^ 64) :
    s.tryRead h addr n = some (false, [0], s) := by
  have hpage := hend.first
  obtain ⟨count, hcount⟩ := Nat.exists_eq_succ_of_ne_zero (hend.count hlast).ne'
  unfold AddressSpace.tryRead kPageSteps
  simp only [tryReadLoop, if_pos hpage, hi.findRangeAligned, hcount, readBytes, hi.read_invalid]
  rfl

lemma tryReadByte (hi : Inert h s) (addr : Nat) : s.tryReadByte h addr = (false, 0, s) := by
  simp only [AddressSpace.tryReadByte, findRange, hi.findRangeAligned, hi.read_invalid]

lemma tryReadTyped (hi : Inert h s) (type : ValueType) (addr : Nat) :
    s.tryReadTyped type h addr = some (false, [], s) := by
  simp only [AddressSpace.tryReadTyped, findRange, hi.findRangeAligned, hi.readOnly_invalid]

lemma tryReadExecutable (hi : Inert h s) (pc : Nat) :
    s.tryReadExecutable h pc = (false, 0, s) := by
  simp only [AddressSpace.tryReadExecutable, hi.findRangeAligned, hi.read_invalid, Bool.false_and]

lemma tryWrite (hi : Inert h s) (cfg : Config) (hend : s.EndsInSpace addr vals.length) :
    s.tryWrite cfg h addr vals = some (false, s, h) := by
  have hpage := hend.first
  have hno : ¬ s.canWriteAligned (alignDownToPage (addr &&& s.addrMask)) = true := by
    rw [show s.canWriteAligned _ = false from hi.write addr]
    exact Bool.false_ne_true
  unfold AddressSpace.tryWrite kPageSteps
  simp only [tryWriteLoop, if_pos hpage, if_neg hno]

lemma tryWrite_masked (hi : Inert h s) (cfg : Config) (hend : s.EndsInSpace addr vals.length) :
    s.tryWrite cfg h (addr &&& s.addrMask) vals = some (false, s, h) := by
  refine hi.tryWrite cfg ?_
  unfold EndsInSpace at hend ⊢
  rwa [mask_idem]

lemma tryWriteByte (hi : Inert h s) (cfg : Config) {val : UInt8} (hend : s.EndsInSpace addr 1) :
    s.tryWriteByte cfg h addr val = some (false, s, h) := by
  simp only [AddressSpace.tryWriteByte, findWNXRange, hi.findWNXRangeAligned,
    Heap.write_of_invalid _ _ hi.invalid]
  exact hi.tryWrite_masked cfg hend

lemma tryWriteTyped (hi : Inert h s) (cfg : Config) {type : ValueType}
    {val : List.Vector UInt8 type.size} (hend : s.EndsInSpace addr type.size) :
    s.tryWriteTyped cfg type h addr val = some (false, s, h) := by
  simp only [AddressSpace.tryWriteTyped, findWNXRange, hi.findWNXRangeAligned,
    Heap.toReadWriteVirtualAddress_of_invalid _ hi.invalid]
  exact hi.tryWrite_masked cfg (by rwa [val.toList_length])

lemma findHole (hi : Inert h s) (min_ max_ size : Nat) :
    s.findHole h min_ max_ size = some none := by
  unfold AddressSpace.findHole findHoleWith
  rw [hi.maps]
  simp only [List.reverse_nil, findHoleLoop, ite_self]

lemma isMapped (hi : Inert h s) (find : Nat) : s.isMapped h find = false := by
  unfold AddressSpace.isMapped
  rw [hi.dead, if_pos rfl]

lemma addMap (hi : Inert h s) (base size : Nat) (name : Option (List UInt8)) (offset : Nat) :
    s.addMap h base size name offset = some (s, h) := by
  simp only [AddressSpace.addMap, hi.dead, if_pos]

lemma removeMap (hi : Inert h s) (base size : Nat) : s.removeMap h base size = some (s, h) := by
  simp only [AddressSpace.removeMap, hi.dead, if_pos]

lemma setPermissions (hi : Inert h s) (base size : Nat) (x : Bool) :
    Inert h (setPermissions h s base size false false x) := by
  have hsorted : sortMaps h s.maps = [] := by
    rw [hi.maps]
    rfl
  have hread := hi.read
  have hwrite := hi.write
  unfold canRead canReadAligned at hread
  unfold canWrite canWriteAligned at hwrite
  rw [setPermissions_eq, createPageToRangeMap_eq]
  refine ⟨hi.dead, hsorted, ?_, ?_, fun _ => rfl, fun _ => rfl, hi.invalid, ?_, ?_⟩
  · intro a
    simp only [hsorted, pageOwner]
    split <;> rfl
  · intro a
    simp only [hsorted, pageOwner]
    split <;> rfl
  · intro addr
    simp only [canRead, canReadAligned, hread, ite_self]
  intro addr
  simp only [canWrite, canWriteAligned, hwrite, ite_self]

end Inert

lemma inert_kill (hs : s.WF h) (hread : ∀ a, s.canRead a = false)
    (hwrite : ∀ a, s.canWrite a = false) : Inert h s.kill where
  dead := rfl
  maps := rfl
  index _ := rfl
  wnxIndex a := by
    show s.wnxPageToMap a = none
    cases hp : s.wnxPageToMap a with
    | none => rfl
    | some p =>
    -- an indexed page is writable, and lies in the address space
    obtain ⟨ho, hmod, hperm⟩ := (hs.wnxIndex a p).mp hp
    have hlimit := hs.bounded p ho.mem
    have hin := (Heap.mem_extent.mp ho.inside).2
    have hle : a ≤ s.addrMask := by omega
    have hcan := hwrite a
    unfold canWrite at hcan
    have halt : a < 2 ^ 64 := mask_of_le hs hle ▸ mask_lt hs a
    rw [mask_of_le hs hle, alignDownToPage_of_aligned halt hmod] at hcan
    unfold writableNotExecutable at hperm
    rw [hcan] at hperm
    simp at hperm
  cache _ := rfl
  wnxCache _ := rfl
  invalid := hs.invalid
  read := hread
  write := hwrite

end AddressSpace

namespace SpaceState

open AddressSpace

variable {cfg : Config} {σ : SpaceState}

/-- The accesses are of at least one byte and do not wrap around (a sized read ends below the
last page of the 64-bit space), and no right to read or write is granted. -/
def GrantsNothing (σ : SpaceState) : Use → Prop
  | .tryRead addr size => σ.space.EndsInSpace addr size ∧
      (addr &&& σ.space.addrMask) + size + 4096 ≤ 2 ^ 64
  | .tryWrite addr vals => σ.space.EndsInSpace addr vals.length
  | .tryWriteByte addr _ => σ.space.EndsInSpace addr 1
  | .tryWriteTyped type addr _ => σ.space.EndsInSpace addr type.size
  | .setPermissions _ _ canRead canWrite _ => canRead = false ∧ canWrite = false
  | _ => True

instance (σ : SpaceState) (op : Use) : Decidable (σ.GrantsNothing op) := by
  cases op <;> unfold GrantsNothing <;> infer_instance

lemma inert_step (hi : Inert σ.heap σ.space) {op : Use} (hop : σ.GrantsNothing op) :
    ∃ o σ', step cfg op σ = some (o, σ') ∧ o ≠ .answer true ∧
      Inert σ'.heap σ'.space := by
  have hno : step cfg op σ = some (.answer false, σ) → ∃ o σ', step cfg op σ = some (o, σ') ∧
      o ≠ .answer true ∧ Inert σ'.heap σ'.space :=
    fun hs => ⟨_, σ, hs, by simp, hi⟩
  cases op with
  | tryRead addr size => exact hno (by simp only [step, hi.tryRead hop.1 hop.2, Option.map_some])
  | tryReadByte addr => exact hno (by simp only [step, hi.tryReadByte])
  | tryReadTyped type addr => exact hno (by simp only [step, hi.tryReadTyped, Option.map_some])
  | tryReadExecutable pc => exact hno (by simp only [step, hi.tryReadExecutable])
  | tryWrite addr vals => exact hno (by simp only [step, hi.tryWrite cfg hop, Option.map_some])
  | tryWriteByte addr val =>
    exact hno (by simp only [step, hi.tryWriteByte cfg hop, Option.map_some])
  | tryWriteTyped type addr val =>
    exact hno (by simp only [step, hi.tryWriteTyped cfg hop, Option.map_some])
  | isMapped find => exact hno (by simp only [step, hi.isMapped])
  | canRead addr => exact hno (by simp only [step, hi.read])
  | canWrite addr => exact hno (by simp only [step, hi.write])
  | findHole min_ max_ size =>
    exact hno (by simp only [step, hi.findHole, Option.map_some, Option.isSome_none])
  | addMap base size name offset =>
    refine ⟨.done, σ, ?_, by simp, hi⟩
    simp only [step, hi.addMap, Option.map_some]
  | removeMap base size =>
    refine ⟨.done, σ, ?_, by simp, hi⟩
    simp only [step, hi.removeMap, Option.map_some]
  | setPermissions base size r w x =>
  obtain ⟨rfl, rfl⟩ := hop
  exact ⟨.done, _, rfl, by simp, hi.setPermissions base size x⟩

lemma inert_run {ops : List Use} (hi : Inert σ.heap σ.space)
    (hops : (spaceUse cfg).RunMeets GrantsNothing ops σ) :
    ∃ os σ', (spaceUse cfg).run ops σ = some (os, σ') ∧ .answer true ∉ os := by
  have hstep : ∀ (σ : SpaceState) (op : Use), Inert σ.heap σ.space → σ.GrantsNothing op →
      ∃ o σ', (spaceUse cfg).step op σ = some (o, σ') ∧ o ≠ .answer true ∧
        Inert σ'.heap σ'.space := fun σ op hi hop => inert_step hi hop
  obtain ⟨os, σ', hrun, hno, _⟩ := Machine.run_returns hstep hi hops
  exact ⟨os, σ', hrun, fun hmem => hno _ hmem rfl⟩

end SpaceState

open AddressSpace

/-- **Kill.** For every reachable address space: after `Kill`, all accesses, questions and searches
fail, in every sequence of calls that meets the condition, exactly if no page could be read or
written. -/
theorem kill_inert {cfg : Config} {w : World} (hw : World.Reachable cfg w) {i : Nat}
    {s : AddressSpace} (hi : w.spaces[i]? = some s) :
    (∀ ops, (spaceUse cfg).RunMeets SpaceState.GrantsNothing ops ⟨s.kill, w.heap⟩ →
      ∃ os σ', (spaceUse cfg).run ops ⟨s.kill, w.heap⟩ = some (os, σ') ∧ .answer true ∉ os) ↔
    ∀ a, s.canRead a = false ∧ s.canWrite a = false := by
  constructor
  · intro hall a
    constructor
    · obtain ⟨os, σ', hrun, hno⟩ := hall [.canRead a] ⟨trivial, trivial⟩
      cases hrun
      refine Bool.eq_false_of_not_eq_true fun hcan => hno (List.mem_singleton.mpr ?_)
      rw [← hcan]
      rfl
    · obtain ⟨os, σ', hrun, hno⟩ := hall [.canWrite a] ⟨trivial, trivial⟩
      cases hrun
      refine Bool.eq_false_of_not_eq_true fun hcan => hno (List.mem_singleton.mpr ?_)
      rw [← hcan]
      rfl
  · intro hnone ops hops
    have hinert := inert_kill (hw.wf.space i s hi) (fun a => (hnone a).1) (fun a => (hnone a).2)
    exact SpaceState.inert_run hinert hops

/-- A page is mapped, and may only be executed. After `Kill`, it cannot be fetched from, and
mapping it again does nothing. -/
theorem kill_inert_execute_only :
    ∃ (w : World) (s : AddressSpace) (os : List UseOut) (σ' : SpaceState),
      World.Reachable (amd64 false) w ∧ w.spaces[0]? = some s ∧
      s.canExecute 0x1000 = true ∧ (spaceUse (amd64 false)).run
        [.tryReadExecutable 0x1000, .addMap 0x1000 0x1000 none 0, .tryWriteByte 0x1000 7,
          .findHole 0 0x10000 0x1000] ⟨s.kill, w.heap⟩ = some (os, σ') ∧
      .answer true ∉ os := by
  obtain ⟨os, w, s, hrun, hi, hmeets, hx, hno, hmaps⟩ := World.run_eval (amd64 false)
    [.new, .addMap 0 0x1000 0x1000 none 0, .setPermissions 0 0x1000 0x1000 false false true]
    (fun w s => (spaceUse (amd64 false)).RunMeets SpaceState.GrantsNothing
        [.tryReadExecutable 0x1000, .addMap 0x1000 0x1000 none 0, .tryWriteByte 0x1000 7,
          .findHole 0 0x10000 0x1000] ⟨s.kill, w.heap⟩ ∧ s.canExecute 0x1000 = true ∧
      (s.pageIsReadable 0x1000 = false ∧ s.pageIsWritable 0x1000 = false) ∧
      ∀ p ∈ s.maps, w.heap.isValid p = true →
        (w.heap.obj p).baseAddress = 0x1000 ∧ (w.heap.obj p).limitAddress = 0x2000)
    (by decide +kernel)
  obtain ⟨hw, hmapped⟩ := World.permsMapped_of_run (by decide +kernel) hrun
  -- the only mapped page may be neither read nor written
  have hpage : ∀ page, page % 4096 = 0 →
      ¬ (s.pageIsReadable page = true ∨ s.pageIsWritable page = true) := by
    intro page hmod hperm
    obtain ⟨p, ho⟩ := hmapped 0 s hi page hmod hperm
    obtain ⟨hbase, hlimit⟩ := hmaps p ho.mem ((Heap.isValid_iff hw.heap).mpr ho.valid)
    have hin := Heap.mem_extent.mp ho.inside
    rw [hbase, hlimit] at hin
    obtain rfl : page = 0x1000 := by omega
    rw [hno.1, hno.2] at hperm
    simp at hperm
  have hreach : World.Reachable (amd64 false) w := ⟨_, os, by decide +kernel, hrun⟩
  have hnone : ∀ a, s.canRead a = false ∧ s.canWrite a = false := fun a =>
    ⟨Bool.eq_false_of_not_eq_true fun hcan => hpage _ (alignDownToPage_mod _) (.inl hcan),
      Bool.eq_false_of_not_eq_true fun hcan => hpage _ (alignDownToPage_mod _) (.inr hcan)⟩
  obtain ⟨os', σ', hrun', hinert⟩ := (kill_inert hreach hi).mpr hnone _ hmeets
  exact ⟨w, s, os', σ', hreach, hi, hx, hrun', hinert⟩

/-- A page is mapped, readable and writable. After `Kill` the probes still approve of it, and
a write to it succeeds. -/
theorem killed_space_written :
    ∃ (w : World) (s : AddressSpace) (σ' : SpaceState),
      World.Reachable (amd64 false) w ∧ w.spaces[0]? = some s ∧
      (spaceUse (amd64 false)).run [.canRead 0x1000, .canWrite 0x1000, .tryWriteByte 0x1000 7,
        .tryReadByte 0x1000] ⟨s.kill, w.heap⟩ =
          some ([.answer true, .answer true, .answer true, .answer false], σ') := by
  obtain ⟨os, w, s, hrun, hi, hany⟩ := World.run_eval (amd64 false)
    [.new, .addMap 0 0x1000 0x1000 none 0]
    (fun w s => ((spaceUse (amd64 false)).run [.canRead 0x1000, .canWrite 0x1000,
      .tryWriteByte 0x1000 7, .tryReadByte 0x1000] ⟨s.kill, w.heap⟩).any (fun r =>
        decide (r.1 = [.answer true, .answer true, .answer true, .answer false])) = true)
    (by decide +kernel)
  obtain ⟨⟨os', σ'⟩, hrun', hos⟩ := (Option.any_eq_true _ _).mp hany
  obtain rfl : os' = _ := of_decide_eq_true hos
  exact ⟨w, s, σ', ⟨_, os, by decide +kernel, hrun⟩, hi, hrun'⟩

end Vmill
