import Vmill.Executor.CodeCache
import Vmill.Logic.Area

/-!
# The areas of the code cache

The areas grow without a bound of their own. A gigabyte of code reaches the data area
(`code_replaces_data`).
-/

namespace Vmill

open Base

namespace AreaAllocator

/-- The end of the next block. -/
def blockEnd (a : AreaAllocator) (size align : Nat) : Nat :=
  let bump := if a.base = 0 then a.preferredBase else a.bump
  bump + (if align ≠ 0 ∧ bump % align ≠ 0 then align - bump % align else 0) + size

/-- The area is where it was wanted, and ends below `next`. -/
structure Within (a : AreaAllocator) (maps : List (Nat × Nat)) (next : Nat) : Prop where
  wf : a.WF maps
  page : a.pageSize = k2MiB
  start : a.base = 0 ∨ a.base = a.preferredBase
  limit : a.limit ≤ next

/-- Where an area may be: between two 2 MiB boundaries. -/
structure Slot (preferredBase next : Nat) : Prop where
  pos : 0 < preferredBase
  baseMod : k2MiB ∣ preferredBase
  nextMod : k2MiB ∣ next
  lt : preferredBase < next
  bound : next + k2MiB ≤ 2 ^ 64

variable {a a' : AreaAllocator} {h h' : Host} {maps : List (Nat × Nat)} {next size align ret : Nat}
  {first grow : Option Nat}

lemma roundUp_2MiB (hp : a.pageSize = k2MiB) {n : Nat} (hn : n + k2MiB ≤ 2 ^ 64) :
    k2MiB ∣ a.roundUp n ∧ n ≤ a.roundUp n ∧ a.roundUp n < n + k2MiB := by
  have hpow : a.pageSize = 2 ^ 21 := hp
  have hsize : n + (a.pageSize - 1) < 2 ^ 64 := by
    rw [hp]
    unfold k2MiB at hn ⊢
    omega
  have hspec := roundUp_spec (by decide) hpow hsize
  rwa [hp] at hspec

lemma growthSize_le (hp : a.pageSize = k2MiB) {limit last : Nat} (hlimit : k2MiB ∣ limit)
    (hnext : k2MiB ∣ next) (hle : limit ≤ last) (hlt : last < next)
    (hbound : next + k2MiB ≤ 2 ^ 64) : limit + a.growthSize (last - limit) ≤ next := by
  obtain ⟨hdvd, hge, hup⟩ := roundUp_2MiB hp (n := last - limit) (by omega)
  unfold growthSize
  unfold k2MiB at *
  split
  · rw [hp]
    omega
  · omega

lemma initialSize_le (hp : a.pageSize = k2MiB) {start : Nat} (hstart : k2MiB ∣ start)
    (hnext : k2MiB ∣ next) (hlt : start + size < next) (hbound : next + k2MiB ≤ 2 ^ 64) :
    start + a.initialSize size ≤ next ∧ k2MiB ∣ a.initialSize size := by
  obtain ⟨hdvd, hge, hup⟩ := roundUp_2MiB hp (n := size) (by omega)
  unfold initialSize
  unfold k2MiB at *
  split
  · exact ⟨by omega, hdvd⟩
  rw [hp]
  exact ⟨by omega, Nat.dvd_refl _⟩

lemma alignBump_eq {bump : Nat}
    (hlt : bump + (if align ≠ 0 ∧ bump % align ≠ 0 then align - bump % align else 0) < 2 ^ 64) :
    alignBump bump align =
      bump + (if align ≠ 0 ∧ bump % align ≠ 0 then align - bump % align else 0) := by
  unfold alignBump
  by_cases halign : align = 0
  · simp [halign]
  by_cases hmod : bump % align = 0
  · simp [halign, hmod]
  have hboth : align ≠ 0 ∧ bump % align ≠ 0 := ⟨halign, hmod⟩
  rw [if_pos hboth] at hlt
  simp only [ne_eq, halign, not_false_eq_true, if_true, hmod, and_self]
  exact wrap64_of_lt hlt

lemma bumpAllocate_limit (hblock : alignBump a.bump align + size < 2 ^ 64)
    (hgrow : a.limit ≤ alignBump a.bump align + size → a.limit + a.growthSize (alignBump a.bump
      align + size - a.limit) < 2 ^ 64)
    (hr : a.bumpAllocate h size align grow = some (ret, a', h')) :
    a'.limit = (if a.limit ≤ alignBump a.bump align + size then
        a.limit + a.growthSize (alignBump a.bump align + size - a.limit) else a.limit) ∧
      a'.base = a.base ∧ a'.pageSize = a.pageSize ∧ a'.preferredBase = a.preferredBase ∧
      ∀ x, ¬ (a.limit ≤ x ∧ x < a'.limit) → h'.bytes x = h.bytes x := by
  unfold bumpAllocate at hr
  simp only [wrap64_of_lt hblock] at hr
  by_cases hge : alignBump a.bump align + size ≥ a.limit
  · rw [if_pos hge, sub64_of_le hge hblock] at hr
    rw [if_pos hge]
    unfold mapMore at hr
    cases grow with
    | none => exact nomatch hr
    | some addr =>
    by_cases haddr : addr = a.limit
    · subst haddr
      simp only [ne_eq, not_true_eq_false, if_false, wrap64_of_lt (hgrow hge),
        Option.some.injEq, Prod.mk.injEq] at hr
      obtain ⟨rfl, rfl, rfl⟩ := hr
      exact ⟨rfl, rfl, rfl, rfl, fun x hx => mapPages_bytes _ _ hx⟩
    · simp [haddr] at hr
  rw [if_neg hge] at hr
  rw [if_neg hge]
  cases hr
  exact ⟨rfl, rfl, rfl, rfl, fun _ _ => rfl⟩

lemma Within.bumpAllocate (hw : a.Within h.maps next) (hslot : Slot a.preferredBase next)
    (hbase : a.base ≠ 0) (hend : a.blockEnd size align < next) : a.FitsBump size align ∧
    ∀ {grow ret a' h'}, a.bumpAllocate h size align grow = some (ret, a', h') →
      a'.Within h'.maps next ∧ a'.preferredBase = a.preferredBase ∧ a'.base = a.base ∧
        ∀ x, ¬ (a.limit ≤ x ∧ x < a'.limit) → h'.bytes x = h.bytes x := by
  have hbound := hslot.bound
  have hstart : a.base = a.preferredBase := hw.start.resolve_left hbase
  have hbump := hw.wf.bump
  have hmod : k2MiB ∣ a.limit := by
    have hpages := hw.wf.pages
    have hbaseMod := hslot.baseMod
    rw [hw.page] at hpages
    rw [← hstart] at hbaseMod
    unfold k2MiB at *
    omega
  unfold blockEnd at hend
  simp only [hbase, if_false] at hend
  have haligned : alignBump a.bump align = _ := alignBump_eq (by unfold k2MiB at hbound; omega)
  rw [← haligned] at hend
  have hgrown : a.limit ≤ alignBump a.bump align + size →
      a.limit + a.growthSize (alignBump a.bump align + size - a.limit) ≤ next := fun hle =>
    growthSize_le hw.page hmod hslot.nextMod hle hend hbound
  have hfits : a.FitsBump size align := by
    refine ⟨fun halign hne => ?_, ?_, fun hle => ⟨?_, ?_⟩⟩
    · rw [if_pos ⟨halign, hne⟩] at haligned
      unfold k2MiB at hbound
      omega
    · unfold k2MiB at hbound
      omega
    · rw [hw.page]
      unfold k2MiB at hbound ⊢
      omega
    have := hgrown hle
    unfold k2MiB at hbound
    omega
  refine ⟨hfits, fun hr => ?_⟩
  have hal := bumpAllocate_spec hw.wf hbase hfits hr
  obtain ⟨hlimit, hbase', hpage, hpref, hbytes⟩ :=
    bumpAllocate_limit hfits.2.1 (fun hle => (hfits.2.2 hle).2) hr
  refine ⟨⟨hal.wf, hpage.trans hw.page, .inr ?_, ?_⟩, hpref, hbase', hbytes⟩
  · rw [hbase', hpref, hstart]
  rw [hlimit]
  split
  case isTrue hle => exact hgrown hle
  case isFalse => exact hw.limit

lemma blockEnd_of_mapped {a1 : AreaAllocator} (hbase : a.base = 0) (hbase1 : a1.base ≠ 0)
    (hbump : a1.bump = a.preferredBase) : a1.blockEnd size align = a.blockEnd size align := by
  unfold blockEnd
  simp only [hbase, if_true, hbase1, if_false, hbump]

lemma Within.allocate (hw : a.Within h.maps next) (hslot : Slot a.preferredBase next)
    (hfirst : ∀ ret ∈ first, ret = a.preferredBase) (hend : a.blockEnd size align < next)
    (hr : a.allocate h size align first grow = some (ret, a', h')) :
    a'.Within h'.maps next ∧ a'.preferredBase = a.preferredBase ∧
      ∀ x, ¬ (a.preferredBase ≤ x ∧ x < next) → h'.bytes x = h.bytes x := by
  have hbound := hslot.bound
  unfold AreaAllocator.allocate at hr
  by_cases hbase : a.base = 0
  · rw [if_pos hbase] at hr
    -- the first mapping
    have hlt : a.preferredBase + size < next := by
      unfold blockEnd at hend
      simp only [hbase, if_true] at hend
      omega
    obtain ⟨hle, hdvd⟩ := initialSize_le hw.page hslot.baseMod hslot.nextMod hlt hbound
    have hinit : a.FitsInitial size first := by
      refine ⟨?_, fun addr haddr => ?_⟩
      · rw [hw.page]
        unfold k2MiB at hbound ⊢
        omega
      have hpos := hslot.pos
      rw [hfirst addr haddr]
      unfold k2MiB at hbound
      exact ⟨by omega, by omega⟩
    cases hmap : a.mapInitial h size first with
    | none =>
      rw [hmap] at hr
      exact nomatch hr
    | some r =>
    obtain ⟨a1, h1⟩ := r
    rw [hmap] at hr
    obtain ⟨addr, haddr, ha1, hwf1, hne⟩ := mapInitial_spec hw.wf hbase hinit hmap
    rw [hfirst addr haddr] at ha1
    subst ha1
    have hw1 : Within _ h1.maps next := ⟨hwf1, hw.page, .inr rfl, hle⟩
    rw [← blockEnd_of_mapped hbase hne rfl] at hend
    obtain ⟨hw', hpref, hbase', hbytes⟩ := (hw1.bumpAllocate hslot hne hend).2 hr
    refine ⟨hw', hpref, fun x hx => ?_⟩
    have hmapped : h1.bytes x = h.bytes x := by
      cases first with
      | none => exact nomatch hmap
      | some addr =>
      simp only [mapInitial, Option.some.injEq, Prod.mk.injEq] at hmap
      obtain ⟨_, rfl⟩ := hmap
      rw [hfirst addr rfl]
      exact mapPages_bytes _ _ (by omega)
    have hlimit' := hw'.limit
    rw [hbytes x (by simp only; omega), hmapped]
  · rw [if_neg hbase] at hr
    obtain ⟨hw', hpref, _, hbytes⟩ := (hw.bumpAllocate hslot hbase hend).2 hr
    refine ⟨hw', hpref, fun x hx => hbytes x ?_⟩
    have hlimit' := hw'.limit
    have hstart : a.base = a.preferredBase := hw.start.resolve_left hbase
    have hbump := hw.wf.bump
    omega

end AreaAllocator

namespace CodeCache

variable {area area' : CacheArea} {c c' : CodeCache} {op : SectionOp} {base : Nat}

/-- Where the area should start. -/
def startOf : CacheArea → Nat
  | .code => kAreaCodeCacheCode
  | .data => kAreaCodeCacheData
  | .index => kAreaCodeCacheIndex
  | .ctors => 0

/-- Where the next area starts. -/
def nextArea : CacheArea → Nat
  | .code => kAreaCodeCacheData
  | .data => kAreaCodeCacheIndex
  | .index | .ctors => 2 ^ 64 - k2MiB

lemma slot (harea : area ≠ .ctors) : AreaAllocator.Slot (startOf area) (nextArea area) := by
  cases area with
  | code | data | index => exact ⟨by decide, by decide, by decide, by decide, by decide⟩
  | ctors => exact absurd rfl harea

lemma slots_apart (harea : area ≠ .ctors) (harea' : area' ≠ .ctors) (hne : area ≠ area') :
    nextArea area ≤ startOf area' ∨ nextArea area' ≤ startOf area := by
  revert harea harea' hne
  cases area <;> cases area' <;> decide

/-- The addresses of an area. -/
def memory (c : CodeCache) (area : CacheArea) : Set Nat :=
  Set.Ico (c.allocator area).base (c.allocator area).limit

/-- A request for code, data or an index. `mmap` with `MAP_FIXED` maps where it is told to, and
the block ends before the next area starts. -/
def Roomy (c : CodeCache) (op : SectionOp) : Prop :=
  op.area ≠ .ctors ∧
    (∀ ret ∈ op.answers.first, ret = (c.allocator op.area).preferredBase) ∧
    (c.allocator op.area).blockEnd op.size op.align < nextArea op.area
deriving Decidable

/-- Every area is in its slot. -/
structure InSlots (c : CodeCache) : Prop where
  within : ∀ area, area ≠ .ctors → (c.allocator area).Within (c.maps area) (nextArea area)
  preferred : ∀ area, (c.allocator area).preferredBase = startOf area

lemma inSlots_new (bytes : Nat → UInt8) : (new bytes).InSlots := by
  refine ⟨fun area harea => ?_, fun area => ?_⟩
  · have hwf : ∀ perms preferredBase, (AreaAllocator.new perms preferredBase k2MiB).WF [] :=
      fun perms preferredBase => AreaAllocator.new_wf (k := 21) perms preferredBase (by decide)
    cases area with
    | code | data | index => exact ⟨hwf _ _, rfl, .inl rfl, Nat.zero_le _⟩
    | ctors => exact absurd rfl harea
  · cases area <;> rfl

lemma InSlots.memory_subset (h : c.InSlots) (harea : area ≠ .ctors) :
    c.memory area ⊆ Set.Ico (startOf area) (nextArea area) := by
  rintro x ⟨hlo, hhi⟩
  have hw := h.within area harea
  have hlimit := hw.limit
  rcases hw.start with hzero | hstart
  · rw [(hw.wf.unmapped hzero).2.1] at hhi
    omega
  rw [hstart, h.preferred] at hlo
  exact ⟨hlo, by omega⟩

lemma step_allocate (hs : codeCache.step op c = some (base, c')) :
    ∃ a h, (c.allocator op.area).allocate ⟨c.maps op.area, c.bytes⟩ op.size op.align
        op.answers.first op.answers.grow = some (base, a, h) ∧
      c'.allocator = Function.update c.allocator op.area a ∧
      c'.maps = Function.update c.maps op.area h.maps ∧ c'.bytes = h.bytes := by
  have hallocate : ∀ {area : CacheArea} {size align : Nat} {answers : MapAnswers} {ret : Nat}
      {c1 : CodeCache}, c.allocate area size align answers = some (ret, c1) →
      ∃ a h, (c.allocator area).allocate ⟨c.maps area, c.bytes⟩ size align answers.first
          answers.grow = some (ret, a, h) ∧ c1.allocator = Function.update c.allocator area a ∧
        c1.maps = Function.update c.maps area h.maps ∧ c1.bytes = h.bytes := by
    intro area size align answers ret c1 hr
    unfold allocate at hr
    split at hr
    · exact nomatch hr
    case h_2 ret' a h hal =>
        cases hr
        exact ⟨a, h, hal, rfl, rfl, rfl⟩
  cases op with
  | code size alignment sectionId answers =>
    simp only [codeCache, allocateCodeSection] at hs
    split at hs
    · exact nomatch hs
    case h_2 ret c1 hr =>
        cases hs
        obtain ⟨a, h, hal, ha, hm, hb⟩ := hallocate hr
        exact ⟨a, h, hal, ha, hm, hb⟩
  | data size alignment sectionId name isReadOnly answers =>
  simp only [codeCache, allocateDataSection] at hs
  split at hs
  · exact nomatch hs
  case h_2 ret c1 hr =>
      cases hs
      obtain ⟨a, h, hal, ha, hm, hb⟩ := hallocate hr
      exact ⟨a, h, hal, ha, hm, hb⟩

lemma InSlots.step (h : c.InSlots) (hroom : c.Roomy op)
    (hs : codeCache.step op c = some (base, c')) :
    c'.InSlots ∧ ∀ x, ¬ (startOf op.area ≤ x ∧ x < nextArea op.area) → c'.bytes x = c.bytes x := by
  obtain ⟨harea, hfirst, hend⟩ := hroom
  obtain ⟨a, host, hal, hallocator, hmaps, hbytes⟩ := step_allocate hs
  have hpref := h.preferred op.area
  obtain ⟨hw', hpref', hout⟩ := AreaAllocator.Within.allocate
    (h := ⟨c.maps op.area, c.bytes⟩) (h.within op.area harea) (hpref ▸ slot harea) hfirst hend hal
  refine ⟨⟨fun area hne => ?_, fun area => ?_⟩, fun x hx => ?_⟩
  · by_cases hsame : area = op.area
    · subst hsame
      rwa [hallocator, hmaps, Function.update_self, Function.update_self]
    rw [hallocator, hmaps, Function.update_of_ne hsame, Function.update_of_ne hsame]
    exact h.within area hne
  · by_cases hsame : area = op.area
    · subst hsame
      rw [hallocator, Function.update_self, hpref', hpref]
    rw [hallocator, Function.update_of_ne hsame]
    exact h.preferred area
  rw [hbytes]
  exact hout x (by rwa [hpref])

lemma InSlots.not_mem (h : c.InSlots) (harea : area ≠ .ctors) (harea' : area' ≠ .ctors)
    (hne : area ≠ area') {x : Nat} (hx : x ∈ c.memory area) :
    ¬ (startOf area' ≤ x ∧ x < nextArea area') := by
  obtain ⟨hlo, hhi⟩ := h.memory_subset harea hx
  rcases slots_apart harea harea' hne with hle | hle
  · omega
  · omega

end CodeCache

/-- **Areas.** In every run of allocations whose steps meet the condition: the three areas do not
overlap, and no further allocation changes the memory of another area. -/
theorem areas_apart {bytes : Nat → UInt8} {ops : List SectionOp} {bases : List Nat}
    {c : CodeCache} (hmeets : codeCache.RunMeets CodeCache.Roomy ops (CodeCache.new bytes))
    (hrun : codeCache.run ops (CodeCache.new bytes) = some (bases, c)) :
    (∀ area area', area ≠ .ctors → area' ≠ .ctors → area ≠ area' →
      Disjoint (c.memory area) (c.memory area')) ∧
    ∀ op base c', c.Roomy op → codeCache.step op c = some (base, c') →
      ∀ area, area ≠ .ctors → area ≠ op.area → ∀ x ∈ c.memory area, c'.bytes x = c.bytes x := by
  have hslots : c.InSlots := Machine.run_preserves (fun _ _ _ _ h hroom hs => (h.step hroom hs).1)
    (CodeCache.inSlots_new bytes) hmeets hrun
  constructor
  · intro area area' harea harea' hne
    refine Set.disjoint_left.mpr fun x hx hx' => ?_
    exact hslots.not_mem harea harea' hne hx (hslots.memory_subset harea' hx')
  · intro op base c' hroom hs area harea hne x hx
    exact (hslots.step hroom hs).2 x (hslots.not_mem harea hroom.1 hne hx)

def mapsAt (first grow : Nat) : MapAnswers := ⟨some first, some grow⟩

/-- A section of each kind, and a second one for code that makes its area grow. -/
theorem areas_apart_small :
    ∃ bases c, codeCache.run [.code 100 16 1 (mapsAt 0x80000000 0),
        .data 100 64 2 ".rodata" true (mapsAt 0xC0000000 0),
        .data 48 8 3 ".vindex" false (mapsAt 0x10000000000 0),
        .code 0x300000 16 4 (mapsAt 0x80000000 0x80200000)] (CodeCache.new fun _ => 7) =
          some (bases, c) ∧
      (c.allocator .code).limit = 0x80400000 ∧ Disjoint (c.memory .code) (c.memory .data) := by
  have heval : (codeCache.run [.code 100 16 1 (mapsAt 0x80000000 0),
        .data 100 64 2 ".rodata" true (mapsAt 0xC0000000 0),
        .data 48 8 3 ".vindex" false (mapsAt 0x10000000000 0),
        .code 0x300000 16 4 (mapsAt 0x80000000 0x80200000)] (CodeCache.new fun _ => 7)).any (fun r =>
      decide ((r.2.allocator .code).limit = 0x80400000)) = true := by
    decide +kernel
  obtain ⟨⟨bases, c⟩, hrun, hlimit⟩ := (Option.any_eq_true _ _).mp heval
  exact ⟨bases, c, hrun, of_decide_eq_true hlimit,
    (areas_apart (by decide +kernel) hrun).1 _ _ nofun nofun nofun⟩

/-- A gigabyte of code: its area ends where the data area starts, and is then mapped for one
more page. -/
theorem code_replaces_data :
    ∃ bases c base c', codeCache.run [.data 16 16 1 ".rodata" true (mapsAt 0xC0000000 0)]
        (CodeCache.new fun _ => 7) = some (bases, c) ∧
      codeCache.step (.code 0x40000000 16 2 (mapsAt 0x80000000 0xC0000000)) c = some (base, c') ∧
      ¬ Disjoint (c'.memory .code) (c'.memory .data) ∧
      0xC0000000 ∈ c.memory .data ∧ c.bytes 0xC0000000 = 0 ∧ c'.bytes 0xC0000000 = 0xCC := by
  have heval : (codeCache.run [.data 16 16 1 ".rodata" true (mapsAt 0xC0000000 0)]
      (CodeCache.new fun _ => 7)).any (fun r =>
        (codeCache.step (.code 0x40000000 16 2 (mapsAt 0x80000000 0xC0000000)) r.2).any fun r' =>
          decide (((r'.2.allocator .code).base ≤ 0xC0000000 ∧
            0xC0000000 < (r'.2.allocator .code).limit) ∧
            ((r'.2.allocator .data).base ≤ 0xC0000000 ∧
            0xC0000000 < (r'.2.allocator .data).limit) ∧
            ((r.2.allocator .data).base ≤ 0xC0000000 ∧
            0xC0000000 < (r.2.allocator .data).limit) ∧
            r.2.bytes 0xC0000000 = 0 ∧ r'.2.bytes 0xC0000000 = 0xCC)) = true := by
    decide +kernel
  obtain ⟨⟨bases, c⟩, hrun, hany⟩ := (Option.any_eq_true _ _).mp heval
  obtain ⟨⟨base, c'⟩, hstep, hfacts⟩ := (Option.any_eq_true _ _).mp hany
  obtain ⟨hcode, hdata, hbefore, hbytes, hbytes'⟩ := of_decide_eq_true hfacts
  exact ⟨bases, c, base, c', hrun, hstep,
    fun hapart => Set.disjoint_left.mp hapart hcode hdata, hbefore, hbytes, hbytes'⟩

end Vmill
