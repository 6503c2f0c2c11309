import Mathlib.Data.Nat.GCD.Basic
import Vmill.Logic.Area
import Vmill.Program.ShadowMemory

/-!
# Elements of shadow memory

No page of the shadow is ever mapped, so only the elements from `shadow_base` on can be accessed.
They are blocks of the allocator, one for each key.
-/

namespace Vmill

open Base

variable {k m : Nat}

namespace ShadowType

variable {T : ShadowType} {bytes bytes' : ByteMem} {ptr bit : Nat}

/-- Setting the bit of a mask, and clearing it where it is set. -/
lemma mask_facts : ∀ (b : Fin 256) (k : Fin 8),
    ((UInt8.ofNat b.val ||| testMask k.val) &&& testMask k.val ≠ 0) ∧
      (UInt8.ofNat b.val &&& testMask k.val ≠ 0 →
        (UInt8.ofNat b.val ^^^ testMask k.val) &&& testMask k.val = 0) := by
  decide +kernel

lemma or_testMask (b : UInt8) (hbit : bit < 8) : (b ||| testMask bit) &&& testMask bit ≠ 0 := by
  have h := (mask_facts ⟨b.toNat, b.toNat_lt⟩ ⟨bit, hbit⟩).1
  rwa [UInt8.ofNat_toNat] at h

lemma xor_testMask {b : UInt8} (hbit : bit < 8) (hb : b &&& testMask bit ≠ 0) :
    (b ^^^ testMask bit) &&& testMask bit = 0 := by
  have h := (mask_facts ⟨b.toNat, b.toNat_lt⟩ ⟨bit, hbit⟩).2
  rw [UInt8.ofNat_toNat] at h
  exact h hb

/-- An assignment changes no byte but those of the element. -/
lemma write_of_outside {val x : Nat} (hx : x < ptr ∨ ptr + T.size ≤ x) :
    T.write bytes ptr bit val x = bytes x := by
  cases T with
  | bool =>
    have hne : x ≠ ptr := by
      simp only [size] at hx
      omega
    unfold write
    simp only
    split
    · split
      · exact Function.update_of_ne hne _ _
      · exact Function.update_of_ne hne _ _
    · rfl
  | object size align pos => exact store_of_outside val hx

lemma read_congr (h : Agree bytes bytes' ptr T.size) :
    T.read bytes ptr bit = T.read bytes' ptr bit := by
  cases T with
  | bool =>
    have hptr : bytes ptr = bytes' ptr := h.apply ⟨le_rfl, Nat.lt_succ_self _⟩
    simp only [read, hptr]
  | object size align pos => exact load_congr h

/-- What is assigned is read, as a value of the type. -/
lemma read_write (val : Nat) (hbit : bit < 8) :
    T.read (T.write bytes ptr bit val) ptr bit = T.convert val := by
  cases T with
  | bool =>
    unfold write convert read
    by_cases hval : val = 0
    · by_cases hcache : bytes ptr &&& testMask bit = 0
      · simp [hval, hcache]
      · simp [hval, hcache, xor_testMask hbit hcache]
    by_cases hcache : bytes ptr &&& testMask bit = 0
    · simp [hval, hcache, or_testMask (bytes ptr) hbit]
    · simp [hval, hcache]
  | object size align pos => exact load_store _ _ _ _

lemma size_pos (T : ShadowType) : 0 < T.size := by
  cases T with
  | bool => exact Nat.one_pos
  | object size align pos => exact pos

lemma read_zero : T.read (store bytes ptr T.size 0) ptr bit = 0 := by
  cases T with
  | bool =>
    have hzero : store bytes ptr 1 0 ptr = 0 := by simp [store]
    simp [read, size, hzero]
  | object size align pos => exact (load_store _ _ _ _).trans (Nat.zero_mod _)

end ShadowType

lemma greatestCommonDivisorLoop_eq {fuel : Nat} (hk : 0 < k) (hm : 0 < m) (hfuel : k + m < fuel) :
    greatestCommonDivisorLoop fuel k m = some (k.gcd m) := by
  induction fuel generalizing k m with
  | zero => omega
  | succ fuel ih =>
  unfold greatestCommonDivisorLoop
  rcases Nat.lt_trichotomy k m with hlt | heq | hgt
  · rw [if_pos hlt.ne, if_neg hlt.le.not_gt,
      ih hk (Nat.sub_pos_of_lt hlt) (by omega), Nat.gcd_sub_self_right hlt.le]
  · rw [heq, if_neg (not_not.mpr rfl), Nat.gcd_self]
  rw [if_pos hgt.ne', if_pos hgt,
    ih (Nat.sub_pos_of_lt hgt) hm (by omega), Nat.gcd_sub_self_left hgt.le]

lemma greatestCommonDivisorLoop_zero (fuel : Nat) (hm : 0 < m) :
    greatestCommonDivisorLoop fuel 0 m = none := by
  induction fuel with
  | zero => rfl
  | succ fuel ih =>
  unfold greatestCommonDivisorLoop
  rw [if_pos hm.ne, if_neg (Nat.not_lt_zero m), Nat.sub_zero, ih]

namespace ShadowMemory

variable {T : ShadowType} {m m' : ShadowMemory} {addr a b : Nat} {answers : MapAnswers}
  {ref : ShadowRef}

/-- What is kept from `Get` on: no page of the shadow is mapped, `arch_sys_sigreturn` is called for
a fault, and as long as no element below `shadow_base` was asked for, there is no size for a page. -/
structure Unmapped (m : ShadowMemory) : Prop where
  pages : m.shadowPages = []
  action : m.action = .ofGet
  bits : m.lastShadowElemSizeBits = 0

lemma unmapped_get (g p base : Nat) (bytes : ByteMem) : (get g p base bytes).Unmapped :=
  ⟨rfl, rfl, rfl⟩

/-- Every access to the shadow faults. -/
lemma Unmapped.touch (hpages : m.shadowPages = []) (haction : m.action = .ofGet) (x : Nat) :
    m.touch x = none := by
  unfold ShadowMemory.touch mapped
  rw [hpages, haction]
  rfl

lemma Unmapped.at' (h : m.Unmapped) (haddr : addr < m.shadowBase) (T : ShadowType)
    (answers : MapAnswers) : m.at' T addr answers = none := by
  have htouch := Unmapped.touch (m := m.setLast T addr) h.pages h.action
    (m.setLast T addr).lastShadowAddress
  unfold ShadowMemory.at'
  rw [if_pos haddr]
  simp only [htouch]

/-- The elements from `shadow_base` on are blocks of the allocator, apart from each other. -/
structure Slots (m : ShadowMemory) (T : ShadowType) : Prop where
  area : m.outOfRangeAllocator.WF m.host.maps
  inside : ∀ k ptr, m.outOfRange k = some ptr → m.outOfRangeAllocator.base ≤ ptr ∧
    ptr + T.size ≤ m.outOfRangeAllocator.bump
  apart : ∀ k k' ptr ptr', k ≠ k' → m.outOfRange k = some ptr → m.outOfRange k' = some ptr' →
    Distinct ptr T.size ptr' T.size

/-- The states that loads and stores of elements of one type lead to. -/
structure Sound (m : ShadowMemory) (T : ShadowType) : Prop where
  unmapped : m.Unmapped
  slots : m.Slots T

lemma sound_get (g p base : Nat) (bytes : ByteMem) : (get g p base bytes).Sound T :=
  ⟨unmapped_get g p base bytes, AreaAllocator.new_wf (k := 12) _ _ (by decide),
    fun _ _ hk => (nomatch hk), fun _ _ _ _ _ hk => (nomatch hk)⟩

/-- The value of an element from `shadow_base` on, which is zero before it is allocated. -/
def value (m : ShadowMemory) (T : ShadowType) (addr : Nat) : Nat :=
  match m.outOfRange (m.key addr) with
  | none => 0
  | some ptr => T.read m.host.bytes ptr 0

/-- `mmap` grants the allocator what it needs for an element, and no address overflows. -/
def Granted (m : ShadowMemory) (T : ShadowType) (addr : Nat) (answers : MapAnswers) : Prop :=
  m.shadowBase ≤ addr → m.outOfRange (m.key addr) = none →
    m.outOfRangeAllocator.Fits T.size T.align answers.first ∧
    (m.outOfRangeAllocator.allocate m.host T.size T.align answers.first answers.grow).isSome = true
deriving Decidable

/-- The reference is to the element of the address, which has been allocated. -/
def Place (m : ShadowMemory) (addr : Nat) (ref : ShadowRef) : Prop :=
  m.outOfRange (m.key addr) = some ref.ptr ∧ ref.bit = 0

/-- What an access to an element leaves alone. -/
structure Reached (T : ShadowType) (m m' : ShadowMemory) : Prop where
  sound : m'.Sound T
  granularity : m'.shadowGranularity = m.shadowGranularity
  base : m'.shadowBase = m.shadowBase
  values : ∀ addr, m'.value T addr = m.value T addr

lemma Reached.key (h : Reached T m m') (addr : Nat) : m'.key addr = m.key addr := by
  unfold ShadowMemory.key
  rw [h.granularity]

/-- The element of an address seen for the first time. -/
lemma element_allocate (h : m.Sound T) (haddr : m.shadowBase ≤ addr)
    (hg : m.Granted T addr answers) (hnew : m.outOfRange (m.key addr) = none) :
    ∃ ref m', m.element T addr answers = some (ref, m') ∧ Reached T m m' ∧ m'.Place addr ref := by
  obtain ⟨hfits, hsome⟩ := hg haddr hnew
  obtain ⟨⟨ptr, area, host⟩, hal⟩ := Option.isSome_iff_exists.mp hsome
  have hspec := AreaAllocator.allocate_spec h.slots.area hfits hal
  have hbump := hspec.wf.bump
  have hends := hspec.ends
  have hbehind := hspec.behind
  -- elements of before are in front of the new one
  have hold : ∀ {k ptr'}, m.outOfRange k = some ptr' → area.base ≤ ptr' ∧ ptr' + T.size ≤ ptr ∧
      ∀ x, ptr' ≤ x → x < ptr' + T.size → host.bytes x = m.host.bytes x := by
    intro k ptr' hk
    have hsize := T.size_pos
    obtain ⟨hlo, hhi⟩ := h.slots.inside k ptr' hk
    have hbump' := h.slots.area.bump
    refine ⟨?_, by omega, fun x hx hx' => hspec.bytes x (by omega) (by omega)⟩
    rcases hspec.base with hzero | hsame
    · have hunmapped := (h.slots.area.unmapped hzero).1
      omega
    · omega
  have helement : m.element T addr answers = some (⟨ptr, 0, false⟩,
      { m with
        outOfRange := Function.update m.outOfRange (m.key addr) (some ptr)
        outOfRangeAllocator := area
        host := { host with bytes := Base.store host.bytes ptr T.size 0 } }) := by
    unfold element ShadowMemory.at'
    rw [if_neg haddr.not_gt, hnew, hal]
    rfl
  have hlookup : ∀ {k ptr'},
      Function.update m.outOfRange (m.key addr) (some ptr) k = some ptr' →
      k = m.key addr ∧ ptr' = ptr ∨ k ≠ m.key addr ∧ m.outOfRange k = some ptr' := by
    intro k ptr' hk
    rw [Function.update_apply] at hk
    split at hk
    case isTrue heq => exact .inl ⟨heq, (Option.some.inj hk).symm⟩
    case isFalse hne => exact .inr ⟨hne, hk⟩
  refine ⟨_, _, helement, ⟨⟨⟨h.unmapped.pages, h.unmapped.action, h.unmapped.bits⟩, hspec.wf,
    fun k ptr' hk => ?_, fun k k' ptr1 ptr2 hne hk hk' => ?_⟩, rfl, rfl, fun x => ?_⟩,
    Function.update_self _ _ _, rfl⟩
  · rcases hlookup hk with ⟨_, rfl⟩ | ⟨_, hk0⟩
    · exact ⟨hspec.inside, Nat.le_of_eq hends⟩
    obtain ⟨hlo, hhi, _⟩ := hold hk0
    exact ⟨hlo, by dsimp only; omega⟩
  · rcases hlookup hk with ⟨rfl, rfl⟩ | ⟨_, hk0⟩
    · rcases hlookup hk' with ⟨rfl, _⟩ | ⟨_, hk0'⟩
      · exact absurd rfl hne
      · exact .inr (hold hk0').2.1
    rcases hlookup hk' with ⟨_, rfl⟩ | ⟨_, hk0'⟩
    · exact .inl (hold hk0).2.1
    · exact h.slots.apart k k' ptr1 ptr2 hne hk0 hk0'
  · unfold value
    show (match Function.update m.outOfRange (m.key addr) (some ptr) (m.key x) with
      | none => 0
      | some ptr => T.read (Base.store host.bytes _ T.size 0) ptr 0) = _
    by_cases hsame : m.key x = m.key addr
    · rw [hsame, Function.update_self, hnew]
      exact ShadowType.read_zero
    rw [Function.update_of_ne hsame]
    cases hk : m.outOfRange (m.key x) with
    | none => rfl
    | some ptr' =>
    obtain ⟨_, hfront, hbytes⟩ := hold hk
    refine ShadowType.read_congr fun i hi => ?_
    rw [store_of_outside _ (by omega), hbytes _ (by omega) (by omega)]

/-- An element below `shadow_base` cannot be accessed; any other can, and no value changes. -/
lemma element_spec (h : m.Sound T) (hg : m.Granted T addr answers) :
    addr < m.shadowBase ∧ m.element T addr answers = none ∨
    m.shadowBase ≤ addr ∧ ∃ ref m', m.element T addr answers = some (ref, m') ∧
      Reached T m m' ∧ m'.Place addr ref := by
  by_cases haddr : addr < m.shadowBase
  · refine .inl ⟨haddr, ?_⟩
    unfold element
    rw [h.unmapped.at' haddr]
  refine .inr ⟨Nat.not_lt.mp haddr, ?_⟩
  cases hk : m.outOfRange (m.key addr) with
  | none => exact element_allocate h (Nat.not_lt.mp haddr) hg hk
  | some ptr =>
  refine ⟨⟨ptr, 0, false⟩, m, ?_, ⟨h, rfl, rfl, fun _ => rfl⟩, hk, rfl⟩
  unfold element ShadowMemory.at'
  rw [if_neg haddr, hk]
  rfl

lemma Place.read (hp : m.Place addr ref) :
    T.read m.host.bytes ref.ptr ref.bit = m.value T addr := by
  unfold value
  rw [hp.1, hp.2]

lemma Sound.assign (h : m.Sound T) (ref : ShadowRef) (val : Nat) : (m.assign T ref val).Sound T :=
  ⟨⟨h.unmapped.pages, h.unmapped.action, h.unmapped.bits⟩,
    h.slots.area, h.slots.inside, h.slots.apart⟩

/-- A store through one element is not seen through another. -/
lemma Place.value_apart (h : m.Sound T) (hp : m.Place a ref) (hkey : m.key a ≠ m.key b)
    (val : Nat) : (m.assign T ref val).value T b = m.value T b := by
  unfold value
  show (match m.outOfRange (m.key b) with | none => 0 | some ptr => _) = _
  cases hk : m.outOfRange (m.key b) with
  | none => rfl
  | some ptr =>
  refine ShadowType.read_congr fun j hj => ?_
  have hd := h.slots.apart _ _ _ _ hkey hp.1 hk
  unfold Distinct at hd
  exact ShadowType.write_of_outside (by omega)

/-- A store through an element is seen at every address with its key. -/
lemma Place.value_same {c : Nat} (hp : m.Place a ref) (hkey : m.key c = m.key a) (val : Nat) :
    (m.assign T ref val).value T c = T.convert val := by
  have hlookup : (m.assign T ref val).outOfRange ((m.assign T ref val).key c) = some ref.ptr :=
    (congrArg m.outOfRange hkey).trans hp.1
  have hread : T.read (T.write m.host.bytes ref.ptr 0 val) ref.ptr 0 = T.convert val :=
    ShadowType.read_write val (by decide)
  unfold value
  rw [hlookup, ← hread]
  show T.read (T.write m.host.bytes ref.ptr ref.bit val) ref.ptr 0 = _
  rw [hp.2]

end ShadowMemory

end Vmill
