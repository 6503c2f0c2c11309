import Vmill.Logic.Shadow

/-!
# Elements and pages of shadow memory

`Get` assigns `CatchFault` and then `arch_sys_sigreturn` to the same union, so no fault in the shadow
is served and no page of it is ever mapped: below `shadow_base` no element can be accessed. From
`shadow_base` on every key has an element of its own.
-/

namespace Vmill

open Base

namespace ShadowMemory

variable {T : ShadowType} {m m' : ShadowMemory} {a b addr : Nat} {answers : MapAnswers}
  {ref : ShadowRef}

/-- The value that a load reads, if it returns. -/
def reads (m : ShadowMemory) (T : ShadowType) (addr : Nat) (answers : MapAnswers) : Option Nat :=
  (m.load T addr answers).map Prod.fst

/-- A load returns exactly from `shadow_base` on, with the value of the element. -/
lemma load_spec (h : m.Sound T) (hg : m.Granted T addr answers) :
    addr < m.shadowBase ∧ m.load T addr answers = none ∨
    m.shadowBase ≤ addr ∧ ∃ m', m.load T addr answers = some (m.value T addr, m') ∧
      Reached T m m' := by
  unfold load
  rcases element_spec h hg with ⟨hlow, hnone⟩ | ⟨hhigh, ref, m', hsome, hreached, hplace⟩
  · exact .inl ⟨hlow, by rw [hnone]; rfl⟩
  refine .inr ⟨hhigh, m', ?_, hreached⟩
  rw [hsome, Option.map_some, ← hreached.values, ← hplace.read]

lemma reads_eq (h : m.Sound T) (hg : m.Granted T addr answers) (haddr : m.shadowBase ≤ addr) :
    m.reads T addr answers = some (m.value T addr) := by
  rcases load_spec h hg with ⟨hlow, _⟩ | ⟨_, m', hload, _⟩
  · exact absurd haddr hlow.not_ge
  rw [reads, hload]
  rfl

/-- A store returns exactly from `shadow_base` on, and is an assignment to the element. -/
lemma store_spec (h : m.Sound T) (hg : m.Granted T addr answers) :
    (addr < m.shadowBase ∧ ∀ val, m.store T addr val answers = none) ∨
    m.shadowBase ≤ addr ∧ ∃ ref m',
      (∀ val, m.store T addr val answers = some (m'.assign T ref val)) ∧
      Reached T m m' ∧ m'.Place addr ref := by
  unfold store
  rcases element_spec h hg with ⟨hlow, hnone⟩ | ⟨hhigh, ref, m', hsome, hreached, hplace⟩
  · exact .inl ⟨hlow, fun val => by rw [hnone]; rfl⟩
  · exact .inr ⟨hhigh, ref, m', fun val => by rw [hsome]; rfl, hreached, hplace⟩

/-- **Step lemma**: loads and stores keep the elements apart. -/
lemma Sound.step {op : ShadowOp} {o : Option Nat} (h : m.Sound T)
    (hg : m.Granted T op.addr op.answers) (hs : (shadowMemory T).step op m = some (o, m')) :
    m'.Sound T := by
  cases op with
  | load addr answers =>
    obtain ⟨⟨val, m1⟩, hload, heq⟩ := Option.map_eq_some_iff.mp hs
    obtain ⟨_, rfl⟩ := Prod.mk.inj heq
    rcases load_spec h hg with ⟨_, hnone⟩ | ⟨_, m2, hsome, hreached⟩
    · exact nomatch hnone.symm.trans hload
    obtain ⟨_, rfl⟩ := Prod.mk.inj (Option.mem_unique hsome hload)
    exact hreached.sound
  | store addr val answers =>
  obtain ⟨m1, hstore, heq⟩ := Option.map_eq_some_iff.mp hs
  obtain ⟨_, rfl⟩ := Prod.mk.inj heq
  rcases store_spec h hg with ⟨_, hnone⟩ | ⟨_, ref, m2, hsome, hreached, _⟩
  · exact nomatch (hnone val).symm.trans hstore
  rw [← Option.mem_unique (hsome val) hstore]
  exact hreached.sound.assign ref val

end ShadowMemory

/-- A store through `At<T>(a)`, for every value: it returns, the element of `b` can be read before
and is read with the same value afterwards, and what was stored is read at every address of the
element of `a`. -/
def StoresOnly (T : ShadowType) (m : ShadowMemory) (a b : Nat) (answersA answersB : MapAnswers) :
    Prop :=
  ∀ val, ∃ m', m.store T a val answersA = some m' ∧
    (∃ old, m.reads T b answersB = some old ∧
      ∀ answers, m'.Granted T b answers → m'.reads T b answers = some old) ∧
    ∀ c answers, m.key c = m.key a → (c < m.shadowBase ↔ a < m.shadowBase) →
      m'.reads T c answers = some (T.convert val)

open ShadowMemory in
/-- **Shadow memory.** For every granularity, base and type, in every state that loads and stores
reach, for addresses with different keys: a store through one is seen exactly at the addresses of
its element if and only if both are at or above `shadow_base`. -/
theorem shadow_elements {T : ShadowType} {g p base : Nat} {bytes : ByteMem} {ops : List ShadowOp}
    {os : List (Option Nat)} {m : ShadowMemory}
    (hmeets : (shadowMemory T).RunMeets (fun m op => m.Granted T op.addr op.answers) ops
      (get g p base bytes))
    (hrun : (shadowMemory T).run ops (get g p base bytes) = some (os, m)) {a b : Nat}
    (hkey : m.key a ≠ m.key b) {answersA answersB : MapAnswers} (hA : m.Granted T a answersA)
    (hB : m.Granted T b answersB) :
    StoresOnly T m a b answersA answersB ↔ m.shadowBase ≤ a ∧ m.shadowBase ≤ b := by
  have h : m.Sound T := Machine.run_preserves (I := fun m => m.Sound T)
    (fun _ _ _ _ h hg hs => h.step hg hs) (sound_get g p base bytes) hmeets hrun
  constructor
  · intro hall
    obtain ⟨m', hsome, ⟨old, hold, _⟩, _⟩ := hall 0
    constructor
    · rcases store_spec h hA with ⟨_, hnone⟩ | ⟨hhigh, _⟩
      · exact nomatch (hnone 0).symm.trans hsome
      · exact hhigh
    · rcases load_spec h hB with ⟨_, hnone⟩ | ⟨hhigh, _⟩
      · rw [reads, hnone] at hold
        exact nomatch hold
      · exact hhigh
  rintro ⟨ha, hb⟩ val
  rcases store_spec h hA with ⟨hlow, _⟩ | ⟨_, ref, m1, hstore, hr, hplace⟩
  · exact absurd ha hlow.not_ge
  have hs' := hr.sound.assign ref val
  have hbase : (m1.assign T ref val).shadowBase = m.shadowBase := hr.base
  refine ⟨_, hstore val, ⟨_, reads_eq h hB hb, fun answers hg => ?_⟩, fun c answers hc hside => ?_⟩
  · rw [reads_eq hs' hg (hbase ▸ hb),
      hplace.value_apart hr.sound (by rwa [hr.key, hr.key]), hr.values]
  · have hc1 : m1.key c = m1.key a := by rwa [hr.key, hr.key]
    -- the element of `c` has been allocated
    have hg : (m1.assign T ref val).Granted T c answers := by
      intro _ hnone
      have hptr : m1.outOfRange (m1.key c) = some ref.ptr := hc1 ▸ hplace.1
      exact nomatch hptr.symm.trans hnone
    have hhigh : m.shadowBase ≤ c := Nat.not_lt.mp fun hc => (hside.mp hc).not_ge ha
    rw [← hplace.value_same hc1 val]
    exact reads_eq hs' hg (hbase ▸ hhigh)

/-- Stores to the labels of two addresses above `shadow_base`. -/
def labelOps : List ShadowOp :=
  [.store 0x100000000010 5 ⟨some 0x70000000, none⟩, .store 0x100000000011 6 ⟨none, none⟩]

theorem shadow_elements_labels :
    ∃ os m, (shadowMemory .label).run labelOps defaultShadow = some (os, m) ∧
      m.reads .label 0x100000000010 ⟨none, none⟩ = some 5 ∧
      m.reads .label 0x100000000011 ⟨none, none⟩ = some 6 ∧
      StoresOnly .label m 0x100000000010 0x100000000011 ⟨none, none⟩ ⟨none, none⟩ := by
  have hmeets : (shadowMemory .label).RunMeets
      (fun m op => m.Granted .label op.addr op.answers) labelOps defaultShadow := by
    decide +kernel
  have heval : ((shadowMemory .label).run labelOps defaultShadow).any (fun r =>
      decide (r.2.key 0x100000000010 ≠ r.2.key 0x100000000011 ∧
        r.2.Granted .label 0x100000000010 ⟨none, none⟩ ∧
        r.2.Granted .label 0x100000000011 ⟨none, none⟩ ∧
        r.2.shadowBase = 0x100000000000 ∧
        r.2.reads .label 0x100000000010 ⟨none, none⟩ = some 5 ∧
        r.2.reads .label 0x100000000011 ⟨none, none⟩ = some 6)) = true := by
    decide +kernel
  obtain ⟨⟨os, m⟩, hrun, hfacts⟩ := (Option.any_eq_true _ _).mp heval
  obtain ⟨hkey, hA, hB, hbase, hfirst, hsecond⟩ := of_decide_eq_true hfacts
  exact ⟨os, m, hrun, hfirst, hsecond,
    (shadow_elements hmeets hrun hkey hA hB).mpr (by rw [hbase]; decide)⟩

/-- With the defaults, the bytes of the shadow of the addresses 16 and 24: the first access kills
the process. -/
theorem shadow_store_killed :
    defaultShadow.key 16 ≠ defaultShadow.key 24 ∧
      defaultShadow.action.handler = some .archSysSigreturn ∧
      defaultShadow.store .byte 16 255 ⟨none, none⟩ = none ∧
      ¬ StoresOnly .byte defaultShadow 16 24 ⟨none, none⟩ ⟨none, none⟩ := by
  have hstore : defaultShadow.store .byte 16 255 ⟨none, none⟩ = none := by rfl
  refine ⟨by decide, rfl, hstore, fun hall => ?_⟩
  obtain ⟨m', hsome, _⟩ := hall 255
  exact nomatch hstore.symm.trans hsome

namespace ShadowMemory

variable {m m' : ShadowMemory} {T : ShadowType} {addr : Nat} {answers : MapAnswers}

/-- Without a size for the elements, `GreatestCommonDivisor` does not return. -/
lemma shadowPageSize_zero (hbits : m.lastShadowElemSizeBits = 0) : m.shadowPageSize = none := by
  have hzero : wrap64 0 / 8 = 0 := by decide
  unfold shadowPageSize leastCommonMultiple greatestCommonDivisor
  simp only [hbits, Nat.mul_zero, hzero, greatestCommonDivisorLoop_zero _ (show 0 < 4096 by decide),
    Option.map_none]

/-- **Step lemma**: no call maps a page of the shadow. -/
lemma Unmapped.step {call : ShadowCall} {o : Option ShadowRef} (h : m.Unmapped)
    (hs : shadowCalls.step call m = some (o, m')) : m'.Unmapped := by
  cases call with
  | call T addr answers =>
    obtain ⟨⟨ref, m1⟩, hat, heq⟩ := Option.map_eq_some_iff.mp hs
    obtain ⟨_, rfl⟩ := Prod.mk.inj heq
    by_cases haddr : addr < m.shadowBase
    · exact nomatch (h.at' haddr T answers).symm.trans hat
    unfold ShadowMemory.at' at hat
    rw [if_neg haddr] at hat
    split at hat
    · cases hat
      exact h
    split at hat
    · exact nomatch hat
    cases hat
    exact ⟨h.pages, h.action, h.bits⟩
  | touch x =>
    obtain ⟨m1, htouch, _⟩ := Option.map_eq_some_iff.mp hs
    exact nomatch (Unmapped.touch h.pages h.action x).symm.trans htouch
  | addPage x =>
    obtain ⟨⟨ok, m1⟩, hadd, heq⟩ := Option.map_eq_some_iff.mp hs
    obtain ⟨_, rfl⟩ := Prod.mk.inj heq
    unfold addPageForAddress at hadd
    split at hadd
    · cases hadd
      exact h
    · rw [shadowPageSize_zero h.bits] at hadd
      exact nomatch hadd

/-- `At<T>(addr)` returns, its forcing read having been served, and all of the element can be used:
every byte of it is mapped, and no access to it faults. -/
def Serves (m : ShadowMemory) (T : ShadowType) (addr : Nat) (answers : MapAnswers) : Prop :=
  ∃ ref m', m.at' T addr answers = some (ref, m') ∧
    ∀ j < T.size, m'.mapped (ref.ptr + j) = true ∧ m'.touch (ref.ptr + j) = some m'

/-- All bytes of the element of `addr` are mapped. -/
def Covered (m : ShadowMemory) (T : ShadowType) (addr : Nat) : Prop :=
  ∀ j < T.size, m.mapped (wrap64 (m.key addr + m.shadowBase) + j) = true

instance (m : ShadowMemory) (T : ShadowType) (addr : Nat) : Decidable (m.Covered T addr) :=
  inferInstanceAs (Decidable (∀ j < T.size, _))

/-- With the action of `Get`, no page is added when it is needed. -/
lemma serves_iff (haction : m.action = .ofGet) (haddr : addr < m.shadowBase) :
    m.Serves T addr answers ↔ m.Covered T addr := by
  unfold Serves ShadowMemory.at'
  rw [if_pos haddr]
  constructor
  · rintro ⟨ref, m', hat, hall⟩ j hj
    unfold touch at hat
    simp only [setLast, haction] at hat
    split at hat
    · exact nomatch hat
    rename_i m1 htouch
    split at htouch
    · cases htouch
      cases hat
      exact (hall j hj).1
    · exact nomatch htouch
  · intro hall
    have hfirst : (m.setLast T addr).mapped (m.setLast T addr).lastShadowAddress = true :=
      hall 0 T.size_pos
    have htouch : (m.setLast T addr).touch (m.setLast T addr).lastShadowAddress =
        some (m.setLast T addr) := by
      unfold touch
      rw [if_pos hfirst]
    simp only [htouch]
    refine ⟨_, _, rfl, fun j hj => ⟨hall j hj, ?_⟩⟩
    unfold touch
    rw [if_pos (by exact hall j hj)]

end ShadowMemory

open ShadowMemory

end Vmill
