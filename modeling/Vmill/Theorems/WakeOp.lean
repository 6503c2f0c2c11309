import Vmill.Base.SignedBits
import Vmill.Logic.Buffer
import Vmill.Logic.World
import Vmill.Spec.WakeOp
import Vmill.Theorems.Wake

/-!
# `FUTEX_WAKE_OP`

The check in front of the shift asks for a positive exponent where it should ask for a negative one:
it turns away 1 to 31, and lets negative exponents through to a shift that is undefined. The checks
of the word at `uaddr2` look at its first byte.
-/

namespace Vmill.Linux

open Base Futex

variable {n : Nat}

section
variable (op : BitVec 32)

/-- A shift that the code does not handle as it should. -/
def BadShift : Prop :=
  shifts op ∧ ((oparg op).toInt < 0 ∨ 1 ≤ (oparg op).toInt ∧ (oparg op).toInt ≤ 31)
deriving Decidable

lemma signed12_eq (i : Nat) :
    signed12 (op.toNat / 2 ^ i) = ((op.extractLsb' i 12).signExtend 32).toInt := by
  rw [BitVec.toInt_signExtend_of_le (by decide), BitVec.toInt_eq_toNat_cond,
    BitVec.extractLsb'_toNat, Nat.shiftRight_eq_div_pow]
  unfold signed12
  split <;> split <;> omega

lemma cmparg_eq : signed12 op.toNat = (cmparg op).toInt := by
  have h := signed12_eq op 0
  rwa [Nat.pow_zero, Nat.div_one] at h

lemma comparator_field : op.toNat / 2 ^ 24 % 16 = (op.extractLsb' 24 4).toNat := by
  rw [BitVec.extractLsb'_toNat, Nat.shiftRight_eq_div_pow]

lemma operator_field :
    (op.toNat / 2 ^ 28 % 16 &&& 8 ≠ 0 ↔ shifts op) ∧
      (shifts op → op.toNat / 2 ^ 28 % 16 ^^^ 8 = (op.extractLsb' 28 3).toNat) ∧
      (¬ shifts op → op.toNat / 2 ^ 28 % 16 = (op.extractLsb' 28 3).toNat) := by
  have hlt := op.isLt
  have hflag : shifts op ↔ 8 ≤ op.toNat / 2 ^ 28 % 16 := by
    unfold shifts
    rw [BitVec.getLsbD, Nat.testBit_eq_decide_div_mod_eq, decide_eq_true_iff]
    omega
  have hfield : (op.extractLsb' 28 3).toNat = op.toNat / 2 ^ 28 % 16 % 8 := by
    rw [BitVec.extractLsb'_toNat, Nat.shiftRight_eq_div_pow]
    omega
  have hbits : ∀ k < 16, (k &&& 8 ≠ 0 ↔ 8 ≤ k) ∧ (8 ≤ k → k ^^^ 8 = k % 8) ∧
      (¬ 8 ≤ k → k = k % 8) := by decide
  rw [hflag, hfield]
  exact hbits _ (Nat.mod_lt _ (by decide))

lemma futexShift_good (hgood : ¬ BadShift op) :
    futexShift (op.toNat / 2 ^ 28 % 16) (signed12 (op.toNat / 2 ^ 12)) =
      some ((argument op).map ((op.extractLsb' 28 3).toNat, ·.toInt)) := by
  obtain ⟨hflag, hshift, hplain⟩ := operator_field op
  have harg : signed12 (op.toNat / 2 ^ 12) = (oparg op).toInt := signed12_eq op 12
  unfold futexShift argument
  by_cases hs : shifts op
  · have hcases : (oparg op).toInt = 0 ∨ 31 < (oparg op).toInt := by
      unfold BadShift at hgood
      rw [not_and] at hgood
      have := hgood hs
      omega
    rw [if_pos (hflag.mpr hs), if_pos hs, harg]
    rcases hcases with hzero | hlarge
    · have hword : oparg op = 0#32 := BitVec.eq_of_toInt_eq (by rw [hzero]; rfl)
      rw [if_neg (by omega), if_neg (by omega), if_pos (by omega), hshift hs, hword]
      rfl
    rw [if_pos (.inr hlarge), if_neg (by omega)]
    rfl
  rw [if_neg (fun h => hs (hflag.mp h)), if_neg hs, harg, hplain hs]
  rfl

lemma futexShift_bad (hbad : BadShift op) :
    ((oparg op).toInt < 0 ∧
        futexShift (op.toNat / 2 ^ 28 % 16) (signed12 (op.toNat / 2 ^ 12)) = none) ∨
      (0 ≤ (oparg op).toInt ∧ (oparg op).toInt ≤ 31 ∧
        futexShift (op.toNat / 2 ^ 28 % 16) (signed12 (op.toNat / 2 ^ 12)) = some none) := by
  obtain ⟨hs, hrange⟩ := hbad
  have harg : signed12 (op.toNat / 2 ^ 12) = (oparg op).toInt := signed12_eq op 12
  unfold futexShift
  rw [if_pos ((operator_field op).1.mpr hs), harg]
  rcases hrange with hneg | ⟨hone, hmax⟩
  · exact .inl ⟨hneg, by rw [if_neg (by omega), if_pos hneg]⟩
  · exact .inr ⟨by omega, hmax, by rw [if_pos (by omega)]⟩

end

lemma toInt32_eq (n : Int) : toInt32 n = n.bmod (2 ^ 32) := by
  unfold toInt32 Int.bmod
  simp only
  split <;> omega

lemma futexOperator_eq {o : Operator} (ho : Operator.all[n]? = some o) (old arg : BitVec 32) :
    futexOperator n old.toInt arg.toInt = (o.apply old arg).toInt := by
  obtain ⟨hlt, heq⟩ := List.getElem?_eq_some_iff.mp ho
  have hcases : n = 0 ∨ n = 1 ∨ n = 2 ∨ n = 3 ∨ n = 4 := by
    simp only [Operator.all, List.length_cons, List.length_nil] at hlt
    omega
  subst heq
  rcases hcases with rfl | rfl | rfl | rfl | rfl
  · rfl
  · show toInt32 (old.toInt + arg.toInt) = (old + arg).toInt
    rw [toInt32_eq, BitVec.toInt_add]
  · exact (toInt_lor old arg).symm
  · exact (toInt_land_lnot old arg).symm
  · exact (toInt_lxor old arg).symm

lemma futexComparator_eq {c : Comparator} (hc : Comparator.all[n]? = some c)
    (old arg : BitVec 32) : futexComparator n old.toInt arg.toInt = c.holds old arg := by
  obtain ⟨hlt, heq⟩ := List.getElem?_eq_some_iff.mp hc
  have hcases : n = 0 ∨ n = 1 ∨ n = 2 ∨ n = 3 ∨ n = 4 ∨ n = 5 := by
    simp only [Comparator.all, List.length_cons, List.length_nil] at hlt
    omega
  have hsame : decide (old.toInt = arg.toInt) = decide (old = arg) :=
    decide_eq_decide.mpr BitVec.toInt_inj
  subst heq
  rcases hcases with rfl | rfl | rfl | rfl | rfl | rfl
  · exact hsame
  · show decide (old.toInt ≠ arg.toInt) = !decide (old = arg)
    rw [decide_not, hsame]
  · rfl
  · rfl
  · rfl
  · rfl

/-- What the call finds at `uaddr`: a word whose four bytes are mapped, readable and writable; or,
on a page that is not readable, nothing. -/
inductive FindsWord (g : Guest) (uaddr : Nat) : Option (BitVec 32) → Prop
  | ready (read : g.MayRead uaddr 4) (write : g.MayWrite uaddr 4) :
      FindsWord g uaddr (some (BitVec.ofNat 32 (bytesNumber (g.bytesAt uaddr 4))))
  | unreadable (first : g.space.canRead uaddr = false) : FindsWord g uaddr none

/-- Memory after the word at `uaddr` has been stored. -/
def withWord (g : Guest) (uaddr : Nat) (val : BitVec 32) : Nat → Option UInt8 :=
  overwrite g.mem uaddr ((numberBytes 4 val.toNat).map some)

section
variable {σ σ' : Kernel} {task uaddr1 uaddr2 numToWake1 numToWake2 uaddr : Nat} {op : BitVec 32}
  {word : Option (BitVec 32)} {g : Guest} {woken : List Nat} {cfg : Config}

lemma guestWord_ready (cfg : Config) (hg : g.WF) (hread : g.MayRead uaddr 4) (hwrite : g.MayWrite uaddr 4) :
    ∃ g1, (guestWord cfg uaddr).tryRead g =
        some (some (BitVec.ofNat 32 (bytesNumber (g.bytesAt uaddr 4))).toInt, g1) ∧
      (guestWord cfg uaddr).canWrite g1 = some true ∧
      ∀ val : BitVec 32, ∃ g', (guestWord cfg uaddr).tryWrite val.toInt g1 = some (true, g') ∧
        g.Becomes g' (withWord g uaddr val) := by
  obtain ⟨g1, htry, hbecomes⟩ := hread.tryReadMemory hg
  have hwrite1 := hbecomes.mayWrite hg hwrite
  refine ⟨g1, ?_, hwrite1.check (hbecomes.wf hg), fun val => ?_⟩
  · show (g.tryReadMemory uaddr 4).map _ = _
    rw [htry, BitVec.toInt_ofNat', ← toInt32_eq]
    rfl
  have hbits : (val.toInt % 2 ^ 32).toNat = val.toNat := by
    have hlt := val.isLt
    rw [BitVec.toInt_eq_toNat_cond]
    split <;> omega
  have hlen : (numberBytes 4 val.toNat).length = 4 := by
    rw [numberBytes, List.length_map, List.length_range]
  rw [← hlen] at hwrite1
  obtain ⟨g', hstore, hstored⟩ := hwrite1.tryWriteMemory cfg (hbecomes.wf hg)
  refine ⟨g', ?_, hbecomes.trans ?_⟩
  · show g1.tryWriteMemory cfg uaddr _ = _
    rw [hbits, hstore]
  · rw [hbecomes.mem] at hstored
    exact hstored

lemma guestWord_unreadable (hg : g.WF) (hfirst : g.space.canRead uaddr = false) :
    (guestWord cfg uaddr).tryRead g = some (none, g) := by
  have hcheck : g.canReadMemory uaddr 4 = some false := by
    rw [Guest.canReadMemory_small hg.space.mask (by decide) (by decide), ← hfirst]
    unfold AddressSpace.canRead Guest.addrT
    rw [AddressSpace.mask_mask g.space]
  show (g.tryReadMemory uaddr 4).map _ = _
  unfold Guest.tryReadMemory
  rw [hcheck]
  rfl

/-- The wakes of `DoFutexWakeOp`. -/
def wakeBoth (σ : Kernel) (task uaddr1 uaddr2 numToWake1 numToWake2 : Nat) (another : Bool)
    (g : Guest) : Option (Out × Kernel × Guest) :=
  match doWake σ task uaddr1 (2 ^ 32 - 1) numToWake1 with
  | none => none
  | some (woken1, σ1) =>
    if another then
      match doWake σ1 task uaddr2 (2 ^ 32 - 1) numToWake2 with
      | none => none
      | some (woken2, σ2) =>
        some (.woke task (woken1.map (·, uaddr1) ++ woken2.map (·, uaddr2))
          (woken1.length + woken2.length), σ2, g)
    else some (.woke task (woken1.map (·, uaddr1)) woken1.length, σ1, g)

lemma doFutexWakeOp_good (cfg : Config) (σ : Kernel) (task uaddr1 numToWake1 numToWake2 : Nat)
    (hgood : ¬ BadShift op) (hg : g.WF) (hword : FindsWord g uaddr2 word) :
    match wakeOp op word with
    | .fails code =>
      doFutexWakeOp (guestWord cfg uaddr2) σ task uaddr1 uaddr2 numToWake1 numToWake2 op.toNat g =
        some (.returned task code, σ, g)
    | .wakes newVal another => ∃ g', g.Becomes g' (withWord g uaddr2 newVal) ∧
      doFutexWakeOp (guestWord cfg uaddr2) σ task uaddr1 uaddr2 numToWake1 numToWake2 op.toNat g =
        wakeBoth σ task uaddr1 uaddr2 numToWake1 numToWake2 another g' := by
  unfold doFutexWakeOp wakeOp
  simp only [futexShift_good op hgood, comparator_field, cmparg_eq]
  cases argument op with
  | none => rfl
  | some arg =>
  simp only [Option.map_some]
  cases hop : operator op with
  | none =>
    have hlarge : (op.extractLsb' 28 3).toNat > 4 := by
      have hge := List.getElem?_eq_none_iff.mp hop
      simp only [Operator.all, List.length_cons, List.length_nil] at hge
      omega
    simp only [if_pos hlarge]
  | some o =>
  have hsmall : ¬ (op.extractLsb' 28 3).toNat > 4 := by
    have hlt := (List.getElem?_eq_some_iff.mp hop).1
    simp only [Operator.all, List.length_cons, List.length_nil] at hlt
    omega
  simp only [if_neg hsmall]
  cases hcmp : comparator op with
  | none =>
    have hlarge : (op.extractLsb' 24 4).toNat > 5 := by
      have hge := List.getElem?_eq_none_iff.mp hcmp
      simp only [Comparator.all, List.length_cons, List.length_nil] at hge
      omega
    simp only [if_pos hlarge]
  | some c =>
  have hsmall : ¬ (op.extractLsb' 24 4).toNat > 5 := by
    have hlt := (List.getElem?_eq_some_iff.mp hcmp).1
    simp only [Comparator.all, List.length_cons, List.length_nil] at hlt
    omega
  simp only [if_neg hsmall]
  cases hword with
  | unreadable first => simp only [guestWord_unreadable hg first]
  | ready read write =>
  obtain ⟨g1, hread, hcan, hstore⟩ := guestWord_ready cfg hg read write
  simp only [hread, hcan, futexOperator_eq hop, futexComparator_eq hcmp]
  obtain ⟨g', hwrite, hbecomes⟩ := hstore (o.apply _ arg)
  refine ⟨g', hbecomes, ?_⟩
  simp only [hwrite]
  rfl

lemma take_max_iff {l : List Nat} : l.take (max 1 n) = l.take n ↔ n ≠ 0 ∨ l = [] := by
  cases n with
  | zero => cases l <;> simp
  | succ n => simp

/-- `DoWake` unblocks the first `n` tasks that wait on the address. -/
structure WakesUpTo (σ : Kernel) (task memory : Nat) (others : List Nat) (uaddr n : Nat)
    (woken : List Nat) (σ' : Kernel) : Prop where
  wake : doWake σ task uaddr (2 ^ 32 - 1) n = some (woken, σ')
  first : woken = (waiters σ.tasks task memory uaddr (2 ^ 32 - 1) others).take n
  tasks : σ' = { σ with tasks := unblock σ.tasks woken }

variable {t : LinuxTask} {others : List Nat}

lemma wakesUpTo_iff (ht : σ.tasks[task]? = some t) (hring : IsRing σ.tasks task others) :
    WakesUpTo σ task t.memory others uaddr n woken σ' ↔
      (n ≠ 0 ∨ waiters σ.tasks task t.memory uaddr (2 ^ 32 - 1) others = []) ∧
        woken = (waiters σ.tasks task t.memory uaddr (2 ^ 32 - 1) others).take n ∧
        σ' = { σ with tasks := unblock σ.tasks woken } := by
  have hwake : doWake σ task uaddr (2 ^ 32 - 1) n = some (_, _) := doWake_ring ht hring rfl
  constructor
  · rintro ⟨hw, hfirst, htasks⟩
    obtain ⟨hwoken, _⟩ := Prod.mk.inj (Option.mem_unique hw hwake)
    exact ⟨take_max_iff.mp (hwoken.symm.trans hfirst), hfirst, htasks⟩
  rintro ⟨hor, rfl, rfl⟩
  rw [take_max_iff.mpr hor] at hwake
  exact ⟨hwake, rfl, rfl⟩

lemma WakesUpTo.waker (h : WakesUpTo σ task t.memory others uaddr n woken σ')
    (ht : σ.tasks[task]? = some t) (hring : IsRing σ.tasks task others) :
    σ'.tasks[task]? = some t := by
  have hnot : task ∉ woken := by
    intro hmem
    rw [h.first] at hmem
    have hother := (List.mem_filter.mp (List.mem_of_mem_take hmem)).1
    exact (List.nodup_cons.mp hring.nodup).1 hother
  rw [h.tasks]
  show (unblock σ.tasks woken)[task]? = some t
  rw [getElem?_unblock, ht, Option.map_some, if_neg hnot]

/-- What the rules ask of a call. No fault is recorded. Either it fails, with the memory unchanged
and nobody woken; or it stores the new value at `uaddr2`, wakes up to `numToWake1` tasks on the first
address and, if the comparison holds, up to `numToWake2` on the second, and returns how many. -/
def ImplementsWakeOp (cfg : Config) (σ : Kernel) (task memory : Nat) (others : List Nat)
    (uaddr1 uaddr2 numToWake1 numToWake2 : Nat) (op : BitVec 32) (word : Option (BitVec 32))
    (g : Guest) : Prop :=
  let result := doFutexWakeOp (guestWord cfg uaddr2) σ task uaddr1 uaddr2 numToWake1 numToWake2
    op.toNat g
  match wakeOp op word with
  | .fails code => ∃ g', result = some (.returned task code, σ, g') ∧ g.Becomes g' g.mem
  | .wakes newVal another => ∃ woken1 σ1 woken2 σ2 g',
      WakesUpTo σ task memory others uaddr1 numToWake1 woken1 σ1 ∧
      (if another then WakesUpTo σ1 task memory others uaddr2 numToWake2 woken2 σ2
        else woken2 = [] ∧ σ2 = σ1) ∧
      result = some (.woke task (woken1.map (·, uaddr1) ++ woken2.map (·, uaddr2))
        (woken1.length + woken2.length), σ2, g') ∧
      g.Becomes g' (withWord g uaddr2 newVal)

/-- The shift is handled as it should be, and where a wake is asked for no task at all, none
waits there. -/
def WakeOpCondition (σ : Kernel) (task memory : Nat) (others : List Nat)
    (uaddr1 uaddr2 numToWake1 numToWake2 : Nat) (op : BitVec 32) (word : Option (BitVec 32)) :
    Prop :=
  ¬ BadShift op ∧
    match wakeOp op word with
    | .fails _ => True
    | .wakes _ another =>
      let W1 := waiters σ.tasks task memory uaddr1 (2 ^ 32 - 1) others
      let W2 := waiters (unblock σ.tasks (W1.take numToWake1)) task memory uaddr2 (2 ^ 32 - 1)
        others
      (numToWake1 ≠ 0 ∨ W1 = []) ∧ (another → numToWake2 ≠ 0 ∨ W2 = [])

lemma doFutexWakeOp_bad (hbad : BadShift op) :
    (argument op = none ∧ doFutexWakeOp (guestWord cfg uaddr2) σ task uaddr1 uaddr2 numToWake1
        numToWake2 op.toNat g = none) ∨
      ((argument op).isSome ∧ doFutexWakeOp (guestWord cfg uaddr2) σ task uaddr1 uaddr2 numToWake1
        numToWake2 op.toNat g = some (.returned task (-eINVAL), σ, g)) := by
  unfold doFutexWakeOp argument
  rw [if_pos hbad.1]
  rcases futexShift_bad op hbad with ⟨hneg, hshift⟩ | ⟨hzero, hmax, hshift⟩
  · simp only [hshift]
    exact .inl ⟨if_neg (by omega), trivial⟩
  simp only [hshift]
  rw [if_pos ⟨hzero, hmax⟩]
  exact .inr ⟨rfl, trivial⟩

lemma wakeOp_ne_invalid (harg : (argument op).isSome) : wakeOp op word ≠ .fails (-eINVAL) := by
  obtain ⟨arg, harg⟩ := Option.isSome_iff_exists.mp harg
  unfold wakeOp
  rw [harg]
  simp only
  split
  · split
    · simp [eFAULT, eINVAL]
    · simp
  · simp [eNOSYS, eINVAL]

lemma not_implements_of_bad (hbad : BadShift op) {memory : Nat} :
    ¬ ImplementsWakeOp cfg σ task memory others uaddr1 uaddr2 numToWake1 numToWake2 op word g := by
  unfold ImplementsWakeOp
  intro h
  simp only at h
  rcases doFutexWakeOp_bad hbad with ⟨harg, hresult⟩ | ⟨harg, hresult⟩
  · have hspec : wakeOp op word = .fails (-eINVAL) := by
      unfold wakeOp
      rw [harg]
    rw [hspec, hresult] at h
    obtain ⟨_, hnone, _⟩ := h
    simp at hnone
  have hne : wakeOp op word ≠ .fails (-eINVAL) := wakeOp_ne_invalid harg
  rw [hresult] at h
  cases hspec : wakeOp op word with
  | fails code =>
    rw [hspec] at h hne
    obtain ⟨_, heq, _⟩ := h
    have hcode : -eINVAL = code := by simpa using (Prod.mk.inj (Option.some.inj heq)).1
    exact hne (by rw [hcode])
  | wakes newVal another =>
  rw [hspec] at h
  obtain ⟨_, _, _, _, _, _, _, heq, _⟩ := h
  simp at heq

/-- **`FUTEX_WAKE_OP`.** For every op word, every word whose four bytes are mapped, readable and
writable (or one on a page that is not readable) and every ring, `DoFutexWakeOp` does what the rules
ask exactly if its shift, if any, is by zero or by more than 31, and it does not come to a waiting
task with a wake for no task at all. -/
theorem futex_wake_op_iff (cfg : Config) (ht : σ.tasks[task]? = some t)
    (hring : IsRing σ.tasks task others) (hg : g.WF) (hword : FindsWord g uaddr2 word) :
    ImplementsWakeOp cfg σ task t.memory others uaddr1 uaddr2 numToWake1 numToWake2 op word g ↔
      WakeOpCondition σ task t.memory others uaddr1 uaddr2 numToWake1 numToWake2 op word := by
  by_cases hbad : BadShift op
  · exact ⟨fun h => absurd h (not_implements_of_bad hbad), fun h => absurd hbad h.1⟩
  have hresult := doFutexWakeOp_good cfg σ task uaddr1 numToWake1 numToWake2 hbad hg hword
  unfold ImplementsWakeOp WakeOpCondition
  cases hspec : wakeOp op word with
  | fails code =>
    rw [hspec] at hresult
    exact ⟨fun _ => ⟨hbad, trivial⟩, fun _ => ⟨g, hresult, .refl g⟩⟩
  | wakes newVal another =>
    rw [hspec] at hresult
    obtain ⟨g', hbecomes, hresult⟩ := hresult
    simp only [hresult]
    constructor
    · rintro ⟨woken1, σ1, woken2, σ2, _, hfirst, hsecond, _⟩
      have ht1 := hfirst.waker ht hring
      obtain ⟨hor1, rfl, rfl⟩ := (wakesUpTo_iff ht hring).mp hfirst
      refine ⟨hbad, hor1, fun hanother => ?_⟩
      rw [if_pos hanother] at hsecond
      exact ((wakesUpTo_iff ht1 (hring.unblock _)).mp hsecond).1
    · rintro ⟨_, hor1, hor2⟩
      have hfirst := (wakesUpTo_iff ht hring).mpr ⟨hor1, rfl, rfl⟩
      have ht1 := hfirst.waker ht hring
      cases another with
      | false =>
        refine ⟨_, _, [], _, g', hfirst, ⟨rfl, rfl⟩, ?_, hbecomes⟩
        simp only [wakeBoth, hfirst.wake, Bool.false_eq_true, if_false, List.map_nil,
          List.append_nil, List.length_nil, Int.ofNat_zero, Int.add_zero]
      | true =>
        have hsecond := (wakesUpTo_iff ht1 (hring.unblock _)).mpr ⟨hor2 rfl, rfl, rfl⟩
        refine ⟨_, _, _, _, g', hfirst, hsecond, ?_, hbecomes⟩
        simp only [wakeBoth, hfirst.wake, hsecond.wake, if_true]

end

/-- A page with the word 5 at `0x1000`. -/
def wordOps : List Vmill.Op := [.new, .addMap 0 0x1000 0x1000 none 0, .tryWrite 0 0x1000 [5, 0, 0, 0]]

lemma wordOps_finds : ∃ w s, World.Reachable (amd64 false) w ∧ w.spaces[0]? = some s ∧
    FindsWord ⟨none, s, w.heap⟩ 0x1000 (some 5) := by
  obtain ⟨w, s, hw, hi, hread, hwrite, hval⟩ := World.reachable_eval (amd64 false) wordOps
    (fun w s => Guest.MayRead ⟨none, s, w.heap⟩ 0x1000 4 ∧
      Guest.MayWrite ⟨none, s, w.heap⟩ 0x1000 4 ∧
      BitVec.ofNat 32 (bytesNumber (Guest.bytesAt ⟨none, s, w.heap⟩ 0x1000 4)) = 5)
    (by decide +kernel)
  exact ⟨w, s, hw, hi, hval ▸ .ready hread hwrite⟩

/-- `FUTEX_OP(FUTEX_OP_ADD, 2, FUTEX_OP_CMP_EQ, 5)`: the word goes from 5 to 7, and the second of
the two waiters is woken because the comparison holds. -/
theorem futex_wake_op_adds :
    ∃ os σ w s, linux.run twoWaiters .init = some (os, σ) ∧ World.Reachable (amd64 false) w ∧
      w.spaces[0]? = some s ∧ wakeOp 0x10002005 (some 5) = .wakes 7 true ∧
      ImplementsWakeOp (amd64 false) σ 0 0 [2, 1] 0x1000 0x1000 1 1 0x10002005 (some 5)
        ⟨none, s, w.heap⟩ := by
  have hrun : ∃ os σ t, linux.run twoWaiters .init = some (os, σ) ∧ σ.tasks[0]? = some t ∧
      t.memory = 0 ∧ IsRing σ.tasks 0 [2, 1] :=
    ⟨_, _, _, rfl, rfl, rfl, .cons rfl (.cons rfl (.cons rfl (.nil _))), by decide⟩
  obtain ⟨os, σ, t, hrun, ht, hmemory, hring⟩ := hrun
  obtain ⟨w, s, hw, hi, hword⟩ := wordOps_finds
  refine ⟨os, σ, w, s, hrun, hw, hi, by decide, ?_⟩
  have himpl := (@futex_wake_op_iff σ 0 0x1000 0x1000 1 1 0x10002005 (some 5) ⟨none, s, w.heap⟩ t
    [2, 1] (amd64 false) ht hring ⟨hw.wf.heap, hw.wf.space 0 s hi⟩ hword).mpr
      ⟨by decide, .inl (by decide), fun _ => .inl (by decide)⟩
  rwa [hmemory] at himpl

/-- `FUTEX_OP(FUTEX_OP_SET | FUTEX_OP_OPARG_SHIFT, 3, FUTEX_OP_CMP_EQ, 0)`: the word should
become 8, but the call fails. -/
theorem futex_wake_op_rejects_shift :
    ∃ os σ w s, linux.run twoWaiters .init = some (os, σ) ∧ World.Reachable (amd64 false) w ∧
      w.spaces[0]? = some s ∧ FindsWord ⟨none, s, w.heap⟩ 0x1000 (some 5) ∧
      wakeOp 0x80003000 (some 5) = .wakes 8 false ∧
      doFutexWakeOp (guestWord (amd64 false) 0x1000) σ 0 0x2000 0x1000 1 1 0x80003000
        ⟨none, s, w.heap⟩ = some (.returned 0 (-eINVAL), σ, ⟨none, s, w.heap⟩) ∧
      ¬ ImplementsWakeOp (amd64 false) σ 0 0 [2, 1] 0x2000 0x1000 1 1 0x80003000 (some 5)
        ⟨none, s, w.heap⟩ := by
  obtain ⟨⟨os, σ⟩, hrun⟩ :=
    Option.isSome_iff_exists.mp (by decide : (linux.run twoWaiters .init).isSome)
  obtain ⟨w, s, hw, hi, hword⟩ := wordOps_finds
  exact ⟨os, σ, w, s, hrun, hw, hi, hword, by decide, rfl,
    not_implements_of_bad (by decide)⟩

end Vmill.Linux
