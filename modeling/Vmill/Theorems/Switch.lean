import Vmill.Spec.Switch

/-!
# Switching stacks

The save area always holds the context of the side that does not run.
-/

namespace Vmill

open Base X86

namespace Layout

variable (L : Layout) {c c' : Cpu} {σ : SwitchState} {φ : Switch.Known}

/-- The save area, at the top of the coroutine's stack. -/
def area : Nat := L.stackEnd.toNat - 128

/-- The word at `rsp` is neither in the save area nor in the coroutine. -/
def Clear (rsp : BitVec 64) : Prop :=
  Distinct rsp.toNat 8 (L.stackEnd.toNat - 136) 72 ∧ Distinct rsp.toNat 8 L.coroutine.toNat 16
deriving Decidable

/-- The context that the save area holds. -/
def saved (m : ByteMem) : Context where
  rbx := word m (L.area + 8)
  rbp := word m (L.area + 16)
  r12 := word m (L.area + 24)
  r13 := word m (L.area + 32)
  r14 := word m (L.area + 40)
  r15 := word m (L.area + 48)
  rsp := word m L.area + 8
  rip := word m (word m L.area).toNat

/-- The registers `reg` in the save area. -/
def save (m : ByteMem) (reg : Reg → BitVec 64) : ByteMem :=
  let m := setWord m (L.area + 8) (reg .rbx)
  let m := setWord m (L.area + 16) (reg .rbp)
  let m := setWord m (L.area + 24) (reg .r12)
  let m := setWord m (L.area + 32) (reg .r13)
  let m := setWord m (L.area + 40) (reg .r14)
  let m := setWord m (L.area + 48) (reg .r15)
  setWord m L.area (reg .rsp)

lemma slot_addr {d : Int} (hlow : -8 ≤ d) (hhigh : d ≤ 48) :
    (L.stackEnd + BitVec.ofInt 64 (-120) + BitVec.ofInt 64 d).toNat = L.area + (8 + d).toNat := by
  have hroom := L.room
  have hlt := L.stackEnd.isLt
  unfold area
  rw [BitVec.toNat_add, BitVec.toNat_add, BitVec.toNat_ofInt, BitVec.toNat_ofInt]
  omega

lemma push_addr : (L.stackEnd + BitVec.ofInt 64 (-120) - 8).toNat = L.area := by
  have hroom := L.room
  unfold area
  simp only [BitVec.reduceOfInt]
  bv_omega

lemma call_addr : (L.stackEnd - 136).toNat = L.area - 8 := by
  have hroom := L.room
  unfold area
  bv_omega

lemma entry_rsp : L.stackEnd + BitVec.ofInt 64 (-120) - 8 - 8 = L.stackEnd - 136 := by
  simp only [BitVec.reduceOfInt]
  bv_omega

lemma exit_addr : L.stackEnd - 128 + BitVec.ofInt 64 8 = L.stackEnd + BitVec.ofInt 64 (-120) := by
  simp only [BitVec.reduceOfInt]
  bv_omega

lemma exit_rsp : (L.stackEnd - 128).toNat = L.area := by
  have hroom := L.room
  unfold area
  bv_omega

lemma coroutine_addr : (L.coroutine + BitVec.ofInt 64 0).toNat = L.coroutine.toNat := by
  simp only [BitVec.reduceOfInt, BitVec.add_zero]

lemma counter_addr : (L.coroutine + BitVec.ofInt 64 12).toNat = L.coroutine.toNat + 12 := by
  have hfits := L.fits
  simp only [BitVec.reduceOfInt]
  bv_omega

/-- `on_stack` counted up by `n`, modulo `2 ^ 32`. -/
def count (m : ByteMem) (n : Nat) : ByteMem :=
  store m (L.coroutine.toNat + 12) 4 ((L.onStack m + n) % 2 ^ 32)

lemma onStack_count (m : ByteMem) (n : Nat) :
    L.onStack (L.count m n) = (L.onStack m + n) % 2 ^ 32 := by
  unfold onStack count
  rw [load_store]
  exact Nat.mod_mod _ _

variable {L} {m m' : ByteMem} {reg : Reg → BitVec 64} {rsp : BitVec 64}

lemma area_pos (L : Layout) : 8 ≤ L.area := by
  have hroom := L.room
  unfold area
  omega

lemma Clear.area (h : L.Clear rsp) : Distinct (L.area - 8) 72 rsp.toNat 8 := by
  have hroom := L.room
  have hstack := h.1
  unfold Layout.area
  unfold Distinct at *
  omega

lemma coroutine_apart (L : Layout) : Distinct (L.area - 8) 72 L.coroutine.toNat 16 := by
  have hroom := L.room
  have hapart := L.apart
  unfold area
  unfold Distinct at *
  omega

lemma agree_save {b k : Nat} (hd : Distinct L.area 56 b k) : Agree (L.save m reg) m b k := by
  have hslot : ∀ (m : ByteMem) (a : Nat) (v : BitVec 64), L.area ≤ a → a + 8 ≤ L.area + 56 →
      Agree (setWord m a v) m b k := by
    intro m a v hlow hhigh
    apply agree_setWord
    unfold Distinct at *
    omega
  unfold save
  simp only
  iterate 6 refine (hslot _ _ _ (by omega) (by omega)).trans ?_
  exact hslot _ _ _ (by omega) (by omega)

lemma saved_save (hclear : L.Clear (reg .rsp)) :
    L.saved (L.save m reg) = ⟨reg .rbx, reg .rbp, reg .r12, reg .r13, reg .r14, reg .r15,
      reg .rsp + 8, word m (reg .rsp).toNat⟩ := by
  have hpos := L.area_pos
  have harea := hclear.area
  have hrip : word (L.save m reg) (reg .rsp).toNat = word m (reg .rsp).toNat :=
    word_congr (agree_save (by unfold Distinct at *; omega))
  have hrsp : word (L.save m reg) L.area = reg .rsp := word_setWord _ _ _
  unfold saved
  rw [hrsp, hrip]
  unfold save
  simp only [word_setWord_base, word_setWord_add, word_setWord, Nat.reduceLeDiff, Nat.reduceAdd,
    or_true]

lemma yieldAsync_mem (hrdi : c.reg .rdi = L.stackEnd) :
    (c.run yieldAsync).mem = L.save c.mem c.reg := by
  simp only [yieldAsync, Cpu.run, List.foldl_cons, List.foldl_nil, Cpu.exec, Cpu.set, Cpu.addr,
    Cpu.loadWord, Cpu.storeWord, Function.update_apply, reduceCtorEq, if_true, if_false, hrdi]
  simp only [L.slot_addr, Int.reduceLE, Int.reduceNeg, Int.reduceAdd, Int.reduceToNat,
    Nat.add_zero, save]

lemma yieldAsync_current (hrdi : c.reg .rdi = L.stackEnd) (hother : L.Clear (word c.mem L.area)) :
    Context.current (c.run yieldAsync) = L.saved c.mem := by
  have hpos := L.area_pos
  have harea := hother.area
  have hrip : word (L.save c.mem c.reg) (word c.mem L.area).toNat =
      word c.mem (word c.mem L.area).toNat :=
    word_congr (agree_save (by unfold Distinct at *; omega))
  simp only [Context.current, yieldAsync, Cpu.run, List.foldl_cons, List.foldl_nil, Cpu.exec,
    Cpu.set, Cpu.addr, Cpu.loadWord, Cpu.storeWord, Function.update_apply, reduceCtorEq, if_true,
    if_false, hrdi]
  simp only [L.slot_addr, Int.reduceLE, Int.reduceNeg, Int.reduceAdd, Int.reduceToNat,
    Nat.add_zero, word_setWord_add, word_setWord_below, Nat.reduceLeDiff, Nat.reduceAdd,
    true_or]
  exact congrArg _ hrip

/-- The memory with which `__vmill_execute` starts. -/
def entered (L : Layout) (c : Cpu) : ByteMem :=
  setWord (L.save (setWord (setWord (L.count c.mem 1) (c.reg .rsp - 8).toNat L.coroutine)
    (L.area + 56) L.coroutine) c.reg) (L.area - 8) L.next

/-- A call of `__vmill_execute_async` for this coroutine, from a frame of the caller's own. -/
@[mk_iff]
structure Calls (L : Layout) (c : Cpu) : Prop where
  coroutine : c.loadWord (c.addr ⟨.rdi, 24⟩) = L.coroutine
  stackEnd : word c.mem L.coroutine.toNat = L.stackEnd
  clear : L.Clear (c.reg .rsp)
  pushes : Distinct (c.reg .rsp - 8).toNat 8 L.coroutine.toNat 16

lemma Calls.stackEnd_pushed (h : L.Calls c) :
    word (setWord (L.count c.mem 1) (c.reg .rsp - 8).toNat L.coroutine) L.coroutine.toNat =
      L.stackEnd := by
  have hpush : Distinct (c.reg .rsp - 8).toNat 8 L.coroutine.toNat 8 := by
    have hpushes := h.pushes
    unfold Distinct at *
    omega
  have hcount : Distinct (L.coroutine.toNat + 12) 4 L.coroutine.toNat 8 := by
    unfold Distinct
    omega
  rw [word_setWord_of_apart _ hpush, ← h.stackEnd]
  exact word_congr (agree_store _ hcount)

lemma executeAsyncEntry_eq (h : L.Calls c) : let c' := c.run (executeAsyncEntry L.execute L.next)
    c'.mem = L.entered c ∧ c'.rip = L.execute ∧ c'.reg .rsp = L.stackEnd - 136 := by
  have hco := h.coroutine
  have hend := h.stackEnd_pushed
  simp only [Cpu.loadWord, Cpu.addr] at hco
  unfold count onStack at hend
  simp only [executeAsyncEntry, Cpu.run, List.foldl_cons, List.foldl_nil, Cpu.exec, Cpu.set,
    Cpu.addr, Cpu.loadWord, Cpu.storeWord, Cpu.addDword, Cpu.pushWord, Function.update_apply,
    reduceCtorEq, if_true, if_false, hco, L.counter_addr, L.coroutine_addr, hend, word_setWord,
    BitVec.sub_add_cancel, L.push_addr, L.entry_rsp, L.call_addr]
  simp only [L.slot_addr, Int.reduceLE, Int.reduceNeg, Int.reduceAdd, Int.reduceToNat, entered,
    save, count, onStack, and_self]

lemma executeAsyncExit_eq (hrsp : c.reg .rsp = L.stackEnd - 128)
    (hco : word c.mem (L.area + 56) = L.coroutine) (hother : L.Clear (word c.mem L.area)) :
    (c.run executeAsyncExit).mem = L.count c.mem (2 ^ 32 - 1) ∧
      Context.current (c.run executeAsyncExit) = L.saved c.mem := by
  have hrip : word (L.count c.mem (2 ^ 32 - 1)) (word c.mem L.area).toNat =
      word c.mem (word c.mem L.area).toNat := by
    have hclear := hother.2
    exact word_congr (agree_store _ (by unfold Distinct at *; omega))
  unfold count onStack at hrip
  simp only [Context.current, executeAsyncExit, Cpu.run, List.foldl_cons, List.foldl_nil, Cpu.exec,
    Cpu.set, Cpu.addr, Cpu.loadWord, Cpu.addDword, Function.update_apply, reduceCtorEq, if_true,
    if_false, hrsp, L.exit_addr, L.exit_rsp]
  simp only [L.slot_addr, Int.reduceLE, Int.reduceNeg, Int.reduceAdd, Int.reduceToNat, hco,
    L.counter_addr, count, onStack, true_and]
  exact congrArg _ hrip

/-- The code that runs between two switches leaves alone what belongs to the switching: the
save area, `on_stack`, and the return address of the side that does not run. The other fields of the
coroutine are not part of it: `Coroutine::Pause` stores `fpu_rounding_mode` itself. -/
@[mk_iff]
structure Undisturbed (L : Layout) (m m' : ByteMem) : Prop where
  area : Agree m m' L.area 64
  onStack : Agree m m' (L.coroutine.toNat + 12) 4
  rip : Agree m m' (word m L.area).toNat 8

/-- What is assumed of the code between two switches: the routines are called for this coroutine,
from a stack frame of the caller's own, `__vmill_execute` returns as a function does, and the memory
of the switching is left alone. -/
def Behaves (L : Layout) (σ : SwitchState) (op : SwitchOp) : Prop :=
  match op with
  | .execute c => Agree σ.mem c.mem (L.coroutine.toNat + 12) 4 ∧ L.Calls c
  | .pause c | .resume c =>
    L.Undisturbed σ.mem c.mem ∧ c.reg .rdi = L.stackEnd ∧ L.Clear (c.reg .rsp)
  | .finish c =>
    L.Undisturbed σ.mem c.mem ∧ c.reg .rsp = L.stackEnd - 128 ∧ c.rip = L.next

lemma onStack_congr (h : Agree m m' (L.coroutine.toNat + 12) 4) : L.onStack m = L.onStack m' :=
  load_congr h

/-- The save area holds the context `ctx`. -/
structure Holds (L : Layout) (m : ByteMem) (ctx : Context) : Prop where
  saved : L.saved m = ctx
  coroutine : word m (L.area + 56) = L.coroutine
  clear : L.Clear (word m L.area)

lemma Holds.undisturbed {ctx : Context} (h : L.Holds m ctx) (hu : L.Undisturbed m m') :
    L.Holds m' ctx := by
  have hslot : ∀ k, k ≤ 56 → word m' (L.area + k) = word m (L.area + k) := fun k hk =>
    (word_congr (hu.area.sub (by omega) (by omega))).symm
  have hrsp : word m' L.area = word m L.area :=
    (word_congr (hu.area.sub (Nat.le_refl _) (by omega))).symm
  refine ⟨?_, ?_, ?_⟩
  · rw [← h.saved]
    unfold Layout.saved
    rw [hrsp, hslot 8 (by omega), hslot 16 (by omega), hslot 24 (by omega), hslot 32 (by omega),
      hslot 40 (by omega), hslot 48 (by omega), word_congr hu.rip.symm]
  · rw [hslot 56 (by omega), h.coroutine]
  rw [hrsp]
  exact h.clear

lemma holds_save (hco : word m (L.area + 56) = L.coroutine) (hclear : L.Clear (reg .rsp)) :
    L.Holds (L.save m reg) ⟨reg .rbx, reg .rbp, reg .r12, reg .r13, reg .r14, reg .r15,
      reg .rsp + 8, word m (reg .rsp).toNat⟩ := by
  refine ⟨saved_save hclear, ?_, ?_⟩
  · rw [← hco]
    exact word_congr (agree_save (by unfold Distinct; omega))
  · rwa [save, word_setWord]

lemma Calls.rip (h : L.Calls c) :
    word (setWord (setWord (L.count c.mem 1) (c.reg .rsp - 8).toNat L.coroutine) (L.area + 56)
      L.coroutine) (c.reg .rsp).toNat = word c.mem (c.reg .rsp).toNat := by
  have hslot : Distinct (L.area + 56) 8 (c.reg .rsp).toNat 8 := by
    have hpos := L.area_pos
    have harea := h.clear.area
    unfold Distinct at *
    omega
  have hpush : Distinct (c.reg .rsp - 8).toNat 8 (c.reg .rsp).toNat 8 := by
    unfold Distinct
    bv_omega
  have hcount : Distinct (L.coroutine.toNat + 12) 4 (c.reg .rsp).toNat 8 := by
    have hco := h.clear.2
    unfold Distinct at *
    omega
  rw [word_setWord_of_apart _ hslot, word_setWord_of_apart _ hpush]
  exact word_congr (agree_store _ hcount)

/-- The entry saves the context of its caller. -/
lemma holds_entered (h : L.Calls c) : L.Holds (L.entered c) (.ofCaller c) := by
  have hpos := L.area_pos
  have hco := word_setWord (setWord (L.count c.mem 1) (c.reg .rsp - 8).toNat L.coroutine)
    (L.area + 56) L.coroutine
  have hholds : L.Holds (L.save _ c.reg) _ := holds_save hco h.clear
  rw [h.rip] at hholds
  refine hholds.undisturbed ⟨?_, ?_, ?_⟩
  · exact (agree_setWord _ (by unfold Distinct; omega)).symm
  · have hapart := L.coroutine_apart
    exact (agree_setWord _ (by unfold Distinct at *; omega)).symm
  have harea := h.clear.area
  rw [save, word_setWord]
  exact (agree_setWord _ (by unfold Distinct at *; omega)).symm

lemma onStack_entered (h : L.Calls c) :
    L.onStack (L.entered c) = (L.onStack c.mem + 1) % 2 ^ 32 := by
  have hpos := L.area_pos
  have hapart := L.coroutine_apart
  have hpushes := h.pushes
  have hagree : Agree (L.entered c) (L.count c.mem 1) (L.coroutine.toNat + 12) 4 := by
    refine (agree_setWord _ (by unfold Distinct at *; omega)).trans ?_
    refine (agree_save (by unfold Distinct at *; omega)).trans ?_
    refine (agree_setWord _ (by unfold Distinct at *; omega)).trans ?_
    exact agree_setWord _ (by unfold Distinct at *; omega)
  rw [onStack_congr hagree, onStack_count]

/-- The observer knows `on_stack`, and the context in the save area. -/
def Knows (L : Layout) (σ : SwitchState) (φ : Switch.Known) : Prop :=
  φ.onStack = L.onStack σ.mem ∧
    (σ.side ≠ .host → ∃ ctx, φ.suspended = some ctx ∧ L.Holds σ.mem ctx)

/-- **Step lemma**: `__vmill_yield_async` exchanges the caller's context for the saved one. -/
lemma yieldAsync_switches (h : L.Knows σ φ) (hside : σ.side ≠ .host)
    (hu : L.Undisturbed σ.mem c.mem) (hrdi : c.reg .rdi = L.stackEnd)
    (hclear : L.Clear (c.reg .rsp)) (hrun : c.run yieldAsync = c') :
    φ.suspended = some (.current c') ∧ L.onStack c'.mem = φ.onStack ∧
      L.Holds c'.mem (.ofCaller c) := by
  obtain ⟨ctx, hknown, hholds⟩ := h.2 hside
  have hholds := hholds.undisturbed hu
  have hpos := L.area_pos
  have hapart := L.coroutine_apart
  have hagree : Agree (L.save c.mem c.reg) c.mem (L.coroutine.toNat + 12) 4 :=
    agree_save (by unfold Distinct at *; omega)
  have hmem : c'.mem = L.save c.mem c.reg := hrun ▸ yieldAsync_mem hrdi
  have hcurrent : Context.current c' = L.saved c.mem := hrun ▸ yieldAsync_current hrdi hholds.clear
  rw [hmem]
  refine ⟨?_, ?_, holds_save hholds.coroutine hclear⟩
  · rwa [hcurrent, hholds.saved]
  · rw [onStack_congr hagree, ← onStack_congr hu.onStack, h.1]

/-- **Step lemma**: the return of `__vmill_execute` goes to the saved context. -/
lemma executeAsyncExit_switches (h : L.Knows σ φ) (hside : σ.side ≠ .host)
    (hu : L.Undisturbed σ.mem c.mem) (hrsp : c.reg .rsp = L.stackEnd - 128)
    (hrun : c.run executeAsyncExit = c') :
    φ.suspended = some (.current c') ∧ (L.onStack c'.mem + 1) % 2 ^ 32 = φ.onStack := by
  obtain ⟨ctx, hknown, hholds⟩ := h.2 hside
  have hholds := hholds.undisturbed hu
  obtain ⟨hmem, hcurrent⟩ := executeAsyncExit_eq hrsp hholds.coroutine hholds.clear
  rw [hrun] at hmem hcurrent
  have hlt : L.onStack c.mem < 2 ^ 32 := load_lt _ _ _
  constructor
  · rwa [hcurrent, hholds.saved]
  rw [hmem, onStack_count, h.1, onStack_congr hu.onStack]
  omega

/-- **Step lemma** of the runs. -/
lemma switching_step {σ' : SwitchState} {op : SwitchOp} {o : Switched} (h : L.Knows σ φ)
    (hop : L.Behaves σ op) (hs : L.switching.step op σ = some (o, σ')) :
    Switch.Allowed L φ o ∧ L.Knows σ' (Switch.observe o φ) := by
  obtain ⟨⟨c', side⟩, hswitch, hout⟩ := Option.map_eq_some_iff.mp hs
  obtain ⟨rfl, rfl⟩ := Prod.mk.inj hout
  unfold switch at hswitch
  split at hswitch
  case h_5 => exact nomatch hswitch
  case h_1 c _ =>
      obtain ⟨hrun, rfl⟩ := Prod.mk.inj (Option.some.inj hswitch)
      obtain ⟨hco, hcalls⟩ := hop
      obtain ⟨hmem, hrip, hrsp⟩ := executeAsyncEntry_eq hcalls
      rw [hrun] at hmem hrip hrsp
      have hholds := holds_entered hcalls
      have hcount := onStack_entered hcalls
      rw [← onStack_congr hco, ← h.1, ← hmem] at hcount
      rw [← hmem] at hholds
      exact ⟨⟨hrip, hrsp, hcount⟩, rfl, fun _ => ⟨_, rfl, hholds⟩⟩
  case h_2 c hside | h_3 c hside =>
      obtain ⟨hrun, rfl⟩ := Prod.mk.inj (Option.some.inj hswitch)
      obtain ⟨hu, hrdi, hclear⟩ := hop
      obtain ⟨hfound, hcount, hholds⟩ :=
        yieldAsync_switches h (by simp [hside]) hu hrdi hclear hrun
      exact ⟨⟨hfound, hcount⟩, rfl, fun _ => ⟨_, rfl, hholds⟩⟩
  case h_4 c hside =>
      obtain ⟨hrun, rfl⟩ := Prod.mk.inj (Option.some.inj hswitch)
      obtain ⟨hu, hrsp, _⟩ := hop
      have hexit := executeAsyncExit_switches h (by simp [hside]) hu hrsp hrun
      exact ⟨hexit, rfl, fun hne => absurd rfl hne⟩

/-- In every run of switches, each side goes on in the context in which it left off, whatever
number of switches came between, and `on_stack` counts the calls of `__vmill_execute` that
have not returned. -/
theorem switch_back {ops : List SwitchOp} {m : ByteMem} {σ : SwitchState} {os : List Switched}
    (hops : L.switching.RunMeets L.Behaves ops ⟨.host, m⟩)
    (hrun : L.switching.run ops ⟨.host, m⟩ = some (os, σ)) :
    Accepts Switch.observe (Switch.Allowed L) os ⟨none, L.onStack m⟩ := by
  have hinit : L.Knows ⟨.host, m⟩ ⟨none, L.onStack m⟩ := ⟨rfl, fun hne => absurd rfl hne⟩
  exact (Machine.run_monitored (fun _ _ _ _ _ h hop hs => switching_step h hop hs) hinit hops
    hrun).1

instance decideCalls (c : Cpu) : Decidable (L.Calls c) :=
  decidable_of_iff' _ (L.calls_iff c)

instance decideUndisturbed (m m' : ByteMem) : Decidable (L.Undisturbed m m') :=
  decidable_of_iff' _ (L.undisturbed_iff m m')

instance decideBehaves (σ : SwitchState) (op : SwitchOp) : Decidable (L.Behaves σ op) := by
  cases op <;> unfold Behaves <;> infer_instance

def sample : Layout where
  coroutine := 0x2000
  stackEnd := 0x8000
  execute := 0x400000
  next := 0x500000
  room := by decide
  fits := by decide
  apart := by decide

def sampleMem : ByteMem := setWord (setWord (fun _ => 0) 0x1018 0x2000) 0x2000 0x8000

def sampleCall (m : ByteMem) (rdi rsp rip : BitVec 64) : Cpu where
  reg
    | .rdi => rdi
    | .rsp => rsp
    | .rbx => rip + 1
    | _ => rip
  rip := 0
  mem := setWord m rsp.toNat rip

def sampleStart : Cpu := sampleCall sampleMem 0x1000 0x9000 0x11

/-- `Coroutine::Pause` has stored the rounding mode in front of `on_stack`. -/
def samplePause : Cpu :=
  sampleCall (store (sample.entered sampleStart) 0x2008 4 0x400) 0x8000 0x7000 0x22

def sampleResume : Cpu :=
  sampleCall (sample.save samplePause.mem samplePause.reg) 0x8000 0x8f00 0x33

def sampleFinish : Cpu :=
  { sampleCall (fun _ => 0) 0 (0x8000 - 128) 0x44 with
    rip := 0x500000
    mem := sample.save sampleResume.mem sampleResume.reg }

def sampleRun : List SwitchOp :=
  [.execute sampleStart, .pause samplePause, .resume sampleResume, .finish sampleFinish]

lemma sampleRun_behaves :
    sample.switching.RunMeets sample.Behaves sampleRun ⟨.host, sampleMem⟩ := by
  have hstart : sample.Behaves ⟨.host, sampleMem⟩ (.execute sampleStart) := by decide +kernel
  have hpause : sample.Behaves ⟨.coroutine, sample.entered sampleStart⟩ (.pause samplePause) := by
    decide +kernel
  have hresume : sample.Behaves ⟨.paused, sample.save samplePause.mem samplePause.reg⟩
      (.resume sampleResume) := by decide +kernel
  have hfinish : sample.Behaves ⟨.coroutine, sample.save sampleResume.mem sampleResume.reg⟩
      (.finish sampleFinish) := by decide +kernel
  have hentry := (executeAsyncEntry_eq hstart.2).1
  have hyield := yieldAsync_mem hpause.2.1
  have hyield' := yieldAsync_mem hresume.2.1
  refine ⟨hstart, ?_, ?_, ?_, ?_⟩
  · rwa [← hentry] at hpause
  · rw [← hyield] at hresume
    exact hresume
  · rwa [← hyield'] at hfinish
  · trivial

/-- The host goes on after its call of `__vmill_execute_async` when the coroutine pauses, and after
its call of `__vmill_yield_async` when it has ended. -/
theorem switch_back_sample :
    ∃ (o0 o1 o2 o3 : Switched) (σ : SwitchState),
      sample.switching.run sampleRun ⟨.host, sampleMem⟩ = some ([o0, o1, o2, o3], σ) ∧
      o1.found = .ofCaller sampleStart ∧ o2.found = .ofCaller samplePause ∧
      o3.found = .ofCaller sampleResume ∧ (o3.onStack + 1) % 2 ^ 32 = o0.onStack := by
  obtain ⟨_, ⟨hfound1, hcount1⟩, ⟨hfound2, hcount2⟩, ⟨hfound3, hcount3⟩, _⟩ :=
    switch_back sampleRun_behaves rfl
  exact ⟨_, _, _, _, _, rfl, (Option.some.inj hfound1).symm, (Option.some.inj hfound2).symm,
    (Option.some.inj hfound3).symm, hcount3.trans (hcount2.trans hcount1)⟩

end Layout

end Vmill
