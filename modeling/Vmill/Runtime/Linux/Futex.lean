import Vmill.Runtime.Linux.Run
import Vmill.Runtime.Memory
import Mathlib.Data.Int.Bitwise

/-!
# Futexes (`Runtime/Linux/Futex.cpp`, `Sys.cpp`)

The handlers of the futex system call. What they find in guest memory is an argument
(`FutexMemory`): other tasks may change it between any two steps.
-/

namespace Vmill.Linux

def kFutexBlockedForABit : Nat := 100

def kBlockedForever : Nat := 2 ^ 32 - 1

def eAGAIN : Int := 11
def eFAULT : Int := 14
def eINVAL : Int := 22
def eNOSYS : Int := 38
def eTIMEDOUT : Int := 110

inductive FutexCommand where
  | wait
  | wake
  | fd
  | requeue
  | compareAndRequeue
  | wakeOp
  | lockWithPriorityInheritance
  | unlockWithPriorityInheritance
  | tryLockWithPriorityInheritance
  | waitBitset
  | wakeBitset
  | waitRequeueWithPriorityInheritance
  | compareAndRequeueWithPriorityInheritance
  | invalidCommand
deriving DecidableEq, Repr

def FutexCommand.all : List FutexCommand :=
  [.wait, .wake, .fd, .requeue, .compareAndRequeue, .wakeOp, .lockWithPriorityInheritance,
    .unlockWithPriorityInheritance, .tryLockWithPriorityInheritance, .waitBitset, .wakeBitset,
    .waitRequeueWithPriorityInheritance, .compareAndRequeueWithPriorityInheritance]

def futexOpToCommand (op : Int) : FutexCommand :=
  if 0 > op then .invalidCommand
  else (FutexCommand.all[op.toNat &&& 0x7F]?).getD .invalidCommand

structure FutexArgs where
  uaddr : Nat
  op : Int
  val : Nat
  utime : Nat
  uaddr2 : Nat
  val3 : Nat
deriving DecidableEq, Repr

/-- What a handler finds in guest memory: the words at `uaddr` and `uaddr2`, if they can be
read, whether they can be written, and the `timespec` at `utime`. -/
structure FutexMemory where
  uval : Option Nat
  writable : Bool
  uval2 : Option Int
  writable2 : Bool
  timespec : Option (Int × Int)
deriving DecidableEq, Repr

/-! ## Waiting -/

/-- The argument checks of `DoFutexWaitBitSet`, in front of its loop. -/
def waitChecks (w : FutexWait) : Option Int :=
  if w.uaddr % 4 ≠ 0 then some (-eINVAL)
  else if w.bitset = 0 then some (-eINVAL)
  else none

/-- `blocked_count` after a round of the loop that neither fails nor finds itself woken. -/
def waitCount (w : FutexWait) (t : LinuxTask) : Nat :=
  if t.blockedCount ≠ 0 then t.blockedCount - 1
  else if w.timeout.isSome then kFutexBlockedForABit
  else kBlockedForever

/-- One round of the loop of `DoFutexWaitBitSet`: the value it returns, or `none` if it
yields. The round itself is `none` if the assertion in it fails. -/
def waitRound (w : FutexWait) (m : FutexMemory) (t : LinuxTask) :
    Option (Option Int × LinuxTask) :=
  match m.uval, m.writable with
  | some uval, true =>
    if uval ≠ w.val then some (some (-eAGAIN), { t with futexUaddr := 0, blockedCount := 0 })
    else if t.futexUaddr ≠ 0 ∧ t.blockedCount = 0 then
      -- `assert(task->futex_uaddr == uaddr)`
      if t.futexUaddr = w.uaddr then some (some 0, { t with futexBitset := 0, futexUaddr := 0 })
      else none
    else if waitCount w t = 0 then
      some (some (-eTIMEDOUT), { t with blockedCount := 0, futexBitset := 0, futexUaddr := 0 })
    else
      some (none, { t with
        blockedCount := waitCount w t
        futexBitset := w.bitset
        futexUaddr := w.uaddr })
  | _, _ => some (some (-eFAULT), t)

/-! ## Waking -/

/-- A `for` loop over the other tasks of the ring, from `nextTask` on. The body has a value of its own
and all tasks, and tells whether to leave the loop. -/
def ringLoop {β : Type} (task : Nat)
    (body : Nat → LinuxTask → β × List LinuxTask → Bool × β × List LinuxTask) :
    Nat → Nat → β × List LinuxTask → Option (β × List LinuxTask)
  | 0, _, _ => none
  | fuel + 1, nextTask, (b, tasks) =>
    if nextTask = task then some (b, tasks)
    else
      match tasks[nextTask]? with
      | none => none
      | some t =>
        let (stop, state) := body nextTask t (b, tasks)
        if stop then some state else ringLoop task body fuel t.nextCircular state

/-- The body of the loop of `DoWake`: the tasks woken so far, and all tasks. -/
def wakeBody (memory uaddr bitset numToWake nextTask : Nat) (t : LinuxTask) :
    List Nat × List LinuxTask → Bool × List Nat × List LinuxTask
  | (woken, tasks) =>
    -- Tasks in different address spaces can't share futexes.
    if memory ≠ t.memory then (false, woken, tasks)
    else if t.futexUaddr = uaddr ∧ 0 < t.blockedCount ∧ t.futexBitset &&& bitset ≠ 0 then
      let tasks := tasks.set nextTask { t with blockedCount := 0 }
      let woken := woken ++ [nextTask]
      (decide (woken.length ≥ numToWake), woken, tasks)
    else (false, woken, tasks)

def wakeLoop (task memory uaddr bitset numToWake fuel nextTask : Nat) (woken : List Nat)
    (tasks : List LinuxTask) : Option (List Nat × List LinuxTask) :=
  ringLoop task (wakeBody memory uaddr bitset numToWake) fuel nextTask (woken, tasks)

/-- `DoWake`. The loop visits every other task once. -/
def doWake (σ : Kernel) (task uaddr bitset numToWake : Nat) : Option (List Nat × Kernel) :=
  match σ.tasks[task]? with
  | none => none
  | some t =>
    match wakeLoop task t.memory uaddr bitset numToWake (σ.tasks.length + 1) t.nextCircular []
        σ.tasks with
    | none => none
    | some (woken, tasks) => some (woken, { σ with tasks := tasks })

def doFutexWakeBitSet (σ : Kernel) (task uaddr numToWake bitset : Nat) (m : FutexMemory) :
    Option (Out × Kernel) :=
  let σ := σ.onTask task fun t => { t with blockedCount := 0 }
  if uaddr % 4 ≠ 0 then some (.returned task (-eINVAL), σ)
  else if bitset = 0 then some (.returned task (-eINVAL), σ)
  else if m.uval.isNone || !m.writable then some (.returned task (-eFAULT), σ)
  else
    match doWake σ task uaddr bitset numToWake with
    | none => none
    | some (woken, σ) => some (.woke task (woken.map (·, uaddr)) woken.length, σ)

def signed12 (n : Nat) : Int := if n % 4096 < 2048 then (n % 4096 : Int) else (n % 4096 : Int) - 4096

def toInt32 (n : Int) : Int := (n + 2 ^ 31) % 2 ^ 32 - 2 ^ 31

/-- `switch (op.op)` of `DoFutexWakeOp`: the new value. -/
def futexOperator (op : Nat) (oldVal oparg : Int) : Int :=
  match op with
  | 0 => oparg
  | 1 => toInt32 (oldVal + oparg)
  | 2 => Int.lor oldVal oparg
  | 3 => Int.land oldVal (Int.lnot oparg)
  | _ => Int.xor oldVal oparg

/-- `switch (op.cmp)` of `DoFutexWakeOp`. -/
def futexComparator (cmp : Nat) (oldVal cmparg : Int) : Bool :=
  match cmp with
  | 0 => oldVal = cmparg
  | 1 => oldVal ≠ cmparg
  | 2 => oldVal < cmparg
  | 3 => oldVal ≤ cmparg
  | 4 => oldVal > cmparg
  | _ => oldVal ≥ cmparg

/-- The operator and its argument, once a shift has been applied. The outer `none` is a
shift by a negative number; the inner one is the bounds error. -/
def futexShift (op : Nat) (oparg : Int) : Option (Option (Nat × Int)) :=
  if op &&& 8 ≠ 0 then
    if oparg > 0 ∨ 31 < oparg then some none
    else if oparg < 0 then none
    else some (some (op ^^^ 8, 1))
  else some (some (op, oparg))

/-- The accesses of `DoFutexWakeOp` to the word at `uaddr2`: `TryReadMemory`, `CanWriteMemory` and
`TryWriteMemory`. `none`: the call does not return. -/
structure WordAccess (μ : Type) where
  tryRead : μ → Option (Option Int × μ)
  canWrite : μ → Option Bool
  tryWrite : Int → μ → Option (Bool × μ)

/-- The `int32_t` at an address of guest memory. -/
def guestWord (cfg : Config) (addr : Nat) : WordAccess Guest where
  tryRead g := (g.tryReadMemory addr 4).map fun r =>
    (r.1.map fun bytes => toInt32 (bytesNumber bytes), r.2)
  canWrite g := g.canWriteMemory addr 4
  tryWrite n g := g.tryWriteMemory cfg addr (numberBytes 4 (n % 2 ^ 32).toNat)

/-- The word as the kernel's steps see it: what a call finds, whoever stored it. -/
def foundWord : WordAccess FutexMemory where
  tryRead m := some (m.uval2, m)
  canWrite m := some m.writable2
  tryWrite _ m := some (m.writable2, m)

/-- `DoFutexWakeOp`. -/
def doFutexWakeOp {μ : Type} (word : WordAccess μ) (σ : Kernel)
    (task uaddr1 uaddr2 numToWake1 numToWake2 op_ : Nat) (m : μ) : Option (Out × Kernel × μ) :=
  let cmparg := signed12 op_
  let cmp := op_ / 2 ^ 24 % 16
  match futexShift (op_ / 2 ^ 28 % 16) (signed12 (op_ / 2 ^ 12)) with
  | none => none
  | some none => some (.returned task (-eINVAL), σ, m)
  | some (some (op, oparg)) =>
    if op > 4 then some (.returned task (-eNOSYS), σ, m)
    else if cmp > 5 then some (.returned task (-eNOSYS), σ, m)
    else
      match word.tryRead m with
      | none => none
      | some (none, m) => some (.returned task (-eFAULT), σ, m)
      | some (some oldVal, m) =>
        match word.canWrite m with
        | none => none
        | some false => some (.returned task (-eFAULT), σ, m)
        | some true =>
          match word.tryWrite (futexOperator op oldVal oparg) m with
          | none => none
          | some (_, m) =>
            match doWake σ task uaddr1 (2 ^ 32 - 1) numToWake1 with
            | none => none
            | some (woken1, σ) =>
              if futexComparator cmp oldVal cmparg then
                match doWake σ task uaddr2 (2 ^ 32 - 1) numToWake2 with
                | none => none
                | some (woken2, σ) =>
                  some (.woke task (woken1.map (·, uaddr1) ++ woken2.map (·, uaddr2))
                    (woken1.length + woken2.length), σ, m)
              else some (.woke task (woken1.map (·, uaddr1)) woken1.length, σ, m)

/-! ## The system call -/

/-- The commands whose fourth argument is a timeout. -/
def FutexCommand.timed : FutexCommand → Bool
  | .wait | .lockWithPriorityInheritance | .waitBitset | .waitRequeueWithPriorityInheritance => true
  | _ => false

/-- The `timespec` on the stack of `SysFutex`: zero, unless the command has a timeout and
one is passed. `none`: it cannot be read. -/
def readTimeout (cmd : FutexCommand) (a : FutexArgs) (m : FutexMemory) : Option (Int × Int) :=
  if cmd.timed ∧ a.utime ≠ 0 then m.timespec else some (0, 0)

/-- The loop of `DoFutexWaitBitSet`, until it returns or yields. -/
def continueWait (σ : Kernel) (task : Nat) (w : FutexWait) (m : FutexMemory) :
    Option (Out × Kernel) :=
  match σ.tasks[task]? with
  | none => none
  | some t =>
    match waitRound w m t with
    | none => none
    | some (some code, t) =>
      some (.returned task code, σ.onTask task fun _ => { t with wait := none })
    | some (none, t) =>
      some (.blocked task w, (σ.onTask task fun _ => { t with wait := some w }).yield task)

/-- `DoFutexWaitBitSet`, until it returns or yields. -/
def doFutexWaitBitSet (σ : Kernel) (task : Nat) (w : FutexWait) (m : FutexMemory) :
    Option (Out × Kernel) :=
  match waitChecks w with
  | some code => some (.returned task code, σ)
  | none => continueWait σ task w m

/-- `SysFutex` of the current task, until it returns or yields. The wait functions get a
pointer to the local `timeout`, whether the call has one or not. -/
def sysFutex (σ : Kernel) (task : Nat) (a : FutexArgs) (m : FutexMemory) :
    Option (Out × Kernel) :=
  let cmd := futexOpToCommand a.op
  if cmd = .invalidCommand then some (.returned task (-eNOSYS), σ)
  else
    match readTimeout cmd a m with
    | none => some (.returned task (-eFAULT), σ)
    | some timeout =>
      if 0 > timeout.1 ∨ timeout.2 > 1000000000 then some (.returned task (-eINVAL), σ)
      else
        let wait (bitset : Nat) : FutexWait :=
          ⟨a.uaddr, a.val, bitset, some timeout, a.utime⟩
        match cmd with
        | .wait => doFutexWaitBitSet σ task (wait (2 ^ 32 - 1)) m
        | .waitBitset => doFutexWaitBitSet σ task (wait a.val3) m
        | .wake => doFutexWakeBitSet σ task a.uaddr a.val (2 ^ 32 - 1) m
        | .wakeBitset => doFutexWakeBitSet σ task a.uaddr a.val a.val3 m
        | .wakeOp =>
          (doFutexWakeOp foundWord σ task a.uaddr a.uaddr2 a.val (a.utime % 2 ^ 32) a.val3 m).map
            fun r => (r.1, r.2.1)
        | _ => some (.returned task (-eNOSYS), σ)

def sysExit (σ : Kernel) (task : Nat) : Option (Out × Kernel) :=
  match σ.tasks[task]? with
  | none => none
  | some t =>
    let stop (σ : Kernel) := σ.onTask task fun t =>
      { t with toTask := t.toTask.setLocation t.pc .atExit }
    if t.clearChildTid = 0 then some (.quiet, stop σ)
    else
      match doWake σ task t.clearChildTid (2 ^ 32 - 1) 1 with
      | none => none
      | some (woken, σ) => some (.woke task (woken.map (·, t.clearChildTid)) 0, stop σ)

end Vmill.Linux
