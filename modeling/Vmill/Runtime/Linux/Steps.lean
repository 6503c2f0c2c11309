import Vmill.Base.Run
import Vmill.Runtime.Linux.Futex

/-!
# The runtime as a machine

Lifted code may make its calls in any order; only a task that is inside a futex wait is bound to the
loop of the wait. (Its memory accesses can fault, though.)
-/

namespace Vmill.Linux

open Base

/-- The functions of `Runtime.cpp` that write the current task and return to it. -/
inductive Act where
  | setLocation (pc : Nat) (loc : TaskStopLocation)
  | error (pc : Nat)
  | functionReturn (pc : Nat)
  | executeFault
deriving DecidableEq, Repr

def Act.apply : Act → Task → Task
  | .setLocation pc loc, t => t.setLocation pc loc
  | .error pc, t => t.remillError pc
  | .functionReturn pc, t => t.remillFunctionReturn pc
  | .executeFault, t => t.recordExecuteFault

inductive Event where
  | create (pc memory : Nat)
  /-- `DoClone`, with the return address and `ctid` (or zero without
  `CLONE_CHILD_CLEARTID`). -/
  | clone (pc ctid : Nat)
  | visit (i : Nat)
  | act (a : Act)
  | fault (kind : MemoryAccessFaultKind) (valueType : MemoryValueType) (size addr : Nat)
  /-- `__remill_jump` and `__remill_function_call`, up to the switch in `__vmill_yield`. -/
  | jump (pc : Nat)
  | functionCall (pc : Nat)
  | yield
  /-- Lifted code returns to `__vmill_execute`. -/
  | finish
  | setTidAddress (tidptr : Nat)
  | futex (a : FutexArgs) (m : FutexMemory)
  /-- A futex wait goes on after its yield. -/
  | wait (m : FutexMemory)
  | exit
deriving DecidableEq, Repr

namespace Kernel

/-- A step of the current task, which is not inside a futex wait. -/
def byCurrent (σ : Kernel) (f : Nat → LinuxTask → Option (Out × Kernel)) :
    Option (Out × Kernel) :=
  match σ.current with
  | none => none
  | some i =>
    match σ.tasks[i]? with
    | none => none
    | some t => if t.wait = none then f i t else none

def change (σ : Kernel) (i : Nat) (f : Task → Task) : Kernel :=
  σ.onTask i fun t => { t with toTask := f t.toTask }

/-- What `DoClone` does to the tasks: the child of `parent` goes on at `pc`. -/
def cloneTask (σ : Kernel) (parent : LinuxTask) (pc ctid : Nat) : Kernel :=
  (σ.createTask pc parent.memory).onTask σ.tasks.length fun child =>
    { child with lastPc := parent.lastPc, location := .afterHyperCall, clearChildTid := ctid }

def step (e : Event) (σ : Kernel) : Option (Out × Kernel) :=
  match e with
  | .create pc memory => some (.quiet, σ.createTask pc memory)
  | .clone pc ctid => σ.byCurrent fun _ t => some (.quiet, σ.cloneTask t pc ctid)
  | .visit i => σ.visit i
  | .act a => σ.byCurrent fun i _ => some (.quiet, σ.change i a.apply)
  | .fault kind valueType size addr =>
    match σ.current with
    | none => none
    | some i => some (.quiet, σ.change i (·.recordFault kind valueType size addr))
  | .jump pc => σ.byCurrent fun i _ => some (.quiet, (σ.change i (·.remillJump pc)).yield i)
  | .functionCall pc =>
    σ.byCurrent fun i _ => some (.quiet, (σ.change i (·.remillFunctionCall pc)).yield i)
  | .yield => σ.byCurrent fun i _ => some (.quiet, σ.yield i)
  | .finish => σ.byCurrent fun i _ => some (.quiet, σ.finish i)
  | .setTidAddress tidptr =>
    σ.byCurrent fun i _ => some (.quiet, σ.onTask i fun t => { t with clearChildTid := tidptr })
  | .futex a m => σ.byCurrent fun i _ => sysFutex σ i a m
  | .wait m =>
    match σ.current with
    | none => none
    | some i =>
      match σ.tasks[i]? with
      | none => none
      | some t =>
        match t.wait with
        | none => none
        | some w => continueWait σ i w m
  | .exit => σ.byCurrent fun i _ => sysExit σ i

end Kernel

def linux : Machine Kernel Event Out where
  step := Kernel.step

def Event.makesTask : Event → Bool
  | .create _ _ | .clone _ _ => true
  | _ => false

/-- The same machine with `gNextTid` a `pid_t`: `gNextTid++` must not overflow. -/
def linuxTasks : Machine Kernel Event Out where
  step e σ := if e.makesTask ∧ 2 ^ 31 ≤ σ.nextTid + 1 then none else Kernel.step e σ

end Vmill.Linux
