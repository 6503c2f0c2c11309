import Vmill.Runtime.Task
import Mathlib.Data.List.Basic

/-!
# Linux tasks and their scheduler (`Runtime/Linux/Run.h`, `Run.cpp`)

A pointer to a task is its position in the order of creation. `Kernel.current` is `gTask`; while it
is set, only that task acts.
-/

namespace Vmill.Linux

def kProcessId : Nat := 2

/-- A call of `DoFutexWaitBitSet` that has not returned. `timeout` is the pointer it was
passed, `utime` the argument of the system call. -/
structure FutexWait where
  uaddr : Nat
  val : Nat
  bitset : Nat
  timeout : Option (Int × Int)
  utime : Nat
deriving DecidableEq, Repr

/-- `linux_task`. The last two fields are on its coroutine: the `pc` of the call of
`__vmill_execute`, and a futex wait that is under way. -/
structure LinuxTask extends Task where
  next : Option Nat
  nextCircular : Nat
  blockedCount : Nat
  futexBitset : Nat
  futexUaddr : Nat
  tid : Nat
  clearChildTid : Nat
  memory : Nat
  entryPc : Nat
  wait : Option FutexWait
deriving DecidableEq, Repr

/-- All tasks, and `gTaskList`, `gLastTask`, `gNextTid` and `gTask`. -/
structure Kernel where
  tasks : List LinuxTask
  taskList : Option Nat
  lastTask : Option Nat
  nextTid : Nat
  current : Option Nat
deriving DecidableEq, Repr

namespace Kernel

def init : Kernel :=
  { tasks := [], taskList := none, lastTask := none, nextTid := kProcessId, current := none }

def onTask (σ : Kernel) (i : Nat) (f : LinuxTask → LinuxTask) : Kernel :=
  { σ with tasks := σ.tasks.modify i f }

/-- The links of a task that is about to be created, and those of `gLastTask`. -/
def linkTask (σ : Kernel) (task : Nat) : Kernel × Nat :=
  match σ.taskList, σ.lastTask with
  | some head, some last => (σ.onTask last fun t => { t with nextCircular := task }, head)
  | _, _ => ({ σ with lastTask := some task }, task)

def createTask (σ : Kernel) (pc memory : Nat) : Kernel :=
  let task := σ.tasks.length
  let (σ, nextCircular) := σ.linkTask task
  { σ with
    tasks := σ.tasks ++ [{
      toTask := Task.init pc
      next := σ.taskList
      nextCircular := nextCircular
      blockedCount := 0
      futexBitset := 0
      futexUaddr := 0
      tid := σ.nextTid
      clearChildTid := 0
      memory := memory
      entryPc := 0
      wait := none }]
    taskList := some task
    nextTid := σ.nextTid + 1 }

@[simp] lemma onTask_length (σ : Kernel) (i : Nat) (f : LinuxTask → LinuxTask) :
    (σ.onTask i f).tasks.length = σ.tasks.length := List.length_modify ..

lemma linkTask_length (σ : Kernel) (task : Nat) :
    (σ.linkTask task).1.tasks.length = σ.tasks.length := by
  unfold linkTask
  split
  · exact onTask_length ..
  · rfl

lemma createTask_length (σ : Kernel) (pc memory : Nat) :
    (σ.createTask pc memory).tasks.length = σ.tasks.length + 1 := by
  simp only [createTask, List.length_append, List.length_singleton, linkTask_length]

/-- `__vmill_run`, up to the switch to the coroutine of the task. -/
def run (σ : Kernel) (i : Nat) : Kernel :=
  { σ.onTask i (fun t =>
      if t.status = .resumable then { t with toTask := t.toTask.resume }
      else { t with entryPc := t.pc }) with current := some i }

/-- `Coroutine::Pause` of the current task, and the end of `__vmill_run`. -/
def yield (σ : Kernel) (i : Nat) : Kernel :=
  { σ.onTask i (fun t => { t with toTask := t.toTask.pause }) with current := none }

/-- The end of `__vmill_execute`, and of `__vmill_run`. -/
def finish (σ : Kernel) (i : Nat) : Kernel :=
  { σ.onTask i (fun t => { t with toTask := t.toTask.epilogue t.entryPc }) with current := none }

end Kernel

/-- What can be seen of a step: the scheduler ran a task, or took one off its blocked
count, or passed it over; a futex call blocked or returned, and what it woke. -/
inductive Out where
  | quiet
  | ran (i : Nat)
  | ticked (i left : Nat)
  | skipped (i : Nat)
  | blocked (i : Nat) (w : FutexWait)
  | returned (i : Nat) (code : Int)
  | woke (waker : Nat) (woken : List (Nat × Nat)) (code : Int)
deriving DecidableEq, Repr

namespace Kernel

/-- The body of the loop of `__vmill_resume` for one task. -/
def visit (σ : Kernel) (i : Nat) : Option (Out × Kernel) :=
  match σ.current, σ.tasks[i]? with
  | none, some t =>
    if t.status = .runnable ∨ t.status = .resumable then
      if t.blockedCount = 0 then some (.ran i, σ.run i)
      else some (.ticked i (t.blockedCount - 1),
        σ.onTask i fun t => { t with blockedCount := t.blockedCount - 1 })
    else some (.skipped i, σ)
  | _, _ => none

end Kernel

end Vmill.Linux
