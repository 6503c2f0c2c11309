import Mathlib.Data.Nat.Notation

/-!
# Tasks (`Task.h`, `Runtime.cpp`, `Coroutine.cpp`)

The fields that say whether a task may run, and each function of the runtime that writes them.
-/

namespace Vmill

inductive TaskStatus where
  | runnable
  | resumable
  | error
  | exited
deriving DecidableEq, Repr

inductive TaskStopLocation where
  | notYetStarted
  | atSnapshotEntryPoint
  | atJumpTarget
  | atCallTarget
  | atReturnTarget
  | atError
  | afterHyperCall
  | beforeUnhandledHyperCall
  | atUnsupportedInstruction
  | atExit
deriving DecidableEq, Repr

inductive MemoryAccessFaultKind where
  | noFault
  | onRead
  | onWrite
  | onExecute
deriving DecidableEq, Repr

inductive MemoryValueType where
  | invalid
  | integer
  | floatingPoint
  | instruction
deriving DecidableEq, Repr

structure MemAccessFault where
  address : Nat
  accessSize : Nat
  kind : MemoryAccessFaultKind
  valueType : MemoryValueType
deriving DecidableEq, Repr

/-- `Task`, without its registers, its coroutine and the rounding mode. -/
structure Task where
  pc : Nat
  status : TaskStatus
  statusOnResume : TaskStatus
  location : TaskStopLocation
  lastPc : Nat
  memAccessFault : MemAccessFault
deriving DecidableEq, Repr

namespace Task

/-- `__vmill_init_task`, in memory that `__vmill_create_task` has set to zero. -/
def init (pc : Nat) : Task where
  pc := pc
  status := .runnable
  statusOnResume := .runnable
  location := .notYetStarted
  lastPc := 0
  memAccessFault := { address := 0, accessSize := 0, kind := .noFault, valueType := .invalid }

/-- `status` and `status_on_resume` are always set together when a task stops for good. -/
def stop (t : Task) (status : TaskStatus) : Task :=
  { t with status := status, statusOnResume := status }

/-- `MAKE_MEM_FAULT`: only the first fault is recorded. -/
def recordFault (kind : MemoryAccessFaultKind) (valueType : MemoryValueType) (size : Nat)
    (t : Task) (addr : Nat) : Task :=
  if t.memAccessFault.kind = .noFault then
    { t.stop .error with
      memAccessFault := { address := addr, accessSize := size, kind := kind, valueType := valueType } }
  else t

def recordReadFault8 (t : Task) (addr : Nat) : Task := t.recordFault .onRead .integer 1 addr

def recordWriteFault8 (t : Task) (addr : Nat) : Task := t.recordFault .onWrite .integer 1 addr

/-- `FindLiftedFunctionForTask`, when the program counter is not executable. An earlier
fault is replaced. -/
def recordExecuteFault (t : Task) : Task :=
  { t with
    status := .error
    memAccessFault :=
      { address := t.pc, accessSize := 1, kind := .onExecute, valueType := .instruction } }

def setLocation (t : Task) (pc : Nat) (loc : TaskStopLocation) : Task :=
  let t := { t with pc := pc, location := loc }
  match loc with
  | .atError | .beforeUnhandledHyperCall | .atUnsupportedInstruction => t.stop .error
  | .atExit => t.stop .exited
  | _ => t

def remillError (t : Task) (pc : Nat) : Task :=
  { t with pc := pc, location := .atError }.stop .error

/-- `__remill_jump`, up to the call of `__vmill_yield`. -/
def remillJump (t : Task) (pc : Nat) : Task := { t with pc := pc, location := .atJumpTarget }

/-- `__remill_function_call`, up to the call of `__vmill_yield`. -/
def remillFunctionCall (t : Task) (pc : Nat) : Task := { t with pc := pc, location := .atCallTarget }

def remillFunctionReturn (t : Task) (pc : Nat) : Task :=
  { t with pc := pc, location := .atReturnTarget }

/-- `Coroutine::Pause`, up to the switch. -/
def pause (t : Task) : Task :=
  let t := { t with statusOnResume := t.status }
  if t.status = .runnable then { t with status := .resumable } else t

/-- `Coroutine::Resume`, up to the switch. The `DCHECK` is not in a release build. -/
def resume (t : Task) : Task := { t with status := t.statusOnResume }

/-- What `__vmill_execute` does once the lifted code has returned; `pc` is the program
counter it was called with. -/
def epilogue (t : Task) (pc : Nat) : Task :=
  let t := { t with lastPc := pc }
  if t.memAccessFault.kind = .noFault then
    match t.location with
    | .atError | .beforeUnhandledHyperCall => { t with status := .error }
    | _ => { t with status := .runnable }
  else { t with status := .error }

end Task

end Vmill
