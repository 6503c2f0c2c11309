import Vmill.Runtime.Linux.Steps

/-!
# The scheduler (`__vmill_resume` in `Runtime/Linux/Run.cpp`)

While the loop is inside `__vmill_run`, the task that it runs takes steps of its own; so where the
loop is in its code (`Point`) is part of the state.
-/

namespace Vmill.Linux

open Base

/-- Where `__vmill_resume` is, with its local variables. -/
inductive Point where
  /-- The condition of the outer loop. -/
  | test (progressed : Bool)
  /-- The condition of the inner loop. -/
  | loop (progressed : Bool) (task : Option Nat)
  /-- In front of `task = task->next`, once the body of the inner loop is done. -/
  | next (progressed : Bool) (task : Nat)
  | returned
deriving DecidableEq, Repr

structure Resume where
  kernel : Kernel
  point : Point
deriving DecidableEq, Repr

/-- Either the scheduler goes on, or the task that it runs does. -/
inductive ResumeOp where
  | scheduler
  | guest (e : Event)
deriving DecidableEq, Repr

inductive ResumeOut where
  | quiet
  | passBegins
  | visited (i : Nat) (o : Out)
  | guest (o : Out)
  | returns
deriving DecidableEq, Repr

/-- Whether the inner loop has set `progressed`. -/
def Out.progresses : Out → Bool
  | .skipped _ => false
  | _ => true

namespace Resume

def advance (s : Resume) : Option (ResumeOut × Resume) :=
  match s.point with
  | .test true => some (.passBegins, { s with point := .loop false s.kernel.taskList })
  | .test false => some (.returns, { s with point := .returned })
  | .loop progressed none => some (.quiet, { s with point := .test progressed })
  | .loop progressed (some i) =>
    match s.kernel.visit i with
    | none => none
    | some (o, σ) =>
      some (.visited i o, { kernel := σ, point := .next (progressed || o.progresses) i })
  | .next progressed i =>
    match s.kernel.tasks[i]? with
    | none => none
    | some t => some (.quiet, { s with point := .loop progressed t.next })
  | .returned => none

def step (op : ResumeOp) (s : Resume) : Option (ResumeOut × Resume) :=
  match op, s.kernel.current with
  | .scheduler, none => s.advance
  | .guest e, some _ =>
    match linux.step e s.kernel with
    | none => none
    | some (o, σ) => some (.guest o, { s with kernel := σ })
  | _, _ => none

end Resume

def vmillResume : Machine Resume ResumeOp ResumeOut where
  step := Resume.step

end Vmill.Linux
