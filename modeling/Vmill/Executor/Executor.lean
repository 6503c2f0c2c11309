import Vmill.Arch.Decoder
import Vmill.Program.World

/-!
# The executor (`Executor.cpp`)

On the stack of its coroutine a task pauses until its lift job is done, and other tasks run in
between; elsewhere the call waits. A lifted function is named by its trace. The lifter gives a
function for every trace it is handed.
-/

namespace Vmill

open Base

structure LiveTraceId where
  pc : PC
  codeVersion : Nat
deriving DecidableEq, Repr

def DecodedTrace.liveId (t : DecodedTrace) : LiveTraceId := ⟨t.pc, t.codeVersion⟩

/-- Where a task is: elsewhere, or paused inside `DecodeTracesFromTask`, with the key
it was asked for, the traces handed to the lifter, and whether that job is done. -/
inductive TaskState where
  | running
  | lifting (liveId : LiveTraceId) (traces : List DecodedTrace) (ready : Bool)

/-- The state of the executor. `jobs` are the tasks that wait for lift jobs, in the
order of submission. -/
structure Executor where
  world : World
  liveTraces : LiveTraceId → Option TraceId
  codeCache : TraceId → Bool
  tasks : Nat → TaskState
  jobs : List Nat

/-- What the executor is asked to do. `onCoroutine`: the task is executing on its
coroutine, so the call pauses instead of waiting. -/
inductive ExecutorOp where
  | memory (op : Op)
  | findLiftedFunction (task i : Nat) (pc : PC) (onCoroutine : Bool)
  | finishJob (task : Nat)
  | resume (task : Nat)

/-- What comes back. `fault`: the program counter is not executable, and the task has
an execution fault; `error`: `error_intrinsic` without one. -/
inductive Answer where
  | memory (out : Out)
  | found (id : TraceId)
  | fault
  | error
  | paused
  | finished
deriving DecidableEq, Repr

namespace Executor

/-- Before the first task: what the code cache and the index have from earlier runs
is there. -/
def start (liveTraces : LiveTraceId → Option TraceId) (codeCache : TraceId → Bool) : Executor :=
  { world := World.init
    liveTraces := liveTraces
    codeCache := codeCache
    tasks := fun _ => .running
    jobs := [] }

/-- The loop of `DecodeTracesFromTask` over the decoded traces: those with lifted
code are dropped, and made live if they are not. -/
def dropLifted (codeCache : TraceId → Bool) : (LiveTraceId → Option TraceId) →
    List DecodedTrace → (LiveTraceId → Option TraceId) × List DecodedTrace
  | live, [] => (live, [])
  | live, t :: ts =>
    if (live t.liveId).isSome then dropLifted codeCache live ts
    else if codeCache t.id then
      dropLifted codeCache (Function.update live t.liveId (some t.id)) ts
    else
      let (live, rest) := dropLifted codeCache live ts
      (live, t :: rest)

/-- `AddModuleToCache` of the module lifted from `traces`. `LoadIndex` takes an index
entry whose program counter is zero for padding. -/
def addModuleToCache (codeCache : TraceId → Bool) (traces : List DecodedTrace) : TraceId → Bool :=
  fun id => codeCache id || (decide (id.pc ≠ 0) && traces.any (fun t => decide (t.id = id)))

def addLiveTraces (codeCache : TraceId → Bool) (live : LiveTraceId → Option TraceId)
    (traces : List DecodedTrace) : LiveTraceId → Option TraceId :=
  traces.foldl (fun live t =>
    if codeCache t.id then Function.update live t.liveId (some t.id) else live) live

/-- The end of `DecodeTracesFromTask`, after the lift job, and the second lookup of
`FindLiftedFunctionForTask`. No traces: no module. -/
def finishLifting (ex : Executor) (liveId : LiveTraceId) (traces : List DecodedTrace) :
    Answer × Executor :=
  let ex :=
    if traces.isEmpty then ex
    else
      let codeCache := addModuleToCache ex.codeCache traces
      { ex with
        codeCache := codeCache
        liveTraces := addLiveTraces codeCache ex.liveTraces traces }
  match ex.liveTraces liveId with
  | some id => (.found id, ex)
  | none => (.error, ex)

/-- `FindLiftedFunctionForTask`, up to the end or to the first pause. -/
def findLiftedFunctionForTask (cfg : Config) (arch : Arch) (ex : Executor) (task i : Nat) (pc : PC)
    (onCoroutine : Bool) : Option (Answer × Executor) :=
  match ex.world.spaces[i]? with
  | none => none
  | some s =>
    let (codeVersion, s, h) := s.computeCodeVersion cfg ex.world.heap pc.val
    let ex := { ex with world := ex.world.put i s h }
    let liveId : LiveTraceId := ⟨pc, codeVersion⟩
    match ex.liveTraces liveId with
    | some id => some (.found id, ex)
    | none =>
      if !s.canExecute pc.val then some (.fault, ex)
      else
        match decodeTraces cfg arch s h pc with
        | none => none
        | some (traces, s, h) =>
          let (live, traces) := dropLifted ex.codeCache ex.liveTraces traces
          let ex := { ex with world := ex.world.put i s h, liveTraces := live }
          if onCoroutine then
            some (.paused,
              { ex with
                tasks := Function.update ex.tasks task (.lifting liveId traces false)
                jobs := ex.jobs ++ [task] })
          else some (ex.finishLifting liveId traces)

/-- One step. The pool starts jobs in order, on `numLiftThreads` threads. -/
def step (cfg : Config) (arch : Arch) (numLiftThreads : Nat) :
    ExecutorOp → Executor → Option (Answer × Executor)
  | .memory op, ex =>
    match World.step cfg op ex.world with
    | none => none
    | some (out, w) => some (.memory out, { ex with world := w })
  | .findLiftedFunction task i pc onCoroutine, ex =>
    match ex.tasks task with
    | .lifting _ _ _ => none
    | .running => ex.findLiftedFunctionForTask cfg arch task i pc onCoroutine
  | .finishJob task, ex =>
    match ex.tasks task with
    | .running => none
    | .lifting liveId traces _ =>
      if task ∈ ex.jobs.take numLiftThreads then
        some (.finished,
          { ex with
            tasks := Function.update ex.tasks task (.lifting liveId traces true)
            jobs := ex.jobs.erase task })
      else none
  | .resume task, ex =>
    match ex.tasks task with
    | .running => none
    | .lifting _ _ false => some (.paused, ex)
    | .lifting liveId traces true =>
      let ex := { ex with tasks := Function.update ex.tasks task .running }
      some (ex.finishLifting liveId traces)

end Executor

def executor (cfg : Config) (arch : Arch) (numLiftThreads : Nat) :
    Machine Executor ExecutorOp Answer where
  step := Executor.step cfg arch numLiftThreads

/-! ## One task -/

inductive TaskOp where
  | memory (op : Op)
  | findLiftedFunction (i : Nat) (pc : PC) (onCoroutine : Bool)

/-- A whole call of `FindLiftedFunctionForTask` for task 0: if it pauses, its lift job ends and
the task is resumed. -/
def Executor.completeFind (cfg : Config) (arch : Arch) (numLiftThreads : Nat) (ex : Executor)
    (i : Nat) (pc : PC) (onCoroutine : Bool) : Option (Answer × Executor) :=
  match Executor.step cfg arch numLiftThreads (.findLiftedFunction 0 i pc onCoroutine) ex with
  | some (.paused, ex) =>
    match Executor.step cfg arch numLiftThreads (.finishJob 0) ex with
    | none => none
    | some (_, ex) => Executor.step cfg arch numLiftThreads (.resume 0) ex
  | r => r

/-- The machine of one task, whose calls are complete before anything else happens. -/
def singleTask (cfg : Config) (arch : Arch) (numLiftThreads : Nat) :
    Machine Executor TaskOp Answer where
  step
    | .memory op => Executor.step cfg arch numLiftThreads (.memory op)
    | .findLiftedFunction i pc onCoroutine =>
      fun ex => ex.completeFind cfg arch numLiftThreads i pc onCoroutine

end Vmill
