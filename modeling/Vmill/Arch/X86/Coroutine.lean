import Vmill.Base.Run
import Vmill.Base.X86

/-!
# Coroutine switching (`Arch/X86/Coroutine.S`)

`__vmill_execute_async` and `__vmill_yield_async` go back and forth between the stack of a coroutine
and the host's. What a side leaves behind is in a save area below the end of the coroutine's stack:

    stack_end - 128   rsp
    stack_end - 120   rbx, rbp, r12, r13, r14, r15
    stack_end - 72    the Coroutine

The code that runs between two switches is not modelled.
-/

namespace Vmill

open Base X86

/-- `__vmill_yield_async`; `rdi` is the end of the coroutine's stack. -/
def yieldAsync : List Instr := [
  .lea .rdi ⟨.rdi, -120⟩,
  -- save and restore the callee-saved registers
  .xchgMem .rbx ⟨.rdi, 0⟩,
  .xchgMem .rbp ⟨.rdi, 8⟩,
  .xchgMem .r12 ⟨.rdi, 16⟩,
  .xchgMem .r13 ⟨.rdi, 24⟩,
  .xchgMem .r14 ⟨.rdi, 32⟩,
  .xchgMem .r15 ⟨.rdi, 40⟩,
  -- restore the old stack pointer
  .xchgMem .rsp ⟨.rdi, -8⟩,
  .ret]

/-- `__vmill_execute_async` up to and with the call of `__vmill_execute`, which is at
`execute` and returns to `next`; `rdi` is the task. -/
def executeAsyncEntry (execute next : BitVec 64) : List Instr := [
  .movLoad .rdx ⟨.rdi, 24⟩,
  -- count up `on_stack`
  .incDword ⟨.rdx, 12⟩,
  .push .rdx,
  .movLoad .rdx ⟨.rdx, 0⟩,
  .lea .rdx ⟨.rdx, -120⟩,
  -- the coroutine, for the way out
  .popMem ⟨.rdx, 48⟩,
  .movStore ⟨.rdx, 0⟩ .rbx,
  .movStore ⟨.rdx, 8⟩ .rbp,
  .movStore ⟨.rdx, 16⟩ .r12,
  .movStore ⟨.rdx, 24⟩ .r13,
  .movStore ⟨.rdx, 32⟩ .r14,
  .movStore ⟨.rdx, 40⟩ .r15,
  -- swap stacks, and save the old stack pointer
  .xchg .rdx .rsp,
  .push .rdx,
  .call execute next]

/-- `__vmill_execute_async` from where `__vmill_execute` returns to. -/
def executeAsyncExit : List Instr := [
  .lea .rdx ⟨.rsp, 8⟩,
  -- swap stacks
  .pop .rsp,
  .movLoad .rbx ⟨.rdx, 0⟩,
  .movLoad .rbp ⟨.rdx, 8⟩,
  .movLoad .r12 ⟨.rdx, 16⟩,
  .movLoad .r13 ⟨.rdx, 24⟩,
  .movLoad .r14 ⟨.rdx, 32⟩,
  .movLoad .r15 ⟨.rdx, 40⟩,
  -- count down `on_stack`
  .movLoad .rdx ⟨.rdx, 48⟩,
  .decDword ⟨.rdx, 12⟩,
  .ret]

/-- Where things are: the coroutine, the end of its stack, `__vmill_execute`, and the code
after the call of it. The coroutine object is not on its own stack. -/
structure Layout where
  coroutine : BitVec 64
  stackEnd : BitVec 64
  execute : BitVec 64
  next : BitVec 64
  room : 136 ≤ stackEnd.toNat
  fits : coroutine.toNat + 16 ≤ 2 ^ 64
  apart : Distinct coroutine.toNat 16 (stackEnd.toNat - 136) 136
deriving DecidableEq, Repr

/-- What a function finds unchanged when a call returns, and where it is then. -/
structure Context where
  rbx : BitVec 64
  rbp : BitVec 64
  r12 : BitVec 64
  r13 : BitVec 64
  r14 : BitVec 64
  r15 : BitVec 64
  rsp : BitVec 64
  rip : BitVec 64
deriving DecidableEq, Repr

def Context.current (c : Cpu) : Context :=
  ⟨c.reg .rbx, c.reg .rbp, c.reg .r12, c.reg .r13, c.reg .r14, c.reg .r15, c.reg .rsp, c.rip⟩

/-- The context of a caller, read where a routine is called: its return address is on the
top of the stack. -/
def Context.ofCaller (c : Cpu) : Context :=
  { Context.current c with rsp := c.reg .rsp + 8, rip := c.loadWord (c.reg .rsp) }

def Layout.onStack (L : Layout) (m : ByteMem) : Nat := load m (L.coroutine.toNat + 12) 4

/-- A switch, and the state of the processor in which it starts. -/
inductive SwitchOp where
  /-- The host calls `__vmill_execute_async`. -/
  | execute (c : Cpu)
  /-- `__vmill_yield_async` is called from `Coroutine::Pause`, on the coroutine's side. -/
  | pause (c : Cpu)
  /-- `__vmill_yield_async` is called from `Coroutine::Resume`, on the host's side. -/
  | resume (c : Cpu)
  /-- `__vmill_execute` has returned. -/
  | finish (c : Cpu)

/-- What a switch did: the context that was left, the context in which it ended, and the
counter. -/
structure Switched where
  op : SwitchOp
  found : Context
  onStack : Nat

inductive Side where
  /-- The host, with nothing on the coroutine's stack. -/
  | host
  | coroutine
  /-- The host, with the coroutine paused. -/
  | paused
deriving DecidableEq, Repr

structure SwitchState where
  side : Side
  mem : ByteMem

namespace Layout

/-- The processor after a switch, and the side that then runs. -/
def switch (L : Layout) (op : SwitchOp) (side : Side) : Option (Cpu × Side) :=
  match op, side with
  | .execute c, .host => some (c.run (executeAsyncEntry L.execute L.next), .coroutine)
  | .pause c, .coroutine => some (c.run yieldAsync, .paused)
  | .resume c, .paused => some (c.run yieldAsync, .coroutine)
  | .finish c, .coroutine => some (c.run executeAsyncExit, .host)
  | _, _ => none

def switching (L : Layout) : Machine SwitchState SwitchOp Switched where
  step op σ :=
    (L.switch op σ.side).map fun (c, side) =>
      (⟨op, .current c, L.onStack c.mem⟩, ⟨side, c.mem⟩)

end Layout

end Vmill
