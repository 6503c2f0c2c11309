import Vmill.Base.Words

/-!
# A little x86-64

Moves and exchanges between registers and memory, the stack instructions, and counting in memory.
Flags are left out.
-/

namespace Vmill.Base.X86

inductive Reg where
  | rbx | rbp | rsp | rdx | rdi | rsi | r12 | r13 | r14 | r15
deriving DecidableEq, Repr

/-- A memory operand `[base + disp]`. -/
structure Operand where
  base : Reg
  disp : Int
deriving DecidableEq, Repr

structure Cpu where
  reg : Reg → BitVec 64
  /-- Where control is after the last jump. -/
  rip : BitVec 64
  mem : ByteMem

inductive Instr where
  /-- `lea r, [o]` -/
  | lea (r : Reg) (o : Operand)
  /-- `mov r, [o]` -/
  | movLoad (r : Reg) (o : Operand)
  /-- `mov [o], r` -/
  | movStore (o : Operand) (r : Reg)
  /-- `xchg r, [o]` -/
  | xchgMem (r : Reg) (o : Operand)
  /-- `xchg r, r'` -/
  | xchg (r r' : Reg)
  | push (r : Reg)
  | pop (r : Reg)
  /-- `pop qword ptr [o]` -/
  | popMem (o : Operand)
  /-- `inc dword ptr [o]` -/
  | incDword (o : Operand)
  /-- `dec dword ptr [o]` -/
  | decDword (o : Operand)
  /-- A call that returns to `next`. -/
  | call (target next : BitVec 64)
  | ret
deriving DecidableEq, Repr

namespace Cpu

def set (c : Cpu) (r : Reg) (v : BitVec 64) : Cpu := { c with reg := Function.update c.reg r v }

/-- The address of an operand. -/
def addr (c : Cpu) (o : Operand) : BitVec 64 := c.reg o.base + BitVec.ofInt 64 o.disp

def loadWord (c : Cpu) (a : BitVec 64) : BitVec 64 := word c.mem a.toNat

def storeWord (c : Cpu) (a v : BitVec 64) : Cpu := { c with mem := setWord c.mem a.toNat v }

def addDword (c : Cpu) (a : BitVec 64) (n : Nat) : Cpu :=
  { c with mem := store c.mem a.toNat 4 ((load c.mem a.toNat 4 + n) % 2 ^ 32) }

/-- `push v`. -/
def pushWord (c : Cpu) (v : BitVec 64) : Cpu :=
  let rsp := c.reg .rsp - 8
  (c.set .rsp rsp).storeWord rsp v

def exec (c : Cpu) : Instr → Cpu
  | .lea r o => c.set r (c.addr o)
  | .movLoad r o => c.set r (c.loadWord (c.addr o))
  | .movStore o r => c.storeWord (c.addr o) (c.reg r)
  | .xchgMem r o => (c.storeWord (c.addr o) (c.reg r)).set r (c.loadWord (c.addr o))
  | .xchg r r' => (c.set r (c.reg r')).set r' (c.reg r)
  | .push r => c.pushWord (c.reg r)
  -- for `pop rsp` the loaded value is what stays in `rsp`
  | .pop r => (c.set .rsp (c.reg .rsp + 8)).set r (c.loadWord (c.reg .rsp))
  -- an operand with base `rsp` would see the incremented `rsp`
  | .popMem o =>
    let c' := c.set .rsp (c.reg .rsp + 8)
    c'.storeWord (c'.addr o) (c.loadWord (c.reg .rsp))
  | .incDword o => c.addDword (c.addr o) 1
  | .decDword o => c.addDword (c.addr o) (2 ^ 32 - 1)
  | .call target next => { c.pushWord next with rip := target }
  | .ret => { c.set .rsp (c.reg .rsp + 8) with rip := c.loadWord (c.reg .rsp) }

/-- Straight-line code. -/
def run (c : Cpu) (code : List Instr) : Cpu := code.foldl exec c

end Cpu

end Vmill.Base.X86
