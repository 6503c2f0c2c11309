import Vmill.Arch.Decoder
import Vmill.Base.Blocks

/-!
# The lifter (`BC/Lifter.cpp`)

`LiftTrace` builds one function for a trace, with a block for each instruction. Of remill
(`Lifter`): `AddTerminatingTailCall` appends a call and a return, and `LiftIntoBlock` appends no
terminator.
-/

namespace Vmill

open Base

/-- The functions that a block calls at its end: intrinsics of remill, or another trace. -/
inductive Callee where
  | error
  | jump
  | functionCall
  | functionReturn
  | asyncHyperCall
  | missingBlock
  | trace (pc : PC)
deriving DecidableEq, Repr

/-- The condition of a branch: `BRANCH_TAKEN`, or that the program counter is a constant. -/
inductive Guard where
  | branchTaken
  | pcIs (pc : Nat)
deriving DecidableEq, Repr

inductive Terminator where
  | ret
  | br (target : Nat)
  | condBr (guard : Guard) (ifTrue ifFalse : Nat)
deriving DecidableEq, Repr

/-- Instructions of the function. `prologue` is what `CloneBlockFunctionInto` puts into the entry
block, `callback` the call of the instruction callback. -/
inductive IR where
  | prologue
  | storePc (pc : Nat)
  | callback
  | semantics (pc : PC)
  | call (callee : Callee)
  | term (terminator : Terminator)
deriving DecidableEq, Repr

/-- The function under construction. The entry block is the block 0. -/
abbrev LiftedCode := Blocks PC IR

/-- What is used of remill, the flags and the module. -/
structure Lifter where
  addressSize : Nat
  callback : Bool
  /-- There is a function for the trace in the module. -/
  declared : PC → Bool
  /-- `LiftIntoBlock` returns `kLiftedInstruction`. -/
  liftIntoBlock : Instruction → Bool
  branchNotTakenPc : Instruction → PC
  notTaken : ∀ inst, inst.category = .conditionalBranch → branchNotTakenPc inst = inst.nextPc

def terminator? (body : List IR) : Option Terminator :=
  match body.getLast? with
  | some (.term t) => some t
  | _ => none

namespace Lifter

def pcConstant (L : Lifter) (pc : PC) : Nat := pc.val % 2 ^ L.addressSize

def getOrCreateBlock (L : Lifter) (f : LiftedCode) (blockPc : PC) : Nat × LiftedCode :=
  f.getOrCreate blockPc [.storePc (L.pcConstant blockPc)]

def addTerminatingTailCall (f : LiftedCode) (block : Nat) (callee : Callee) : LiftedCode :=
  f.append block [.call callee, .term .ret]

/-- `removeFromParent` and `eraseFromParent` of the terminator. -/
def removeTerminator (f : LiftedCode) (block : Nat) : LiftedCode :=
  f.set block (f.code block).dropLast

/-- `LiftPostFunctionCall`. `none`: the block does not end in a return. -/
def liftPostFunctionCall (f : LiftedCode) (callBlock fallThroughBlock expectedRetPc : Nat) :
    Option LiftedCode :=
  match terminator? (f.code callBlock) with
  | some .ret =>
    let f := removeTerminator f callBlock
    let (unexpectedPcBlock, f) := f.create []
    let f := f.append callBlock
      [.term (.condBr (.pcIs expectedRetPc) fallThroughBlock unexpectedPcBlock)]
    some (f.append unexpectedPcBlock [.term .ret])
  | _ => none

def connect (L : Lifter) (f : LiftedCode) (block : Nat) (inst : Instruction) :
    Option LiftedCode :=
  match inst.category with
  | .invalid | .error => some (addTerminatingTailCall f block .error)
  | .normal | .noOp =>
    let (next, f) := L.getOrCreateBlock f inst.nextPc
    some (f.append block [.term (.br next)])
  | .directJump =>
    let (taken, f) := L.getOrCreateBlock f inst.branchTakenPc
    some (f.append block [.term (.br taken)])
  | .indirectJump => some (addTerminatingTailCall f block .jump)
  | .directFunctionCall =>
    if inst.branchTakenPc ≠ inst.nextPc then
      let target :=
        if L.declared inst.branchTakenPc then .trace inst.branchTakenPc else .functionCall
      let f := addTerminatingTailCall f block target
      let (next, f) := L.getOrCreateBlock f inst.nextPc
      liftPostFunctionCall f block next (L.pcConstant inst.nextPc)
    else some f
  | .indirectFunctionCall =>
    let f := addTerminatingTailCall f block .functionCall
    let (next, f) := L.getOrCreateBlock f inst.nextPc
    liftPostFunctionCall f block next (L.pcConstant inst.nextPc)
  | .functionReturn => some (addTerminatingTailCall f block .functionReturn)
  | .conditionalBranch | .conditionalAsyncHyperCall =>
    let (taken, f) := L.getOrCreateBlock f inst.branchTakenPc
    let (notTaken, f) := L.getOrCreateBlock f (L.branchNotTakenPc inst)
    some (f.append block [.term (.condBr .branchTaken taken notTaken)])
  | .asyncHyperCall =>
    let f := addTerminatingTailCall f block .asyncHyperCall
    let f := removeTerminator f block
    some (addTerminatingTailCall f block .jump)

def liftInstruction (L : Lifter) (f : LiftedCode) (pc : PC) (inst : Instruction) :
    Option LiftedCode :=
  let (block, f) := L.getOrCreateBlock f pc
  let f := if L.callback then f.append block [.callback] else f
  let f := f.append block [.semantics pc]
  if !L.liftIntoBlock inst then some (addTerminatingTailCall f block .error)
  else L.connect f block inst

def liftInstructions (L : Lifter) (f : LiftedCode) : List (PC × Instruction) → Option LiftedCode
  | [] => some f
  | (pc, inst) :: insts =>
    match L.liftInstruction f pc inst with
    | none => none
    | some f => L.liftInstructions f insts

/-- Terminate any stragglers. The order of the map does not matter, since each turn of the loop
looks at its own block only. -/
def terminateStragglers (f : LiftedCode) : List (PC × Nat) → LiftedCode
  | [] => f
  | (_, block) :: blocks =>
    match terminator? (f.code block) with
    | none => terminateStragglers (addTerminatingTailCall f block .missingBlock) blocks
    | some _ => terminateStragglers f blocks

/-- The function after `CloneBlockFunctionInto`: it has an entry block. -/
def clonedBlockFunction : LiftedCode := { size := 1, code := fun _ => [.prologue], named := [] }

/-- Create a branch from the entry point of the function to the block of the trace's entry. -/
def branchToEntry (L : Lifter) (pc : PC) : Nat × LiftedCode :=
  let (entryBlock, f) := L.getOrCreateBlock clonedBlockFunction pc
  (entryBlock, f.append 0 [.term (.br entryBlock)])

def liftTrace (L : Lifter) (trace : DecodedTrace) : Option LiftedCode :=
  let (entryBlock, f) := L.branchToEntry trace.pc
  -- a basic block exists even if the first instruction failed to decode
  if !trace.instructions.contains trace.pc then
    some (addTerminatingTailCall f entryBlock .error)
  else
    match L.liftInstructions f trace.instructions.entries with
    | none => none
    | some f => some (terminateStragglers f f.named)

end Lifter

end Vmill
