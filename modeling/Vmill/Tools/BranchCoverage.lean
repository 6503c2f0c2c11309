import Mathlib.Algebra.Ring.Nat
import Vmill.Base.Ssa

/-!
# The branch coverage tool (`BranchCoverage.cpp`)

The blocks from `next` on are free for new ones. `J` are the instructions that the tool does not
look at, `V` the values of the function, `C` the constants of switches and `O` the terminators other
than branches and switches.
-/

namespace Vmill

open Base Ssa

namespace BranchCoverage

abbrev Location := BitVec 32

/-- The calls that the tool adds: `__cov_branch(edge, not_taken_edge)` and
`__cov_switch(edge, edges_begin, edges_end)`, the latter with the edges of its array. -/
inductive Call where
  | covBranch (edge notTakenEdge : Location)
  | covSwitch (edge : Location) (edges : List Location)
deriving DecidableEq, Repr

def Call.edge : Call → Location
  | .covBranch edge _ => edge
  | .covSwitch edge _ => edge

/-- A value of the function, or the result of a load that the tool has added. -/
inductive Operand (V : Type) where
  | value (v : V)
  | load (tmp : Nat)
deriving DecidableEq, Repr

/-- Instructions. A temporary stands for an `alloca` of the tool. -/
inductive Inst (J V : Type) where
  | inst (j : J)
  | alloca (tmp : Nat)
  | store (val : Operand V) (tmp : Nat)
  | load (tmp : Nat)
  | call (c : Call)
deriving DecidableEq, Repr

/-- Terminators, without their successors. Those of a conditional branch are the block that is taken
and the other one, those of a switch the default and then the cases. -/
inductive Kind (V C O : Type) where
  | br
  | condBr (cond : V)
  | switch (cond : V) (cases : List C)
  | catchSwitch (o : O)
  | other (o : O)
deriving DecidableEq, Repr

/-- `llvm::Function`. From `nextTmp` on temporaries are free. -/
structure Function (J V C O : Type) extends Func (Inst J V) (Operand V) (Kind V C O) where
  nextTmp : Nat
  naked : Bool

variable {J V C O : Type}

/-! ## Edges -/

def setSuccessor (f : Function J V C O) (b i dest : Nat) : Function J V C O :=
  { f with
    block := Function.update f.block b
      { f.block b with succs := (f.block b).succs.set i dest } }

/-- The loop body of `BlockForEdge`, for one PHI node: the node, the instructions for the new block,
and the temporaries that are left. -/
def forwardPhi (src mid tmp : Nat) (phi : Phi (Operand V)) :
    Phi (Operand V) × List (Inst J V) × Nat :=
  -- `phi->getBasicBlockIndex(from)`
  match phi.incoming.findIdx? (·.1 == src) with
  | none => (phi, [], tmp)
  | some index =>
    match phi.incoming[index]? with
    | none => (phi, [], tmp)
    | some (_, val) =>
      ({ phi with incoming := phi.incoming.set index (mid, .load tmp) },
        [.alloca tmp, .store val tmp, .load tmp], tmp + 1)

def forwardPhis (src mid : Nat) :
    Nat → List (Phi (Operand V)) → List (Phi (Operand V)) × List (Inst J V) × Nat
  | tmp, [] => ([], [], tmp)
  | tmp, phi :: phis =>
    let (phi, insts, tmp) := forwardPhi src mid tmp phi
    let (phis, insts', tmp) := forwardPhis src mid tmp phis
    (phi :: phis, insts ++ insts', tmp)

/-- A new block in front of `dest` in the list of blocks. -/
def insertBefore (mid dest : Nat) : List Nat → List Nat
  | [] => []
  | b :: order => if b = dest then mid :: b :: order else b :: insertBefore mid dest order

/-- `BlockForEdge`: the new block is `f.next`. -/
def blockForEdge (f : Function J V C O) (src dest : Nat) : Function J V C O :=
  let mid := f.next
  let (phis, insts, tmp) := forwardPhis src mid f.nextTmp (f.block dest).phis
  { f with
    order := insertBefore mid dest f.order
    block := Function.update (Function.update f.block dest { f.block dest with phis := phis }) mid
      { phis := [], insts := insts, kind := .br, succs := [dest] }
    next := mid + 1
    nextTmp := tmp }

/-- `ShouldInstrumentEdge`: only a block that is a `catchswitch` has no insertion point. -/
def shouldInstrumentEdge (f : Function J V C O) (dest : Nat) : Bool :=
  match (f.block dest).kind with
  | .catchSwitch _ => false
  | _ => true

/-- `ir.CreateCall` at the first insertion point of a block. -/
def createCall (f : Function J V C O) (b : Nat) (c : Call) : Function J V C O :=
  { f with
    block := Function.update f.block b { f.block b with insts := .call c :: (f.block b).insts } }

/-! ## Instrumentation -/

/-- The part of `Instrument(BranchInst *)` for one successor. -/
def instrumentEdge (f : Function J V C O) (b i dest : Nat) (c : Call) : Function J V C O :=
  if shouldInstrumentEdge f dest then
    let mid := f.next
    createCall (setSuccessor (blockForEdge f b dest) b i mid) mid c
  else f

def instrumentBranch (f : Function J V C O) (loc : Location) (b : Nat) :
    Function J V C O × Location :=
  match (f.block b).kind, (f.block b).succs with
  | .condBr _, [takenBlock, notTakenBlock] =>
    let f := instrumentEdge f b 0 takenBlock (.covBranch loc (loc + 1))
    let f := instrumentEdge f b 1 notTakenBlock (.covBranch (loc + 1) loc)
    (f, loc + 2)
  | _, _ => (f, loc)

/-- The loop of `Instrument(SwitchInst *)` over the successors `i`, `i + 1`, ..., `i + count - 1`:
`blocks` and `locs` are what it adds to the two vectors. -/
def instrumentCases (f : Function J V C O) (loc : Location) (b i : Nat) :
    Nat → Function J V C O × Location × List Nat × List Location
  | 0 => (f, loc, [], [])
  | count + 1 =>
    match (f.block b).succs[i]? with
    | none => instrumentCases f loc b (i + 1) count
    | some dest =>
      if shouldInstrumentEdge f dest then
        let mid := f.next
        let (f, loc', blocks, locs) :=
          instrumentCases (setSuccessor (blockForEdge f b dest) b i mid) (loc + 1) b (i + 1)
            count
        (f, loc', mid :: blocks, loc :: locs)
      else instrumentCases f loc b (i + 1) count

/-- The last loop of `Instrument(SwitchInst *)`. -/
def createCalls (edges : List Location) :
    Function J V C O → List Nat → List Location → Function J V C O
  | f, block :: blocks, loc :: locs =>
    createCalls edges (createCall f block (.covSwitch loc edges)) blocks locs
  | f, _, _ => f

/-- `Instrument(SwitchInst *)`, of the block `b`. -/
def instrumentSwitch (f : Function J V C O) (loc : Location) (b : Nat) :
    Function J V C O × Location :=
  match (f.block b).kind with
  | .switch _ cases =>
    -- `num_cases` successors, which is one less than there are
    let (f, loc, blocks, locs) := instrumentCases f loc b 0 cases.length
    (createCalls locs f blocks locs, loc)
  | _ => (f, loc)

def isBranch (f : Function J V C O) (b : Nat) : Bool :=
  match (f.block b).kind with
  | .br => true
  | .condBr _ => true
  | _ => false

def isSwitch (f : Function J V C O) (b : Nat) : Bool :=
  match (f.block b).kind with
  | .switch _ _ => true
  | _ => false

/-- `InstrumentTrace`: the function and the next location. A naked function is not instrumented. -/
def instrumentTrace (f : Function J V C O) (loc : Location) : Function J V C O × Location :=
  if f.naked then (f, loc)
  else
    let branches := f.order.filter (isBranch f)
    let switches := f.order.filter (isSwitch f)
    let (f, loc) := branches.foldl (fun (f, loc) b => instrumentBranch f loc b) (f, loc)
    switches.foldl (fun (f, loc) b => instrumentSwitch f loc b) (f, loc)

/-- The functions that are instrumented one after the other. -/
def instrumentTraces : List (Function J V C O) → Location → List (Function J V C O)
  | [], _ => []
  | f :: fs, loc =>
    let (g, loc) := instrumentTrace f loc
    g :: instrumentTraces fs loc

/-! ## Execution -/

/-- The meaning of what the tool does not look at: its instructions, when a condition is true, when
a value is that of a case, and which successors the other terminators may take. -/
structure Meaning (J V C O W M : Type) where
  exec : J → (V → W) × M → (V → W) × M
  isTrue : W → Bool
  isCase : C → W → Bool
  takes : O → (V → W) × M → Nat → Prop

variable {W M : Type}

/-- The state of a function: the values, the rest of the state, and the memory of the temporaries.
-/
abbrev State (V W M : Type) : Type := (Operand V → W) × M × (Nat → Option W)

def State.own (st : State V W M) : (V → W) × M := (fun v => st.1 (.value v), st.2.1)

variable [DecidableEq V]

/-- Instructions. The coverage functions do nothing to the function that calls them. -/
def exec (sem : Meaning J V C O W M) : Inst J V → State V W M → State V W M
  | .inst j, st =>
    let (env, mem) := sem.exec j st.own
    (fun
      | .value v => env v
      | .load tmp => st.1 (.load tmp), mem, st.2.2)
  | .alloca tmp, st => (st.1, st.2.1, Function.update st.2.2 tmp none)
  | .store val tmp, st => (st.1, st.2.1, Function.update st.2.2 tmp (some (st.1 val)))
  | .load tmp, st =>
    (Function.update st.1 (.load tmp) ((st.2.2 tmp).getD (st.1 (.load tmp))), st.2)
  | .call _, st => st

def takes (sem : Meaning J V C O W M) : Kind V C O → State V W M → Nat → Prop
  | .br, _, i => i = 0
  | .condBr cond, st, i => i = if sem.isTrue (st.1 (.value cond)) then 0 else 1
  | .switch cond cases, st, i =>
    i = match cases.findIdx? (fun c => sem.isCase c (st.1 (.value cond))) with
      | none => 0
      | some k => k + 1
  | .catchSwitch o, st, i => sem.takes o st.own i
  | .other o, st, i => sem.takes o st.own i

def semantics (sem : Meaning J V C O W M) :
    Semantics (Inst J V) (Operand V) (Kind V C O) W (M × (Nat → Option W)) where
  exec := exec sem
  takes := takes sem

end BranchCoverage

end Vmill
