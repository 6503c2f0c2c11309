import Vmill.Runtime.Linux.Futex

/-!
# What `FUTEX_WAKE_OP` should do

From the top the op word has a flag for a shift, the operator, the comparator, and two signed
arguments of twelve bits.
-/

namespace Vmill.Futex

open Linux

inductive Operator where
  | set
  | add
  | or
  | andNot
  | xor
deriving DecidableEq, Repr

def Operator.all : List Operator := [.set, .add, .or, .andNot, .xor]

def Operator.apply (old arg : BitVec 32) : Operator → BitVec 32
  | .set => arg
  | .add => old + arg
  | .or => old ||| arg
  | .andNot => old &&& ~~~arg
  | .xor => old ^^^ arg

inductive Comparator where
  | eq
  | ne
  | lt
  | le
  | gt
  | ge
deriving DecidableEq, Repr

def Comparator.all : List Comparator := [.eq, .ne, .lt, .le, .gt, .ge]

def Comparator.holds (old arg : BitVec 32) : Comparator → Bool
  | .eq => old == arg
  | .ne => old != arg
  | .lt => old.slt arg
  | .le => old.sle arg
  | .gt => arg.slt old
  | .ge => arg.sle old

section
variable (op : BitVec 32)

def cmparg : BitVec 32 := (op.extractLsb' 0 12).signExtend 32

def oparg : BitVec 32 := (op.extractLsb' 12 12).signExtend 32

def comparator : Option Comparator := Comparator.all[(op.extractLsb' 24 4).toNat]?

def operator : Option Operator := Operator.all[(op.extractLsb' 28 3).toNat]?

def shifts : Bool := op.getLsbD 31

/-- The argument of the operation. With the flag it is a power of two, and there is none if
the exponent is out of bounds. -/
def argument : Option (BitVec 32) :=
  if shifts op then
    if 0 ≤ (oparg op).toInt ∧ (oparg op).toInt ≤ 31 then some (1#32 <<< oparg op) else none
  else some (oparg op)

end

/-- The call fails, or it stores a value and wakes tasks, on the second address or not. -/
inductive WakeOp where
  | fails (code : Int)
  | wakes (newVal : BitVec 32) (another : Bool)
deriving DecidableEq, Repr

/-- What an op word does with a word, if that can be read and written. -/
def wakeOp (op : BitVec 32) (word : Option (BitVec 32)) : WakeOp :=
  match argument op with
  | none => .fails (-eINVAL)
  | some arg =>
    match operator op, comparator op with
    | some o, some c =>
      match word with
      | none => .fails (-eFAULT)
      | some old => .wakes (o.apply old arg) (c.holds old (cmparg op))
    | _, _ => .fails (-eNOSYS)

end Vmill.Futex
