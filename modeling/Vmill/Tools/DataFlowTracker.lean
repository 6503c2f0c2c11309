import Vmill.Base.Copy
import Vmill.Program.Page

/-!
# The taint tracker (`tools/TaintTracker/DataFlowTracker.cpp`)

Every byte has a taint in the shadow: a flag, the number of the byte in the value it was stored
with, and the identifier of that value. The taints of addresses and sizes are passed but never used,
and are left out.
-/

namespace Vmill

open Base

/-- `union Taint`: the bit fields, and the eight bits that have no name. -/
structure Taint where
  isTainted : Bool
  sel : BitVec 7
  val : BitVec 48
  unnamed : BitVec 8
deriving DecidableEq, Repr

namespace Taint

def empty : Taint := ⟨false, 0, 0, 0⟩

def flat (t : Taint) : BitVec 64 := t.unnamed ++ t.val ++ t.sel ++ BitVec.ofBool t.isTainted

end Taint

/-- The shadow, and `Taint::gId`. -/
structure TaintState where
  cells : Nat → Taint
  gId : Nat

namespace TaintState

def new : TaintState := ⟨fun _ => .empty, 0⟩

/-- The loop over `taints` from the byte `i` on: all belong to the value `val`, in order. -/
def sameValue (val : BitVec 48) : Nat → List Taint → Bool
  | _, [] => true
  | i, taint :: taints =>
    if taint.val ≠ val then false
    else if taint.sel.toNat ≠ i then false
    else sameValue val (i + 1) taints

def taintLoad (kNumBytes : Nat) (σ : TaintState) (addr : Nat) : Taint × TaintState :=
  let taints := (List.range kNumBytes).map fun i => σ.cells (wrap64 (addr + i))
  let anyTainted := taints.foldl (fun any taint => any ||| taint.flat) 0#64
  if 1#64 &&& anyTainted = 0#64 then (.empty, σ)
  else
    let lastTaint := { Taint.empty with val := (taints.headD .empty).val }
    if sameValue lastTaint.val 0 taints then (lastTaint, σ)
    else
      ({ lastTaint with val := BitVec.ofNat 48 σ.gId }, { σ with gId := wrap64 (σ.gId + 1) })

def taintStore (kNumBytes : Nat) (σ : TaintState) (addr : Nat) (valTaint : Taint) : TaintState :=
  if valTaint.isTainted = false then σ
  else
    { σ with
      cells := writeEach (fun i => wrap64 (addr + i))
        (fun i => { valTaint with sel := BitVec.ofNat 7 i }) (List.range kNumBytes) σ.cells }

def taintMemSet (σ : TaintState) (destAddr : Nat) (valTaint : Taint) (destSize : Nat) :
    TaintState :=
  { σ with
    cells := writeEach (fun i => wrap64 (destAddr + i)) (fun _ => { valTaint with sel := 0 })
      (List.range destSize) σ.cells }

def taintMemCopy (σ : TaintState) (destAddr srcAddr destSize : Nat) : TaintState :=
  { σ with
    cells := copyEach (fun i => wrap64 (destAddr + i)) (fun i => wrap64 (srcAddr + i))
      (List.range destSize) σ.cells }

/-- `addr + dest_size - i - 1`. -/
def fromEnd (addr destSize i : Nat) : Nat := sub64 (sub64 (wrap64 (addr + destSize)) i) 1

def taintMemMove (σ : TaintState) (destAddr srcAddr destSize : Nat) : TaintState :=
  if destSize = 0 then σ
  else if destAddr < srcAddr then
    { σ with
      cells := copyEach (fromEnd destAddr destSize) (fromEnd srcAddr destSize)
        (List.range destSize) σ.cells }
  else
    { σ with
      cells := copyEach (fun i => wrap64 (destAddr + i)) (fun i => wrap64 (srcAddr + i))
        (List.range destSize) σ.cells }

end TaintState

inductive TaintOp where
  | load (kNumBytes addr : Nat)
  | store (kNumBytes addr : Nat) (valTaint : Taint)
  | memSet (destAddr : Nat) (valTaint : Taint) (destSize : Nat)
  | memCopy (destAddr srcAddr destSize : Nat)
deriving DecidableEq, Repr

namespace TaintOp

def apply (σ : TaintState) : TaintOp → TaintState
  | .load kNumBytes addr => (σ.taintLoad kNumBytes addr).2
  | .store kNumBytes addr valTaint => σ.taintStore kNumBytes addr valTaint
  | .memSet destAddr valTaint destSize => σ.taintMemSet destAddr valTaint destSize
  | .memCopy destAddr srcAddr destSize => σ.taintMemCopy destAddr srcAddr destSize

end TaintOp

def TaintState.run (ops : List TaintOp) : TaintState := ops.foldl TaintOp.apply .new

end Vmill
