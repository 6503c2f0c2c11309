import Vmill.Base.Run
import Vmill.Program.AddressSpace

/-!
# The address spaces of a process

All address spaces of a process draw their range objects from one heap.
-/

namespace Vmill

open Base

/-- The heap of range objects and the address spaces that point into it. -/
structure World where
  heap : Heap
  spaces : List AddressSpace

namespace World

def init : World :=
  { heap := { next := 0, obj := fun _ => newRange 0 0 none 0 .invalid }, spaces := [] }

def put (w : World) (i : Nat) (s : AddressSpace) (h : Heap) : World :=
  { heap := h, spaces := w.spaces.set i s }

def push (w : World) (s : AddressSpace) (h : Heap) : World :=
  { heap := h, spaces := w.spaces ++ [s] }

end World

inductive Op where
  | new
  | copy (i : Nat)
  | addMap (i base size : Nat) (name : Option (List UInt8)) (offset : Nat)
  | removeMap (i base size : Nat)
  | setPermissions (i base size : Nat) (canRead canWrite canExec : Bool)
  | tryRead (i addr size : Nat)
  | tryReadByte (i addr : Nat)
  | tryReadTyped (i : Nat) (type : AddressSpace.ValueType) (addr : Nat)
  | tryReadExecutable (i pc : Nat)
  | tryWrite (i addr : Nat) (vals : List UInt8)
  | tryWriteByte (i addr : Nat) (val : UInt8)
  | tryWriteTyped (i : Nat) (type : AddressSpace.ValueType) (addr : Nat)
      (val : List.Vector UInt8 type.size)
  | computeCodeVersion (i pc : Nat)
  | markAsTraceHead (i pc : Nat)

namespace Op

/-- The address space a call is made on (none for the default constructor). -/
def target : Op → Option Nat
  | .new => none
  | .copy i => some i
  | .addMap i _ _ _ _ => some i
  | .removeMap i _ _ => some i
  | .setPermissions i _ _ _ _ _ => some i
  | .tryRead i _ _ => some i
  | .tryReadByte i _ => some i
  | .tryReadTyped i _ _ => some i
  | .tryReadExecutable i _ => some i
  | .tryWrite i _ _ => some i
  | .tryWriteByte i _ _ => some i
  | .tryWriteTyped i _ _ _ => some i
  | .computeCodeVersion i _ => some i
  | .markAsTraceHead i _ => some i

def isRead : Op → Bool
  | .tryRead .. | .tryReadByte .. | .tryReadTyped .. | .tryReadExecutable .. => true
  | _ => false

def stores : Op → Option (Nat × List UInt8)
  | .tryWrite _ addr vals => some (addr, vals)
  | .tryWriteByte _ addr val => some (addr, [val])
  | .tryWriteTyped _ _ addr val => some (addr, val.toList)
  | _ => none

/-- The writes that try the index of writable, non-executable pages first. -/
def isQuick : Op → Bool
  | .tryWriteByte .. | .tryWriteTyped .. => true
  | _ => false

def isAccess (op : Op) : Bool := op.isRead || op.stores.isSome

def builds : Op → Bool
  | .new | .addMap .. => true
  | op => op.isAccess

/-- The base and the size of a mapping call, and whether it maps or unmaps. -/
def remaps : Op → Option (Nat × Nat × Bool)
  | .addMap _ base size _ _ => some (base, size, true)
  | .removeMap _ base size => some (base, size, false)
  | _ => none

end Op

inductive Out where
  | done
  | read (ok : Bool) (vals : List UInt8)
  | wrote (ok : Bool)
  | version (v : Nat)
deriving DecidableEq, Repr

namespace World

/-- Apply a call to address space `i`; there is no call on an address space
that does not exist. -/
def onSpace (w : World) (i : Nat)
    (call : AddressSpace → Heap → Option (Out × AddressSpace × Heap)) :
    Option (Out × World) :=
  match w.spaces[i]? with
  | none => none
  | some s =>
    match call s w.heap with
    | none => none
    | some (o, s', h') => some (o, w.put i s' h')

def step (cfg : Config) : Op → World → Option (Out × World)
  | .new, w =>
    let (s, h) := AddressSpace.new cfg w.heap
    some (.done, w.push s h)
  | .copy i, w =>
    match w.spaces[i]? with
    | none => none
    | some parent =>
      let (s, h) := parent.clone w.heap
      some (.done, w.push s h)
  | .addMap i base size name offset, w =>
    w.onSpace i (fun s h => (s.addMap h base size name offset).map (fun r => (.done, r)))
  | .removeMap i base size, w =>
    w.onSpace i (fun s h => (s.removeMap h base size).map (fun r => (.done, r)))
  | .setPermissions i base size r wr x, w =>
    w.onSpace i (fun s h => some (.done, AddressSpace.setPermissions h s base size r wr x, h))
  | .tryRead i addr size, w =>
    w.onSpace i (fun s h => (s.tryRead h addr size).map (fun (ok, vals, s') =>
      (.read ok vals, s', h)))
  | .tryReadByte i addr, w =>
    w.onSpace i (fun s h =>
      let (ok, val, s') := s.tryReadByte h addr
      some (.read ok [val], s', h))
  | .tryReadTyped i type addr, w =>
    w.onSpace i (fun s h => (s.tryReadTyped type h addr).map (fun (ok, vals, s') =>
      (.read ok vals, s', h)))
  | .tryReadExecutable i pc, w =>
    w.onSpace i (fun s h =>
      let (ok, val, s') := s.tryReadExecutable h pc
      some (.read ok [val], s', h))
  | .tryWrite i addr vals, w =>
    w.onSpace i (fun s h => (s.tryWrite cfg h addr vals).map (fun (ok, r) => (.wrote ok, r)))
  | .tryWriteByte i addr val, w =>
    w.onSpace i (fun s h => (s.tryWriteByte cfg h addr val).map (fun (ok, r) =>
      (.wrote ok, r)))
  | .tryWriteTyped i type addr val, w =>
    w.onSpace i (fun s h => (s.tryWriteTyped cfg type h addr val).map (fun (ok, r) =>
      (.wrote ok, r)))
  | .computeCodeVersion i pc, w =>
    w.onSpace i (fun s h =>
      let (v, r) := s.computeCodeVersion cfg h pc
      some (.version v, r))
  | .markAsTraceHead i pc, w =>
    w.onSpace i (fun s h => some (.done, s.markAsTraceHead pc, h))

end World

def memory (cfg : Config) : Machine World Op Out where
  step := World.step cfg

/-- A 64-bit process whose `Hash` is injective, for runs that are evaluated. -/
def amd64 (versionCode : Bool) : Config where
  addressSize := 64
  versionCode := versionCode
  hash bytes := bytes.foldl (fun v b => 256 * v + b.toNat) 1

def x86 (versionCode : Bool) : Config := { amd64 versionCode with addressSize := 32 }

end Vmill
