import Vmill.Base.Run
import Vmill.Program.AddressSpace

/-!
# The use of one address space

The calls on a single address space as a machine. What is read, and where the hole is, is left out
of the answer.
-/

namespace Vmill

open Base

structure SpaceState where
  space : AddressSpace
  heap : Heap

inductive Use where
  | tryRead (addr size : Nat)
  | tryReadByte (addr : Nat)
  | tryReadTyped (type : AddressSpace.ValueType) (addr : Nat)
  | tryReadExecutable (pc : Nat)
  | tryWrite (addr : Nat) (vals : List UInt8)
  | tryWriteByte (addr : Nat) (val : UInt8)
  | tryWriteTyped (type : AddressSpace.ValueType) (addr : Nat) (val : List.Vector UInt8 type.size)
  | isMapped (find : Nat)
  | canRead (addr : Nat)
  | canWrite (addr : Nat)
  | findHole (min max size : Nat)
  | addMap (base size : Nat) (name : Option (List UInt8)) (offset : Nat)
  | removeMap (base size : Nat)
  | setPermissions (base size : Nat) (canRead canWrite canExec : Bool)

inductive UseOut where
  | done
  | answer (ok : Bool)
deriving DecidableEq, Repr

namespace SpaceState

def step (cfg : Config) (op : Use) (σ : SpaceState) : Option (UseOut × SpaceState) :=
  match op with
  | .tryRead addr size => (σ.space.tryRead σ.heap addr size).map fun (ok, _, s) =>
    (.answer ok, { σ with space := s })
  | .tryReadByte addr =>
    let (ok, _, s) := σ.space.tryReadByte σ.heap addr
    some (.answer ok, { σ with space := s })
  | .tryReadTyped type addr => (σ.space.tryReadTyped type σ.heap addr).map fun (ok, _, s) =>
    (.answer ok, { σ with space := s })
  | .tryReadExecutable pc =>
    let (ok, _, s) := σ.space.tryReadExecutable σ.heap pc
    some (.answer ok, { σ with space := s })
  | .tryWrite addr vals => (σ.space.tryWrite cfg σ.heap addr vals).map fun (ok, s, h) =>
    (.answer ok, ⟨s, h⟩)
  | .tryWriteByte addr val => (σ.space.tryWriteByte cfg σ.heap addr val).map fun (ok, s, h) =>
    (.answer ok, ⟨s, h⟩)
  | .tryWriteTyped type addr val =>
    (σ.space.tryWriteTyped cfg type σ.heap addr val).map fun (ok, s, h) => (.answer ok, ⟨s, h⟩)
  | .isMapped find => some (.answer (σ.space.isMapped σ.heap find), σ)
  | .canRead addr => some (.answer (σ.space.canRead addr), σ)
  | .canWrite addr => some (.answer (σ.space.canWrite addr), σ)
  | .findHole min max size => (σ.space.findHole σ.heap min max size).map fun hole =>
    (.answer hole.isSome, σ)
  | .addMap base size name offset => (σ.space.addMap σ.heap base size name offset).map fun (s, h) =>
    (.done, ⟨s, h⟩)
  | .removeMap base size => (σ.space.removeMap σ.heap base size).map fun (s, h) => (.done, ⟨s, h⟩)
  | .setPermissions base size r w x =>
    some (.done, { σ with space := σ.space.setPermissions σ.heap base size r w x })

end SpaceState

def spaceUse (cfg : Config) : Machine SpaceState Use UseOut where
  step := SpaceState.step cfg

end Vmill
