import Vmill.Program.World
import Vmill.Spec.Flat

/-!
# Independent memories

What copies of address spaces are for: each one is a memory of its own.
-/

namespace Vmill.Flat

open Base

/-- A flat memory with the page permissions that accesses look at. -/
structure Space where
  mem : Nat → Option UInt8
  writable : Nat → Bool
  executable : Nat → Bool
  addrMask : Nat

def onSpace (σ : List Space) (i : Nat) (call : Space → Option (Out × Space)) :
    Option (Out × List Space) :=
  match σ[i]? with
  | none => none
  | some s => (call s).map (fun (o, s') => (o, σ.set i s'))

def write (σ : List Space) (i addr : Nat) (vals : List UInt8) : Option (Out × List Space) :=
  onSpace σ i (fun s =>
    (tryWrite s.writable s.mem (addr &&& s.addrMask) vals).map (fun (ok, mem) =>
      (.wrote ok, { s with mem := mem })))

def step : Op → List Space → Option (Out × List Space)
  | .copy i, σ =>
    match σ[i]? with
    | none => none
    | some s => some (.done, σ ++ [s])
  | .tryRead i addr size, σ =>
    onSpace σ i (fun s => (tryRead s.mem (addr &&& s.addrMask) size).map (fun (ok, vals) =>
      (.read ok vals, s)))
  | .tryReadByte i addr, σ =>
    onSpace σ i (fun s =>
      some (.read (s.mem (addr &&& s.addrMask)).isSome
        [(s.mem (addr &&& s.addrMask)).getD 0], s))
  | .tryReadTyped i type addr, σ =>
    onSpace σ i (fun s =>
      (tryReadTyped s.mem (addr &&& s.addrMask) type.size).map (fun (ok, vals) =>
        (.read ok vals, s)))
  | .tryReadExecutable i pc, σ =>
    onSpace σ i (fun s =>
      some (.read ((s.mem (pc &&& s.addrMask)).isSome &&
          s.executable (alignDownToPage (pc &&& s.addrMask)))
        [(s.mem (pc &&& s.addrMask)).getD 0], s))
  | .tryWrite i addr vals, σ => write σ i addr vals
  | .tryWriteByte i addr val, σ => write σ i addr [val]
  | .tryWriteTyped i _ addr val, σ => write σ i addr val.toList
  | _, _ => none

def copies : Machine (List Space) Op Out where
  step := step

end Vmill.Flat
