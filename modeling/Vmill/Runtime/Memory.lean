import Vmill.Program.AddressSpace
import Vmill.Runtime.Task

/-!
# Guest memory from the runtime (`Runtime/Generic/Memory.cpp`, `Intrinsics.h`)

The handlers probe a buffer, and then copy it byte by byte. A byte access that fails is recorded in
the current task. `addr_t` has as many bits as `addrMask`, while `size_t` and the literal `4095UL`
have 64.
-/

namespace Vmill

/-- What the memory functions of the runtime work on: `gTask`, the address space, and the
heap of its ranges. -/
structure Guest where
  task : Option Task
  space : AddressSpace
  heap : Heap

/-- The object representation of a number of `size` bytes. -/
def numberBytes (size n : Nat) : List UInt8 :=
  (List.range size).map fun i => UInt8.ofNat (n / 256 ^ i)

/-- The number with the given object representation. -/
def bytesNumber (bytes : List UInt8) : Nat := bytes.foldr (fun b n => b.toNat + 256 * n) 0

namespace Guest

/-- A number as an `addr_t`. -/
def addrT (g : Guest) (n : Nat) : Nat := n &&& g.space.addrMask

/-! ## Bytes -/

/-- `__remill_read_memory_8`. When the access fails it returns what `TryRead` left in its
buffer. -/
def readMemory8 (g : Guest) (addr : Nat) : UInt8 × Guest :=
  let (ok, val, s) := g.space.tryReadByte g.heap addr
  let g := { g with space := s }
  if ok then (val, g) else (val, { g with task := g.task.map (·.recordReadFault8 addr) })

def writeMemory8 (cfg : Config) (g : Guest) (addr : Nat) (val : UInt8) : Option Guest :=
  match g.space.tryWriteByte cfg g.heap addr val with
  | none => none
  | some (true, s, h) => some { g with space := s, heap := h }
  | some (false, s, h) =>
    some { task := g.task.map (·.recordWriteFault8 addr), space := s, heap := h }

/-! ## Probes -/

/-- The loop that `NumReadableBytes` and `NumWritableBytes` share, from probe `i` on, with
`can` for the test of one byte. `none`: the counter, which is an `addr_t`, has gone
around. -/
def numBytesLoop (g : Guest) (can : Nat → Bool) (addr size : Nat) : Nat → Nat → Option Nat
  | 0, _ => none
  | fuel + 1, i =>
    if i < size then
      if can (g.addrT (addr + i)) then g.numBytesLoop can addr size fuel (g.addrT (i + 4096))
      else some (if i ≠ 0 then sub64 (alignDownToPage (g.addrT (addr + i))) addr else 0)
    else some (min i size)

def numReadableBytes (g : Guest) (addr size : Nat) : Option Nat :=
  g.numBytesLoop g.space.canRead addr size kPageSteps 0

def numWritableBytes (g : Guest) (addr size : Nat) : Option Nat :=
  g.numBytesLoop g.space.canWrite addr size kPageSteps 0

def canReadMemory (g : Guest) (addr size : Nat) : Option Bool :=
  (g.numReadableBytes addr size).map (fun n => decide (size = n))

def canWriteMemory (g : Guest) (addr size : Nat) : Option Bool :=
  (g.numWritableBytes addr size).map (fun n => decide (size = n))

/-! ## Copies -/

/-- The loop of `CopyFromMemory` from byte `i` on, for `count` bytes. -/
def copyFromLoop (addr : Nat) : Nat → Nat → Guest → List UInt8 × Guest
  | 0, _, g => ([], g)
  | count + 1, i, g =>
    let (val, g) := g.readMemory8 (g.addrT (addr + i))
    let (vals, g) := copyFromLoop addr count (i + 1) g
    (val :: vals, g)

def copyFromMemory (g : Guest) (addr size : Nat) : List UInt8 × Guest := copyFromLoop addr size 0 g

/-- The loop of `CopyToMemory` from byte `i` on. -/
def copyToLoop (cfg : Config) (addr : Nat) : List UInt8 → Nat → Guest → Option Guest
  | [], _, g => some g
  | val :: vals, i, g =>
    match g.writeMemory8 cfg (g.addrT (addr + i)) val with
    | none => none
    | some g => copyToLoop cfg addr vals (i + 1) g

def copyToMemory (cfg : Config) (g : Guest) (addr : Nat) (data : List UInt8) : Option Guest :=
  copyToLoop cfg addr data 0 g

/-- The loop of `CopyStringFromMemory` from byte `i` on, for at most `count` bytes: the length
of the string, and the buffer `val`. -/
def copyStringLoop (addr : Nat) : Nat → Nat → Guest → (Nat → UInt8) → Nat × (Nat → UInt8) × Guest
  | 0, i, g, val => (i, val, g)
  | count + 1, i, g, val =>
    let (b, g) := g.readMemory8 (g.addrT (addr + i))
    let val := Function.update val i b
    if b = 0 then (i, val, g) else copyStringLoop addr count (i + 1) g val

def copyStringFromMemory (g : Guest) (addr : Nat) (val : Nat → UInt8) (maxLen : Nat) :
    Option (Nat × (Nat → UInt8) × Guest) :=
  (g.numReadableBytes addr maxLen).map fun maxLen => copyStringLoop addr maxLen 0 g val

/-- The loop of `CopyStringToMemory` from byte `i` on: the length of what was copied. -/
def copyStringToLoop (cfg : Config) (addr : Nat) : List UInt8 → Nat → Guest → Option (Nat × Guest)
  | [], i, g => some (i, g)
  | val :: vals, i, g =>
    match g.writeMemory8 cfg (g.addrT (addr + i)) val with
    | none => none
    | some g => if val = 0 then some (i, g) else copyStringToLoop cfg addr vals (i + 1) g

/-- `CopyStringToMemory`, for the first `len` bytes of `val`. -/
def copyStringToMemory (cfg : Config) (g : Guest) (addr : Nat) (val : List UInt8) (len : Nat) :
    Option (Nat × Guest) :=
  match g.numWritableBytes addr len with
  | none => none
  | some len => copyStringToLoop cfg addr (val.take len) 0 g

/-- `TryReadMemory`, for a value of `size` bytes. -/
def tryReadMemory (g : Guest) (addr size : Nat) : Option (Option (List UInt8) × Guest) :=
  match g.canReadMemory addr size with
  | none => none
  | some false => some (none, g)
  | some true =>
    let (bytes, g) := g.copyFromMemory addr size
    some (some bytes, g)

/-- `TryWriteMemory`, for a value with the given object representation. -/
def tryWriteMemory (cfg : Config) (g : Guest) (addr : Nat) (data : List UInt8) :
    Option (Bool × Guest) :=
  match g.canWriteMemory addr data.length with
  | none => none
  | some false => some (false, g)
  | some true => (g.copyToMemory cfg addr data).map ((true, ·))

end Guest

end Vmill
