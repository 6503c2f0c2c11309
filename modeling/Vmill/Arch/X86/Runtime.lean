import Vmill.Program.World
import Vmill.Runtime.Task

/-!
# The memory intrinsics (`Executor/Runtime.cpp`, `Arch/X86/Runtime.S`)

The macros of `Runtime.cpp`, and those of `Runtime.S`, which pass the address and the value that is
read through variables of the data section. Values are given by their bytes.
-/

namespace Vmill

open Base

/-- The `N` of the integer intrinsics. -/
inductive IntWidth where
  | w8
  | w16
  | w32
  | w64
deriving DecidableEq, Repr

namespace IntWidth

def bytes : IntWidth → Nat
  | .w8 => 1
  | .w16 => 2
  | .w32 => 4
  | .w64 => 8

/-- `TryRead(addr, val_out)`: the flag, and the bytes that are stored to `val_out`. -/
def tryRead (width : IntWidth) (s : AddressSpace) (h : Heap) (addr : Nat) :
    Option (Bool × List UInt8 × AddressSpace) :=
  match width with
  | .w8 =>
    let (ok, val, s) := s.tryReadByte h addr
    some (ok, [val], s)
  | .w16 => s.tryReadTyped .uint16 h addr
  | .w32 => s.tryReadTyped .uint32 h addr
  | .w64 => s.tryReadTyped .uint64 h addr

def tryWrite (width : IntWidth) (cfg : Config) (s : AddressSpace) (h : Heap) (addr : Nat)
    (val : List.Vector UInt8 width.bytes) : Option (Bool × AddressSpace × Heap) :=
  match width, val with
  | .w8, val => s.tryWriteByte cfg h addr val.head
  | .w16, val => s.tryWriteTyped cfg .uint16 h addr val
  | .w32, val => s.tryWriteTyped cfg .uint32 h addr val
  | .w64, val => s.tryWriteTyped cfg .uint64 h addr val

end IntWidth

/-- What the intrinsics work on: `gTask`, and the address spaces that their first argument may
point to. -/
structure Process where
  task : Option Task
  world : World

/-- `__vmill_record_read_fault_N` and `__vmill_record_write_fault_N`. -/
def Process.recordFault (p : Process) (kind : MemoryAccessFaultKind) (width : IntWidth)
    (addr : Nat) : Process :=
  { p with task := p.task.map (·.recordFault kind .integer width.bytes addr) }

/-- A buffer, after `vals` have been stored to its start. -/
def stored (buf vals : List UInt8) : List UInt8 := (vals ++ buf.drop vals.length).take buf.length

lemma stored_length (buf vals : List UInt8) : (stored buf vals).length = buf.length := by
  unfold stored
  rw [List.length_take, List.length_append, List.length_drop]
  omega

/-! ## `Runtime.cpp` -/

namespace Process

def readMemory (p : Process) (width : IntWidth) (memory addr : Nat) :
    Option (List UInt8 × Process) :=
  match p.world.spaces[memory]? with
  | none => none
  | some s =>
    -- `read_type ret_val = 0`
    let retVal := List.replicate width.bytes 0
    match width.tryRead s p.world.heap addr with
    | none => none
    | some (true, vals, s) =>
      some (stored retVal vals, { p with world := p.world.put memory s p.world.heap })
    | some (false, _, s) =>
      let p := { p with world := p.world.put memory s p.world.heap }
      some (List.replicate width.bytes 0, p.recordFault .onRead width addr)

def writeMemory (p : Process) (cfg : Config) (width : IntWidth) (memory addr : Nat)
    (val : List.Vector UInt8 width.bytes) : Option (Nat × Process) :=
  match p.world.spaces[memory]? with
  | none => none
  | some s =>
    match width.tryWrite cfg s p.world.heap addr val with
    | none => none
    | some (ok, s, h) =>
      let p := { p with world := p.world.put memory s h }
      some (memory, if ok then p else p.recordFault .onWrite width addr)

end Process

/-! ## `Runtime.S` -/

structure Staging where
  memAddress : Nat
  memValue : List.Vector UInt8 8
  memPtr : Nat

def Staging.zero : Staging := ⟨0, ⟨List.replicate 8 0, rfl⟩, 0⟩

/-- The process, and the data section of the assembly. -/
structure Assembly where
  staging : Staging
  process : Process

namespace Assembly

/-- `MAKE_MEM_READ`. The result is the lower part of `rax`. -/
def readMemory (m : Assembly) (width : IntWidth) (memory addr : Nat) :
    Option (List UInt8 × Assembly) :=
  match m.process.world.spaces[memory]? with
  | none => none
  | some s =>
    let d := { m.staging with memAddress := addr }
    match width.tryRead s m.process.world.heap addr with
    | none => none
    | some (ok, vals, s) =>
      let value := stored d.memValue.toList vals
      let d := { d with memValue := ⟨value, (stored_length _ _).trans d.memValue.2⟩ }
      let p := { m.process with world := m.process.world.put memory s m.process.world.heap }
      let p := if ok then p else p.recordFault .onRead width d.memAddress
      some (d.memValue.toList.take width.bytes, ⟨d, p⟩)

def writeMemory (m : Assembly) (cfg : Config) (width : IntWidth) (memory addr : Nat)
    (val : List.Vector UInt8 width.bytes) : Option (Nat × Assembly) :=
  match m.process.world.spaces[memory]? with
  | none => none
  | some s =>
    let d := { m.staging with memAddress := addr, memPtr := memory }
    match width.tryWrite cfg s m.process.world.heap addr val with
    | none => none
    | some (ok, s, h) =>
      let p := { m.process with world := m.process.world.put memory s h }
      let p := if ok then p else p.recordFault .onWrite width d.memAddress
      some (d.memPtr, ⟨d, p⟩)

end Assembly

/-! ## The two machines -/

/-- What happens to the process: intrinsics, calls of the runtime on the address spaces, and
switches to another task. -/
inductive Intrinsic where
  | read (width : IntWidth) (memory addr : Nat)
  | write (width : IntWidth) (memory addr : Nat) (val : List.Vector UInt8 width.bytes)
  | call (op : Op)
  | switchTo (task : Option Task)

inductive IntrinsicOut where
  | value (bytes : List UInt8)
  | memory (ptr : Nat)
  | answer (o : Out)
  | switched
deriving DecidableEq

def cxxIntrinsics (cfg : Config) : Machine Process Intrinsic IntrinsicOut where
  step
    | .read width memory addr, p =>
      (p.readMemory width memory addr).map fun (val, p) => (.value val, p)
    | .write width memory addr val, p =>
      (p.writeMemory cfg width memory addr val).map fun (ptr, p) => (.memory ptr, p)
    | .call op, p =>
      (World.step cfg op p.world).map fun (o, w) => (.answer o, { p with world := w })
    | .switchTo task, p => some (.switched, { p with task := task })

def asmIntrinsics (cfg : Config) : Machine Assembly Intrinsic IntrinsicOut where
  step
    | .read width memory addr, m =>
      (m.readMemory width memory addr).map fun (val, m) => (.value val, m)
    | .write width memory addr val, m =>
      (m.writeMemory cfg width memory addr val).map fun (ptr, m) => (.memory ptr, m)
    | .call op, m => (World.step cfg op m.process.world).map fun (o, w) =>
      (.answer o, { m with process := { m.process with world := w } })
    | .switchTo task, m => some (.switched, { m with process := { m.process with task := task } })

end Vmill
