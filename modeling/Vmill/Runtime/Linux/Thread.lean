import Vmill.Runtime.Memory
import Vmill.Runtime.Linux.Steps

/-!
# Threads (`Runtime/Linux/Thread.cpp`, `X86.cpp`, `AArch64.cpp`, `Run.h`)

`clone` and `set_thread_area`. The runtime is compiled once for each system call ABI; remill's
`State` is reduced to the registers that these functions name, and the rest of it.
-/

namespace Vmill.Linux

def eSRCH : Int := 3

/-! ## TLS descriptors -/

abbrev kLinuxMinIndexForTLSInGDT : Nat := 12

abbrev kLinuxMaxIndexForTLSInGDT : Nat := 14

abbrev kNumTLSSlots : Nat := (kLinuxMaxIndexForTLSInGDT - kLinuxMinIndexForTLSInGDT) + 1

inductive SegContentType where
  | data
  | dataExpandDown
  | nonConformingCode
  | conformingCode
deriving DecidableEq, Repr

def SegContentType.ofBits (n : Nat) : SegContentType :=
  match n % 4 with
  | 0 => .data
  | 1 => .dataExpandDown
  | 2 => .nonConformingCode
  | _ => .conformingCode

structure UserDesc where
  entryNumber : Nat
  baseAddr : Nat
  limit : Nat
  seg32bit : Bool
  contents : SegContentType
  readExecOnly : Bool
  limitInPages : Bool
  segNotPresent : Bool
  useable : Bool
  padding : Nat
deriving DecidableEq, Repr

namespace UserDesc

def zero : UserDesc where
  entryNumber := 0
  baseAddr := 0
  limit := 0
  seg32bit := false
  contents := .data
  readExecOnly := false
  limitInPages := false
  segNotPresent := false
  useable := false
  padding := 0

def isEmpty (d : UserDesc) : Bool :=
  d.baseAddr == 0 && d.limit == 0 && d.contents == .data && d.readExecOnly && !d.seg32bit &&
    !d.limitInPages && d.segNotPresent && !d.useable

def isZero (d : UserDesc) : Bool :=
  d.baseAddr == 0 && d.limit == 0 && d.contents == .data && !d.readExecOnly && !d.seg32bit &&
    !d.limitInPages && !d.segNotPresent && !d.useable

def size : Nat := 16

/-- Word `k` of an object representation, low byte first. -/
def word (bytes : List UInt8) (k : Nat) : Nat :=
  ((bytes.drop (4 * k)).take 4).foldr (fun b n => b.toNat + 256 * n) 0

/-- The packed layout: three words, and the bit fields from the low bits up. -/
def ofBytes (bytes : List UInt8) : UserDesc where
  entryNumber := word bytes 0
  baseAddr := word bytes 1
  limit := word bytes 2
  seg32bit := (word bytes 3).testBit 0
  contents := .ofBits (word bytes 3 / 2)
  readExecOnly := (word bytes 3).testBit 3
  limitInPages := (word bytes 3).testBit 4
  segNotPresent := (word bytes 3).testBit 5
  useable := (word bytes 3).testBit 6
  padding := word bytes 3 / 128

/-- A descriptor that `DoSetThreadArea` refuses. -/
def refused (d : UserDesc) : Bool :=
  !d.isEmpty && !d.isZero &&
    (!d.seg32bit || (d.contents != .data && d.contents != .dataExpandDown) || d.segNotPresent)

end UserDesc

/-! ## Registers and system call ABIs -/

inductive Segment where
  | ss
  | es
  | gs
  | fs
  | ds
  | cs
deriving DecidableEq, Repr

/-- The registers that are named below. `pc`, `sp` and `ret` are `rip`, `rsp` and `rax`, or
`pc`, `sp` and `x0`. The segments are those of x86, `tpidrEl0` is a register of AArch64. -/
structure Registers (Rest : Type) where
  pc : Nat
  sp : Nat
  ret : Nat
  segIndex : Segment → Nat
  segBase : Segment → Nat
  tpidrEl0 : Nat
  rest : Rest

inductive SystemCallABI where
  | x86Int0x80
  | x86SysEnter32
  | amd64Syscall
  | aarch64Supervisor
deriving DecidableEq, Repr

namespace SystemCallABI

def addressSizeBits : SystemCallABI → Nat
  | .x86Int0x80 | .x86SysEnter32 => 32
  | .amd64Syscall | .aarch64Supervisor => 64

/-- `VMILL_RUNTIME_X86` is 32. -/
def isX86 (abi : SystemCallABI) : Bool := abi.addressSizeBits == 32

/-- `SetReturn`: the value is converted to `addr_t`. -/
def setReturn {Rest : Type} (abi : SystemCallABI) (val : Int) (s : Registers Rest) :
    Registers Rest :=
  { s with ret := (val % 2 ^ abi.addressSizeBits).toNat }

/-- The loop of `X86SysEnter32SystemCall::GetReturnAddress`, from byte `i` on, for `count`
bytes. -/
def scanReturnAddress (addr : Nat) : Nat → Nat → Guest → Option (Nat × Guest)
  | 0, _, g => some (addr, g)
  | count + 1, i, g =>
    match g.tryReadMemory (g.addrT (addr + i)) 1 with
    | none => none
    | some (none, g) => scanReturnAddress addr count (i + 1) g
    | some (some bytes, g) =>
      let b0 := bytes.headD 0
      -- `nop`, or the first byte of `int N`
      if b0 = 0x90 then scanReturnAddress addr count (i + 1) g
      else if b0 = 0xcd then some (g.addrT (addr + i + 2), g)
      else some (g.addrT (addr + i), g)

def getReturnAddress (abi : SystemCallABI) (retAddr : Nat) (g : Guest) : Option (Nat × Guest) :=
  match abi with
  | .x86SysEnter32 => scanReturnAddress retAddr 15 0 g
  | _ => some (retAddr, g)

end SystemCallABI

/-! ## The state -/

/-- The fields of `linux_task` that `LinuxTask` does not have: `state`, `tls_slots`,
`wake_count` and `set_child_tid`. -/
structure ThreadData (Rest : Type) where
  regs : Registers Rest
  tlsSlots : Fin kNumTLSSlots → UserDesc
  wakeCount : Nat
  setChildTid : Nat

/-- All tasks, and the memory of the one that is running. -/
structure Threads (Rest : Type) where
  kernel : Kernel
  data : List (ThreadData Rest)
  space : AddressSpace
  heap : Heap
  same : data.length = kernel.tasks.length

def wordBytes (n : Nat) : List UInt8 :=
  [.ofNat n, .ofNat (n / 2 ^ 8), .ofNat (n / 2 ^ 16), .ofNat (n / 2 ^ 24)]

/-- A write of a task id, if a flag asks for it. Its result is not used. -/
def tryWriteTid (cfg : Config) (asked : Bool) (addr tid : Nat) (g : Guest) :
    Option (Unit × Guest) :=
  if asked then (g.tryWriteMemory cfg addr (wordBytes tid)).map fun r => ((), r.2) else some ((), g)

/-! The flags of `clone`. -/

def cloneVM : Nat := 0x100
def cloneFS : Nat := 0x200
def cloneFILES : Nat := 0x400
def cloneSIGHAND : Nat := 0x800
def clonePARENT : Nat := 0x8000
def cloneTHREAD : Nat := 0x10000
def cloneNEWNS : Nat := 0x20000
def cloneSETTLS : Nat := 0x80000
def clonePARENT_SETTID : Nat := 0x100000
def cloneCHILD_CLEARTID : Nat := 0x200000
def cloneCHILD_SETTID : Nat := 0x1000000
def cloneNEWUTS : Nat := 0x4000000
def cloneNEWIPC : Nat := 0x8000000
def cloneNEWUSER : Nat := 0x10000000
def cloneNEWPID : Nat := 0x20000000
def cloneNEWNET : Nat := 0x40000000
def cloneIO : Nat := 0x80000000

/-- `CLONE_PID` is zero. -/
def threadFlags : Nat := cloneFILES ||| cloneFS ||| cloneIO ||| cloneVM

def notThreadFlags (newCgroup : Nat) : Nat :=
  newCgroup ||| cloneNEWIPC ||| cloneNEWNET ||| cloneNEWNS ||| cloneNEWPID ||| cloneNEWUSER |||
    cloneNEWUTS ||| clonePARENT

structure CloneArgs where
  childStack : Nat
  flags : Nat
  ptid : Nat
  newtls : Nat
  ctid : Nat
deriving DecidableEq, Repr

def CloneArgs.has (a : CloneArgs) (flag : Nat) : Bool := decide (flag &&& a.flags ≠ 0)

inductive CloneResult where
  | exits
  | fails (code : Int)
  | cloned (child : Nat)
deriving DecidableEq, Repr

namespace Threads

variable {Rest : Type}

def onData (σ : Threads Rest) (i : Nat) (f : ThreadData Rest → ThreadData Rest) : Threads Rest :=
  { σ with data := σ.data.modify i f, same := (List.length_modify ..).trans σ.same }

def onRegs (σ : Threads Rest) (i : Nat) (f : Registers Rest → Registers Rest) : Threads Rest :=
  σ.onData i fun d => { d with regs := f d.regs }

def change (σ : Threads Rest) (i : Nat) (f : Task → Task) : Threads Rest :=
  { σ with
    kernel := σ.kernel.change i f
    same := σ.same.trans (List.length_modify ..).symm }

/-- Guest memory, with `gTask` the task `cur`. -/
def guest (σ : Threads Rest) (cur : Nat) : Guest where
  task := σ.kernel.tasks[cur]?.map (·.toTask)
  space := σ.space
  heap := σ.heap

def setGuest (σ : Threads Rest) (cur : Nat) (g : Guest) : Threads Rest :=
  { σ.change cur (fun t => g.task.getD t) with space := g.space, heap := g.heap }

def addChild (σ : Threads Rest) (parent : LinuxTask) (pc ctid : Nat) (d : ThreadData Rest) :
    Threads Rest where
  kernel := σ.kernel.cloneTask parent pc ctid
  data := σ.data ++ [d]
  space := σ.space
  heap := σ.heap
  same := by
    rw [List.length_append, List.length_singleton, σ.same]
    exact ((List.length_modify ..).trans (Kernel.createTask_length ..)).symm

/-! ## `set_thread_area` -/

/-- The first index that neither `fs` nor `gs` uses. -/
def unusedIndex (s : Registers Rest) : Option Nat :=
  [kLinuxMinIndexForTLSInGDT, kLinuxMinIndexForTLSInGDT + 1, kLinuxMaxIndexForTLSInGDT].find?
    fun index => s.segIndex .fs != index && s.segIndex .gs != index

/-- The end of `DoSetThreadArea`, for the registers of task `i`. The slot is one of the
current task `cur`. -/
def setEntry (σ : Threads Rest) (abi : SystemCallABI) (cur i : Nat) (info : UserDesc) :
    Threads Rest :=
  let index := info.entryNumber
  let σ := σ.onRegs i fun s =>
    { s with segBase := fun seg => if s.segIndex seg = index then info.baseAddr else s.segBase seg }
  let σ := σ.onData cur fun d =>
    { d with
      tlsSlots := Function.update d.tlsSlots
        (Fin.ofNat kNumTLSSlots (index - kLinuxMinIndexForTLSInGDT)) info }
  σ.onRegs i (abi.setReturn 0)

/-- `DoSetThreadArea`, for the registers of task `i` while task `cur` is running. -/
def doSetThreadArea (cfg : Config) (abi : SystemCallABI) (cur i addr : Nat) (σ : Threads Rest) :
    Option (Threads Rest) :=
  match (σ.guest cur).tryReadMemory addr UserDesc.size with
  | none => none
  | some (none, g) => some ((σ.setGuest cur g).onRegs i (abi.setReturn (-eFAULT)))
  | some (some bytes, g) =>
    let σ := σ.setGuest cur g
    let info := UserDesc.ofBytes bytes
    if info.refused then some (σ.onRegs i (abi.setReturn (-eINVAL)))
    else if info.entryNumber ≠ 2 ^ 32 - 1 then
      if info.entryNumber < kLinuxMinIndexForTLSInGDT ∨
          kLinuxMaxIndexForTLSInGDT < info.entryNumber then
        some (σ.onRegs i (abi.setReturn (-eINVAL)))
      else some (σ.setEntry abi cur i info)
    else
      match σ.data[i]?.bind (unusedIndex ·.regs) with
      | none => some (σ.onRegs i (abi.setReturn (-eSRCH)))
      | some index =>
        -- `entry_number` is the first field
        match (σ.guest cur).tryWriteMemory cfg addr (wordBytes index) with
        | none => none
        | some (false, g) => some ((σ.setGuest cur g).onRegs i (abi.setReturn (-eFAULT)))
        | some (true, g) =>
          some ((σ.setGuest cur g).setEntry abi cur i { info with entryNumber := index })

/-! ## `clone` -/

/-- `CLONE_SETTLS`, for the child. -/
def setTls (cfg : Config) (abi : SystemCallABI) (cur child newtls : Nat) (σ : Threads Rest) :
    Option (Threads Rest) :=
  match abi with
  | .x86Int0x80 | .x86SysEnter32 => σ.doSetThreadArea cfg abi cur child newtls
  | .amd64Syscall =>
    some (σ.onRegs child fun s => { s with segBase := Function.update s.segBase .fs newtls })
  | .aarch64Supervisor => some (σ.onRegs child fun s => { s with tpidrEl0 := newtls })

/-- A write of the new task id, if a flag asks for it. -/
def writeTid (cfg : Config) (cur : Nat) (asked : Bool) (addr tid : Nat) (σ : Threads Rest) :
    Option (Threads Rest) :=
  (tryWriteTid cfg asked addr tid (σ.guest cur)).map (σ.setGuest cur ·.2)

def childRegs (abi : SystemCallABI) (retAddr childStack : Nat) (s : Registers Rest) :
    Registers Rest :=
  let s := { s with pc := retAddr }
  let s := if childStack ≠ 0 then { s with sp := childStack } else s
  abi.setReturn 0 s

/-- `DoClone` once the checks have passed. -/
def cloneChild (cfg : Config) (abi : SystemCallABI) (cur : Nat) (a : CloneArgs) (σ : Threads Rest) :
    Option (Threads Rest) :=
  match σ.kernel.tasks[cur]?, σ.data[cur]? with
  | some parent, some d =>
    match abi.getReturnAddress d.regs.pc (σ.guest cur) with
    | none => none
    | some (retAddr, g) =>
      let child := σ.kernel.tasks.length
      let tid := σ.kernel.nextTid
      let σ := (σ.setGuest cur g).addChild parent retAddr
        (if a.has cloneCHILD_CLEARTID then a.ctid else 0)
        { regs := childRegs abi retAddr a.childStack d.regs
          tlsSlots := fun _ => UserDesc.zero
          wakeCount := 0
          setChildTid := if a.has cloneCHILD_SETTID then a.ctid else 0 }
      match σ.writeTid cfg cur (a.has clonePARENT_SETTID) a.ptid tid with
      | none => none
      | some σ =>
        match σ.writeTid cfg cur (a.has cloneCHILD_SETTID) a.ctid tid with
        | none => none
        | some σ =>
          let σ := σ.onRegs cur (abi.setReturn tid)
          if a.has cloneSETTLS then σ.setTls cfg abi cur child a.newtls else some σ
  | _, _ => none

/-- `CanWriteMemory` for a task id, if a flag asks for it. -/
def canWriteTid (σ : Threads Rest) (cur : Nat) (asked : Bool) (addr : Nat) : Option Bool :=
  if asked then (σ.guest cur).canWriteMemory addr 4 else some true

/-- `DoClone`, called by the task `cur`. `newCgroup` is `CLONE_NEWCGROUP`, zero if the host
does not have it. -/
def doClone (cfg : Config) (abi : SystemCallABI) (newCgroup cur : Nat) (a : CloneArgs)
    (σ : Threads Rest) : Option (CloneResult × Threads Rest) :=
  if threadFlags ≠ threadFlags &&& a.flags ∧ a.flags &&& notThreadFlags newCgroup ≠ 0 then
    some (.exits, σ.change cur (·.setLocation 0 .atExit))
  else if a.has cloneTHREAD ∧ ¬ a.has cloneSIGHAND then
    some (.fails (-eINVAL), σ.onRegs cur (abi.setReturn (-eINVAL)))
  else if a.has cloneSIGHAND ∧ ¬ a.has cloneVM then
    some (.fails (-eINVAL), σ.onRegs cur (abi.setReturn (-eINVAL)))
  else
    match σ.canWriteTid cur (a.has clonePARENT_SETTID) a.ptid with
    | none => none
    | some false => some (.fails (-eFAULT), σ.onRegs cur (abi.setReturn (-eFAULT)))
    | some true =>
      match σ.canWriteTid cur (a.has cloneCHILD_SETTID) a.ctid with
      | none => none
      | some false => some (.fails (-eFAULT), σ.onRegs cur (abi.setReturn (-eFAULT)))
      | some true =>
        (σ.cloneChild cfg abi cur a).map fun σ' => (.cloned σ.kernel.tasks.length, σ')

end Threads

end Vmill.Linux
