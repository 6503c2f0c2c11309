import Vmill.Runtime.Linux.IO
import Vmill.Runtime.Linux.Thread

/-!
# Arguments of system calls (`Runtime/Generic/SystemCallABI.h`)

They are in registers, except for the sixth argument of `sysenter`, which is on the stack
(`Linux/X86.cpp`), and for the calls that go through `socketcall`, whose arguments are packed in
guest memory (`Linux/Net.cpp`).
-/

namespace Vmill.Linux

/-- The registers that hold arguments (`state->gpr`). -/
inductive ArgReg where
  | rbx | rcx | rdx | rsi | rdi | rbp | r8 | r9 | r10
  | x0 | x1 | x2 | x3 | x4 | x5
deriving DecidableEq, Repr

/-- The registers of the arguments, in order. -/
def SystemCallABI.argRegs : SystemCallABI → List ArgReg
  | .x86Int0x80 => [.rbx, .rcx, .rdx, .rsi, .rdi, .rbp]
  | .x86SysEnter32 => [.rbx, .rcx, .rdx, .rsi, .rdi]
  | .amd64Syscall => [.rdi, .rsi, .rdx, .r10, .r8, .r9]
  | .aarch64Supervisor => [.x0, .x1, .x2, .x3, .x4, .x5]

inductive AddrT where
  | uint32
  | uint64
deriving DecidableEq, Repr

def AddrT.size : AddrT → Nat
  | .uint32 => 4
  | .uint64 => 8

/-- The ABI of a system call, as far as arguments go: an ABI with the registers of the call, or a
`SocketCallABI`. -/
inductive ArgumentABI where
  | registers (abi : SystemCallABI) (gpr : ArgReg → Nat)
  | socketCall (T : AddrT) (argAddr : Nat)

namespace ArgumentABI

def canReadArgs (abi : ArgumentABI) (g : Guest) (numArgs : Nat) : Option Bool :=
  match abi with
  | .registers .x86SysEnter32 gpr =>
    if numArgs = 6 then g.canReadMemory (gpr .rbp) (IoVec.addrSize g)
    else some (decide (numArgs < 6))
  | .registers _ _ => some (decide (numArgs ≤ 6))
  | .socketCall T argAddr => g.canReadMemory argAddr (numArgs * T.size)

/-- `ReadMemory`, for a number of `size` bytes. -/
def readNumber (g : Guest) (addr size : Nat) : Nat × Guest :=
  let (bytes, g) := g.copyFromMemory addr size
  (bytesNumber bytes, g)

def getArg (abi : ArgumentABI) (g : Guest) (i : Nat) : Nat × Guest :=
  match abi with
  | .registers .x86SysEnter32 gpr =>
    if i = 5 then readNumber g (gpr .rbp) (IoVec.addrSize g)
    else ((SystemCallABI.x86SysEnter32.argRegs[i]?.map gpr).getD 0, g)
  | .registers abi gpr => ((abi.argRegs[i]?.map gpr).getD 0, g)
  | .socketCall T argAddr => readNumber g (g.addrT (argAddr + i * T.size)) T.size

def getArgs (abi : ArgumentABI) : Nat → Nat → Guest → List Nat × Guest
  | 0, _, g => ([], g)
  | n + 1, i, g =>
    let (arg, g) := abi.getArg g i
    let (args, g) := abi.getArgs n (i + 1) g
    (arg :: args, g)

/-- The body of `TryGetArgs` with `n` outputs, where `checked` is what `CanReadArgs` is asked for.
`none` in the result: `TryGetArgs` returns false. -/
def tryGet (abi : ArgumentABI) (checked n : Nat) (g : Guest) :
    Option (Option (List Nat) × Guest) :=
  match abi.canReadArgs g checked with
  | none => none
  | some false => some (none, g)
  | some true =>
    let (args, g) := abi.getArgs n 0 g
    some (some args, g)

/-! The overloads of `TryGetArgs`. -/

def tryGetArgs1 (abi : ArgumentABI) := abi.tryGet 1 1

def tryGetArgs2 (abi : ArgumentABI) := abi.tryGet 2 2

def tryGetArgs3 (abi : ArgumentABI) := abi.tryGet 2 3

def tryGetArgs4 (abi : ArgumentABI) := abi.tryGet 2 4

def tryGetArgs5 (abi : ArgumentABI) := abi.tryGet 2 5

def tryGetArgs6 (abi : ArgumentABI) := abi.tryGet 2 6

/-- `TryGetArgs`, by the number of its outputs. -/
def tryGetArgs (abi : ArgumentABI) : Nat → Guest → Option (Option (List Nat) × Guest)
  | 1 => abi.tryGetArgs1
  | 2 => abi.tryGetArgs2
  | 3 => abi.tryGetArgs3
  | 4 => abi.tryGetArgs4
  | 5 => abi.tryGetArgs5
  | 6 => abi.tryGetArgs6
  | _ => fun _ => none

end ArgumentABI

end Vmill.Linux
