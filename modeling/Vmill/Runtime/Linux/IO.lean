import Vmill.Runtime.Memory
import Vmill.Runtime.Linux.Futex

/-!
# Vectored input and output (`Runtime/Linux/IO.cpp`)

`readv` and `writev` make a call of the host for each buffer of an array. The host may move fewer
bytes than it is asked for, or fail. A log keeps the bytes that went through the descriptor.
-/

namespace Vmill

namespace Linux

/-- `linux_iovec`. -/
structure IoVec where
  iovBase : Nat
  iovLen : Nat
deriving DecidableEq, Repr

namespace IoVec

/-- `sizeof(addr_t)`. -/
def addrSize (g : Guest) : Nat := if g.space.addrMask = 2 ^ 32 - 1 then 4 else 8

/-- The element with the given object representation. -/
def ofBytes (size : Nat) (bytes : List UInt8) : IoVec where
  iovBase := bytesNumber (bytes.take size)
  iovLen := bytesNumber (bytes.drop size)

end IoVec

/-- The answers of the host to `read`, of at most so many bytes: an error number, or bytes. -/
structure HostRead where
  read : Nat → Nat → Except Nat (List UInt8)
  le : ∀ i size bytes, read i size = .ok bytes → bytes.length ≤ size
  errno : ∀ i size err, read i size = .error err → err ≠ 0

/-- The answers of the host to `write`: an error number, or how many bytes it took. -/
structure HostWrite where
  write : Nat → List UInt8 → Except Nat Nat
  le : ∀ i bytes count, write i bytes = .ok count → count ≤ bytes.length
  errno : ∀ i bytes err, write i bytes = .error err → err ≠ 0

/-- What `DoRead` or `DoWrite` comes to: `EFAULT` without a call of the host, the error number
of the host, or the bytes that the host has given or taken. -/
inductive Transfer where
  | fault
  | error (err : Nat)
  | done (bytes : List UInt8)
deriving DecidableEq, Repr

/-- `DoRead`, for call `i` of the host. -/
def doRead (cfg : Config) (host : HostRead) (i : Nat) (vec : IoVec) (g : Guest) :
    Option (Transfer × Guest) :=
  match g.canWriteMemory vec.iovBase vec.iovLen with
  | none => none
  | some false => some (.fault, g)
  | some true =>
    match host.read i vec.iovLen with
    | .error err => some (.error err, g)
    | .ok bytes => (g.copyToMemory cfg vec.iovBase bytes).map fun g => (.done bytes, g)

/-- `DoWrite`, for call `i` of the host. -/
def doWrite (host : HostWrite) (i : Nat) (vec : IoVec) (g : Guest) : Option (Transfer × Guest) :=
  match g.canReadMemory vec.iovBase vec.iovLen with
  | none => none
  | some false => some (.fault, g)
  | some true =>
    let (bytes, g) := g.copyFromMemory vec.iovBase vec.iovLen
    match host.write i bytes with
    | .error err => some (.error err, g)
    | .ok count => some (.done (bytes.take count), g)

/-- A call of the host: the element it was for, and the bytes it has moved. -/
structure IoStep where
  vec : IoVec
  bytes : List UInt8
  failed : Bool
deriving DecidableEq, Repr

/-- Where the loop is left: guest memory could not be accessed, the host has failed, or the
array is done and so many bytes were moved. -/
inductive IoEnd where
  | fault
  | error
  | done (total : Nat)
deriving DecidableEq, Repr

/-- The value that the call returns, as an `addr_t`. -/
def IoEnd.ret (g : Guest) : IoEnd → Nat
  | .fault | .error => g.space.addrMask + 1 - eFAULT.toNat
  | .done total => g.addrT total

/-- The loop of `SysReadV` and `SysWriteV`, from element `i` on, for `count` elements. -/
def vectorLoop (transfer : Nat → IoVec → Guest → Option (Transfer × Guest)) (iov : Nat) :
    Nat → Nat → Nat → Guest → Option (IoEnd × List IoStep × Guest)
  | 0, _, total, g => some (.done total, [], g)
  | count + 1, i, total, g =>
    let size := IoVec.addrSize g
    match g.tryReadMemory (g.addrT (iov + 2 * size * i)) (2 * size) with
    | none => none
    | some (none, g) => some (.fault, [], g)
    | some (some bytes, g) =>
      let vec := IoVec.ofBytes size bytes
      match transfer i vec g with
      | none => none
      | some (.fault, g) => some (.fault, [], g)
      | some (.error _, g) => some (.error, [⟨vec, [], true⟩], g)
      | some (.done bytes, g) =>
        match vectorLoop transfer iov count (i + 1) (total + bytes.length) g with
        | none => none
        | some (ended, log, g) => some (ended, ⟨vec, bytes, false⟩ :: log, g)

/-- `SysReadV`, once it has its arguments. -/
def sysReadV (cfg : Config) (host : HostRead) (iov iovcount : Nat) (g : Guest) :
    Option (IoEnd × List IoStep × Guest) := vectorLoop (doRead cfg host) iov iovcount 0 0 g

/-- `SysWriteV`, once it has its arguments. -/
def sysWriteV (host : HostWrite) (iov iovcount : Nat) (g : Guest) :
    Option (IoEnd × List IoStep × Guest) := vectorLoop (doWrite host) iov iovcount 0 0 g

/-- A vectored call, with the answers of the host. -/
inductive VectorCall where
  | readv (host : HostRead)
  | writev (host : HostWrite)

/-- The handler of the call. -/
def VectorCall.run (cfg : Config) (c : VectorCall) (iov iovcount : Nat) (g : Guest) :
    Option (IoEnd × List IoStep × Guest) :=
  match c with
  | .readv host => sysReadV cfg host iov iovcount g
  | .writev host => sysWriteV host iov iovcount g

end Linux

end Vmill
