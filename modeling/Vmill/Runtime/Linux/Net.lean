import Vmill.Runtime.Linux.Thread
import Vmill.Runtime.Linux.IO

/-!
# Receiving from a socket (`Runtime/Linux/Net.cpp`)

With asynchronous I/O the task is paused in the call of the host, so `DoSysRecvFrom` is modelled in
two parts: up to that call (`recvFromCall`), and from its return on (`recvFromReturn`).
-/

namespace Vmill.Linux

def sockaddrSize : Nat := 128

structure RecvFromArgs where
  fd : Int
  buf : Nat
  n : Nat
  flags : Nat
  addr : Nat
  addrlenAddr : Nat
deriving DecidableEq, Repr

/-- The handler when it calls the host: its arguments, and its copies of guest memory. -/
structure RecvFromCall where
  args : RecvFromArgs
  info : List UInt8
  addrlen : Nat
  bufVal : List UInt8
deriving DecidableEq, Repr

/-- What `recvfrom` of the host does: it returns an error number or a count, and leaves `info` and
`addrlen`. The bytes that it has stored are at the beginning of the buffer. There are as many as it
returns, or as fit (`MSG_TRUNC`). -/
structure RecvFromAnswer where
  ret : Except Nat Nat
  received : List UInt8
  info : List UInt8
  addrlen : Nat
deriving Repr

structure RecvFromAnswer.Fits (a : RecvFromAnswer) (c : RecvFromCall) : Prop where
  received : a.received.length = match a.ret with
    | .ok count => min count c.args.n
    | .error _ => 0
  info : a.info.length = sockaddrSize

inductive RecvFromBegun where
  | returns (code : Int)
  | calls (call : RecvFromCall)
deriving DecidableEq, Repr

def copyAndCall (args : RecvFromArgs) (info : List UInt8) (addrlen : Nat) (g : Guest) :
    Option (RecvFromBegun × Guest) :=
  let (bufVal, g) := g.copyFromMemory args.buf args.n
  some (.calls ⟨args, info, addrlen, bufVal⟩, g)

/-- `DoSysRecvFrom`, up to the call of `recvfrom`. -/
def recvFromCall (args : RecvFromArgs) (g : Guest) : Option (RecvFromBegun × Guest) :=
  if args.n = 0 then some (.returns (-eINVAL), g)
  else if args.addrlenAddr = 0 then copyAndCall args (List.replicate sockaddrSize 0) 0 g
  else
    match g.tryReadMemory args.addrlenAddr 4 with
    | none => none
    | some (none, g) => some (.returns (-eFAULT), g)
    | some (some bytes, g) =>
      let addrlen := bytesNumber bytes
      if addrlen > sockaddrSize then some (.returns (-eINVAL), g)
      else if addrlen = 0 then copyAndCall args (List.replicate sockaddrSize 0) 0 g
      else
        match g.tryReadMemory args.addr sockaddrSize with
        | none => none
        | some (none, g) => some (.returns (-eFAULT), g)
        | some (some info, g) => copyAndCall args info addrlen g

/-- The return value, once everything is written back. -/
def RecvFromAnswer.code (a : RecvFromAnswer) : Int :=
  match a.ret with
  | .error err => -err
  | .ok count => count

def RecvFromCall.bufAfter (c : RecvFromCall) (a : RecvFromAnswer) : List UInt8 :=
  a.received ++ c.bufVal.drop a.received.length

/-- `DoSysRecvFrom`, from the return of `recvfrom` on. -/
def recvFromReturn (cfg : Config) (c : RecvFromCall) (a : RecvFromAnswer) (g : Guest) :
    Option (Int × Guest) :=
  match g.canWriteMemory c.args.buf c.args.n with
  | none => none
  | some false => some (-eFAULT, g)
  | some true =>
    match g.copyToMemory cfg c.args.buf (c.bufAfter a) with
    | none => none
    | some g =>
      if c.addrlen = 0 then some (a.code, g)
      else
        match g.canWriteMemory c.args.addr c.addrlen with
        | none => none
        | some false => some (-eFAULT, g)
        | some true =>
          match g.copyToMemory cfg c.args.addr (a.info.take c.addrlen) with
          | none => none
          | some g =>
            match g.tryWriteMemory cfg c.args.addrlenAddr (wordBytes a.addrlen) with
            | none => none
            | some (false, g) => some (-eFAULT, g)
            | some (true, g) => some (a.code, g)

structure RecvFromResult where
  code : Int
  called : Bool
deriving DecidableEq, Repr

/-- `DoSysRecvFrom`, with no other task in between. -/
def doSysRecvFrom (cfg : Config) (host : RecvFromCall → RecvFromAnswer) (args : RecvFromArgs)
    (g : Guest) : Option (RecvFromResult × Guest) :=
  match recvFromCall args g with
  | none => none
  | some (.returns code, g) => some (⟨code, false⟩, g)
  | some (.calls c, g) =>
    (recvFromReturn cfg c (host c) g).map fun (code, g) => (⟨code, true⟩, g)

end Vmill.Linux
