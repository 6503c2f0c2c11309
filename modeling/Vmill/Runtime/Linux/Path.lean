import Vmill.Runtime.Memory
import Vmill.Runtime.Linux.Futex

/-!
# System calls that take a path (`Runtime/Linux/FS.cpp`, `IO.cpp`)

The handlers copy the path into `gPath`, a buffer that they all share. They are modelled up to the
call of the host, with the values of the arguments.
-/

namespace Vmill.Linux

def pathMax : Nat := 4096

def eNAMETOOLONG : Int := 36

/-- The contents of `gPath`. It has `PATH_MAX + 1` bytes. -/
abbrev PathBuffer := Nat → UInt8

def cString (val : PathBuffer) : List UInt8 :=
  ((List.range (pathMax + 1)).map val).takeWhile (· ≠ 0)

/-- The function of the host that is called, and its other arguments. -/
inductive HostCall where
  | open' (oflag mode : Nat)
  | access (type : Nat)
  | stat
  | readlink (maxSize : Nat)
  | mkdir (mode : Nat)
  | mkdirat (dirfd mode : Nat)
  | rmdir
deriving DecidableEq, Repr

/-- What a handler has come to: an error, or a call of the host. -/
inductive PathOutcome where
  | fails (code : Int)
  | calls (call : HostCall) (path : List UInt8)
deriving DecidableEq, Repr

def PathOutcome.path : PathOutcome → Option (List UInt8)
  | .fails _ => none
  | .calls _ path => some path

/-- The path is copied into `gPath`, and `gPath[PATH_MAX] = '\0'`. -/
def readPath (g : Guest) (path : Nat) (gPath : PathBuffer) : Option (Nat × PathBuffer × Guest) :=
  (g.copyStringFromMemory path gPath pathMax).map fun (len, gPath, g) =>
    (len, Function.update gPath pathMax 0, g)

/-- The handlers that look at the length of the path, and for its end. -/
def checkedCall (call : HostCall) (g : Guest) (path : Nat) (gPath : PathBuffer) :
    Option (PathOutcome × PathBuffer × Guest) :=
  match readPath g path gPath with
  | none => none
  | some (pathLen, gPath, g) =>
    if pathLen ≥ pathMax then some (.fails (-eNAMETOOLONG), gPath, g)
    else if gPath pathLen ≠ 0 then some (.fails (-eFAULT), gPath, g)
    else some (.calls call (cString gPath), gPath, g)

/-- The handlers that look at neither. -/
def uncheckedCall (call : HostCall) (g : Guest) (path : Nat) (gPath : PathBuffer) :
    Option (PathOutcome × PathBuffer × Guest) :=
  match readPath g path gPath with
  | none => none
  | some (_, gPath, g) => some (.calls call (cString gPath), gPath, g)

def sysOpen (g : Guest) (path oflag mode : Nat) (gPath : PathBuffer) :
    Option (PathOutcome × PathBuffer × Guest) := checkedCall (.open' oflag mode) g path gPath

def sysAccess (g : Guest) (path type : Nat) (gPath : PathBuffer) :
    Option (PathOutcome × PathBuffer × Guest) := checkedCall (.access type) g path gPath

def sysStat (g : Guest) (path buf : Nat) (gPath : PathBuffer) :
    Option (PathOutcome × PathBuffer × Guest) :=
  if path = 0 ∨ buf = 0 then some (.fails (-eINVAL), gPath, g) else checkedCall .stat g path gPath

def isNegative (g : Guest) (size : Nat) : Bool := decide (g.space.addrMask / 2 < size)

def sysReadLink (g : Guest) (path buf size : Nat) (gPath : PathBuffer) :
    Option (PathOutcome × PathBuffer × Guest) :=
  if isNegative g size then some (.fails (-eINVAL), gPath, g)
  else if buf = 0 then some (.fails (-eINVAL), gPath, g)
  else
    match readPath g path gPath with
    | none => none
    | some (pathLen, gPath, g) =>
      if pathLen = 0 then some (.fails (-eFAULT), gPath, g)
      else
        match g.numWritableBytes buf size with
        | none => none
        | some maxSize =>
          if maxSize = 0 then some (.fails (-eFAULT), gPath, g)
          else
            let (_, g) := g.copyFromMemory buf maxSize
            some (.calls (.readlink maxSize) (cString gPath), gPath, g)

def sysMakeDirectory (g : Guest) (path mode : Nat) (gPath : PathBuffer) :
    Option (PathOutcome × PathBuffer × Guest) := uncheckedCall (.mkdir mode) g path gPath

def sysMakeDirectoryAt (g : Guest) (dirfd path mode : Nat) (gPath : PathBuffer) :
    Option (PathOutcome × PathBuffer × Guest) := uncheckedCall (.mkdirat dirfd mode) g path gPath

def sysRemoveDirectory (g : Guest) (path : Nat) (gPath : PathBuffer) :
    Option (PathOutcome × PathBuffer × Guest) := uncheckedCall .rmdir g path gPath

inductive PathCall where
  | open' (path oflag mode : Nat)
  | access (path type : Nat)
  | stat (path buf : Nat)
  | readlink (path buf size : Nat)
  | mkdir (path mode : Nat)
  | mkdirat (dirfd path mode : Nat)
  | rmdir (path : Nat)
deriving DecidableEq, Repr

namespace PathCall

def run : PathCall → Guest → PathBuffer → Option (PathOutcome × PathBuffer × Guest)
  | .open' path oflag mode, g, gPath => sysOpen g path oflag mode gPath
  | .access path type, g, gPath => sysAccess g path type gPath
  | .stat path buf, g, gPath => sysStat g path buf gPath
  | .readlink path buf size, g, gPath => sysReadLink g path buf size gPath
  | .mkdir path mode, g, gPath => sysMakeDirectory g path mode gPath
  | .mkdirat dirfd path mode, g, gPath => sysMakeDirectoryAt g dirfd path mode gPath
  | .rmdir path, g, gPath => sysRemoveDirectory g path gPath

def path : PathCall → Nat
  | .open' path _ _ | .access path _ | .stat path _ | .readlink path _ _ | .mkdir path _
  | .mkdirat _ path _ | .rmdir path => path

def hostPath (c : PathCall) (g : Guest) (gPath : PathBuffer) : Option (List UInt8) :=
  (c.run g gPath).bind fun r => r.1.path

end PathCall

end Vmill.Linux
