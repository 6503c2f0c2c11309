import Vmill.Base.Overwrite
import Vmill.Runtime.Linux.Path

/-!
# Paths relative to a directory descriptor (`Runtime/Linux/FS.cpp`)

`GetPathAt` makes a path out of a directory descriptor and a relative path, in two buffers that
all handlers share. The host is asked for the current directory and for the targets of links.
-/

namespace Vmill.Linux

open Base

def atFDCWD : Int := -100

def atSymlinkNoFollow : BitVec 32 := 0x100

def atSymlinkFollow : BitVec 32 := 0x400

def slash : UInt8 := 47

/-- What the host answers to `getcwd` and `readlink`; the paths are strings. -/
structure PathHost where
  getcwd : Option (List UInt8)
  readlink : List UInt8 → Option (List UInt8)
  getcwd_string : ∀ dir, getcwd = some dir → ∀ b ∈ dir, b ≠ 0
  readlink_string : ∀ path target, readlink path = some target → ∀ b ∈ target, b ≠ 0

/-- The static buffers `gPathAt`, of `PATH_MAX + 1` bytes, and `gIOBuffer`, of 16385 bytes. -/
structure PathBuffers where
  gPathAt : PathBuffer
  gIOBuffer : PathBuffer

def decimal : Int → List UInt8
  | .ofNat n => (Nat.toDigits 10 n).map fun c => UInt8.ofNat c.toNat
  | .negSucc n => 45 :: (Nat.toDigits 10 (n + 1)).map fun c => UInt8.ofNat c.toNat

def fdPath (fd : Int) : List UInt8 :=
  ['/', 'p', 'r', 'o', 'c', '/', 's', 'e', 'l', 'f', '/', 'f', 'd', '/'].map
    (fun c => UInt8.ofNat c.toNat) ++ decimal fd

/-- `getcwd` of at most `PATH_MAX` bytes, the terminator included, and `buf[PATH_MAX] = '\0'`. -/
def getcwdInto (host : PathHost) (buf : PathBuffer) : Bool × PathBuffer :=
  match host.getcwd with
  | none => (false, Function.update buf pathMax 0)
  | some dir =>
    if dir.length < pathMax then
      (true, Function.update (overwrite buf 0 (dir ++ [0])) pathMax 0)
    else (false, Function.update buf pathMax 0)

/-- `readlink` of at most `PATH_MAX` bytes, `buf[PATH_MAX] = '\0'`, and `buf[ret] = '\0'` unless it
has failed. -/
def readlinkInto (host : PathHost) (path : List UInt8) (buf : PathBuffer) : Bool × PathBuffer :=
  match host.readlink path with
  | none => (false, Function.update buf pathMax 0)
  | some target =>
    let target := target.take pathMax
    let buf := Function.update (overwrite buf 0 target) pathMax 0
    (true, Function.update buf target.length 0)

/-- The part of `GetBasePathAt` behind the tests of the descriptor; the result is in `gPathAt`. -/
def linkOfFd (host : PathHost) (fd : Int) (gPathAt : PathBuffer) : Bool × PathBuffer :=
  readlinkInto host (fdPath fd) gPathAt

/-- `GetBasePathAt`. When it succeeds its result is `gPathAt`. -/
def getBasePathAt (host : PathHost) (fd : Int) (gPathAt : PathBuffer) : Bool × PathBuffer :=
  if fd = atFDCWD then
    let (ok, gPathAt) := getcwdInto host gPathAt
    if ok then linkOfFd host fd gPathAt else (false, gPathAt)
  else if fd < 0 then (false, gPathAt)
  else linkOfFd host fd gPathAt

inductive PathPtr where
  | null
  | path
  | ioBuffer
deriving DecidableEq, Repr

/-- The test of the flags, with the operators of the source. -/
def testsFlags (flags : BitVec 32) : Bool :=
  decide ((if flags &&& atSymlinkNoFollow = 0 then 1 else 0 : BitVec 32) |||
    (flags ||| atSymlinkFollow) ≠ 0)

/-- The end of `GetPathAt`, with the base path in the buffer. -/
def appendPath (path : List UInt8) (iobuf : PathBuffer) : PathBuffer :=
  let basePathLen := (cString iobuf).length
  let iobuf := Function.update iobuf basePathLen slash
  overwrite iobuf (basePathLen + 1) path

/-- `GetPathAt`, for the string `path`. -/
def getPathAt (host : PathHost) (fd : Int) (path : List UInt8) (flags : BitVec 32)
    (b : PathBuffers) : PathPtr × PathBuffers :=
  if path.head? = some slash then (.path, b)
  else
    match getBasePathAt host fd b.gPathAt with
    | (false, gPathAt) => (.null, { b with gPathAt })
    | (true, gPathAt) =>
      if testsFlags flags then
        match readlinkInto host (cString gPathAt) b.gIOBuffer with
        | (false, iobuf) => (.null, ⟨gPathAt, iobuf⟩)
        | (true, iobuf) => (.ioBuffer, ⟨gPathAt, appendPath path iobuf⟩)
      else
        -- `strlen` and `memcpy`, which do not copy the terminator
        let basePath := cString gPathAt
        let iobuf := overwrite b.gIOBuffer 0 basePath
        let iobuf := Function.update iobuf basePath.length slash
        (.ioBuffer, ⟨gPathAt, overwrite iobuf (basePath.length + 1) path⟩)

end Vmill.Linux
