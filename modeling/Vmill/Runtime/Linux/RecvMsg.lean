import Vmill.Runtime.Linux.IO

/-!
# Receiving a message (`SysRecvMsg` in `Runtime/Linux/Net.cpp`)

`Import` copies the header and all that it points to into a header for the host, and `Export` copies
everything back, part by part. The structures of the guest are kept as bytes, so that padding is
written back as it was read.
-/

namespace Vmill.Linux

/-- `MsgHdrT` and `IOVecT`: the structures of a 32-bit or of a 64-bit guest. -/
inductive MsgFormat where
  | linux32
  | linux64
deriving DecidableEq, Repr

/-- The fields of `linux32_msghdr` and `linux64_msghdr`. -/
inductive MsgField where
  | name
  | namelen
  | iov
  | iovlen
  | control
  | controllen
  | flags
deriving DecidableEq, Repr

namespace MsgFormat

/-- The offset and the size of a field. -/
def place : MsgFormat → MsgField → Nat × Nat
  | linux32, .name => (0, 4)
  | linux32, .namelen => (4, 4)
  | linux32, .iov => (8, 4)
  | linux32, .iovlen => (12, 4)
  | linux32, .control => (16, 4)
  | linux32, .controllen => (20, 4)
  | linux32, .flags => (24, 4)
  | linux64, .name => (0, 8)
  | linux64, .namelen => (8, 4)
  | linux64, .iov => (16, 8)
  | linux64, .iovlen => (24, 4)
  | linux64, .control => (32, 8)
  | linux64, .controllen => (40, 4)
  | linux64, .flags => (44, 4)

def headerSize : MsgFormat → Nat
  | linux32 => 28
  | linux64 => 48

def wordSize : MsgFormat → Nat
  | linux32 => 4
  | linux64 => 8

def vecSize (fmt : MsgFormat) : Nat := 2 * fmt.wordSize

/-- A field of a header. -/
def get (fmt : MsgFormat) (field : MsgField) (compat : List UInt8) : Nat :=
  let (offset, size) := fmt.place field
  bytesNumber ((compat.drop offset).take size)

def set (fmt : MsgFormat) (field : MsgField) (n : Nat) (compat : List UInt8) : List UInt8 :=
  let (offset, size) := fmt.place field
  compat.take offset ++ numberBytes size n ++ compat.drop (offset + size)

/-- An array of `n` elements with the given object representation. -/
def vecs (fmt : MsgFormat) (n : Nat) (bytes : List UInt8) : List IoVec :=
  (List.range n).map fun i =>
    IoVec.ofBytes fmt.wordSize ((bytes.drop (i * fmt.vecSize)).take fmt.vecSize)

def vecBytes (fmt : MsgFormat) (vec : IoVec) : List UInt8 :=
  numberBytes fmt.wordSize vec.iovBase ++ numberBytes fmt.wordSize vec.iovLen

end MsgFormat

/-! ## `Import` -/

/-- `MessageHeader`, and the header of the guest that belongs to it. `msgIov` has the elements of
`orig_iov` and the buffers for the host. `none` is a null pointer. -/
structure MessageHeader where
  compat : List UInt8
  msgName : Option (List UInt8)
  msgIov : Option (List (IoVec × List UInt8))
  msgControl : Option (List UInt8)
deriving DecidableEq, Repr

/-- A step that can end the handler with `EFAULT`, and what follows it. -/
def andThen {α β : Type} (r : Option (Option α × Guest))
    (next : α → Guest → Option (Option β × Guest)) : Option (Option β × Guest) :=
  match r with
  | none => none
  | some (none, g) => some (none, g)
  | some (some a, g) => next a g

/-- An element without an address has no length. -/
def IoVec.cleared (vec : IoVec) : IoVec := if vec.iovBase = 0 then { vec with iovLen := 0 } else vec

/-- `IOVec::Import`, for each element of the array. The lengths are unsigned, so none of them is
below 0. -/
def importVecs : List IoVec → Guest → Option (Option (List (IoVec × List UInt8)) × Guest)
  | [], g => some (some [], g)
  | vec :: vecs, g =>
    let vec := vec.cleared
    andThen (g.tryReadMemory vec.iovBase vec.iovLen) fun data g =>
    andThen (importVecs vecs g) fun rest g =>
    some (some ((vec, data) :: rest), g)

/-- The name or the control data, if it is given. -/
def importPart (given : Bool) (addr size : Nat) (g : Guest) :
    Option (Option (Option (List UInt8)) × Guest) :=
  if given then andThen (g.tryReadMemory addr size) fun bytes g => some (some (some bytes), g)
  else some (some none, g)

def importIov (fmt : MsgFormat) (iov iovlen : Nat) (g : Guest) :
    Option (Option (Option (List (IoVec × List UInt8))) × Guest) :=
  if iovlen = 0 then some (some none, g)
  else
    andThen (g.tryReadMemory iov (iovlen * fmt.vecSize)) fun bytes g =>
    andThen (importVecs (fmt.vecs iovlen bytes) g) fun vecs g =>
    some (some (some vecs), g)

/-- A part without an address has no length. -/
def MsgFormat.clearLength (fmt : MsgFormat) (addr length : MsgField) (compat : List UInt8) :
    List UInt8 :=
  if fmt.get addr compat = 0 then fmt.set length 0 compat else compat

/-- The header, with the lengths of the parts that it does not give cleared. -/
def MsgFormat.cleared (fmt : MsgFormat) (compat : List UInt8) : List UInt8 :=
  let compat := fmt.clearLength .name .namelen compat
  let compat := fmt.clearLength .iov .iovlen compat
  fmt.clearLength .control .controllen compat

def importHeader (fmt : MsgFormat) (compat : List UInt8) (g : Guest) :
    Option (Option MessageHeader × Guest) :=
  let compat := fmt.cleared compat
  let get := fun field => fmt.get field compat
  andThen (importPart (get .namelen ≠ 0) (get .name) (get .namelen) g) fun name g =>
  andThen (importIov fmt (get .iov) (get .iovlen) g) fun iov g =>
  andThen (importPart (get .control ≠ 0) (get .control) (get .controllen) g) fun control g =>
  some (some ⟨compat, name, iov, control⟩, g)

/-! ## `Export` -/

/-- What `recvmsg` of the host does: it returns an error number or a count, and leaves the name, the
buffers, the control data and the flags. The lengths that it leaves can be larger than the room
there was, and then `Export` reads on behind its buffer. -/
structure RecvMsgAnswer where
  ret : Except Nat Nat
  name : List UInt8
  buffers : List (List UInt8)
  control : List UInt8
  flags : Nat
deriving Repr

/-- The buffers keep their sizes, and an error has a number. -/
structure RecvMsgAnswer.Fits (a : RecvMsgAnswer) (h : MessageHeader) : Prop where
  buffers : a.buffers.map List.length = (h.msgIov.getD []).map (·.1.iovLen)
  errno : ∀ err, a.ret = .error err → err ≠ 0

/-- A part that `Export` writes back: `bytes` to `addr`, if `checked` bytes there are writable. -/
structure MsgPart where
  addr : Nat
  checked : Nat
  bytes : List UInt8
deriving DecidableEq, Repr

/-- The name or the control data: the check is for as many bytes as are written. -/
def MsgPart.ofBytes (addr : Nat) (bytes : List UInt8) : MsgPart := ⟨addr, bytes.length, bytes⟩

/-- `IOVec::Export`, for each element of the array, and the array itself. The check of the array is
for its number of elements instead of its size. -/
def MsgFormat.iovParts (fmt : MsgFormat) (iov : Nat) (vecs : List IoVec)
    (buffers : List (List UInt8)) : List MsgPart :=
  ((vecs.zip buffers).filter fun vec => vec.1.iovLen ≠ 0).map
      (fun vec => ⟨vec.1.iovBase, vec.1.iovLen, vec.2⟩) ++
    [⟨iov, vecs.length, vecs.flatMap fmt.vecBytes⟩]

namespace MessageHeader

/-- What `Export` writes back, in this order. -/
def parts (h : MessageHeader) (fmt : MsgFormat) (a : RecvMsgAnswer) : List MsgPart :=
  let get := fun field => fmt.get field h.compat
  (if h.msgName.isSome then [.ofBytes (get .name) a.name] else []) ++
  (match h.msgIov with
    | none => []
    | some vecs => fmt.iovParts (get .iov) (vecs.map Prod.fst) a.buffers) ++
  (if h.msgControl.isSome then [.ofBytes (get .control) a.control] else [])

/-- The header of the guest after `Export`, which is not reached when a check fails. -/
def exported (h : MessageHeader) (fmt : MsgFormat) (a : RecvMsgAnswer) : List UInt8 :=
  let compat := fmt.set .flags a.flags h.compat
  let compat := fmt.set .namelen a.name.length compat
  let compat := fmt.set .iovlen (h.msgIov.getD []).length compat
  fmt.set .controllen a.control.length compat

end MessageHeader

/-- `MessageHeader::Export`: whether all checks pass. -/
def exportParts (cfg : Config) : List MsgPart → Guest → Option (Bool × Guest)
  | [], g => some (true, g)
  | part :: parts, g =>
    match g.canWriteMemory part.addr part.checked with
    | none => none
    | some false => some (false, g)
    | some true =>
      match g.copyToMemory cfg part.addr part.bytes with
      | none => none
      | some g => exportParts cfg parts g

/-! ## The handler -/

/-- How a call went: its return value, and the header that `recvmsg` of the host was given, if it
has succeeded. -/
structure RecvMsgResult where
  code : Int
  received : Option MessageHeader
deriving DecidableEq, Repr

/-- `SysRecvMsg`, from the return of `recvmsg` on. What `Export` returns is ignored. -/
def recvMsgReturn (cfg : Config) (fmt : MsgFormat) (message count : Nat) (h : MessageHeader)
    (a : RecvMsgAnswer) (g : Guest) : Option (Int × Guest) :=
  match exportParts cfg (h.parts fmt a) g with
  | none => none
  | some (ok, g) =>
    (g.tryWriteMemory cfg message (if ok then h.exported fmt a else h.compat)).map fun
      | (false, g) => (-eFAULT, g)
      | (true, g) => (count, g)

def sysRecvMsg (cfg : Config) (fmt : MsgFormat) (host : MessageHeader → RecvMsgAnswer)
    (message : Nat) (g : Guest) : Option (RecvMsgResult × Guest) :=
  match andThen (g.tryReadMemory message fmt.headerSize) (importHeader fmt) with
  | none => none
  | some (none, g) => some (⟨-eFAULT, none⟩, g)
  | some (some h, g) =>
    match (host h).ret with
    | .error err => some (⟨-err, none⟩, g)
    | .ok count =>
      (recvMsgReturn cfg fmt message count h (host h) g).map fun (code, g) => (⟨code, some h⟩, g)

end Vmill.Linux
