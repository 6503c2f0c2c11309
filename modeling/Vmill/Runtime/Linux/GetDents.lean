import Vmill.Base.Run
import Vmill.Runtime.Linux.IO

/-!
# Directory listings (`SysGetDirEntries64` in `Runtime/Linux/FS.cpp`)

A position is the number of entries in front of it. The directory does not change, and calls of the
host on an open directory do not fail. Each call is made on a memory of its own.
-/

namespace Vmill.Linux

open Base

/-- The fields of `struct dirent` that are used. `d_name` has room for 256 bytes. -/
structure DirEntry where
  dIno : Nat
  dOff : Nat
  dType : Nat
  dName : List UInt8
  nonzero : ∀ b ∈ dName, b ≠ 0
  short : dName.length ≤ 255

/-- `offsetof(struct linux_dirent64, d_type) + 1`. -/
def direntSize : Nat := 19

namespace DirEntry

def header (e : DirEntry) (reclen : Nat) : List UInt8 :=
  numberBytes 8 e.dIno ++ numberBytes 8 e.dOff ++ numberBytes 2 reclen ++ numberBytes 1 e.dType

/-- `to_write`, where `align` is `alignof(entry.d_ino)`. -/
def toWrite (e : DirEntry) (align : Nat) : Nat :=
  let toWrite := direntSize + e.dName.length + 1
  if toWrite % align ≠ 0 then toWrite + (align - toWrite % align) else toWrite

end DirEntry

/-- The loop, with the entries that `readdir` is going to give, the position that `telldir` gives
now, `written` and `pos`. The results are `written`, which is also `ret`, and `pos`. -/
def getDirEntriesLoop (cfg : Config) (align dirent count : Nat) :
    List DirEntry → Nat → Nat → Nat → Guest → Option (Nat × Nat × Guest)
  | [], tell, written, pos, g => some (written, if written ≠ 0 then tell else pos, g)
  | e :: rest, tell, written, pos, g =>
    let pos := if written ≠ 0 then tell else pos
    let entryAddr := g.addrT (dirent + written)
    if written + e.toWrite align > count then some (written, pos, g)
    else
      -- the results of both are ignored
      match g.tryWriteMemory cfg entryAddr (e.header (e.toWrite align)) with
      | none => none
      | some (_, g) =>
        match g.copyStringToMemory cfg (g.addrT (entryAddr + direntSize)) (e.dName ++ [0])
            (e.dName.length + 1) with
        | none => none
        | some (_, g) =>
          getDirEntriesLoop cfg align dirent count rest (tell + 1)
            (written + e.toWrite align) pos g

/-- A call: the memory of the guest, the arguments, and the error numbers of `dup` and `fdopendir`
if they fail. -/
structure GetDentsCall where
  guest : Guest
  dirent : Nat
  count : Nat
  dupError : Option Nat
  openError : Option Nat
  dup_errno : dupError ≠ some 0
  open_errno : openError ≠ some 0

structure GetDentsOut where
  dirent : Nat
  count : Nat
  ret : Int
  after : Guest

/-- `SysGetDirEntries64` on the descriptor of a directory, at a position. -/
def sysGetDirEntries64 (cfg : Config) (align : Nat) (dir : List DirEntry) (c : GetDentsCall)
    (pos : Nat) : Option (GetDentsOut × Nat) :=
  let returns (ret : Int) (g : Guest) : GetDentsOut := ⟨c.dirent, c.count, ret, g⟩
  match c.guest.canWriteMemory c.dirent c.count with
  | none => none
  | some false => some (returns (-eFAULT) c.guest, pos)
  | some true =>
    match c.dupError with
    | some err => some (returns (-err) c.guest, pos)
    | none =>
      match c.openError with
      | some err => some (returns (-err) c.guest, pos)
      | none =>
        (getDirEntriesLoop cfg align c.dirent c.count (dir.drop pos) pos 0 pos c.guest).map
          fun (ret, pos, g) => (returns ret g, pos)

def directory (cfg : Config) (align : Nat) (dir : List DirEntry) :
    Machine Nat GetDentsCall GetDentsOut where
  step := sysGetDirEntries64 cfg align dir

end Vmill.Linux
