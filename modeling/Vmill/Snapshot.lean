import Vmill.Base.Scan
import Vmill.Program.Page

/-!
# The snapshot tool (`Snapshot.cpp`)

How the lines of `/proc/<pid>/maps` become the page ranges of a snapshot. What `getrlimit` says
about the stack is a parameter. The fields of a `PageRange` are kept as the words they are cast
from.
-/

namespace Vmill

open Base

inductive PageRangeKind where
  | linuxStackPageRange
  | linuxHeapPageRange
  | linuxVVarPageRange
  | linuxVDSOPageRange
  | linuxVSysCallPageRange
  | fileBackedPageRange
  | anonymousPageRange
  | anonymousZeroRange
deriving DecidableEq, Repr

structure PageRange where
  base : Nat
  limit : Nat
  canRead : Bool
  canWrite : Bool
  canExec : Bool
  kind : PageRangeKind
  name : List UInt8
  filePath : Option (List UInt8)
  fileOffset : Option Nat
deriving DecidableEq, Repr

def getMaxStackSize (rlimCur : Nat) : Nat := max rlimCur (16 <<< 20)

def pageRangeNameLoop : Bool → List UInt8 → List UInt8
  | _, [] => []
  | seenSym, c :: line =>
    if isAlnum c then c :: pageRangeNameLoop false line
    -- `'\r' == c || '\n' == c`
    else if c = 13 ∨ c = 10 then []
    else if seenSym = false then 95 :: pageRangeNameLoop true line
    else pageRangeNameLoop seenSym line

def pageRangeName (line : List UInt8) : List UInt8 := pageRangeNameLoop false line

/-- What `sscanf` reads from a line, as far as it is used. -/
structure MapsFields where
  begin : Nat
  limit : Nat
  r : UInt8
  w : UInt8
  x : UInt8
  offset : Nat
  /-- `path_mem`, up to its end. -/
  path : List UInt8
deriving DecidableEq, Repr

/-- `sscanf(cline, "%lx-%lx %c%c%c%c %lx %x:%x %ld%s", ...)`: `none` if less than ten fields are
read. The path may be missing. -/
def scanMapsLine (cline : List UInt8) : Option MapsFields := do
  let (begin, input) ← scanUnsigned 16 cline
  let input ← scanExactly 45 input
  let (limit, input) ← scanUnsigned 16 input
  let (r, input) ← scanChar (skipSpace input)
  let (w, input) ← scanChar input
  let (x, input) ← scanChar input
  let (_, input) ← scanChar input
  let (offset, input) ← scanUnsigned 16 input
  let (_, input) ← scanUnsigned 16 input
  let input ← scanExactly 58 input
  let (_, input) ← scanUnsigned 16 input
  let (_, input) ← scanUnsigned 10 input
  return ⟨begin, limit, r, w, x, offset, ((scanWord input).map Prod.fst).getD []⟩

def kPathMax : Nat := 4096

/-- The texts that `strstr` looks for: `[stack]`, `[vvar]`, `[vdso]`, `[vsyscall]` and `[heap]`. -/
def kStackText : List UInt8 := [91, 115, 116, 97, 99, 107, 93]

def kVVarText : List UInt8 := [91, 118, 118, 97, 114, 93]

def kVDSOText : List UInt8 := [91, 118, 100, 115, 111, 93]

def kVSysCallText : List UInt8 := [91, 118, 115, 121, 115, 99, 97, 108, 108, 93]

def kHeapText : List UInt8 := [91, 104, 101, 97, 112, 93]

def pageRangeKind (path : List UInt8) : PageRangeKind :=
  if occursIn kStackText path then .linuxStackPageRange
  else if occursIn kVVarText path then .linuxVVarPageRange
  else if occursIn kVDSOText path then .linuxVDSOPageRange
  else if occursIn kVSysCallText path then .linuxVSysCallPageRange
  else if occursIn kHeapText path then .linuxHeapPageRange
  else if path ≠ [] then .fileBackedPageRange
  else .anonymousPageRange

def pageRangeOf (rlimCur : Nat) (line : List UInt8) (fields : MapsFields) : PageRange :=
  -- `path` skips the spaces in front, of which `%s` has left none
  let path := fields.path.dropWhile (· == 32)
  let kind := pageRangeKind path
  let currStackSize := sub64 fields.limit fields.begin
  let newStackSize := max currStackSize (getMaxStackSize rlimCur)
  { base :=
      if kind = .linuxStackPageRange then sub64 fields.limit newStackSize else fields.begin
    limit := fields.limit
    canRead := fields.r == 114
    canWrite := fields.w == 119
    canExec := fields.x == 120
    kind := kind
    name := pageRangeName line
    filePath := if kind = .fileBackedPageRange then some path else none
    fileOffset := if kind = .fileBackedPageRange then some fields.offset else none }

/-- `ReadPageInfoLine`: the range that is added, if the line can be read. `none`: the path does not
fit into `path_mem`, and the behaviour is undefined. -/
def readPageInfoLine (rlimCur : Nat) (line : List UInt8) : Option (Option PageRange) :=
  -- `line.c_str()` ends at the first zero byte
  match scanMapsLine (line.takeWhile (· ≠ 0)) with
  | none => some none
  | some fields =>
    if kPathMax < fields.path.length then none
    else some (some (pageRangeOf rlimCur line fields))

/-- `ReadTraceePageMaps`: the lines that cannot be read are skipped. -/
def readTraceePageMaps (rlimCur : Nat) : List (List UInt8) → Option (List PageRange)
  | [] => some []
  | line :: lines =>
    match readPageInfoLine rlimCur line, readTraceePageMaps rlimCur lines with
    | some none, some ranges => some ranges
    | some (some range), some ranges => some (range :: ranges)
    | _, _ => none

end Vmill
