import Vmill.Base.Run
import Vmill.Util.AreaAllocator

/-!
# Sections of the code cache (`Executor/CodeCache.cpp`)

Every section gets its memory from one of four area allocators, three of which have fixed places in
the process. What `mmap` answers is given with each request. The name of the source file in a
`MemoryMap` is left out.
-/

namespace Vmill

open Base

/-- `kAreaBase`, on a host that is not an Apple one. -/
def kAreaBase : Nat := 0

def kAreaCodeCacheCode : Nat := 0x80000000 + kAreaBase
def kAreaCodeCacheData : Nat := 0xC0000000 + kAreaBase
def kAreaCodeCacheIndex : Nat := 0x10000000000 + kAreaBase

inductive CacheArea where
  | code
  | data
  | index
  | ctors
deriving DecidableEq, Repr

structure MemoryMap where
  base : Nat
  size : Nat
  sectionId : Nat
  canRead : Bool
  canWrite : Bool
  canExec : Bool
  isIndex : Bool
  isCtors : Bool
deriving DecidableEq, Repr

/-- What `mmap` answers, for the first mapping of an area and when it grows. -/
structure MapAnswers where
  first : Option Nat
  grow : Option Nat
deriving DecidableEq, Repr

structure CodeCache where
  /-- `code_allocator`, `data_allocator`, `index_allocator` and `ctor_allocator`. -/
  allocator : CacheArea → AreaAllocator
  maps : CacheArea → List (Nat × Nat)
  bytes : Nat → UInt8
  pendingJitRanges : Nat → Option MemoryMap

namespace CodeCache

def new (bytes : Nat → UInt8) : CodeCache where
  allocator
    | .code => .new .rwx kAreaCodeCacheCode k2MiB
    | .data => .new .rw kAreaCodeCacheData k2MiB
    | .index => .new .rw kAreaCodeCacheIndex k2MiB
    | .ctors => .new .rw 0 k2MiB
  maps _ := []
  bytes := bytes
  pendingJitRanges _ := none

def allocate (c : CodeCache) (area : CacheArea) (size align : Nat) (answers : MapAnswers) :
    Option (Nat × CodeCache) :=
  match (c.allocator area).allocate ⟨c.maps area, c.bytes⟩ size align answers.first
      answers.grow with
  | none => none
  | some (ret, a, h) =>
    some (ret, { c with
      allocator := Function.update c.allocator area a
      maps := Function.update c.maps area h.maps
      bytes := h.bytes })

/-- `pending_jit_ranges[section_id] = map`. -/
def addPending (c : CodeCache) (map : MemoryMap) : CodeCache :=
  { c with pendingJitRanges := Function.update c.pendingJitRanges map.sectionId (some map) }

def allocateCodeSection (c : CodeCache) (size alignment sectionId : Nat) (answers : MapAnswers) :
    Option (Nat × CodeCache) :=
  match c.allocate .code size alignment answers with
  | none => none
  | some (base, c) =>
    some (base, c.addPending
      { base := base, size := size, sectionId := sectionId, canRead := true, canWrite := false
        canExec := true, isIndex := false, isCtors := false })

def dataArea (name : String) : CacheArea :=
  if name = ".vindex" then .index else if name = ".vctors" then .ctors else .data

def allocateDataSection (c : CodeCache) (size alignment sectionId : Nat) (name : String)
    (isReadOnly : Bool) (answers : MapAnswers) : Option (Nat × CodeCache) :=
  let area := dataArea name
  -- the entries of all translation segments are to be contiguous
  let align := if area = .data then alignment else 0
  match c.allocate area size align answers with
  | none => none
  | some (base, c) =>
    some (base, c.addPending
      { base := base, size := size, sectionId := sectionId, canRead := true
        canWrite := !isReadOnly, canExec := false, isIndex := decide (area = .index)
        isCtors := decide (area = .ctors) })

end CodeCache

inductive SectionOp where
  | code (size alignment sectionId : Nat) (answers : MapAnswers)
  | data (size alignment sectionId : Nat) (name : String) (isReadOnly : Bool)
      (answers : MapAnswers)
deriving DecidableEq, Repr

namespace SectionOp

def area : SectionOp → CacheArea
  | .code _ _ _ _ => .code
  | .data _ _ _ name _ _ => CodeCache.dataArea name

def size : SectionOp → Nat
  | .code size _ _ _ | .data size _ _ _ _ _ => size

def align : SectionOp → Nat
  | .code _ alignment _ _ => alignment
  | .data _ alignment _ name _ _ => if CodeCache.dataArea name = .data then alignment else 0

def answers : SectionOp → MapAnswers
  | .code _ _ _ answers | .data _ _ _ _ _ answers => answers

end SectionOp

/-- The machine of the memory manager; the output is the address of the section. -/
def codeCache : Machine CodeCache SectionOp Nat where
  step op c :=
    match op with
    | .code size alignment sectionId answers =>
      c.allocateCodeSection size alignment sectionId answers
    | .data size alignment sectionId name isReadOnly answers =>
      c.allocateDataSection size alignment sectionId name isReadOnly answers

end Vmill
