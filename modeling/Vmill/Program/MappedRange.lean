import Vmill.Program.Page
import Mathlib.Logic.Function.Basic

/-!
# Mapped ranges (`MappedRange.cpp`)

A `std::shared_ptr` is the index of a heap cell; a placement `new` over a live object is an update
of its cell, so a pointer keeps its identity while the object behind it changes class. Cells are
never reclaimed. `none`: a `CHECK` failed, or the behaviour is undefined.
-/

namespace Vmill

/-- A `MemoryMapPtr`: the cell of a range object. -/
abbrev MemoryMapPtr := Nat

/-- The four classes derived from `MappedRangeBase`, each with the fields that
its methods use: an array owns its `data`, a copy-on-write range has a
`parent`. -/
inductive MapKind where
  | invalid
  | array (data : Nat → UInt8)
  | empty
  | copyOnWrite (parent : MemoryMapPtr)

instance (k : MapKind) : Decidable (∀ q, k ≠ .copyOnWrite q) :=
  match k with
  | .copyOnWrite p => .isFalse (fun hk => hk p rfl)
  | .array _ | .empty | .invalid => .isTrue (fun _ => nofun)

/-- A range object: the fields of `MappedRange` and `MappedRangeBase`. -/
structure MappedRange where
  baseAddress : Nat
  limitAddress : Nat
  name : List UInt8
  offset : Nat
  codeVersion : Nat
  codeVersionIsValid : Bool
  kind : MapKind

namespace MappedRange

def size (r : MappedRange) : Nat := sub64 r.limitAddress r.baseAddress

def contains (r : MappedRange) (address : Nat) : Bool :=
  decide (r.baseAddress ≤ address) && decide (address < r.limitAddress)

end MappedRange

/-- The `name[256]` buffer: at most 255 bytes are kept, a null `name_` gives
the empty string. -/
def copyName : Option (List UInt8) → List UInt8
  | none => []
  | some name => name.take 255

/-- The constructor of `MappedRangeBase`: no code version yet. -/
def newRange (base limit : Nat) (name : Option (List UInt8)) (offset : Nat)
    (kind : MapKind) : MappedRange :=
  { baseAddress := base
    limitAddress := limit
    name := copyName name
    offset := offset
    codeVersion := 0
    codeVersionIsValid := false
    kind := kind }

/-- The constructor of `ArrayMemoryMap`, with the data the caller then fills in. The `CHECK` wants
whole pages. An inverted range has a `Size()` of nearly `2 ^ 64`, which the zone allocator cannot
serve: its `mmap` fails, or its `bzero` leaves the zone. -/
def newArray (base limit : Nat) (name : List UInt8) (offset : Nat) (data : Nat → UInt8) :
    Option MappedRange :=
  let r := newRange base limit (some name) offset (.array data)
  if r.size = r.size / kPageSize * kPageSize then
    if base ≤ limit then some r else none
  else none

/-- The range objects of the process; cells from `next` on are not in use. -/
structure Heap where
  next : Nat
  obj : MemoryMapPtr → MappedRange

namespace Heap

/-- `std::make_shared`: the object goes into a fresh cell. -/
def alloc (h : Heap) (r : MappedRange) : Heap × MemoryMapPtr :=
  ({ next := h.next + 1, obj := Function.update h.obj h.next r }, h.next)

def set (h : Heap) (p : MemoryMapPtr) (r : MappedRange) : Heap :=
  { h with obj := Function.update h.obj p r }

def create (h : Heap) (base limit : Nat) (name : Option (List UInt8)) (offset : Nat) :
    Heap × MemoryMapPtr :=
  h.alloc (newRange base limit name offset .empty)

def createInvalid (h : Heap) (base limit : Nat) : Heap × MemoryMapPtr :=
  h.alloc (newRange base limit (some []) 0 .invalid)

/-- Follow `parent` links for at most `fuel` steps. -/
def rootFrom (h : Heap) : Nat → MemoryMapPtr → MemoryMapPtr
  | 0, p => p
  | fuel + 1, p =>
    match (h.obj p).kind with
    | .copyOnWrite parent => h.rootFrom fuel parent
    | _ => p

/-- The end of the `parent` chain of `p`: the `while (parent_)` loop of the `CopyOnWriteMemoryMap`
constructors, and the object that answers the virtual calls a copy-on-write range forwards
(`IsValid`, `Read`, `ComputeCodeVersion`, `ToReadOnlyVirtualAddress`). -/
def root (h : Heap) (p : MemoryMapPtr) : MemoryMapPtr := h.rootFrom h.next p

def isValid (h : Heap) (p : MemoryMapPtr) : Bool :=
  match (h.obj (h.root p)).kind with
  | .invalid => false
  | _ => true

/-- `Read`: the success flag and the byte stored to `*out_val`. -/
def read (h : Heap) (p : MemoryMapPtr) (address : Nat) : Bool × UInt8 :=
  let r := h.obj (h.root p)
  match r.kind with
  | .array data => (true, data (sub64 address r.baseAddress))
  | .empty => (true, 0)
  | _ => (false, 0)

/-- `ToReadOnlyVirtualAddress`: `none` is the null pointer, otherwise the bytes
found from the returned pointer on. For an empty range this is `kZeroes`. -/
def toReadOnlyVirtualAddress (h : Heap) (p : MemoryMapPtr) (address : Nat) :
    Option (Nat → UInt8) :=
  let r := h.obj (h.root p)
  match r.kind with
  | .array data => some (fun i => data (sub64 address r.baseAddress + i))
  | .empty => some (fun _ => 0)
  | _ => none

/-- The array an empty or copy-on-write range turns into when it is written:
same bounds and offset, and the bytes the range read before. -/
def materialise (h : Heap) (p : MemoryMapPtr) : Option Heap :=
  let r := h.obj p
  match r.kind with
  | .empty =>
    (newArray r.baseAddress r.limitAddress r.name r.offset (fun _ => 0)).map (h.set p)
  | .copyOnWrite parent =>
    (newArray r.baseAddress r.limitAddress (h.obj parent).name r.offset (fun i =>
      if r.baseAddress + i < r.limitAddress then
        (h.read parent (r.baseAddress + i)).2
      else 0)).map (h.set p)
  | _ => some h

/-- `ToReadWriteVirtualAddress`: an empty or copy-on-write range first becomes
an array. The pointer is an index into the array of `p`, `none` the null
pointer of the base class. -/
def toReadWriteVirtualAddress (h : Heap) (p : MemoryMapPtr) (address : Nat) :
    Option (Heap × Option Nat) :=
  match (h.obj p).kind with
  | .invalid => some (h, none)
  | _ => (h.materialise p).map (fun h' => (h', some (sub64 address (h.obj p).baseAddress)))

/-- `data.base[index] = val`. -/
def store (h : Heap) (p : MemoryMapPtr) (index : Nat) (val : UInt8) : Heap :=
  match (h.obj p).kind with
  | .array data => h.set p { h.obj p with kind := .array (Function.update data index val) }
  | _ => h

/-- Store the bytes of a value from `index` on. -/
def storeBytes (h : Heap) (p : MemoryMapPtr) : Nat → List UInt8 → Heap
  | _, [] => h
  | index, val :: vals => (h.store p index val).storeBytes p (index + 1) vals

/-- `Write`: `false` from an invalid range; any other range stores through the
pointer of `ToReadWriteVirtualAddress`. -/
def write (h : Heap) (p : MemoryMapPtr) (address : Nat) (val : UInt8) : Option (Bool × Heap) :=
  match h.toReadWriteVirtualAddress p address with
  | none => none
  | some (h', none) => some (false, h')
  | some (h', some index) => some (true, h'.store p index val)

/-- The constructor `CopyOnWriteMemoryMap(parent_)`: bounds, name and offset
are those of `parent_`. -/
def copyOnWriteOf (h : Heap) (parent : MemoryMapPtr) : MappedRange :=
  let r := h.obj parent
  newRange r.baseAddress r.limitAddress (some r.name) r.offset (.copyOnWrite (h.root parent))

/-- `Clone`. Cloning an array moves its data into a new parent object, turns
the array itself into a copy-on-write view of that parent, and clones that. -/
def clone (h : Heap) (p : MemoryMapPtr) : Heap × MemoryMapPtr :=
  let r := h.obj p
  match r.kind with
  | .invalid =>
    h.alloc (newRange r.baseAddress r.limitAddress (some r.name) r.offset .invalid)
  | .empty =>
    h.alloc (newRange r.baseAddress r.limitAddress (some r.name) r.offset .empty)
  | .array data =>
    let (h1, parent) :=
      h.alloc (newRange r.baseAddress r.limitAddress (some r.name) r.offset (.array data))
    let h2 := h1.set p (h1.copyOnWriteOf parent)
    h2.alloc (h2.copyOnWriteOf parent)
  | .copyOnWrite parent => h.alloc (h.copyOnWriteOf parent)

/-- `Copy` of `[cloneBase, cloneLimit)`. The constructor that
`CopyOnWriteMemoryMap::Copy` calls computes the new offset from
`parent->BaseAddress()`, where `parent` is the member that the base class has
not constructed yet (the argument is called `parent_`): the behaviour is
undefined. -/
def copy (h : Heap) (p : MemoryMapPtr) (cloneBase cloneLimit : Nat) :
    Option (Heap × MemoryMapPtr) :=
  let r := h.obj p
  let offset := wrap64 (r.offset + sub64 cloneBase r.baseAddress)
  match r.kind with
  | .invalid => some (h.alloc (newRange cloneBase cloneLimit (some r.name) offset .invalid))
  | .empty => some (h.alloc (newRange cloneBase cloneLimit (some r.name) offset .empty))
  | .array data =>
    (newArray cloneBase cloneLimit r.name offset (fun i =>
      if cloneBase + i < cloneLimit ∧ r.contains (cloneBase + i) then
        data (sub64 (cloneBase + i) r.baseAddress)
      else 0)).map h.alloc
  | .copyOnWrite _ => none

def invalidateCodeVersion (h : Heap) (p : MemoryMapPtr) : Heap :=
  h.set p { h.obj p with codeVersionIsValid := false }

/-- The `Size()` bytes at `data.base` of an array. -/
def arrayBytes (r : MappedRange) (data : Nat → UInt8) : List UInt8 :=
  (List.range r.size).map data

/-- `ComputeCodeVersion`: an array hashes its bytes once and keeps the result
until it is invalidated. `hash` is `Hash(data, size)`. -/
def computeCodeVersion (hash : List UInt8 → Nat) (h : Heap) (p : MemoryMapPtr) : Heap × Nat :=
  let q := h.root p
  let r := h.obj q
  match r.kind with
  | .array data =>
    if r.codeVersionIsValid then (h, r.codeVersion)
    else
      let version := hash (arrayBytes r data)
      (h.set q { r with codeVersion := version, codeVersionIsValid := true }, version)
  | _ => (h, 0)

end Heap

end Vmill
