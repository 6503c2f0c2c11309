import Vmill.Program.Page

/-!
# Area allocators (`AreaAllocator.cpp`)

`Host` has the `mmap` calls that returned, in order, and the bytes of the address space. What `mmap`
answers is up to the host; a failed call ends the process (`none`).
-/

namespace Vmill

inductive AreaAllocationPerms where
  | rw
  | rwx
deriving DecidableEq, Repr

def k2MiB : Nat := 2097152

/-- The mappings an allocator has made, as start and size, and the bytes in memory. -/
structure Host where
  maps : List (Nat × Nat)
  bytes : Nat → UInt8

namespace Host

def fill (h : Host) (base limit : Nat) (val : UInt8) : Host :=
  { h with bytes := fun x => if base ≤ x ∧ x < limit then val else h.bytes x }

def mmap (h : Host) (addr size : Nat) : Host :=
  { h.fill addr (addr + size) 0 with maps := h.maps ++ [(addr, size)] }

end Host

def kBreakPointByte : UInt8 := 0xCC

/-- The fields of `AreaAllocator`. `base` is null before the first allocation. -/
structure AreaAllocator where
  pageSize : Nat
  preferredBase : Nat
  isExecutable : Bool
  base : Nat
  limit : Nat
  bump : Nat

namespace AreaAllocator

def new (perms : AreaAllocationPerms) (preferredBase pageSize : Nat) : AreaAllocator :=
  { pageSize := pageSize
    preferredBase := preferredBase
    isExecutable := decide (perms = .rwx)
    base := 0
    limit := 0
    bump := 0 }

/-- `(size + (page_size - 1UL)) & ~(page_size - 1UL)`. -/
def roundUp (a : AreaAllocator) (size : Nat) : Nat :=
  wrap64 (size + (a.pageSize - 1)) &&& (2 ^ 64 - 1 - (a.pageSize - 1))

/-- Map `[addr, addr + size)`, and fill it with break points if it is for code. -/
def mapPages (a : AreaAllocator) (h : Host) (addr size : Nat) : Host :=
  let h := h.mmap addr size
  if a.isExecutable then h.fill addr (addr + size) kBreakPointByte else h

def initialSize (a : AreaAllocator) (size : Nat) : Nat :=
  if size > a.pageSize then a.roundUp size else a.pageSize

/-- The initial allocation. `first` is what `mmap` returns. -/
def mapInitial (a : AreaAllocator) (h : Host) (size : Nat) (first : Option Nat) :
    Option (AreaAllocator × Host) :=
  match first with
  | none => none
  | some ret =>
    some ({ a with base := ret, bump := ret, limit := wrap64 (ret + a.initialSize size) },
      a.mapPages h ret (a.initialSize size))

def alignBump (bump align : Nat) : Nat :=
  let alignMissing := if align ≠ 0 then bump % align else 0
  if alignMissing ≠ 0 then wrap64 (bump + (align - alignMissing)) else bump

/-- How much is mapped behind the end if `missing` bytes are missing. -/
def growthSize (a : AreaAllocator) (missing : Nat) : Nat :=
  if a.roundUp missing = 0 then a.pageSize else a.roundUp missing

/-- Map more memory at the end. `grow` is what `mmap` returns; anything but the end is
fatal. -/
def mapMore (a : AreaAllocator) (h : Host) (missing : Nat) (grow : Option Nat) :
    Option (AreaAllocator × Host) :=
  match grow with
  | none => none
  | some ret =>
    if ret ≠ a.limit then none
    else
      some ({ a with limit := wrap64 (a.limit + a.growthSize missing) },
        a.mapPages h ret (a.growthSize missing))

/-- The rest of `Allocate`, once the area exists. -/
def bumpAllocate (a : AreaAllocator) (h : Host) (size align : Nat) (grow : Option Nat) :
    Option (Nat × AreaAllocator × Host) :=
  let bump := alignBump a.bump align
  match (if wrap64 (bump + size) ≥ a.limit then
      a.mapMore h (sub64 (wrap64 (bump + size)) a.limit) grow
    else some (a, h)) with
  | none => none
  | some (a, h) => some (bump, { a with bump := wrap64 (bump + size) }, h)

/-- `Allocate`: the block, and the allocator and the host afterwards. `first` and
`grow` are what `mmap` returns, if it is called. -/
def allocate (a : AreaAllocator) (h : Host) (size align : Nat) (first grow : Option Nat) :
    Option (Nat × AreaAllocator × Host) :=
  match (if a.base = 0 then a.mapInitial h size first else some (a, h)) with
  | none => none
  | some (a, h) => a.bumpAllocate h size align grow

def contains (a : AreaAllocator) (addr : Nat) : Bool :=
  decide (a.base ≤ addr) && decide (addr < a.bump)

def freeAll (a : AreaAllocator) : AreaAllocator := { a with bump := a.base }

end AreaAllocator

end Vmill
