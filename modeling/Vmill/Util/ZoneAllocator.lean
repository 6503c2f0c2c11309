import Vmill.Base.WorkList
import Vmill.Util.AreaAllocator

/-!
# Zone allocators (`ZoneAllocator.cpp`)

Blocks that are given back are kept in a free list, ordered by size; one that is more than a page
too large is split.
-/

namespace Vmill

open Base

structure ZoneAllocation where
  base : Nat
  size : Nat
deriving DecidableEq, Repr

structure ZoneAllocator where
  allocator : AreaAllocator
  freeList : SortedMap Nat (List Nat)

namespace ZoneAllocator

def new (perms : AreaAllocationPerms) (preferredBase pageSize : Nat) : ZoneAllocator :=
  { allocator := .new perms preferredBase pageSize, freeList := .empty }

/-- `Free`. The caller's allocation is reset. -/
def free (z : ZoneAllocator) (alloc : ZoneAllocation) : ZoneAllocator :=
  if alloc.base ≠ 0 then
    { z with
      freeList := z.freeList.insert alloc.size
        ((z.freeList.get? alloc.size).getD [] ++ [alloc.base]) }
  else z

/-- What `Allocate` makes of a block of `size` or more bytes from the free list. -/
def reuse (z : ZoneAllocator) (alloc : ZoneAllocation) (size : Nat) :
    ZoneAllocation × ZoneAllocator :=
  if alloc.size ≠ size then
    let diff := sub64 alloc.size size
    if diff > kPageSize then
      (⟨wrap64 (alloc.base + diff), size⟩, z.free ⟨alloc.base, diff⟩)
    else (alloc, z)
  else (alloc, z)

/-- Take the last block of the first size in the free list that is large enough. -/
def takeFree (z : ZoneAllocator) (size : Nat) : Option (ZoneAllocation × ZoneAllocator) :=
  match z.freeList.lowerBound size with
  | none => none
  | some (key, bases) =>
    match bases.getLast? with
    | none => none
    | some base =>
      some (⟨base, key⟩, { z with freeList := z.freeList.insert key bases.dropLast })

/-- The block `Allocate` finds, before it is cleared. `first` and `grow` are what
`mmap` returns, if it is called. -/
def findBlock (z : ZoneAllocator) (h : Host) (size : Nat) (first grow : Option Nat) :
    Option (ZoneAllocation × ZoneAllocator × Host) :=
  match z.takeFree size with
  | some (alloc, z) =>
    let (alloc, z) := z.reuse alloc size
    some (alloc, z, h)
  | none =>
    match z.allocator.allocate h size 64 first grow with
    | none => none
    | some (base, a, h) => some (⟨base, size⟩, { z with allocator := a }, h)

def allocate (z : ZoneAllocator) (h : Host) (size : Nat) (first grow : Option Nat) :
    Option (ZoneAllocation × ZoneAllocator × Host) :=
  match z.findBlock h size first grow with
  | none => none
  | some (alloc, z, h) => some (alloc, z, h.fill alloc.base (alloc.base + size) 0)

end ZoneAllocator

end Vmill
