import Vmill.Base.Run
import Vmill.Program.Page

/-!
# File-backed caches (`FileBackedCache.h`)

Entries of `size` bytes in a file that is mapped into memory, padded to whole pages. Of the host:
`ftruncate` fills with zeroes, and a store to a shared mapping is a store to the file; outside of
it, it kills the process. `Open` may be refused.
-/

namespace Vmill

open Base

structure Entry (size : Nat) where
  bytes : List UInt8
  length_eq : bytes.length = size
deriving DecidableEq, Repr

def ftruncate (file : List UInt8) (n : Nat) : List UInt8 :=
  file.take n ++ List.replicate (n - file.length) 0

/-- The limits of an open cache, in entries from `base`, and how many bytes of the file are
mapped at `base`. -/
structure FileBackedCache where
  numEntries : Nat
  availableNumEntries : Nat
  mappedSize : Nat
deriving DecidableEq, Repr

namespace FileBackedCache

def kMaxCacheFileSize : Nat := 64 * 2 ^ 20

/-- `Open`; `granted` says whether the host maps the file. -/
def opened (size : Nat) (granted : Bool) (file : List UInt8) : FileBackedCache × List UInt8 :=
  let fileSize := file.length
  let mappedSize := roundUpToPage fileSize
  let file := if mappedSize > fileSize then ftruncate file mappedSize else file
  if mappedSize ≠ 0 ∧ granted = false then
    -- destroy the cache
    ({ numEntries := 0 / size, availableNumEntries := 0 / size, mappedSize := 0 },
      ftruncate file 0)
  else
    ({ numEntries := fileSize / size
       availableNumEntries := mappedSize / size
       mappedSize := mappedSize }, file)

/-- `*old_soft_limit++ = entry` for each entry, from byte `offset` of the mapping on. -/
def storeEntries {size : Nat} (mappedSize : Nat) : Nat → List (Entry size) → List UInt8 →
    Option (List UInt8)
  | _, [], file => some file
  | offset, entry :: entries, file =>
    if offset + size ≤ mappedSize ∧ offset + size ≤ file.length then
      storeEntries mappedSize (offset + size) entries
        (file.take offset ++ entry.bytes ++ file.drop (offset + size))
    else none

/-- `Extend`. `none`: a `CHECK` fails, or a store does. -/
def extend {size : Nat} (c : FileBackedCache) (entries : List (Entry size)) (file : List UInt8) :
    Option (FileBackedCache × List UInt8) :=
  if entries.isEmpty then some (c, file)
  else
    let newNumEntries := wrap64 (entries.length + c.numEntries)
    let newSize := wrap64 (newNumEntries * size)
    let newHardSize := roundUpToPage newSize
    let remap := decide (newNumEntries > c.availableNumEntries)
    -- `CHECK(new_hard_size <= kMaxCacheFileSize)`
    if remap ∧ newHardSize > kMaxCacheFileSize then none
    else
      let file := if remap then ftruncate file newHardSize else file
      let c' : FileBackedCache :=
        { numEntries := newNumEntries
          availableNumEntries := newHardSize / size
          mappedSize := if remap then newHardSize else c.mappedSize }
      -- `CHECK(soft_limit <= hard_limit)`
      if c'.numEntries > c'.availableNumEntries then none
      else (storeEntries c'.mappedSize (c.numEntries * size) entries file).map (c', ·)

/-- The destructor: what is left of the file. -/
def destroyed (size : Nat) (c : FileBackedCache) (file : List UInt8) : List UInt8 :=
  if c.numEntries < c.availableNumEntries then ftruncate file (size * c.numEntries) else file

/-- The entries from `begin()` to `end()`. -/
def contents (size : Nat) (c : FileBackedCache) (file : List UInt8) : List (List UInt8) :=
  (List.range c.numEntries).map (fun i => (file.drop (i * size)).take size)

end FileBackedCache

/-- The file, and the cache that is open on it. -/
structure CacheFile where
  file : List UInt8
  cache : Option FileBackedCache
deriving DecidableEq, Repr

/-- What is done with the file. `die` is the death of the process between two calls. -/
inductive CacheOp (size : Nat) where
  | opens (granted : Bool)
  | append (entry : Entry size)
  | extend (entries : List (Entry size))
  | close
  | die

/-- What can be seen: the entries after an `Open`, and whether the host mapped the file. -/
inductive CacheOut (size : Nat) where
  | opened (granted : Bool) (seen : List (List UInt8))
  | added (entries : List (Entry size))
  | closed
  | died

namespace CacheFile

def step {size : Nat} (op : CacheOp size) (σ : CacheFile) : Option (CacheOut size × CacheFile) :=
  match op, σ.cache with
  | .opens granted, none =>
    let (c, file) := FileBackedCache.opened size granted σ.file
    some (.opened granted (c.contents size file), { file := file, cache := some c })
  | .append entry, some c =>
    (c.extend [entry] σ.file).map fun (c, file) =>
      (.added [entry], { file := file, cache := some c })
  | .extend entries, some c =>
    (c.extend entries σ.file).map fun (c, file) =>
      (.added entries, { file := file, cache := some c })
  | .close, some c => some (.closed, { file := c.destroyed size σ.file, cache := none })
  | .die, some _ => some (.died, { σ with cache := none })
  | _, _ => none

def init : CacheFile := { file := [], cache := none }

end CacheFile

def cacheFile (size : Nat) : Machine CacheFile (CacheOp size) (CacheOut size) where
  step := CacheFile.step

end Vmill
