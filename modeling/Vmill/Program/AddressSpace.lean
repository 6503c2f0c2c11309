import Vmill.Program.MappedRange
import Mathlib.Data.List.Sort
import Mathlib.Data.Vector.Defs

/-!
# Address spaces (`AddressSpace.cpp`)

A list of pointers to range objects, two page indexes built from it, two range caches in front of
them, and three page permission sets. An access loop that runs over the end of the 64-bit space need
not stop, so the loops take fuel; `kPageSteps` is one more than the number of pages.
-/

namespace Vmill

/-- What the process is started with: the width of a guest address
(`arch->address_size`), the `--version_code` flag, and `Hash`. -/
structure Config where
  addressSize : Nat
  versionCode : Bool
  hash : List UInt8 → Nat

def getAddressMask (cfg : Config) : Nat :=
  if cfg.addressSize = 32 then 0xFFFFFFFF else 2 ^ 64 - 1

def kRangeCacheSize : Nat := 256

def kRangeCacheMask : Nat := kRangeCacheSize - 1

/-- The fields of `AddressSpace`. The page sets and the set of trace heads are
their characteristic functions, the page indexes and the range caches partial
functions. -/
structure AddressSpace where
  maps : List MemoryMapPtr
  pageToMap : Nat → Option MemoryMapPtr
  wnxPageToMap : Nat → Option MemoryMapPtr
  addrMask : Nat
  invalid : MemoryMapPtr
  lastMapCache : Nat → Option MemoryMapPtr
  wnxLastMapCache : Nat → Option MemoryMapPtr
  pageIsReadable : Nat → Bool
  pageIsWritable : Nat → Bool
  pageIsExecutable : Nat → Bool
  traceHeads : Nat → Bool
  isDead : Bool

namespace AddressSpace

/-! ## Permissions and trace heads -/

def canReadAligned (s : AddressSpace) (addr : Nat) : Bool := s.pageIsReadable addr

def canWriteAligned (s : AddressSpace) (addr : Nat) : Bool := s.pageIsWritable addr

def canExecuteAligned (s : AddressSpace) (addr : Nat) : Bool := s.pageIsExecutable addr

def canRead (s : AddressSpace) (addr : Nat) : Bool :=
  s.canReadAligned (alignDownToPage (addr &&& s.addrMask))

def canWrite (s : AddressSpace) (addr : Nat) : Bool :=
  s.canWriteAligned (alignDownToPage (addr &&& s.addrMask))

def canExecute (s : AddressSpace) (addr : Nat) : Bool :=
  s.canExecuteAligned (alignDownToPage (addr &&& s.addrMask))

def markAsTraceHead (s : AddressSpace) (pc : Nat) : AddressSpace :=
  { s with traceHeads := Function.update s.traceHeads pc true }

def isMarkedTraceHead (s : AddressSpace) (pc : Nat) : Bool := s.traceHeads pc

/-! ## The page indexes -/

/-- Drop both page indexes and both caches. -/
def clearIndex (s : AddressSpace) : AddressSpace :=
  { s with
    pageToMap := fun _ => none
    wnxPageToMap := fun _ => none
    lastMapCache := fun _ => none
    wnxLastMapCache := fun _ => none }

/-- The loop body of `CreatePageToRangeMap` for one page of one range. -/
def indexPage (p : MemoryMapPtr) (s : AddressSpace) (addr : Nat) : AddressSpace :=
  let canRead := s.canReadAligned addr
  let canWrite := s.canWriteAligned addr
  let canExec := s.canExecuteAligned addr
  let s :=
    if canRead || canWrite || canExec then
      { s with pageToMap := Function.update s.pageToMap addr (some p) }
    else s
  if canWrite && !canExec then
    { s with wnxPageToMap := Function.update s.wnxPageToMap addr (some p) }
  else s

/-- The loop body of `CreatePageToRangeMap` for one range. -/
def indexRange (h : Heap) (s : AddressSpace) (p : MemoryMapPtr) : AddressSpace :=
  if h.isValid p then
    (pagesIn (h.obj p).baseAddress (h.obj p).limitAddress).foldl (indexPage p) s
  else s

def sortMaps (h : Heap) (maps : List MemoryMapPtr) : List MemoryMapPtr :=
  maps.insertionSort (fun left right => (h.obj left).baseAddress ≤ (h.obj right).baseAddress)

def createPageToRangeMap (h : Heap) (s : AddressSpace) : AddressSpace :=
  let maps := sortMaps h s.maps
  maps.foldl (indexRange h) { s.clearIndex with maps := maps }

/-! ## Lookup through the range caches -/

/-- `last_range && last_range->Contains(page_addr)`. -/
def cacheHit (h : Heap) (entry : Option MemoryMapPtr) (pageAddr : Nat) : Option MemoryMapPtr :=
  match entry with
  | some p => if (h.obj p).contains pageAddr then some p else none
  | none => none

/-- The three-level lookup that `FindRangeAligned` and `FindWNXRangeAligned`
share: the last range, the direct-mapped cache, the page index. Returns the
updated cache and the range found, or `invalid`. -/
def lookupCached (h : Heap) (cache index : Nat → Option MemoryMapPtr) (invalid : MemoryMapPtr)
    (pageAddr : Nat) : (Nat → Option MemoryMapPtr) × MemoryMapPtr :=
  match cacheHit h (cache kRangeCacheSize) pageAddr with
  | some lastRange => (cache, lastRange)
  | none =>
    let cacheIndex := (pageAddr >>> 12) &&& kRangeCacheMask
    match cacheHit h (cache cacheIndex) pageAddr with
    | some lastRange => (Function.update cache kRangeCacheSize (some lastRange), lastRange)
    | none =>
      match index pageAddr with
      | some lastRange =>
        (Function.update (Function.update cache kRangeCacheSize (some lastRange))
          cacheIndex (some lastRange), lastRange)
      | none => (cache, invalid)

def findRangeAligned (s : AddressSpace) (h : Heap) (pageAddr : Nat) :
    AddressSpace × MemoryMapPtr :=
  let (cache, p) := lookupCached h s.lastMapCache s.pageToMap s.invalid pageAddr
  ({ s with lastMapCache := cache }, p)

def findWNXRangeAligned (s : AddressSpace) (h : Heap) (pageAddr : Nat) :
    AddressSpace × MemoryMapPtr :=
  let (cache, p) := lookupCached h s.wnxLastMapCache s.wnxPageToMap s.invalid pageAddr
  ({ s with wnxLastMapCache := cache }, p)

def findRange (s : AddressSpace) (h : Heap) (addr : Nat) : AddressSpace × MemoryMapPtr :=
  s.findRangeAligned h (alignDownToPage addr)

def findWNXRange (s : AddressSpace) (h : Heap) (addr : Nat) : AddressSpace × MemoryMapPtr :=
  s.findWNXRangeAligned h (alignDownToPage addr)

/-! ## Reads -/

/-- `while (addr < next_end_addr) { if (!range.Read(addr++, out_stream++)) ... }`
for `count` bytes: the flag, and the bytes stored to the buffer. -/
def readBytes (h : Heap) (p : MemoryMapPtr) : Nat → Nat → Bool × List UInt8
  | _, 0 => (true, [])
  | addr, count + 1 =>
    let (ok, val) := h.read p addr
    if ok then
      let (ok', vals) := readBytes h p (addr + 1) count
      (ok', val :: vals)
    else (false, [val])

/-- The page loop of the sized `TryRead`. `none`: out of fuel. -/
def tryReadLoop (h : Heap) : Nat → AddressSpace → Nat → Nat → Nat →
    Option (Bool × List UInt8 × AddressSpace)
  | 0, _, _, _, _ => none
  | fuel + 1, s, pageAddr, addr, endAddr =>
    if pageAddr < endAddr then
      let (s, range) := s.findRangeAligned h pageAddr
      let pageEndAddr := wrap64 (pageAddr + kPageSize)
      let nextEndAddr := min endAddr pageEndAddr
      match readBytes h range addr (nextEndAddr - addr) with
      | (false, vals) => some (false, vals, s)
      | (true, vals) =>
        match tryReadLoop h fuel s pageEndAddr (max addr nextEndAddr) endAddr with
        | none => none
        | some (ok, vals', s') => some (ok, vals ++ vals', s')
    else some (true, [], s)

/-- `TryRead(addr, val_out, size)`: the flag, the bytes stored to `val_out`, and
the address space with its caches updated. -/
def tryRead (s : AddressSpace) (h : Heap) (addr_ size : Nat) :
    Option (Bool × List UInt8 × AddressSpace) :=
  let addr := addr_ &&& s.addrMask
  tryReadLoop h kPageSteps s (alignDownToPage addr) addr (wrap64 (addr + size))

def tryReadByte (s : AddressSpace) (h : Heap) (addr_ : Nat) : Bool × UInt8 × AddressSpace :=
  let addr := addr_ &&& s.addrMask
  let (s, range) := s.findRange h addr
  let (ok, val) := h.read range addr
  (ok, val, s)

/-- The types `MAKE_TRY_READ` and `MAKE_TRY_WRITE` are instantiated at. -/
inductive ValueType where
  | uint16
  | uint32
  | uint64
  | float
  | double
deriving DecidableEq, Repr

def ValueType.size : ValueType → Nat
  | .uint16 => 2
  | .uint32 => 4
  | .uint64 => 8
  | .float => 4
  | .double => 8

/-- The bounds test in front of both fast paths: the whole access lies in the
range, and in one page. -/
def inOnePage (r : MappedRange) (addr endAddr : Nat) : Bool :=
  decide (r.baseAddress ≤ addr) && decide (endAddr < r.limitAddress) &&
    decide (alignDownToPage addr = alignDownToPage endAddr)

/-- `MAKE_TRY_READ(type)`. The value is its object representation. -/
def tryReadTyped (type : ValueType) (s : AddressSpace) (h : Heap) (addr_ : Nat) :
    Option (Bool × List UInt8 × AddressSpace) :=
  let addr := addr_ &&& s.addrMask
  let (s, range) := s.findRange h addr
  match h.toReadOnlyVirtualAddress range addr with
  | none => some (false, [], s)
  | some ptr =>
    let endAddr := wrap64 (addr + type.size - 1)
    if inOnePage (h.obj range) addr endAddr then
      some (true, (List.range type.size).map ptr, s)
    else s.tryRead h addr type.size

def tryReadExecutable (s : AddressSpace) (h : Heap) (pc : Nat) : Bool × UInt8 × AddressSpace :=
  let addr := pc &&& s.addrMask
  let pageAddr := alignDownToPage addr
  let (s, range) := s.findRangeAligned h pageAddr
  let (ok, val) := h.read range addr
  (ok && s.canExecuteAligned pageAddr, val, s)

/-! ## Writes -/

/-- `while (addr < next_end_addr) { if (!range.Write(addr++, *in_stream++)) ... }`
for `count` bytes. The rest of the input stream is returned; reading past its
end is undefined. -/
def writeBytes (p : MemoryMapPtr) : Heap → Nat → Nat → List UInt8 →
    Option (Bool × Heap × List UInt8)
  | h, _, 0, vals => some (true, h, vals)
  | _, _, _ + 1, [] => none
  | h, addr, count + 1, val :: vals =>
    match h.write p addr val with
    | none => none
    | some (false, h') => some (false, h', vals)
    | some (true, h') => writeBytes p h' (addr + 1) count vals

/-- The code version bookkeeping of the sized `TryWrite` for one page. -/
def noteCodeWrite (cfg : Config) (s : AddressSpace) (h : Heap) (pageAddr : Nat)
    (range : MemoryMapPtr) : AddressSpace × Heap :=
  if cfg.versionCode && s.canExecuteAligned pageAddr then
    ({ s with traceHeads := fun _ => false }, h.invalidateCodeVersion range)
  else (s, h)

/-- The page loop of the sized `TryWrite`. `none`: out of fuel, or a step does
not return. -/
def tryWriteLoop (cfg : Config) : Nat → AddressSpace → Heap → Nat → Nat → Nat → List UInt8 →
    Option (Bool × AddressSpace × Heap)
  | 0, _, _, _, _, _, _ => none
  | fuel + 1, s, h, pageAddr, addr, endAddr, vals =>
    if pageAddr < endAddr then
      if s.canWriteAligned pageAddr then
        let (s, range) := s.findRangeAligned h pageAddr
        let (s, h) := noteCodeWrite cfg s h pageAddr range
        let pageEndAddr := wrap64 (pageAddr + kPageSize)
        let nextEndAddr := min endAddr pageEndAddr
        match writeBytes range h addr (nextEndAddr - addr) vals with
        | none => none
        | some (false, h, _) => some (false, s, h)
        | some (true, h, vals) =>
          tryWriteLoop cfg fuel s h pageEndAddr (max addr nextEndAddr) endAddr vals
      else some (false, s, h)
    else some (true, s, h)

def tryWrite (cfg : Config) (s : AddressSpace) (h : Heap) (addr_ : Nat) (vals : List UInt8) :
    Option (Bool × AddressSpace × Heap) :=
  let addr := addr_ &&& s.addrMask
  tryWriteLoop cfg kPageSteps s h (alignDownToPage addr) addr (wrap64 (addr + vals.length)) vals

def tryWriteByte (cfg : Config) (s : AddressSpace) (h : Heap) (addr_ : Nat) (val : UInt8) :
    Option (Bool × AddressSpace × Heap) :=
  let addr := addr_ &&& s.addrMask
  let (s, range) := s.findWNXRange h addr
  match h.write range addr val with
  | none => none
  | some (true, h) => some (true, s, h)
  | some (false, h) => s.tryWrite cfg h addr [val]

/-- `MAKE_TRY_WRITE(type)`. The value is its object representation. -/
def tryWriteTyped (cfg : Config) (type : ValueType) (s : AddressSpace) (h : Heap) (addr_ : Nat)
    (val : List.Vector UInt8 type.size) : Option (Bool × AddressSpace × Heap) :=
  let addr := addr_ &&& s.addrMask
  let (s, range) := s.findWNXRange h addr
  match h.toReadWriteVirtualAddress range addr with
  | none => none
  | some (h, none) => s.tryWrite cfg h addr val.toList
  | some (h, some index) =>
    let endAddr := wrap64 (addr + type.size - 1)
    if inOnePage (h.obj range) addr endAddr then
      some (true, s, h.storeBytes range index val.toList)
    else s.tryWrite cfg h addr val.toList

/-! ## Mapping, unmapping and protecting -/

/-- The three page sets after one iteration of the loop in `SetPermissions`. -/
def setPagePermissions (canRead canWrite canExec : Bool) (s : AddressSpace) (addr : Nat) :
    AddressSpace :=
  { s with
    pageIsReadable := Function.update s.pageIsReadable addr canRead
    pageIsWritable := Function.update s.pageIsWritable addr canWrite
    pageIsExecutable := Function.update s.pageIsExecutable addr canExec }

def setPermissions (h : Heap) (s : AddressSpace) (base_ size : Nat)
    (canRead canWrite canExec : Bool) : AddressSpace :=
  let base := alignDownToPage base_
  let limit := wrap64 (base + roundUpToPage size)
  createPageToRangeMap h
    ((pagesIn base limit).foldl (setPagePermissions canRead canWrite canExec) s)

/-- The loop body of `RemoveRange`: what is kept of one range. -/
def removeFromRange (h : Heap) (map : MemoryMapPtr) (base limit : Nat) :
    Option (Heap × List MemoryMapPtr) :=
  let mapBaseAddress := (h.obj map).baseAddress
  let mapLimitAddress := (h.obj map).limitAddress
  -- No overlap between `map` and the range to remove.
  if mapLimitAddress ≤ base ∨ mapBaseAddress ≥ limit then
    some (h, [map])
  -- `map` is fully contained in the range to remove.
  else if mapBaseAddress ≥ base ∧ mapLimitAddress ≤ limit then
    some (h, [])
  -- The range to remove is fully contained in `map`.
  else if mapBaseAddress < base ∧ mapLimitAddress > limit then
    match h.copy map mapBaseAddress base with
    | none => none
    | some (h, low) =>
      match h.copy map limit mapLimitAddress with
      | none => none
      | some (h, high) => some (h, [low, high])
  -- The range to remove is a prefix of `map`.
  else if mapBaseAddress = base then
    match h.copy map limit mapLimitAddress with
    | none => none
    | some (h, high) => some (h, [high])
  -- The range to remove is a suffix of `map`.
  else
    match h.copy map mapBaseAddress base with
    | none => none
    | some (h, low) => some (h, [low])

def removeRange (h : Heap) (ranges : List MemoryMapPtr) (base limit : Nat) :
    Option (Heap × List MemoryMapPtr) :=
  match ranges with
  | [] => some (h, [])
  | map :: rest =>
    match removeFromRange h map base limit with
    | none => none
    | some (h, kept) =>
      match removeRange h rest base limit with
      | none => none
      | some (h, keptRest) => some (h, kept ++ keptRest)

/-- The common end of `AddMap` and `RemoveMap`: `newMap` takes the place of what
`[base, limit)` overlaps, and its pages get the given permissions. -/
def replaceRange (h : Heap) (s : AddressSpace) (newMap : MemoryMapPtr) (base limit : Nat)
    (canRead canWrite canExec : Bool) : Option (AddressSpace × Heap) :=
  -- `CHECK(!maps.empty())`
  if s.maps.isEmpty then none
  else
    match removeRange h s.maps base limit with
    | none => none
    | some (h, oldRanges) =>
      some (setPermissions h { s with maps := oldRanges ++ [newMap] } base
        (sub64 limit base) canRead canWrite canExec, h)

def addMap (s : AddressSpace) (h : Heap) (base_ size : Nat) (name : Option (List UInt8))
    (offset : Nat) : Option (AddressSpace × Heap) :=
  let base := alignDownToPage base_
  let limit := min (wrap64 (base + roundUpToPage size)) s.addrMask
  if s.isDead then some (s, h)
  -- `CHECK((base & addr_mask) == base)`
  else if base &&& s.addrMask ≠ base then none
  else
    let (h, newMap) := h.create base limit name offset
    replaceRange h s newMap base limit true true false

def removeMap (s : AddressSpace) (h : Heap) (base_ size : Nat) : Option (AddressSpace × Heap) :=
  let base := alignDownToPage base_
  let limit := min (wrap64 (base + roundUpToPage size)) s.addrMask
  if s.isDead then some (s, h)
  -- `CHECK((base & addr_mask) == base)`
  else if base &&& s.addrMask ≠ base then none
  else
    let (h, newMap) := h.createInvalid base limit
    replaceRange h s newMap base limit false false false

def isMapped (s : AddressSpace) (h : Heap) (find : Nat) : Bool :=
  if s.isDead then false
  else
    match s.pageToMap (alignDownToPage find) with
    | none => false
    | some range => h.isValid range

/-! ## Free space -/

/-- The bounds of the gap `FindHole` looks at: an invalid range, or what is between a
valid range and the one below it. `none`: there is none below it. -/
def gapBelow (h : Heap) (rangeHigh : MemoryMapPtr) (rest : List MemoryMapPtr) : Option (Nat × Nat) :=
  if !h.isValid rangeHigh then
    some ((h.obj rangeHigh).limitAddress, (h.obj rangeHigh).baseAddress)
  else
    match rest with
    | [] => none
    | rangeLow :: _ => some ((h.obj rangeHigh).baseAddress, (h.obj rangeLow).limitAddress)

/-- The loop of `FindHole`, over the ranges from the last one down, with `sub` for
subtraction. `none`: a `CHECK` fails, or `sub` does. -/
def findHoleLoop (sub : Nat → Nat → Option Nat) (h : Heap) (lo hi size : Nat) :
    List MemoryMapPtr → Option (Option Nat)
  | [] => some none
  | rangeHigh :: rest =>
    match gapBelow h rangeHigh rest with
    | none => some none
    | some (highBase, lowLimit) =>
      if highBase < lo then some none
      -- `CHECK(low_limit <= high_base)`
      else if highBase < lowLimit then none
      else if lowLimit ≥ hi then findHoleLoop sub h lo hi size rest
      else
        let allocMax := min hi highBase
        let allocMin := max lo lowLimit
        match sub allocMax allocMin with
        | none => none
        | some availSize =>
          if availSize < size then findHoleLoop sub h lo hi size rest
          else
            match sub allocMax size with
            | none => none
            | some hole =>
              -- `CHECK(*hole >= alloc_min)`
              if hole ≥ allocMin then some (some hole) else none

/-- `FindHole`, with `sub` for subtraction: the hole, if there is one. -/
def findHoleWith (sub : Nat → Nat → Option Nat) (s : AddressSpace) (h : Heap)
    (min_ max_ size : Nat) : Option (Option Nat) :=
  if size = 0 then some none
  else
    let lo := alignDownToPage min_
    let hi := alignDownToPage max_
    if lo ≥ hi then some none
    else
      match sub hi lo with
      | none => none
      | some room =>
        if roundUpToPage size > room then some none
        else findHoleLoop sub h lo hi (roundUpToPage size) s.maps.reverse

def findHole (s : AddressSpace) (h : Heap) (min_ max_ size : Nat) : Option (Option Nat) :=
  s.findHoleWith (fun a b => some (sub64 a b)) h min_ max_ size

/-! ## Construction -/

def new (cfg : Config) (h : Heap) : AddressSpace × Heap :=
  let addrMask := getAddressMask cfg
  let (h, invalid) := h.createInvalid 0 addrMask
  (createPageToRangeMap h
    { maps := [invalid]
      pageToMap := fun _ => none
      wnxPageToMap := fun _ => none
      addrMask := addrMask
      invalid := invalid
      lastMapCache := fun _ => none
      wnxLastMapCache := fun _ => none
      pageIsReadable := fun _ => false
      pageIsWritable := fun _ => false
      pageIsExecutable := fun _ => false
      traceHeads := fun _ => false
      isDead := false }, h)

/-- The loop of the copy constructor over `parent.maps`: valid ranges are
cloned, invalid ones are shared. -/
def cloneMaps (h : Heap) : List MemoryMapPtr → Heap × List MemoryMapPtr
  | [] => (h, [])
  | range :: rest =>
    if h.isValid range then
      let (h, range') := h.clone range
      let (h, rest') := cloneMaps h rest
      (h, range' :: rest')
    else
      let (h, rest') := cloneMaps h rest
      (h, range :: rest')

def clone (parent : AddressSpace) (h : Heap) : AddressSpace × Heap :=
  let (h, maps) := cloneMaps h parent.maps
  (createPageToRangeMap h { parent.clearIndex with maps := maps }, h)

/-- `Kill`. The permission sets and the index of writable, non-executable pages are left as
they are. -/
def kill (s : AddressSpace) : AddressSpace :=
  { s with
    maps := []
    pageToMap := fun _ => none
    isDead := true
    lastMapCache := fun _ => none
    wnxLastMapCache := fun _ => none }

def computeCodeVersion (cfg : Config) (s : AddressSpace) (h : Heap) (pc : Nat) :
    Nat × AddressSpace × Heap :=
  if cfg.versionCode then
    let (s, range) := s.findRange h (pc &&& s.addrMask)
    let (h, version) := h.computeCodeVersion cfg.hash range
    (version, s, h)
  else (0, s, h)

end AddressSpace

end Vmill
