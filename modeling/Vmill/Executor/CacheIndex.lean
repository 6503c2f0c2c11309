import Vmill.Arch.Decoder
import Vmill.Base.Overwrite
import Vmill.Base.Words
import Vmill.Executor.CodeCache

/-!
# The index of the code cache (`Executor/CodeCache.cpp`)

An index section (`.vindex`) says which trace is implemented by which function, a constructor
section (`.vctors`) which functions are to be run. The pending ranges are in an unordered map, so
their order is given with the call. Of what is logged, only `error_message` is kept.
-/

namespace Vmill

open Base

structure CacheIndexEntry where
  traceId : TraceId
  liftedFunction : Nat
deriving DecidableEq, Repr

/-- `sizeof(CacheIndexEntry)`, which is packed. -/
def cacheIndexEntrySize : Nat := 24

/-- `sizeof(Constructor)`: a 32-bit priority, padding and two pointers. -/
def constructorSize : Nat := 24

def CacheIndexEntry.read (bytes : ByteMem) (addr : Nat) : CacheIndexEntry where
  traceId :=
    { pc := Fin.ofNat (2 ^ 64) (load bytes addr 8)
      hash := Fin.ofNat (2 ^ 64) (load bytes (addr + 8) 8) }
  liftedFunction := load bytes (addr + 16) 8

/-- The entries of a section, from `range.base` to `limit`. -/
def MemoryMap.indexEntries (range : MemoryMap) (bytes : ByteMem) : List CacheIndexEntry :=
  (List.range (range.size / cacheIndexEntrySize)).map fun i =>
    .read bytes (range.base + cacheIndexEntrySize * i)

def MemoryMap.constructorFuncs (range : MemoryMap) (bytes : ByteMem) : List Nat :=
  (List.range (range.size / constructorSize)).map fun i =>
    load bytes (range.base + constructorSize * i + 8) 8

/-- The code cache with what it has loaded. `lifted_functions` and `jit_ranges` are maps; a
null function is 0. -/
structure LoadedCache extends CodeCache where
  jitRanges : Nat → Option MemoryMap
  liftedFunctions : TraceId → Option Nat
  constructors : List Nat

/-- `*error_message`, where there is one. -/
abbrev ErrorMessage := Option String

def notManaged : String :=
  "Lifted function address is not managed by the code cache allocator."

namespace LoadedCache

def new (bytes : ByteMem) : LoadedCache where
  toCodeCache := .new bytes
  jitRanges _ := none
  liftedFunctions _ := none
  constructors := []

/-- The body of the loop of `LoadIndex`, and whether the entry was good. -/
def loadEntry (c : LoadedCache) (entry : CacheIndexEntry) (error : ErrorMessage) :
    Bool × ErrorMessage × LoadedCache :=
  if entry.traceId.pc = 0 then (true, error, c)
  else if !(c.allocator .code).contains entry.liftedFunction then
    (false, error.map fun _ => notManaged, c)
  else
    -- `lifted_functions[base->trace_id]` inserts a null pointer if there is no entry yet
    let liftedFunc := (c.liftedFunctions entry.traceId).getD 0
    let lifted := if liftedFunc ≠ 0 then liftedFunc else entry.liftedFunction
    (true, error,
      { c with liftedFunctions := Function.update c.liftedFunctions entry.traceId (some lifted) })

def loadEntries (c : LoadedCache) (allGood : Bool) (error : ErrorMessage) :
    List CacheIndexEntry → Bool × ErrorMessage × LoadedCache
  | [] => (allGood, error, c)
  | entry :: entries =>
    let (good, error, c) := c.loadEntry entry error
    c.loadEntries (allGood && good) error entries

def loadIndex (c : LoadedCache) (range : MemoryMap) (error : ErrorMessage) :
    Bool × ErrorMessage × LoadedCache :=
  c.loadEntries true error (range.indexEntries c.bytes)

def loadConstructors (c : LoadedCache) (range : MemoryMap) : LoadedCache :=
  { c with
    constructors := c.constructors ++ (range.constructorFuncs c.bytes).filter (· ≠ 0) }

/-- The body of the loop of `finalizeMemory`. -/
def finalizeRange (c : LoadedCache) (allGood : Bool) (error : ErrorMessage) (range : MemoryMap) :
    Bool × ErrorMessage × LoadedCache :=
  let c := { c with jitRanges := Function.update c.jitRanges range.base (some range) }
  if range.isCtors then (allGood, error, c.loadConstructors range)
  else if range.isIndex then
    let (good, error, c) := c.loadIndex range error
    (good || allGood, error, c)
  else (allGood, error, c)

def finalizeRanges (c : LoadedCache) (allGood : Bool) (error : ErrorMessage) :
    List MemoryMap → Bool × ErrorMessage × LoadedCache
  | [] => (allGood, error, c)
  | range :: ranges =>
    let (allGood, error, c) := c.finalizeRange allGood error range
    c.finalizeRanges allGood error ranges

/-- `finalizeMemory`. The pending ranges are met in the order of the list of section ids. -/
def finalizeMemory (c : LoadedCache) (order : List Nat) (error : ErrorMessage) :
    Bool × ErrorMessage × LoadedCache :=
  let (allGood, error, c) := c.finalizeRanges true error (order.filterMap c.pendingJitRanges)
  (allGood, error, { c with pendingJitRanges := fun _ => none })

/-- `Lookup`; 0 is a null pointer. -/
def lookup (c : LoadedCache) (traceId : TraceId) : Nat :=
  match c.liftedFunctions traceId with
  | none => 0
  | some liftedFunction => liftedFunction

end LoadedCache

/-- What happens to the cache: a section is placed, the linker (or anybody else) writes to
memory, or the module is finalized. -/
inductive LoadOp where
  | place (op : SectionOp)
  | link (addr : Nat) (vals : List UInt8)
  | finalize (order : List Nat) (error : ErrorMessage)
deriving DecidableEq, Repr

structure SeenEntry where
  entry : CacheIndexEntry
  base : Nat
  bump : Nat
deriving DecidableEq, Repr

/-- The entries that `finalizeMemory` meets. -/
def LoadedCache.meets (c : LoadedCache) (order : List Nat) : List SeenEntry :=
  (order.filterMap c.pendingJitRanges).flatMap fun range =>
    if !range.isCtors && range.isIndex then
      (range.indexEntries c.bytes).map fun entry =>
        ⟨entry, (c.allocator .code).base, (c.allocator .code).bump⟩
    else []

/-- The machine of the code cache; the output of a step are the entries it meets. -/
def loadedCache : Machine LoadedCache LoadOp (List SeenEntry) where
  step op c :=
    match op with
    | .place op =>
      match codeCache.step op c.toCodeCache with
      | none => none
      | some (_, c') => some ([], { c with toCodeCache := c' })
    | .link addr vals => some ([], { c with bytes := overwrite c.bytes addr vals })
    | .finalize order error => some (c.meets order, (c.finalizeMemory order error).2.2)

end Vmill
