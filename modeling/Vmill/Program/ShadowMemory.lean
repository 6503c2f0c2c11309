import Vmill.Base.Words
import Vmill.Executor.CodeCache

/-!
# Shadow memory (`Program/ShadowMemory.h`, `ShadowMemory.cpp`)

Every `2 ^ shadow_granularity` bytes have one shadow element. Those of addresses below `shadow_base`
are at and above `shadow_base`, in memory that `CatchFault` is to map when it is first touched; all
others are allocated one by one and found through a hash map. But `Get` does not install
`CatchFault`. `none`: the process is killed or aborted, or does not return.
-/

namespace Vmill

open Base

/-- A type that `At` can be used with: `bool`, or any other type. -/
inductive ShadowType where
  | bool
  | object (size align : Nat) (pos : 0 < size)
deriving DecidableEq, Repr

namespace ShadowType

/-- The types of the tools, besides `bool`: a byte, and the 8-byte taint label. -/
def byte : ShadowType := .object 1 1 (by decide)

@[inherit_doc byte]
def label : ShadowType := .object 8 8 (by decide)

/-- `sizeof(T)`; a `bool` has a byte of its own from `shadow_base` on. -/
def size : ShadowType → Nat
  | .bool => 1
  | .object size _ _ => size

/-- What `At` puts into `last_shadow_elem_size_bits`, a `uint32_t`. -/
def bits : ShadowType → Nat
  | .bool => 1
  | .object size _ _ => size * 8 % 2 ^ 32

/-- The alignment that the allocator is asked for. -/
def align : ShadowType → Nat
  | .bool => 0
  | .object _ align _ => align

end ShadowType

/-! ## The action of `SIGSEGV` -/

/-- The two functions that `Get` puts into its `struct sigaction`. -/
inductive SignalHandler where
  | catchFault
  | archSysSigreturn
deriving DecidableEq, Repr

/-- `struct sigaction`. Its members `sa_handler` and `sa_sigaction` are one union. -/
structure SigAction where
  handler : Option SignalHandler
deriving DecidableEq, Repr

namespace SigAction

/-- `act.sa_sigaction = f`. -/
def setSaSigaction (act : SigAction) (f : SignalHandler) : SigAction := { act with handler := some f }

/-- `act.sa_handler = f`. -/
def setSaHandler (act : SigAction) (f : SignalHandler) : SigAction := { act with handler := some f }

/-- What `Get` passes to `sigaction`. `sa_handler` is a macro, so that `SIGNAL_HANDLER_FIELD` is
`sa_handler` and not `sa_restorer`, and the second assignment overwrites the first. -/
def ofGet : SigAction :=
  ((⟨none⟩ : SigAction).setSaSigaction .catchFault).setSaHandler .archSysSigreturn

end SigAction

/-- The fields of `ShadowMemory`. -/
structure ShadowMemory where
  shadowGranularity : Nat
  shadowBase : Nat
  pageGranularity : Nat
  lastShadowAddress : Nat
  lastShadowElemSizeBits : Nat
  lastForcedShadowByte : UInt8
  shadowPages : List Nat
  lastShadowPageSize : Nat
  outOfRange : Nat → Option Nat
  outOfRangeAllocator : AreaAllocator
  /-- The mappings of the allocator, and the memory of the process. -/
  host : Host
  /-- The action of the process for `SIGSEGV`. -/
  action : SigAction

/-- The loop of `GreatestCommonDivisor`. -/
def greatestCommonDivisorLoop : Nat → Nat → Nat → Option Nat
  | 0, _, _ => none
  | fuel + 1, k, m =>
    if k ≠ m then
      if k > m then greatestCommonDivisorLoop fuel (k - m) m
      else greatestCommonDivisorLoop fuel k (m - k)
    else some k

/-- `GreatestCommonDivisor`. Each turn of the loop takes something away from the sum of the two,
or nothing, and then nothing will ever change (`none`). -/
def greatestCommonDivisor (k m : Nat) : Option Nat := greatestCommonDivisorLoop (k + m + 1) k m

/-- `LeastCommonMultiple`. -/
def leastCommonMultiple (k m : Nat) : Option Nat :=
  (greatestCommonDivisor k m).map fun d => wrap64 (k * m) / d

/-- Where the element of an address is: a pointer, and for a `bool` the bit. `shadowed`: the
memory is only mapped on demand. -/
structure ShadowRef where
  ptr : Nat
  bit : Nat
  shadowed : Bool
deriving DecidableEq, Repr

namespace ShadowMemory

/-- The constructor. -/
def new (shadowGranularity pageGranularity shadowBase : Nat) (bytes : ByteMem) : ShadowMemory where
  shadowGranularity := shadowGranularity
  shadowBase := shadowBase
  pageGranularity := pageGranularity
  lastShadowAddress := 0
  lastShadowElemSizeBits := 0
  lastForcedShadowByte := 0
  shadowPages := []
  lastShadowPageSize := 0
  outOfRange _ := none
  outOfRangeAllocator := .new .rw 0 4096
  host := ⟨[], bytes⟩
  action := ⟨none⟩

/-- `Get`: the action for `SIGSEGV` is changed, and the shadow memory is made. -/
def get (shadowGranularity pageGranularity shadowBase : Nat) (bytes : ByteMem) : ShadowMemory :=
  { new shadowGranularity pageGranularity shadowBase bytes with action := .ofGet }

/-- `addr >> shadow_granularity`. -/
def key (m : ShadowMemory) (addr : Nat) : Nat := addr >>> m.shadowGranularity

/-- A byte of the shadow that is mapped. -/
def mapped (m : ShadowMemory) (addr : Nat) : Bool :=
  m.shadowPages.any fun page =>
    decide (page ≤ addr) && decide (addr < page + m.lastShadowPageSize)

/-- The number of bytes of shadow for a page, at least 4096. -/
def shadowPageSize (m : ShadowMemory) : Option Nat :=
  let pageSize := wrap64 (2 ^ m.pageGranularity)
  leastCommonMultiple
    (wrap64 ((pageSize >>> m.shadowGranularity) * m.lastShadowElemSizeBits) / 8) 4096

/-- `mmap` of a page of the shadow, which succeeds if the page is aligned. -/
def mapShadowPage (m : ShadowMemory) (page size : Nat) : ShadowMemory :=
  { m with
    shadowPages := m.shadowPages ++ [page]
    lastShadowPageSize := size
    host := m.host.fill page (page + size) 0 }

/-- `shadow_page`: the page of the shadow that has the byte `addr`, for pages of `size` bytes. -/
def shadowPage (m : ShadowMemory) (addr size : Nat) : Nat :=
  wrap64 (sub64 addr m.shadowBase / size * size + m.shadowBase)

/-- The condition of the `CHECK` in `AddPageForAddress`. -/
def InPage (page size addr : Nat) : Prop := page ≤ addr ∧ addr < wrap64 (page + size)
deriving Decidable

/-- `AddPageForAddress`. -/
def addPageForAddress (m : ShadowMemory) (addr : Nat) : Option (Bool × ShadowMemory) :=
  if addr ≠ m.lastShadowAddress then some (false, m)
  else
    match m.shadowPageSize with
    | none => none
    | some size =>
      if m.lastShadowPageSize ≠ 0 ∧ m.lastShadowPageSize ≠ size then none
      else
        let page := m.shadowPage addr size
        if ¬ InPage page size addr then none
        else if page % 4096 ≠ 0 then none
        else some (true, m.mapShadowPage page size)

/-- `CatchFault`, with no handler for `SIGSEGV` before it: the page is added, or the process is
aborted. -/
def catchFault (m : ShadowMemory) (addr : Nat) : Option ShadowMemory :=
  match m.addPageForAddress addr with
  | some (true, m) => some m
  | some (false, _) | none => none

/-- An access to a byte of the shadow. If it faults, the handler for `SIGSEGV` is called and the
access is made again. `arch_sys_sigreturn` is not a handler: called as one it makes `rt_sigreturn`
restore the registers from a word below the frame of the signal, and the process is killed. -/
def touch (m : ShadowMemory) (addr : Nat) : Option ShadowMemory :=
  if m.mapped addr then some m
  else
    match m.action.handler with
    | some .catchFault => m.catchFault addr
    | some .archSysSigreturn | none => none

/-- An access to more bytes, from the first one on. -/
def touchAll (m : ShadowMemory) (addr : Nat) : Nat → Option ShadowMemory
  | 0 => some m
  | n + 1 =>
    match m.touch addr with
    | none => none
    | some m => m.touchAll (addr + 1) n

/-- What `At<T>` keeps of an address below `shadow_base` for `AddPageForAddress`. -/
def setLast (m : ShadowMemory) (T : ShadowType) (addr : Nat) : ShadowMemory :=
  { m with
    lastShadowAddress := wrap64 (m.key addr + m.shadowBase)
    lastShadowElemSizeBits := T.bits }

/-- `At<T>(addr)`. The first byte of an element below `shadow_base` is read; from `shadow_base` on
the element is allocated, and zero, when it is first asked for. -/
def at' (m : ShadowMemory) (T : ShadowType) (addr : Nat) (answers : MapAnswers) :
    Option (ShadowRef × ShadowMemory) :=
  if addr < m.shadowBase then
    let m := m.setLast T addr
    let last := m.lastShadowAddress
    match m.touch last with
    | none => none
    | some m =>
      some (⟨last, last % 8, true⟩, { m with lastForcedShadowByte := m.host.bytes last })
  else
    match m.outOfRange (m.key addr) with
    | some ptr => some (⟨ptr, 0, false⟩, m)
    | none =>
      match m.outOfRangeAllocator.allocate m.host T.size T.align answers.first answers.grow with
      | none => none
      | some (ptr, a, h) =>
        some (⟨ptr, 0, false⟩,
          { m with
            outOfRange := Function.update m.outOfRange (m.key addr) (some ptr)
            outOfRangeAllocator := a
            host := { h with bytes := store h.bytes ptr T.size 0 } })

end ShadowMemory

namespace ShadowType

/-- `test_mask` of a `BoolRef`. -/
def testMask (bit : Nat) : UInt8 := UInt8.ofNat (2 ^ bit)

/-- The value of an element in memory; a `bool` is 0 or 1. -/
def read (T : ShadowType) (bytes : ByteMem) (ptr bit : Nat) : Nat :=
  match T with
  | .bool => if bytes ptr &&& testMask bit ≠ 0 then 1 else 0
  | .object size _ _ => load bytes ptr size

/-- An assignment through the reference; for a `bool`, `operator=` of `BoolRef`. -/
def write (T : ShadowType) (bytes : ByteMem) (ptr bit val : Nat) : ByteMem :=
  match T with
  | .bool =>
    let cache := decide (bytes ptr &&& testMask bit ≠ 0)
    let that := decide (val ≠ 0)
    if that ≠ cache then
      if that then Function.update bytes ptr (bytes ptr ||| testMask bit)
      else Function.update bytes ptr (bytes ptr ^^^ testMask bit)
    else bytes
  | .object size _ _ => store bytes ptr size val

/-- The value as one of the type. -/
def convert (T : ShadowType) (val : Nat) : Nat :=
  match T with
  | .bool => if val ≠ 0 then 1 else 0
  | .object size _ _ => val % 256 ^ size

end ShadowType

namespace ShadowMemory

/-- An access to all bytes of a referenced element. -/
def access (m : ShadowMemory) (T : ShadowType) (ref : ShadowRef) : Option ShadowMemory :=
  if ref.shadowed then m.touchAll ref.ptr T.size else some m

/-- `At<T>(addr)`, with an access through it. -/
def element (m : ShadowMemory) (T : ShadowType) (addr : Nat) (answers : MapAnswers) :
    Option (ShadowRef × ShadowMemory) :=
  match m.at' T addr answers with
  | none => none
  | some (ref, m) => (m.access T ref).map fun m => (ref, m)

/-- The value of `At<T>(addr)`. -/
def load (m : ShadowMemory) (T : ShadowType) (addr : Nat) (answers : MapAnswers) :
    Option (Nat × ShadowMemory) :=
  (m.element T addr answers).map fun (ref, m) => (T.read m.host.bytes ref.ptr ref.bit, m)

/-- Store a value through a reference. -/
def assign (m : ShadowMemory) (T : ShadowType) (ref : ShadowRef) (val : Nat) : ShadowMemory :=
  { m with host := { m.host with bytes := T.write m.host.bytes ref.ptr ref.bit val } }

/-- `At<T>(addr) = val`. -/
def store (m : ShadowMemory) (T : ShadowType) (addr val : Nat) (answers : MapAnswers) :
    Option ShadowMemory :=
  (m.element T addr answers).map fun (ref, m) => m.assign T ref val

end ShadowMemory

/-- The shadow with the defaults of `Get`, in a memory that is not zero. -/
def defaultShadow : ShadowMemory := .get 0 12 0x100000000000 fun _ => 7

/-- What a tool does with the elements of its type. -/
inductive ShadowOp where
  | load (addr : Nat) (answers : MapAnswers)
  | store (addr val : Nat) (answers : MapAnswers)
deriving DecidableEq, Repr

namespace ShadowOp

/-- The address that is asked for. -/
def addr : ShadowOp → Nat
  | .load addr _ | .store addr _ _ => addr

/-- What `mmap` answers, if the element has to be allocated. -/
def answers : ShadowOp → MapAnswers
  | .load _ answers | .store _ _ answers => answers

end ShadowOp

/-- The machine of a shadow memory with elements of one type; the output is what is read. -/
def shadowMemory (T : ShadowType) : Machine ShadowMemory ShadowOp (Option Nat) where
  step op m :=
    match op with
    | .load addr answers => (m.load T addr answers).map fun r => (some r.1, r.2)
    | .store addr val answers => (m.store T addr val answers).map fun m => (none, m)

/-- What can happen to the pages of the shadow: a call of `At` for any type, an access of the
program to any byte, such as one through a reference it has got, or a call of
`AddPageForAddress`. -/
inductive ShadowCall where
  | call (T : ShadowType) (addr : Nat) (answers : MapAnswers)
  | touch (addr : Nat)
  | addPage (addr : Nat)
deriving DecidableEq, Repr

/-- The machine of the pages of the shadow; the output is the result of `At`. -/
def shadowCalls : Machine ShadowMemory ShadowCall (Option ShadowRef) where
  step call m :=
    match call with
    | .call T addr answers => (m.at' T addr answers).map fun r => (some r.1, r.2)
    | .touch addr => (m.touch addr).map fun m => (none, m)
    | .addPage addr => (m.addPageForAddress addr).map fun r => (none, r.2)

end Vmill
