import Vmill.Program.World
import Vmill.Runtime.Memory

/-!
# `mmap` with asynchronous I/O (`Runtime/Linux/MM.cpp`, `Executor/AsyncIO.cpp`)

`SysMmap` copies the file into fresh memory through the static `gIOBuffer`, which a thread of a pool
fills while the task is paused. A call is cut at its reads: `mmapCall` is the part before the first
one, and with `poll` a task comes to look at its read. The answers of `lseek` and `read` are given
with each step. `args` is `none` if `TryGetArgs` fails.
-/

namespace Vmill

open Base

inductive Errno where
  | efault
  | einval
  | eacces
  | ebadfd
  | eoverflow
  | enomem
  | host (code : Nat)
deriving DecidableEq, Repr

/-! ## Arguments -/

def kMmapMinAddr : Nat := 65536
def k4GiB : Nat := 4 * 2 ^ 30

def kAllocMax (cfg : Config) : Nat := if cfg.addressSize = 64 then 2 ^ 47 else 0xf7000000

def kIOBufferSize : Nat := 4096 * 4

def protRead : Nat := 1
def protWrite : Nat := 2
def protExec : Nat := 4
def mapShared : Nat := 1
def mapPrivate : Nat := 2
def mapFixed : Nat := 0x10
def mapAnonymous : Nat := 0x20
def map32Bit : Nat := 0x40
def mapGrowsDown : Nat := 0x100
def mapStack : Nat := 0x20000

def hasFlag (flags flag : Nat) : Bool := decide (flags &&& flag ≠ 0)

def offT (n : Int) : Int := Int.bmod n (2 ^ 64)

structure MmapArgs where
  addr : Nat
  size : Nat
  prot : Nat
  flags : Nat
  fd : Int
  offset : Int
deriving DecidableEq, Repr

/-- Where a request is mapped: page-aligned bounds, and the offset in the file. -/
structure MmapPlace where
  addr : Nat
  size : Nat
  offset : Int
deriving DecidableEq, Repr

/-- The checks on the file descriptor and the offset. -/
def checkFile (fd offset : Int) (size : Nat) : Except Errno Unit :=
  if fd = -1 then .ok ()
  else if fd = 0 ∨ fd = 1 ∨ fd = 2 then .error .eacces
  else if fd < -1 then .error .ebadfd
  else if offset < 0 ∨ offset % 4096 ≠ 0 then .error .einval
  -- signed overflow
  else if offset > offT (offset + offT size) then .error .eoverflow
  else .ok ()

/-- The checks on the flags. `MAP_GROWSUP` is 0 here, and a shared mapping is taken for a
private one. -/
def checkFlags (flags : Nat) (fd : Int) : Except Errno Unit :=
  if hasFlag flags mapGrowsDown then .error .einval
  else if !hasFlag flags mapShared && !hasFlag flags mapPrivate then .error .einval
  else if 0 ≤ fd ∧ hasFlag flags mapAnonymous then .error .einval
  else .ok ()

/-- The address that `MAP_FIXED` asks for; 0 without it. -/
def hintedAddress (mask maxAddr : Nat) (flags addr size : Nat) : Except Errno Nat :=
  if hasFlag flags mapFixed then
    let addr := alignDownToPage addr
    if addr = 0 then .error .einval
    else
      let addr := max addr kMmapMinAddr
      -- `addr_t` wraps around
      if (addr + size) &&& mask > maxAddr then .error .enomem else .ok addr
  else .ok 0

def maxAddress (cfg : Config) (flags : Nat) : Nat :=
  if cfg.addressSize = 64 ∧ hasFlag flags map32Bit then k4GiB else kAllocMax cfg

/-- The hint in the arguments; one above `MAP_32BIT`'s limit is dropped. -/
def hint (cfg : Config) (args : MmapArgs) : Nat :=
  if cfg.addressSize = 64 ∧ hasFlag args.flags map32Bit ∧ args.addr ≥ k4GiB then 0 else args.addr

/-- `SysMmap` up to the choice of the address. `none`: `FindHole` does not return. -/
def mmapPlace (cfg : Config) (s : AddressSpace) (h : Heap) (args : MmapArgs) (offsetScale : Nat) :
    Option (Except Errno MmapPlace) :=
  let offset := offT (args.offset * offsetScale)
  let size := roundUpToPage args.size &&& s.addrMask
  let maxAddr := maxAddress cfg args.flags
  if size = 0 then some (.error .einval)
  else
    match checkFile args.fd offset size with
    | .error e => some (.error e)
    | .ok () =>
      match checkFlags args.flags args.fd with
      | .error e => some (.error e)
      | .ok () =>
        match hintedAddress s.addrMask maxAddr args.flags (hint cfg args) size with
        | .error e => some (.error e)
        | .ok 0 =>
          -- `__vmill_find_unmapped_address` returns 0 for no hole
          match s.findHole h kMmapMinAddr maxAddr size with
          | none => none
          | some none | some (some 0) => some (.error .enomem)
          | some (some hole) => some (.ok ⟨hole, size, offset⟩)
        | .ok addr => some (.ok ⟨addr, size, offset⟩)

/-- The name of the mapping: that of the file, if there is one. -/
def mappingName (args : MmapArgs) (fileName : Option (List UInt8)) : Option (List UInt8) :=
  let name := if 0 ≤ args.fd then fileName else none
  if name.isNone && hasFlag args.flags mapStack then
    some ("[stack]".toList.map fun c => UInt8.ofNat c.toNat)
  else name

/-! ## Files -/

abbrev Offsets := Int → Int

/-- `lseek`, which fails if the host answers with an error. -/
def lseek (offsets : Offsets) (fd pos : Int) (answer : Option Nat) : Offsets :=
  match answer with
  | none => Function.update offsets fd pos
  | some _ => offsets

/-- The host's answers to the seeks before the mapping. -/
structure SeekAnswers where
  current : Option Nat
  toEnd : Option Nat
  toStart : Option Nat
  reset : Option Nat
deriving DecidableEq, Repr

/-- The seeks before the mapping: the old position. -/
def seekTo (offsets : Offsets) (fd : Int) (place : MmapPlace) (answers : SeekAnswers) :
    Except Errno Int × Offsets :=
  match answers.current with
  | some e => (.error (.host e), offsets)
  | none =>
    let old := offsets fd
    -- an error of this seek is put in the return register, which is written again later
    let offsets := lseek offsets fd (place.offset + place.size) answers.toEnd
    match answers.toStart with
    | some e => (.error (.host e), lseek offsets fd old answers.reset)
    | none => (.ok old, lseek offsets fd place.offset none)

/-! ## The state of a call -/

/-- A `read` on the pool: what it has delivered so far, or how it ended. -/
inductive ReadState where
  | running (got : List UInt8)
  | ended (result : Except Errno (List UInt8))

/-- A `SysMmap` that waits for a `read`. -/
structure MmapCall where
  addr : Nat
  size : Nat
  prot : Nat
  fd : Int
  oldOffset : Int
  /-- How much has been copied, and how much may still be. -/
  i : Nat
  remaining : Nat
  read : ReadState
  paused : Bool

/-- How much the `read` asks for. -/
def MmapCall.requested (c : MmapCall) : Nat := min c.remaining kIOBufferSize

/-- A task, its address space, and the call it is in. -/
structure MmapTask where
  task : Task
  space : Nat
  call : Option MmapCall

structure MmapState where
  world : World
  ioBuffer : List UInt8
  offsets : Offsets
  tasks : List MmapTask

def MmapState.init (w : World) (offsets : Offsets) (tasks : List (Task × Nat)) : MmapState where
  world := w
  ioBuffer := List.replicate (kIOBufferSize + 1) 0
  offsets := offsets
  tasks := tasks.map fun (task, space) => ⟨task, space, none⟩

inductive MmapOp where
  | call (t : Nat) (args : Option MmapArgs) (offsetScale : Nat) (name : Option (List UInt8))
      (answers : SeekAnswers)
  /-- The thread of the pool that reads for the task delivers bytes. -/
  | deliver (t : Nat) (bytes : List UInt8)
  /-- Its `read` returns what was delivered, or fails. -/
  | readEnds (t : Nat)
  | readFails (t : Nat) (errno : Nat)
  | poll (t : Nat) (reset : Option Nat)

/-- What can be seen. A call that returns an address shows the address space as it is
then. -/
inductive MmapOut where
  | failed (t : Nat) (errno : Errno)
  | mapped (t addr size : Nat) (s : AddressSpace) (h : Heap)
  | reading (t : Nat)
  | delivered (t : Nat)
  | read (t : Nat) (bytes : List UInt8)
  | readFailed (t : Nat)
  | paused (t : Nat)

namespace MmapState

def setTask (σ : MmapState) (t : Nat) (task : MmapTask) (call : Option MmapCall) : MmapState :=
  { σ with tasks := σ.tasks.set t { task with call := call } }

/-- The end of `SysMmap`: the permissions, if they are not the default ones. -/
def protect (cfg : Config) (w : World) (space addr size prot : Nat) : Option World :=
  let canRead := hasFlag prot protRead
  let canWrite := hasFlag prot protWrite
  let canExec := hasFlag prot protExec
  if canExec || !canRead || !canWrite then
    (World.step cfg (.setPermissions space addr size canRead canWrite canExec) w).map Prod.snd
  else some w

def succeed (cfg : Config) (σ : MmapState) (t : Nat) (task : MmapTask) (addr size prot : Nat) :
    Option (MmapOut × MmapState) :=
  match protect cfg σ.world task.space addr size prot with
  | none => none
  | some w =>
    match w.spaces[task.space]? with
    | none => none
    | some s =>
      some (.mapped t addr size s w.heap,
        { σ with world := w }.setTask t task none)

/-- `__vmill_allocate_memory`, and then the first `read` of a file-backed mapping. -/
def mapMemory (cfg : Config) (σ : MmapState) (t : Nat) (task : MmapTask) (args : MmapArgs)
    (place : MmapPlace) (name : Option (List UInt8)) (oldOffset : Int) :
    Option (MmapOut × MmapState) :=
  let fileOffset := if 0 ≤ args.fd then place.offset.toNat else 0
  let name := mappingName args name
  match World.step cfg (.addMap task.space place.addr place.size name fileOffset) σ.world with
  | none => none
  | some (_, w) =>
    let σ := { σ with world := w }
    if 0 ≤ args.fd then
      let c : MmapCall :=
        { addr := place.addr, size := place.size, prot := args.prot, fd := args.fd
          oldOffset := oldOffset, i := 0, remaining := place.size, read := .running []
          paused := false }
      some (.reading t, σ.setTask t task (some c))
    else succeed cfg σ t task place.addr place.size args.prot

/-- `SysMmap` up to its first `read`. -/
def mmapCall (cfg : Config) (σ : MmapState) (t : Nat) (task : MmapTask) (args : MmapArgs)
    (offsetScale : Nat) (name : Option (List UInt8)) (answers : SeekAnswers) :
    Option (MmapOut × MmapState) :=
  match σ.world.spaces[task.space]? with
  | none => none
  | some s =>
    match mmapPlace cfg s σ.world.heap args offsetScale with
    | none => none
    | some (.error e) => some (.failed t e, σ)
    | some (.ok place) =>
      if 0 ≤ args.fd then
        match seekTo σ.offsets args.fd place answers with
        | (.error e, offsets) => some (.failed t e, { σ with offsets := offsets })
        | (.ok old, offsets) =>
          mapMemory cfg { σ with offsets := offsets } t task args place name old
      else mapMemory cfg σ t task args place name 0

def copyBlock (cfg : Config) (w : World) (task : MmapTask) (addr : Nat) (data : List UInt8) :
    Option (Task × World) :=
  match w.spaces[task.space]? with
  | none => none
  | some s =>
    match Guest.copyToMemory cfg ⟨some task.task, s, w.heap⟩ addr data with
    | none => none
    | some g => some (g.task.getD task.task, w.put task.space g.space g.heap)

def afterRead (cfg : Config) (σ : MmapState) (t : Nat) (task : MmapTask) (c : MmapCall)
    (result : Except Errno (List UInt8)) (reset : Option Nat) : Option (MmapOut × MmapState) :=
  match result with
  | .error e =>
    let σ := { σ with offsets := lseek σ.offsets c.fd c.oldOffset reset }
    match World.step cfg (.removeMap task.space c.addr c.size) σ.world with
    | none => none
    | some (_, w) =>
      some (.failed t e, { σ with world := w }.setTask t task none)
  -- the end of the file
  | .ok [] =>
    succeed cfg { σ with offsets := lseek σ.offsets c.fd c.oldOffset reset } t task c.addr
      c.size c.prot
  | .ok bytes =>
    let n := bytes.length
    match copyBlock cfg σ.world task (c.addr + c.i) (σ.ioBuffer.take n) with
    | none => none
    | some (t', w) =>
      let σ := { σ with world := w }
      let task := { task with task := t' }
      if c.remaining - n = 0 then
        succeed cfg { σ with offsets := lseek σ.offsets c.fd c.oldOffset reset } t task
          c.addr c.size c.prot
      else
        let c := { c with i := c.i + n, remaining := c.remaining - n, read := .running []
                          paused := false }
        some (.reading t, σ.setTask t task (some c))

/-- A round of the loop of `run_func`, after `Resume` if the task was paused. -/
def poll (cfg : Config) (σ : MmapState) (t : Nat) (task : MmapTask) (c : MmapCall)
    (reset : Option Nat) : Option (MmapOut × MmapState) :=
  let task := if c.paused then { task with task := task.task.resume } else task
  match c.read with
  | .running _ =>
    some (.paused t, σ.setTask t { task with task := task.task.pause }
      (some { c with paused := true }))
  | .ended result => afterRead cfg σ t task c result reset

/-- A step of a task that is in a call, or of the thread that reads for it. -/
def inCall (σ : MmapState) (t : Nat)
    (act : MmapTask → MmapCall → Option (MmapOut × MmapState)) : Option (MmapOut × MmapState) :=
  match σ.tasks[t]? with
  | some task =>
    match task.call with
    | some c => act task c
    | none => none
  | none => none

/-- The thread of the pool writes bytes into `gIOBuffer`, after those it wrote before. -/
def deliver (σ : MmapState) (t : Nat) (bytes : List UInt8) (task : MmapTask) (c : MmapCall) :
    Option (MmapOut × MmapState) :=
  match c.read with
  | .running got =>
    let n := got.length
    if n + bytes.length ≤ c.requested then
      let σ' := { σ with
        ioBuffer := σ.ioBuffer.take n ++ bytes ++ σ.ioBuffer.drop (n + bytes.length)
        offsets := Function.update σ.offsets c.fd (σ.offsets c.fd + bytes.length) }
      some (.delivered t, σ'.setTask t task (some { c with read := .running (got ++ bytes) }))
    else none
  | .ended _ => none

/-- The `read` on the pool returns. -/
def readEnds (σ : MmapState) (t : Nat) (task : MmapTask) (c : MmapCall) :
    Option (MmapOut × MmapState) :=
  match c.read with
  | .running got =>
    some (.read t got, σ.setTask t task (some { c with read := .ended (.ok got) }))
  | .ended _ => none

/-- The `read` on the pool fails; it has delivered nothing. -/
def readFails (σ : MmapState) (t errno : Nat) (task : MmapTask) (c : MmapCall) :
    Option (MmapOut × MmapState) :=
  match c.read with
  | .running [] =>
    some (.readFailed t, σ.setTask t task (some { c with read := .ended (.error (.host errno)) }))
  | _ => none

def step (cfg : Config) (op : MmapOp) (σ : MmapState) : Option (MmapOut × MmapState) :=
  match op with
  | .call t args offsetScale name answers =>
    match σ.tasks[t]? with
    | some ⟨task, space, none⟩ =>
      match args with
      | none => some (.failed t .efault, σ)
      | some args => mmapCall cfg σ t ⟨task, space, none⟩ args offsetScale name answers
    | _ => none
  | .deliver t bytes => σ.inCall t (σ.deliver t bytes)
  | .readEnds t => σ.inCall t (σ.readEnds t)
  | .readFails t errno => σ.inCall t (σ.readFails t errno)
  | .poll t reset => σ.inCall t fun task c => poll cfg σ t task c reset

end MmapState

/-- The machine of tasks that make `mmap` calls, and of the threads that read for them. -/
def mmaps (cfg : Config) : Machine MmapState MmapOp MmapOut where
  step := MmapState.step cfg

end Vmill
