import Mathlib.Data.Fintype.Fin
import Vmill.Base.WorkList
import Vmill.Program.AddressSpace

/-!
# The decoder (`Decoder.cpp`)

Both work lists are declared in front of both loops: what one trace leaves in `work_list`, the next
one finds there. The instruction decoder of remill and the `Hasher` are parameters (`Arch`).
-/

namespace Vmill

open Base

abbrev PC := Fin (2 ^ 64)

instance instNeZeroPC : NeZero (2 ^ 64 : Nat) := ⟨by decide⟩

inductive Category where
  | invalid
  | normal
  | noOp
  | error
  | directJump
  | indirectJump
  | directFunctionCall
  | indirectFunctionCall
  | functionReturn
  | conditionalBranch
  | asyncHyperCall
  | conditionalAsyncHyperCall
deriving DecidableEq, Repr

/-- The fields of `remill::Instruction` that the decoder uses. -/
structure Instruction where
  category : Category
  nextPc : PC
  branchTakenPc : PC
  bytes : List UInt8
deriving DecidableEq, Repr

/-- What is used of `remill::Arch` and of `Hasher`. `LazyDecodeInstruction` fills
in the instruction and says whether it succeeded; `digest` hashes some byte strings
one after another, from a seed. -/
structure Arch where
  maxInstructionSize : Nat
  lazyDecodeInstruction : PC → List UInt8 → Instruction × Bool
  digest : PC → List (List UInt8) → PC

structure TraceId where
  pc : PC
  hash : PC
deriving DecidableEq, Repr

abbrev InstructionMap := SortedMap PC Instruction

structure DecodedTrace where
  pc : PC
  codeVersion : Nat
  id : TraceId
  instructions : InstructionMap

/-- The loop of `ReadInstructionBytes`, for `count` more bytes from the `i`-th on. -/
def readInstructionBytesFrom (h : Heap) (pc : PC) : AddressSpace → Nat → Nat →
    List UInt8 × AddressSpace
  | s, _, 0 => ([], s)
  | s, i, count + 1 =>
    let bytePc := pc + Fin.ofNat (2 ^ 64) i
    let (ok, byte, s) := s.tryReadExecutable h bytePc.val
    if ok then
      let (bytes, s) := readInstructionBytesFrom h pc s (i + 1) count
      (byte :: bytes, s)
    else ([], s)

def readInstructionBytes (arch : Arch) (s : AddressSpace) (h : Heap) (pc : PC) :
    List UInt8 × AddressSpace :=
  readInstructionBytesFrom h pc s 0 arch.maxInstructionSize

/-- What `AddSuccessorsToWorkList` puts into the work list. -/
def addSuccessorsToWorkList (inst : Instruction) : List PC :=
  match inst.category with
  | .invalid | .error | .indirectJump | .functionReturn | .asyncHyperCall => []
  | .indirectFunctionCall | .directFunctionCall => [inst.nextPc]
  | .normal | .noOp | .conditionalAsyncHyperCall => [inst.nextPc]
  | .directJump => [inst.branchTakenPc]
  | .conditionalBranch => [inst.branchTakenPc, inst.nextPc]

/-- What `AddSuccessorsToTraceList` puts into the trace list. -/
def addSuccessorsToTraceList (inst : Instruction) : List PC :=
  match inst.category with
  | .directFunctionCall => if inst.branchTakenPc ≠ inst.nextPc then [inst.branchTakenPc] else []
  | _ => []

/-- `HashTraceInstructions`. The seed is computed in 64 bits. -/
def hashTraceInstructions (arch : Arch) (pc : PC) (insts : InstructionMap) : TraceId :=
  let minPc := (insts.entries.head?.map Prod.fst).getD 1
  let maxPc := (insts.entries.getLast?.map Prod.fst).getD 1
  let seed := minPc * maxPc * Fin.ofNat (2 ^ 64) insts.entries.length
  { pc := pc, hash := arch.digest seed (insts.entries.map (fun entry => entry.2.bytes)) }

/-- The variables of the inner loop. `traceList` are the entries it has put into
the list of the outer loop, which is not looked at before the inner loop is over. -/
structure TraceState where
  space : AddressSpace
  instructions : InstructionMap
  traceList : List PC

def decodeInstruction (arch : Arch) (h : Heap) (pc : PC) (st : TraceState) :
    Option (Flow TraceState PC) :=
  if st.instructions.contains pc then some (.next st [])
  else
    let (instBytes, space) := readInstructionBytes arch st.space h pc
    let (inst, decodeSuccessful) := arch.lazyDecodeInstruction pc instBytes
    let instructions := st.instructions.insert pc inst
    if !decodeSuccessful then
      some (.leave { st with space := space, instructions := instructions })
    else
      some (.next
        { space := space
          instructions := instructions
          traceList := st.traceList ++ addSuccessorsToTraceList inst }
        (addSuccessorsToWorkList inst))

/-- The variables of the outer loop, except for the trace list. -/
structure DecoderState where
  space : AddressSpace
  heap : Heap
  workList : SortedSet PC
  traces : List DecodedTrace

/-- Enough turns for a loop that puts elements back at most once for each of the
`2 ^ 64` program counters. -/
def kWorkListSteps : Nat := 2 ^ 64 + (2 ^ 64 + 1) * 2 ^ 64 + 1

def decodeTrace (cfg : Config) (arch : Arch) (tracePc : PC) (st : DecoderState) :
    Option (Flow DecoderState PC) :=
  if st.space.isMarkedTraceHead tracePc then some (.next st [])
  else
    let space := st.space.markAsTraceHead tracePc
    let workList := st.workList.insert tracePc ()
    let (codeVersion, space, heap) := space.computeCodeVersion cfg st.heap tracePc
    match drain (decodeInstruction arch heap) kWorkListSteps workList
        { space := space, instructions := .empty, traceList := [] } with
    | none => none
    | some (workList, t) =>
      let trace : DecodedTrace :=
        { pc := tracePc
          codeVersion := codeVersion
          id := hashTraceInstructions arch tracePc t.instructions
          instructions := t.instructions }
      some (.next
        { space := t.space
          heap := heap
          workList := workList
          traces := st.traces ++ [trace] }
        t.traceList)

/-- `DecodeTraces`: the traces, the address space with their entries marked, and
the heap with the code versions computed on the way. -/
def decodeTraces (cfg : Config) (arch : Arch) (s : AddressSpace) (h : Heap) (startPc : PC) :
    Option (List DecodedTrace × AddressSpace × Heap) :=
  (drain (decodeTrace cfg arch) kWorkListSteps (SortedMap.empty.insert startPc ())
    { space := s, heap := h, workList := .empty, traces := [] }).map
      (fun r => (r.2.traces, r.2.space, r.2.heap))

end Vmill
