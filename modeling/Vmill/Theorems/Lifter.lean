import Vmill.Logic.Lifter
import Vmill.Theorems.Traces

/-!
# The decoder and the lifter agree on control flow

They agree on all categories of instructions but the conditional asynchronous hyper calls, for which
the decoder takes the next instruction only, and the lifter branches.
-/

namespace Vmill

open Base AddressSpace

namespace Lifter

variable {plan : Plan} {tail : List IR} {inst : Instruction} {b : Nat} {e : PC × Instruction}

/-- The blocks that a block branches to. -/
def branchTargets (body : List IR) : List Nat :=
  match terminator? body with
  | some (.br target) => [target]
  | some (.condBr _ ifTrue ifFalse) => [ifTrue, ifFalse]
  | some .ret | none => []

/-- A call to the next instruction. -/
def callsNext (inst : Instruction) : Prop :=
  inst.category = .directFunctionCall ∧ inst.branchTakenPc = inst.nextPc
deriving Decidable

/-- Any other call. -/
def callsAway (inst : Instruction) : Prop :=
  inst.category = .directFunctionCall ∧ inst.branchTakenPc ≠ inst.nextPc ∨
    inst.category = .indirectFunctionCall
deriving Decidable

/-- The lifted function has the control flow that the decoder found. -/
structure Agrees (L : Lifter) (trace : DecodedTrace) (f : LiftedCode) : Prop where
  blocks : ∀ pc, (∃ b, f.find? pc = some b) ↔ pc ∈ trace.instructions.keys
  /-- Every block ends in exactly one terminator. -/
  terminated : ∀ b < f.size, Terminated (f.code b)
  stores : ∀ pc b, f.find? pc = some b → (f.code b).head? = some (.storePc pc.val)
  /-- A call to the next instruction leaves through `missing_block`. -/
  leaves : ∀ e ∈ trace.instructions.entries, callsNext e.2 → ∀ b, f.find? e.1 = some b →
    ∃ init, f.code b = init ++ [.call .missingBlock, .term .ret]
  /-- All others go on to the blocks of what the decoder adds to its work list. -/
  successors : ∀ e ∈ trace.instructions.entries, ¬ callsNext e.2 → ∀ b, f.find? e.1 = some b →
    ∀ pc, (∃ b', f.find? pc = some b' ∧ b' ∈ branchTargets (f.code b)) ↔
      pc ∈ addSuccessorsToWorkList e.2
  /-- They go on to nothing else, except for calls. -/
  inside : ∀ e ∈ trace.instructions.entries, ¬ callsAway e.2 → ∀ b, f.find? e.1 = some b →
    ∀ b' ∈ branchTargets (f.code b), ∃ pc, f.find? pc = some b'
  /-- A call comes back to the next instruction if the program counter is the expected one, and
  leaves the function otherwise. -/
  guarded : ∀ e ∈ trace.instructions.entries, callsAway e.2 → ∀ b, f.find? e.1 = some b →
    ∃ b' exit, f.find? e.2.nextPc = some b' ∧ f.code exit = [.term .ret] ∧
      terminator? (f.code b) =
        some (.condBr (.pcIs (L.pcConstant e.2.nextPc)) b' exit)

variable {L : Lifter} {f : LiftedCode} {trace : DecodedTrace}

/-- The program counters fit the address size, and conditional asynchronous hyper calls only have
one successor. -/
def OneSuccessor (L : Lifter) (trace : DecodedTrace) : Prop :=
  (∀ pc ∈ trace.instructions.keys, pc.val < 2 ^ L.addressSize) ∧
    ∀ e ∈ trace.instructions.entries, e.2.category = .conditionalAsyncHyperCall →
      e.2.branchTakenPc = e.2.nextPc ∧ L.branchNotTakenPc e.2 = e.2.nextPc

lemma terminator?_of_terminated {body init : List IR} {t : Terminator}
    (h : body = init ++ [.term t]) : terminator? body = some t := by
  rw [h, terminator?_append_term]

lemma Follows.branchTargets_iff (h : Follows L f plan tail) (hwf : f.WF) (hclosed : plan ≠ .stays)
    (body : List IR) (pc : PC) :
    (∃ b, f.find? pc = some b ∧ b ∈ branchTargets (body ++ tail)) ↔ pc ∈ plan.targets := by
  cases plan with
  | stays => exact absurd rfl hclosed
  | leaves callees =>
    obtain rfl := h
    have hnone : branchTargets (body ++ (callees.map .call ++ [.term .ret])) = [] := by
      rw [branchTargets, ← List.append_assoc, terminator?_append_term]
    simp [hnone, Plan.targets]
  | jumps k =>
    obtain ⟨b, hb, rfl⟩ := h
    have htargets : branchTargets (body ++ [.term (.br b)]) = [b] := by
      rw [branchTargets, terminator?_append_term]
    rw [htargets]
    constructor
    · rintro ⟨b', hb', hmem⟩
      rw [List.mem_singleton.mp hmem] at hb'
      exact List.mem_singleton.mpr (hwf.inj _ _ _ hb' hb)
    intro hmem
    rw [List.mem_singleton.mp hmem]
    exact ⟨b, hb, List.mem_singleton_self b⟩
  | branches taken notTaken =>
    obtain ⟨b, b', hb, hb', rfl⟩ := h
    have htargets : branchTargets (body ++ [.term (.condBr .branchTaken b b')]) = [b, b'] := by
      rw [branchTargets, terminator?_append_term]
    rw [htargets, Plan.targets]
    constructor
    · rintro ⟨b1, hb1, hmem⟩
      rcases List.mem_pair.mp hmem with rfl | rfl
      · exact List.mem_pair.mpr (.inl (hwf.inj _ _ _ hb1 hb))
      · exact List.mem_pair.mpr (.inr (hwf.inj _ _ _ hb1 hb'))
    intro hmem
    rcases List.mem_pair.mp hmem with rfl | rfl
    · exact ⟨b, hb, List.mem_pair.mpr (.inl rfl)⟩
    · exact ⟨b', hb', List.mem_pair.mpr (.inr rfl)⟩
  | calls callee next =>
  obtain ⟨b, b', hb, hexit, rfl⟩ := h
  have htargets : branchTargets (body ++ [.call callee,
      .term (.condBr (.pcIs (L.pcConstant next)) b b')]) = [b, b'] := by
    rw [branchTargets, terminator?_of_terminated (List.append_cons _ _ _)]
  rw [htargets, Plan.targets]
  constructor
  · rintro ⟨b1, hb1, hmem⟩
    rcases List.mem_pair.mp hmem with rfl | rfl
    · exact List.mem_singleton.mpr (hwf.inj _ _ _ hb1 hb)
    · exact absurd hb1 (hexit.unnamed pc)
  intro hmem
  rw [List.mem_singleton.mp hmem]
  exact ⟨b, hb, List.mem_pair.mpr (.inl rfl)⟩

lemma planOf_targets (hnext : ¬ callsNext inst) (pc : PC)
    (hone : inst.category = .conditionalAsyncHyperCall → inst.branchTakenPc = inst.nextPc ∧
      L.branchNotTakenPc inst = inst.nextPc) :
    pc ∈ (L.planOf inst).targets ↔ pc ∈ addSuccessorsToWorkList inst := by
  unfold planOf addSuccessorsToWorkList
  cases hcat : inst.category with
  | directFunctionCall =>
    have hne : inst.branchTakenPc ≠ inst.nextPc := fun heq => hnext ⟨hcat, heq⟩
    simp only [hne, ne_eq, not_false_eq_true, if_true, Plan.targets]
  | conditionalBranch => simp only [Plan.targets, L.notTaken inst hcat]
  | conditionalAsyncHyperCall =>
    obtain ⟨htaken, hnot⟩ := hone hcat
    simp only [Plan.targets, htaken, hnot, List.mem_cons, or_self, List.not_mem_nil, or_false]
  | _ => rfl

lemma planOf_eq_stays : L.planOf inst = .stays ↔ callsNext inst := by
  unfold planOf callsNext
  cases inst.category with
  | directFunctionCall => simp
  | _ => simp

lemma planOf_of_callsAway (h : callsAway inst) :
    ∃ callee, L.planOf inst = .calls callee inst.nextPc := by
  unfold planOf
  rcases h with ⟨hcat, hne⟩ | hcat
  · rw [hcat]
    simp only [ne_eq, hne, not_false_eq_true, if_true]
    exact ⟨_, rfl⟩
  rw [hcat]
  exact ⟨_, rfl⟩

lemma callsAway_of_planOf {callee : Callee} {next : PC} (h : L.planOf inst = .calls callee next) :
    callsAway inst := by
  unfold planOf at h
  cases hcat : inst.category with
  | directFunctionCall =>
    rw [hcat] at h
    simp only at h
    split at h
    · rename_i hne
      exact .inl ⟨hcat, hne⟩
    · exact nomatch h
  | indirectFunctionCall => exact .inr hcat
  | _ =>
  rw [hcat] at h
  exact nomatch h

lemma Follows.branchTargets_named (h : Follows L f plan tail) (hclosed : plan ≠ .stays)
    (hcalls : ∀ callee next, plan ≠ .calls callee next) (body : List IR) :
    ∀ b ∈ branchTargets (body ++ tail), ∃ pc, f.find? pc = some b := by
  intro b hb
  cases plan with
  | stays => exact absurd rfl hclosed
  | calls callee next => exact absurd rfl (hcalls callee next)
  | leaves callees =>
    obtain rfl := h
    rw [branchTargets, ← List.append_assoc, terminator?_append_term] at hb
    exact nomatch hb
  | jumps k =>
    obtain ⟨b1, hb1, rfl⟩ := h
    rw [branchTargets, terminator?_append_term] at hb
    rw [List.mem_singleton.mp hb]
    exact ⟨k, hb1⟩
  | branches taken notTaken =>
  obtain ⟨b1, b2, hb1, hb2, rfl⟩ := h
  rw [branchTargets, terminator?_append_term] at hb
  rcases List.mem_pair.mp hb with rfl | rfl
  · exact ⟨taken, hb1⟩
  · exact ⟨notTaken, hb2⟩

lemma plan_of_lifted (h : L.liftIntoBlock inst = true) : L.plan inst = L.planOf inst := if_pos h

lemma closed_ne_stays (plan : Plan) : plan.closed ≠ .stays := by
  cases plan <;> exact nofun

lemma Terminated.prepend {body : List IR} (h : Terminated tail)
    (hbody : ∀ ir ∈ body, ir.isTerm = false) : Terminated (body ++ tail) := by
  obtain ⟨init, t, rfl, hinit⟩ := h
  refine ⟨body ++ init, t, (List.append_assoc _ _ _).symm, fun ir hir => ?_⟩
  rcases List.mem_append.mp hir with hir | hir
  · exact hbody ir hir
  · exact hinit ir hir

lemma header_isTerm (pc : PC) : ∀ ir ∈ L.header pc, ir.isTerm = false := by
  intro ir hir
  unfold header at hir
  rcases List.mem_cons.mp hir with rfl | hir
  · rfl
  rcases List.mem_append.mp hir with hir | hir
  · split at hir
    · rw [List.mem_singleton.mp hir]
      rfl
    · exact nomatch hir
  rw [List.mem_singleton.mp hir]
  rfl

lemma Lifted.block (h : L.Lifted trace f) (he : e ∈ trace.instructions.entries)
    (hb : f.find? e.1 = some b) :
    ∃ tail, f.code b = L.header e.1 ++ tail ∧ L.Follows f (L.plan e.2).closed tail := by
  obtain ⟨b', tail, hb', hcode, hfollows⟩ := h.finished e he
  obtain rfl := Option.mem_unique hb hb'
  exact ⟨tail, hcode, hfollows⟩

lemma Lifted.terminated (h : L.Lifted trace f) : ∀ b < f.size, Terminated (f.code b) := by
  intro b hb
  by_cases hnamed : ∃ pc, f.find? pc = some b
  · obtain ⟨pc, hpc⟩ := hnamed
    by_cases hkey : pc ∈ trace.instructions.keys
    · obtain ⟨e, he, rfl⟩ := List.mem_map.mp hkey
      obtain ⟨tail, hcode, hfollows⟩ := h.block he hpc
      rw [hcode]
      exact (hfollows.terminated (closed_ne_stays _)).prepend (header_isTerm _)
    rw [h.missing pc b hpc hkey]
    refine ⟨[_, _], .ret, rfl, fun ir hir => ?_⟩
    rcases List.mem_pair.mp hir with rfl | rfl <;> rfl
  have hno : ∀ pc, f.find? pc ≠ some b := fun pc hpc => hnamed ⟨pc, hpc⟩
  by_cases hb0 : b = 0
  · obtain ⟨target, _, hcode⟩ := h.start
    rw [hb0, hcode]
    refine ⟨[.prologue], _, rfl, fun ir hir => ?_⟩
    rw [List.mem_singleton.mp hir]
    rfl
  rw [h.exits b hb hb0 hno]
  exact ⟨[], _, rfl, fun ir hir => (nomatch hir)⟩

lemma Lifted.head? (h : L.Lifted trace f) {pc : PC} {b : Nat} (hb : f.find? pc = some b) :
    (f.code b).head? = some (.storePc (L.pcConstant pc)) := by
  by_cases hkey : pc ∈ trace.instructions.keys
  · obtain ⟨e, he, rfl⟩ := List.mem_map.mp hkey
    obtain ⟨tail, hcode, _⟩ := h.block he hb
    rw [hcode]
    rfl
  rw [h.missing pc b hb hkey]
  rfl

lemma Lifted.branchTargets_iff (h : L.Lifted trace f) (he : e ∈ trace.instructions.entries)
    (hlifted : L.liftIntoBlock e.2 = true) (hnext : ¬ callsNext e.2) (hb : f.find? e.1 = some b)
    (pc : PC) :
    (∃ b', f.find? pc = some b' ∧ b' ∈ branchTargets (f.code b)) ↔
      pc ∈ (L.planOf e.2).targets := by
  obtain ⟨tail, hcode, hfollows⟩ := h.block he hb
  have hstays : L.planOf e.2 ≠ .stays := fun heq => hnext (planOf_eq_stays.mp heq)
  rw [plan_of_lifted hlifted, Plan.closed_of_ne hstays] at hfollows
  rw [hcode, hfollows.branchTargets_iff h.wf hstays]

lemma Lifted.agrees_iff (h : L.Lifted trace f)
    (hlifted : ∀ e ∈ trace.instructions.entries, L.liftIntoBlock e.2 = true)
    (hclosed : ∀ e ∈ trace.instructions.entries, ∀ pc ∈ addSuccessorsToWorkList e.2, pc ∈
      trace.instructions.keys) : L.Agrees trace f ↔ L.OneSuccessor trace := by
  have hfound : ∀ pc ∈ trace.instructions.keys, ∃ b, f.find? pc = some b := by
    intro pc hpc
    obtain ⟨e, he, rfl⟩ := List.mem_map.mp hpc
    obtain ⟨b, _, hb, _⟩ := h.finished e he
    exact ⟨b, hb⟩
  constructor
  · intro ha
    refine ⟨fun pc hpc => ?_, fun e he hcat => ?_⟩
    · obtain ⟨b, hb⟩ := hfound pc hpc
      have hstored := (ha.stores pc b hb).symm.trans (h.head? hb)
      have hval : pc.val = pc.val % 2 ^ L.addressSize := IR.storePc.inj (Option.some.inj hstored)
      rw [hval]
      exact Nat.mod_lt _ (Nat.two_pow_pos _)
    obtain ⟨b, hb⟩ := hfound e.1 (List.mem_map_of_mem he)
    have hnext : ¬ callsNext e.2 := fun hcall => by
      rw [hcall.1] at hcat
      exact nomatch hcat
    have hboth : ∀ pc, pc ∈ (L.planOf e.2).targets → pc = e.2.nextPc := by
      intro pc hpc
      rw [← h.branchTargets_iff he (hlifted e he) hnext hb, ha.successors e he hnext b hb] at hpc
      rw [addSuccessorsToWorkList, hcat] at hpc
      exact List.mem_singleton.mp hpc
    rw [planOf, hcat] at hboth
    exact ⟨hboth _ (List.mem_pair.mpr (.inl rfl)), hboth _ (List.mem_pair.mpr (.inr rfl))⟩
  rintro ⟨hfits, hone⟩
  have hblocks : ∀ pc b, f.find? pc = some b → pc ∈ trace.instructions.keys := by
    intro pc b hb
    rcases h.known pc b hb with hkey | ⟨e, he, htarget⟩
    · exact hkey
    rw [plan_of_lifted (hlifted e he)] at htarget
    by_cases hnext : callsNext e.2
    · rw [planOf_eq_stays.mpr hnext] at htarget
      exact nomatch htarget
    · exact hclosed e he pc ((planOf_targets hnext pc (hone e he)).mp htarget)
  refine ⟨fun pc => ⟨fun ⟨b, hb⟩ => hblocks pc b hb, hfound pc⟩, h.terminated,
    fun pc b hb => ?_, fun e he hnext b hb => ?_, fun e he hnext b hb pc => ?_,
    fun e he haway b hb => ?_, fun e he haway b hb => ?_⟩
  · rw [h.head? hb, pcConstant, Nat.mod_eq_of_lt (hfits pc (hblocks pc b hb))]
  · obtain ⟨tail, hcode, hfollows⟩ := h.block he hb
    rw [plan_of_lifted (hlifted e he), planOf_eq_stays.mpr hnext] at hfollows
    exact ⟨L.header e.1, by rw [hcode, hfollows]; rfl⟩
  · rw [h.branchTargets_iff he (hlifted e he) hnext hb, planOf_targets hnext pc (hone e he)]
  · obtain ⟨tail, hcode, hfollows⟩ := h.block he hb
    rw [hcode]
    refine hfollows.branchTargets_named (closed_ne_stays _) (fun callee next heq => ?_) _
    rw [plan_of_lifted (hlifted e he)] at heq
    by_cases hstays : L.planOf e.2 = .stays
    · rw [hstays] at heq
      exact nomatch heq
    rw [Plan.closed_of_ne hstays] at heq
    exact haway (callsAway_of_planOf heq)
  · obtain ⟨tail, hcode, hfollows⟩ := h.block he hb
    obtain ⟨callee, hplan⟩ := planOf_of_callsAway (L := L) haway
    rw [plan_of_lifted (hlifted e he), hplan] at hfollows
    obtain ⟨b', exit, hb', hexit, rfl⟩ := hfollows
    refine ⟨b', exit, hb', hexit.returns, ?_⟩
    rw [hcode, terminator?_of_terminated (List.append_cons _ _ _)]

end Lifter

/-- **Decoder and lifter.** For every trace of `DecodeTraces` whose instructions all decoded and are
lifted, `LiftTrace` returns; its blocks and branches are the decoder's if and only if conditional
asynchronous hyper calls have one successor and all program counters fit the address size. -/
theorem decoder_lifter_agree {cfg : Config} {w : World} (hw : World.Reachable cfg w) {i : Nat}
    {s : AddressSpace} (hi : w.spaces[i]? = some s) {arch : Arch} {startPc : PC}
    {traces : List DecodedTrace} {s' : AddressSpace} {h' : Heap}
    (hrun : decodeTraces cfg arch s w.heap startPc = some (traces, s', h')) {trace : DecodedTrace}
    (htrace : trace ∈ traces)
    (hdecoded : ∀ pc ∈ trace.instructions.keys, (codeAt arch w.heap s pc).2 = true)
    (L : Lifter) (hlifted : ∀ e ∈ trace.instructions.entries, L.liftIntoBlock e.2 = true) :
    ∃ f, L.liftTrace trace = some f ∧ (L.Agrees trace f ↔ L.OneSuccessor trace) := by
  have hcomplete := decodeTraces_complete hw.wf.heap (hw.wf.space i s hi) hrun trace htrace
  obtain ⟨hentry, hclosed⟩ := hcomplete.closed hdecoded
  obtain ⟨f, hf, hspec⟩ := L.liftTrace_spec hentry
  refine ⟨f, hf, hspec.agrees_iff hlifted fun e he pc hpc => ?_⟩
  have hkey : e.1 ∈ trace.instructions.keys := List.mem_map_of_mem he
  rw [hcomplete.decoded e he] at hpc
  exact hclosed e.1 hkey pc ⟨hdecoded e.1 hkey, hpc⟩

def plainLifter : Lifter where
  addressSize := 64
  callback := false
  declared _ := true
  liftIntoBlock _ := true
  branchNotTakenPc inst := inst.nextPc
  notTaken _ _ := rfl

lemma decoded_of_category {arch : Arch} {h : Heap} {s : AddressSpace} {pc : PC}
    {insts : InstructionMap} (hc : Traces.Complete (codeAt arch h s) pc insts)
    (harch : ∀ pc bytes, (arch.lazyDecodeInstruction pc bytes).1.category ≠ .invalid →
      (arch.lazyDecodeInstruction pc bytes).2 = true)
    (hvalid : ∀ e ∈ insts.entries, e.2.category ≠ .invalid) :
    ∀ pc ∈ insts.keys, (codeAt arch h s pc).2 = true := by
  intro pc hpc
  obtain ⟨e, he, rfl⟩ := List.mem_map.mp hpc
  refine harch _ _ ?_
  have hcat := hvalid e he
  rwa [hc.decoded e he] at hcat

lemma toyArch_decodes (pc : PC) (bytes : List UInt8)
    (h : (toyArch.lazyDecodeInstruction pc bytes).1.category ≠ .invalid) :
    (toyArch.lazyDecodeInstruction pc bytes).2 = true := by
  simp only [toyArch] at h ⊢
  split at h <;> first | rfl | exact absurd rfl h

/-- A call, a branch and two returns. -/
theorem decoder_lifter_agree_branch :
    ∃ w s traces s' h' trace f, World.Reachable (amd64 false) w ∧ w.spaces[0]? = some s ∧
      decodeTraces (amd64 false) toyArch s w.heap 0x1000 = some (traces, s', h') ∧
      trace ∈ traces ∧ trace.instructions.keys = [0x1000, 0x1001, 0x1002, 0x1003] ∧
      plainLifter.liftTrace trace = some f ∧ plainLifter.Agrees trace f := by
  obtain ⟨w, s, hw, hi, hall⟩ := World.reachable_eval (amd64 false)
    [.new, .addMap 0 0x1000 0x2000 none 0, .tryWrite 0 0x1000 [1, 2, 3, 3], .tryWrite 0 0x2000 [3],
      .setPermissions 0 0x1000 0x2000 true false true]
    (fun w s => (decodeTraces (amd64 false) toyArch s w.heap 0x1000).any (fun r =>
      r.1.any fun t => decide (t.instructions.keys = [0x1000, 0x1001, 0x1002, 0x1003] ∧
        (∀ e ∈ t.instructions.entries, e.2.category ≠ .invalid) ∧
        ∀ e ∈ t.instructions.entries, e.2.category ≠ .conditionalAsyncHyperCall)) = true)
    (by decide +kernel)
  obtain ⟨⟨traces, s', h'⟩, hdec, hany⟩ := (Option.any_eq_true _ _).mp hall
  obtain ⟨trace, htrace, hfacts⟩ := List.any_eq_true.mp hany
  obtain ⟨hkeys, hvalid, hnone⟩ := of_decide_eq_true hfacts
  have hdecoded := decoded_of_category
    (decodeTraces_complete hw.wf.heap (hw.wf.space 0 s hi) hdec trace htrace)
    toyArch_decodes hvalid
  obtain ⟨f, hf, hagree⟩ := decoder_lifter_agree hw hi hdec htrace hdecoded plainLifter
    fun _ _ => rfl
  exact ⟨w, s, traces, s', h', trace, f, hw, hi, hdec, htrace, hkeys, hf,
    hagree.mpr ⟨fun pc _ => pc.isLt, fun e he hcat => absurd hcat (hnone e he)⟩⟩

/-- A machine with one-byte instructions: `4` is a conditional asynchronous hyper call, which has
no branch target, `3` returns, and nothing else decodes. -/
def hyperCallArch : Arch where
  maxInstructionSize := 1
  lazyDecodeInstruction pc bytes :=
    match bytes with
    | [4] => (⟨.conditionalAsyncHyperCall, pc + 1, 0, bytes⟩, true)
    | [3] => (⟨.functionReturn, pc + 1, 0, bytes⟩, true)
    | _ => (⟨.invalid, pc + 1, 0, bytes⟩, false)
  digest seed bytes := seed + Fin.ofNat (2 ^ 64) bytes.length

lemma hyperCallArch_decodes (pc : PC) (bytes : List UInt8)
    (h : (hyperCallArch.lazyDecodeInstruction pc bytes).1.category ≠ .invalid) :
    (hyperCallArch.lazyDecodeInstruction pc bytes).2 = true := by
  simp only [hyperCallArch] at h ⊢
  split at h <;> first | rfl | exact absurd rfl h

/-- The lifter creates a block for the program counter 0, and branches to it. -/
theorem hyper_call_branches_away :
    ∃ w s traces s' h' trace f, World.Reachable (amd64 false) w ∧ w.spaces[0]? = some s ∧
      decodeTraces (amd64 false) hyperCallArch s w.heap 0x1000 = some (traces, s', h') ∧
      trace ∈ traces ∧ (∀ pc ∈ trace.instructions.keys,
        (codeAt hyperCallArch w.heap s pc).2 = true) ∧
      trace.instructions.keys = [0x1000, 0x1001] ∧
      plainLifter.liftTrace trace = some f ∧ ¬ plainLifter.Agrees trace f ∧
      ∃ b b', f.find? 0x1000 = some b ∧ f.find? 0 = some b' ∧
        b' ∈ Lifter.branchTargets (f.code b) := by
  obtain ⟨w, s, hw, hi, hall⟩ := World.reachable_eval (amd64 false)
    [.new, .addMap 0 0x1000 0x1000 none 0, .tryWrite 0 0x1000 [4, 3],
      .setPermissions 0 0x1000 0x1000 true false true]
    (fun w s => (decodeTraces (amd64 false) hyperCallArch s w.heap 0x1000).any (fun r =>
      r.1.any fun t => decide (t.instructions.keys = [0x1000, 0x1001] ∧
        (∀ e ∈ t.instructions.entries, e.2.category ≠ .invalid)) &&
        (plainLifter.liftTrace t).any fun f =>
          (f.find? 0x1000).any fun b => (f.find? 0).any fun b' =>
            decide (b' ∈ Lifter.branchTargets (f.code b))) = true)
    (by decide +kernel)
  obtain ⟨⟨traces, s', h'⟩, hdec, hany⟩ := (Option.any_eq_true _ _).mp hall
  obtain ⟨trace, htrace, hfacts⟩ := List.any_eq_true.mp hany
  obtain ⟨hfirst, hlift⟩ := Bool.and_eq_true_iff.mp hfacts
  obtain ⟨hkeys, hvalid⟩ := of_decide_eq_true hfirst
  have hdecoded := decoded_of_category
    (decodeTraces_complete hw.wf.heap (hw.wf.space 0 s hi) hdec trace htrace)
    hyperCallArch_decodes hvalid
  obtain ⟨f, hf, hrest⟩ := (Option.any_eq_true _ _).mp hlift
  obtain ⟨b, hb, hrest⟩ := (Option.any_eq_true _ _).mp hrest
  obtain ⟨b', hb', hmem⟩ := (Option.any_eq_true _ _).mp hrest
  refine ⟨w, s, traces, s', h', trace, f, hw, hi, hdec, htrace, hdecoded, hkeys, hf, fun ha => ?_,
    b, b', hb, hb', of_decide_eq_true hmem⟩
  have hkey := (ha.blocks 0).mp ⟨b', hb'⟩
  rw [hkeys] at hkey
  exact absurd hkey (by decide)

end Vmill
