import Vmill.BC.Lifter

/-!
# What the lifter builds

How the block of an instruction ends is its `Plan`. `Building` is the invariant of the loop over the
instructions: a block is finished, still waits for its instruction, or is one of the exits behind a
call.
-/

namespace Vmill

open Base

/-- Whether this ends a block. -/
def IR.isTerm : IR → Bool
  | .term _ => true
  | .prologue | .storePc _ | .callback | .semantics _ | .call _ => false

/-- Where control goes after an instruction. -/
inductive Plan where
  | leaves (callees : List Callee)
  | jumps (pc : PC)
  | branches (taken notTaken : PC)
  | calls (callee : Callee) (next : PC)
  | stays
deriving DecidableEq, Repr

/-- The program counters whose blocks the plan needs. -/
def Plan.targets : Plan → List PC
  | .leaves _ | .stays => []
  | .jumps pc => [pc]
  | .branches taken notTaken => [taken, notTaken]
  | .calls _ next => [next]

/-- The plan once the block has a terminator. -/
def Plan.closed : Plan → Plan
  | .stays => .leaves [.missingBlock]
  | .leaves callees => .leaves callees
  | .jumps pc => .jumps pc
  | .branches taken notTaken => .branches taken notTaken
  | .calls callee next => .calls callee next

lemma Plan.closed_of_ne {plan : Plan} (hne : plan ≠ .stays) : plan.closed = plan := by
  cases plan with
  | stays => exact absurd rfl hne
  | _ => rfl

namespace Lifter

variable {L : Lifter} {tail : List IR} {trace : DecodedTrace}

/-- The plan of each category of instruction. -/
def planOf (L : Lifter) (inst : Instruction) : Plan :=
  match inst.category with
  | .invalid | .error => .leaves [.error]
  | .normal | .noOp => .jumps inst.nextPc
  | .directJump => .jumps inst.branchTakenPc
  | .indirectJump => .leaves [.jump]
  | .directFunctionCall =>
    if inst.branchTakenPc ≠ inst.nextPc then
      .calls (if L.declared inst.branchTakenPc then .trace inst.branchTakenPc else .functionCall)
        inst.nextPc
    else .stays
  | .indirectFunctionCall => .calls .functionCall inst.nextPc
  | .functionReturn => .leaves [.functionReturn]
  | .conditionalBranch | .conditionalAsyncHyperCall =>
    .branches inst.branchTakenPc (L.branchNotTakenPc inst)
  | .asyncHyperCall => .leaves [.asyncHyperCall, .jump]

/-- The plan of an instruction, if it has semantics. -/
def plan (L : Lifter) (inst : Instruction) : Plan :=
  if L.liftIntoBlock inst then L.planOf inst else .leaves [.error]

/-- Carry out a plan at the end of a block. -/
def build (L : Lifter) (f : LiftedCode) (block : Nat) : Plan → Option LiftedCode
  | .leaves callees => some (f.append block (callees.map .call ++ [.term .ret]))
  | .jumps pc =>
    let (target, f) := L.getOrCreateBlock f pc
    some (f.append block [.term (.br target)])
  | .branches taken notTaken =>
    let (taken, f) := L.getOrCreateBlock f taken
    let (notTaken, f) := L.getOrCreateBlock f notTaken
    some (f.append block [.term (.condBr .branchTaken taken notTaken)])
  | .calls callee next =>
    let (target, f) := L.getOrCreateBlock (addTerminatingTailCall f block callee) next
    liftPostFunctionCall f block target (L.pcConstant next)
  | .stays => some f

lemma append_append (f : LiftedCode) (block : Nat) (irs irs' : List IR) :
    (f.append block irs).append block irs' = f.append block (irs ++ irs') := by
  simp [Blocks.append, Blocks.set, List.append_assoc]

lemma removeTerminator_append (f : LiftedCode) (block : Nat) (irs : List IR) (t : Terminator) :
    removeTerminator (f.append block (irs ++ [.term t])) block = f.append block irs := by
  simp [removeTerminator, Blocks.append, Blocks.set, ← List.append_assoc]

lemma connect_eq (f : LiftedCode) (block : Nat) (inst : Instruction) :
    L.connect f block inst = L.build f block (L.planOf inst) := by
  unfold connect planOf
  cases inst.category with
  | directFunctionCall =>
    simp only
    split
    · rfl
    · rfl
  | asyncHyperCall =>
    simp only [addTerminatingTailCall, build]
    rw [show ([IR.call Callee.asyncHyperCall, IR.term Terminator.ret] : List IR) =
      [IR.call Callee.asyncHyperCall] ++ [IR.term Terminator.ret] from rfl,
      removeTerminator_append, append_append]
    rfl
  | _ => rfl

/-- The code of an instruction in front of its plan. -/
def header (L : Lifter) (pc : PC) : List IR :=
  .storePc (L.pcConstant pc) :: ((if L.callback then [.callback] else []) ++ [.semantics pc])

lemma liftInstruction_eq (f : LiftedCode) (pc : PC) (inst : Instruction) :
    L.liftInstruction f pc inst =
      L.build ((L.getOrCreateBlock f pc).2.append (L.getOrCreateBlock f pc).1
        ((if L.callback then [.callback] else []) ++ [.semantics pc]))
        (L.getOrCreateBlock f pc).1 (L.plan inst) := by
  unfold liftInstruction plan
  have hcallback : ∀ f : LiftedCode, ∀ block,
      (if L.callback then f.append block [.callback] else f).append block [.semantics pc] =
        f.append block ((if L.callback then [.callback] else []) ++ [.semantics pc]) := by
    intro f block
    cases L.callback with
    | true => exact append_append f block _ _
    | false => rfl
  simp only [hcallback, connect_eq]
  cases L.liftIntoBlock inst with
  | true => rfl
  | false => rfl

/-- A block that only returns. -/
structure Exit (f : LiftedCode) (b : Nat) : Prop where
  below : b < f.size
  unnamed : ∀ pc, f.find? pc ≠ some b
  returns : f.code b = [.term .ret]

/-- The end of a block carries out the plan. -/
def Follows (L : Lifter) (f : LiftedCode) : Plan → List IR → Prop
  | .leaves callees, tail => tail = callees.map .call ++ [.term .ret]
  | .jumps pc, tail => ∃ b, f.find? pc = some b ∧ tail = [.term (.br b)]
  | .branches taken notTaken, tail => ∃ b b', f.find? taken = some b ∧
      f.find? notTaken = some b' ∧ tail = [.term (.condBr .branchTaken b b')]
  | .calls callee next, tail => ∃ b b', f.find? next = some b ∧ Exit f b' ∧
      tail = [.call callee, .term (.condBr (.pcIs (L.pcConstant next)) b b')]
  | .stays, tail => tail = []

variable {f f' : LiftedCode} {entry pc : PC} {block : Nat} {done : List (PC × Instruction)}
  {extra : List PC}

lemma Exit.grows {touched : Nat → Prop} {b : Nat} (h : Exit f b) (hg : Blocks.Grows touched f f')
    (ht : ∀ b, touched b → ∃ pc, f.find? pc = some b) : Exit f' b where
  below := h.below.trans_le hg.size
  unnamed := hg.unnamed h.below h.unnamed
  returns := by
    rw [hg.kept b h.below fun hb => ?_, h.returns]
    obtain ⟨pc, hpc⟩ := ht b hb
    exact h.unnamed pc hpc

lemma Follows.mono {plan : Plan} (h : Follows L f plan tail)
    (hnamed : ∀ k b, f.find? k = some b → f'.find? k = some b)
    (hexits : ∀ b, Exit f b → Exit f' b) : Follows L f' plan tail := by
  cases plan with
  | leaves callees => exact h
  | stays => exact h
  | jumps pc =>
    obtain ⟨b, hb, htail⟩ := h
    exact ⟨b, hnamed _ _ hb, htail⟩
  | branches taken notTaken =>
    obtain ⟨b, b', hb, hb', htail⟩ := h
    exact ⟨b, b', hnamed _ _ hb, hnamed _ _ hb', htail⟩
  | calls callee next =>
  obtain ⟨b, b', hb, hexit, htail⟩ := h
  exact ⟨b, b', hnamed _ _ hb, hexits b' hexit, htail⟩

/-- The instruction being lifted, and its block. -/
abbrev Current := Option (PC × Nat)

/-- The blocks in `done` are finished, others but the current one wait for their instruction, and
those of no program counter are the entry block and exits. `extra` are program counters that the
current instruction has asked for. -/
structure Building (L : Lifter) (entry : PC) (done : List (PC × Instruction)) (cur : Current)
    (extra : List PC) (f : LiftedCode) : Prop where
  wf : f.WF
  own : ∀ c ∈ cur, f.find? c.1 = some c.2 ∧ ∀ e ∈ done, e.1 ≠ c.1
  start : ∃ b, f.find? entry = some b ∧ f.code 0 = [.prologue, .term (.br b)]
  zero : 0 < f.size ∧ ∀ k, f.find? k ≠ some 0
  finished : ∀ e ∈ done, ∃ b tail, f.find? e.1 = some b ∧ f.code b = L.header e.1 ++ tail ∧
    L.Follows f (L.plan e.2) tail
  waiting : ∀ k b, f.find? k = some b → (∀ c ∈ cur, k ≠ c.1) → (∀ e ∈ done, e.1 ≠ k) →
    f.code b = [.storePc (L.pcConstant k)]
  known : ∀ k b, f.find? k = some b → k = entry ∨ k ∈ extra ∨
    ∃ e ∈ done, e.1 = k ∨ k ∈ (L.plan e.2).targets
  exits : ∀ b < f.size, b ≠ 0 → (∀ k, f.find? k ≠ some b) → f.code b = [.term .ret]

variable {cur : Current}

lemma Building.grow {more : List PC} (h : Building L entry done cur extra f)
    (hg : Blocks.Grows (fun b => ∃ c ∈ cur, b = c.2) f f') (hwf : f'.WF)
    (hnamed : ∀ k b, f'.find? k = some b → f.size ≤ b → f'.code b = [.storePc (L.pcConstant k)] ∧ k
      ∈ more)
    (hexits : ∀ b < f'.size, f.size ≤ b → (∀ k, f'.find? k ≠ some b) → f'.code b = [.term .ret]) :
    Building L entry done cur (extra ++ more) f' := by
  have htouched : ∀ b, (∃ c ∈ cur, b = c.2) → ∃ k, f.find? k = some b := by
    rintro b ⟨c, hc, rfl⟩
    exact ⟨c.1, (h.own c hc).1⟩
  -- the block of another program counter is another block
  have hother : ∀ k b, f.find? k = some b → (∀ c ∈ cur, k ≠ c.1) → ¬ ∃ c ∈ cur, b = c.2 := by
    rintro k b hk hne ⟨c, hc, rfl⟩
    exact hne c hc (h.wf.inj k c.1 c.2 hk (h.own c hc).1)
  have hunnamed : ∀ b, (∀ k, f.find? k ≠ some b) → ¬ ∃ c ∈ cur, b = c.2 := fun b hno hb => by
    obtain ⟨k, hk⟩ := htouched b hb
    exact hno k hk
  refine ⟨hwf, fun c hc => ⟨hg.named _ _ (h.own c hc).1, (h.own c hc).2⟩, ?_,
    ⟨h.zero.1.trans_le hg.size, hg.unnamed h.zero.1 h.zero.2⟩, fun e he => ?_,
    fun k b hk hne hnot => ?_, fun k b hk => ?_, fun b hb hb0 hno => ?_⟩
  · obtain ⟨b, hb, hcode⟩ := h.start
    exact ⟨b, hg.named _ _ hb, by rw [hg.kept 0 h.zero.1 (hunnamed 0 h.zero.2), hcode]⟩
  · obtain ⟨b, tail, hb, hcode, hfollows⟩ := h.finished e he
    refine ⟨b, tail, hg.named _ _ hb, ?_,
      hfollows.mono hg.named fun _ hexit => hexit.grows hg htouched⟩
    rw [hg.kept b (h.wf.below _ _ hb) (hother _ _ hb fun c hc => (h.own c hc).2 e he), hcode]
  · rcases hg.fresh k b hk with hold | hnew
    · rw [hg.kept b (h.wf.below _ _ hold) (hother _ _ hold hne)]
      exact h.waiting k b hold hne hnot
    · exact (hnamed k b hk hnew).1
  · rcases hg.fresh k b hk with hold | hnew
    · rcases h.known k b hold with hentry | hextra | hdone
      · exact .inl hentry
      · exact .inr (.inl (List.mem_append_left _ hextra))
      · exact .inr (.inr hdone)
    · exact .inr (.inl (List.mem_append_right _ (hnamed k b hk hnew).2))
  · by_cases hlt : b < f.size
    · have hno' : ∀ k, f.find? k ≠ some b := fun k hk => hno k (hg.named _ _ hk)
      rw [hg.kept b hlt (hunnamed b hno')]
      exact h.exits b hlt hb0 hno'
    · exact hexits b hb (Nat.not_lt.mp hlt) hno

lemma Building.set (h : Building L entry done (some (pc, block)) extra f) (body : List IR) :
    Building L entry done (some (pc, block)) extra (f.set block body) := by
  have hg : Blocks.Grows (fun b => ∃ c ∈ some (pc, block), b = c.2) f (f.set block body) :=
    ⟨le_rfl, fun _ _ hk => hk, fun _ _ hk => .inl hk, fun b _ hb =>
      Blocks.code_set_of_ne fun heq => hb ⟨_, rfl, heq⟩⟩
  have hgrown : Building L entry done (some (pc, block)) (extra ++ []) (f.set block body) :=
    h.grow hg h.wf.set (fun k b hk hge => absurd (h.wf.below k b hk) hge.not_gt)
      (fun b hb hge => absurd hb hge.not_gt)
  rwa [List.append_nil] at hgrown

lemma Building.getOrCreateBlock (h : Building L entry done cur extra f) (k : PC) :
    Building L entry done cur (extra ++ [k]) (L.getOrCreateBlock f k).2 := by
  refine h.grow Blocks.grows_getOrCreate h.wf.getOrCreate (fun k' b hk' hge => ?_)
    (fun b hb hge hno => ?_)
  · have hlt : b < (L.getOrCreateBlock f k).2.size := h.wf.getOrCreate.below k' b hk'
    obtain ⟨rfl, hnone⟩ := Blocks.getOrCreate_new hge hlt
    have hk : k' = k := h.wf.getOrCreate.inj _ _ _ hk' Blocks.find?_getOrCreate_self
    rw [hk]
    refine ⟨?_, List.mem_singleton_self k⟩
    unfold Lifter.getOrCreateBlock
    rw [Blocks.code_getOrCreate, hnone]
    rfl
  · obtain ⟨rfl, _⟩ := Blocks.getOrCreate_new hge hb
    exact absurd Blocks.find?_getOrCreate_self (hno k)

lemma Building.create (h : Building L entry done cur extra f) :
    Building L entry done cur extra (f.create [.term .ret]).2 ∧
      Exit (f.create [.term .ret]).2 (f.create [.term .ret]).1 := by
  have hgrown : Building L entry done cur (extra ++ []) (f.create [.term .ret]).2 :=
    h.grow Blocks.grows_create h.wf.create
      (fun k b hk hge => absurd (h.wf.below k b hk) hge.not_gt)
      (fun b hb hge _ => by
        obtain rfl : b = f.size := Nat.le_antisymm (Nat.lt_succ_iff.mp hb) hge
        exact Blocks.code_create)
  rw [List.append_nil] at hgrown
  exact ⟨hgrown, Nat.lt_succ_self _, fun _ => h.wf.create_unnamed, Blocks.code_create⟩

lemma liftPostFunctionCall_eq (body : List IR) {target expected : Nat}
    (hcode : f.code block = body ++ [.term .ret]) (hlt : block < f.size) :
    liftPostFunctionCall f block target expected =
      some ((((f.set block body).create [.term .ret]).2).append block
        [.term (.condBr (.pcIs expected) target f.size)]) := by
  have hterm : terminator? (f.code block) = some .ret := by
    rw [hcode]
    simp [terminator?]
  have hremove : removeTerminator f block = f.set block body := by
    simp [removeTerminator, hcode]
  have hne : block ≠ f.size := hlt.ne
  unfold liftPostFunctionCall
  rw [hterm]
  simp only [hremove, Blocks.append, Blocks.set, Blocks.create, Option.some.injEq,
    Blocks.mk.injEq, true_and, and_true]
  funext b
  by_cases hb : b = f.size
  · subst hb
    simp [Function.update_of_ne hne.symm]
  by_cases hb' : b = block
  · subst hb'
    simp [Function.update_of_ne hb]
  · simp [Function.update_of_ne hb, Function.update_of_ne hb']

lemma grows_getOrCreateBlock (f : LiftedCode) (k : PC) :
    Blocks.Grows (fun _ => False) f (L.getOrCreateBlock f k).2 := Blocks.grows_getOrCreate

lemma find?_getOrCreateBlock (f : LiftedCode) (k : PC) :
    (L.getOrCreateBlock f k).2.find? k = some (L.getOrCreateBlock f k).1 :=
  Blocks.find?_getOrCreate_self

lemma Building.code_getOrCreateBlock (h : Building L entry done (some (pc, block)) extra f)
    (k : PC) : (L.getOrCreateBlock f k).2.code block = f.code block :=
  (grows_getOrCreateBlock f k).kept block (h.wf.below _ _ (h.own _ rfl).1) id

/-- The code of one instruction, in its own block. -/
lemma Building.build (h : Building L entry done (some (pc, block)) extra f) (plan : Plan) :
    ∃ f' tail, L.build f block plan = some f' ∧
      Building L entry done (some (pc, block)) (extra ++ plan.targets) f' ∧
      f'.code block = f.code block ++ tail ∧ L.Follows f' plan tail := by
  cases plan with
  | leaves callees =>
    refine ⟨f.append block (callees.map IR.call ++ [IR.term .ret]),
      callees.map IR.call ++ [IR.term .ret], rfl, ?_, Blocks.code_append_self, rfl⟩
    rw [Plan.targets, List.append_nil]
    exact h.set _
  | stays =>
    refine ⟨f, [], rfl, ?_, (List.append_nil _).symm, rfl⟩
    rwa [Plan.targets, List.append_nil]
  | jumps k =>
    have h1 := h.getOrCreateBlock k
    refine ⟨(L.getOrCreateBlock f k).2.append block [.term (.br (L.getOrCreateBlock f k).1)],
      [.term (.br (L.getOrCreateBlock f k).1)], rfl, h1.set _, ?_,
      (L.getOrCreateBlock f k).1, find?_getOrCreateBlock f k, rfl⟩
    rw [Blocks.code_append_self, h.code_getOrCreateBlock]
  | branches taken notTaken =>
    have h1 := h.getOrCreateBlock taken
    have h2 := h1.getOrCreateBlock notTaken
    rw [List.append_assoc] at h2
    refine ⟨(L.getOrCreateBlock (L.getOrCreateBlock f taken).2 notTaken).2.append block
        [.term (.condBr .branchTaken (L.getOrCreateBlock f taken).1
          (L.getOrCreateBlock (L.getOrCreateBlock f taken).2 notTaken).1)],
      [.term (.condBr .branchTaken (L.getOrCreateBlock f taken).1
        (L.getOrCreateBlock (L.getOrCreateBlock f taken).2 notTaken).1)], rfl, h2.set _, ?_,
      (L.getOrCreateBlock f taken).1, _,
      (grows_getOrCreateBlock _ notTaken).named _ _ (find?_getOrCreateBlock f taken),
      find?_getOrCreateBlock _ notTaken, rfl⟩
    rw [Blocks.code_append_self, h1.code_getOrCreateBlock, h.code_getOrCreateBlock]
  | calls callee next =>
  have h1 := h.set (f.code block ++ [.call callee, .term .ret])
  have h2 := h1.getOrCreateBlock next
  have hbody := h1.code_getOrCreateBlock next
  rw [Blocks.code_set_self] at hbody
  have hnext := find?_getOrCreateBlock (L := L)
    (f.set block (f.code block ++ [.call callee, .term .ret])) next
  generalize hr : L.getOrCreateBlock
    (f.set block (f.code block ++ [.call callee, .term .ret])) next = r at h2 hbody hnext
  obtain ⟨target, f2⟩ := r
  dsimp only at h2 hbody hnext
  have hlt : block < f2.size := h2.wf.below _ _ (h2.own _ rfl).1
  -- an exit, and a branch in place of the return
  obtain ⟨h4, hexit⟩ := (h2.set (f.code block ++ [.call callee])).create
  refine ⟨((f2.set block (f.code block ++ [IR.call callee])).create [IR.term .ret]).2.append block
      [IR.term (.condBr (.pcIs (L.pcConstant next)) target f2.size)],
    [IR.call callee, IR.term (.condBr (.pcIs (L.pcConstant next)) target f2.size)], ?_,
    h4.set _, ?_, target, f2.size, hnext, ?_, rfl⟩
  · have hbuild : L.build f block (.calls callee next) =
        liftPostFunctionCall f2 block target (L.pcConstant next) := by
      simp only [Lifter.build, addTerminatingTailCall, Blocks.append, hr]
    rw [hbuild]
    exact liftPostFunctionCall_eq _ (by rw [hbody, List.append_assoc]; rfl) hlt
  · have hlt' : block < (f2.set block (f.code block ++ [.call callee])).size := hlt
    rw [Blocks.code_append_self, Blocks.code_create_of_lt hlt', Blocks.code_set_self,
      List.append_assoc]
    rfl
  · exact hexit.grows Blocks.grows_set fun b hb => ⟨pc, hb ▸ (h4.own _ rfl).1⟩

lemma Building.begin (h : Building L entry done none [] f) (hnew : ∀ e ∈ done, e.1 ≠ pc) :
    Building L entry done (some (pc, (L.getOrCreateBlock f pc).1)) [pc]
        (L.getOrCreateBlock f pc).2 ∧
      (L.getOrCreateBlock f pc).2.code (L.getOrCreateBlock f pc).1 =
        [.storePc (L.pcConstant pc)] := by
  have hb := h.getOrCreateBlock pc
  have hfind := find?_getOrCreateBlock (L := L) f pc
  refine ⟨⟨hb.wf, fun c hc => ?_, hb.start, hb.zero, hb.finished, fun k b hk _ hnot => ?_,
    hb.known, hb.exits⟩, hb.waiting _ _ hfind (fun _ hc => nomatch hc) hnew⟩
  · cases hc
    exact ⟨hfind, hnew⟩
  · exact hb.waiting k b hk (fun _ hc => nomatch hc) hnot

lemma Building.finish {inst : Instruction}
    (h : Building L entry done (some (pc, block)) (pc :: (L.plan inst).targets) f)
    (hcode : f.code block = L.header pc ++ tail) (hfollows : L.Follows f (L.plan inst) tail) :
    Building L entry (done ++ [(pc, inst)]) none [] f := by
  refine ⟨h.wf, fun _ hc => (nomatch hc), h.start, h.zero, fun e he => ?_, fun k b hk _ hnot => ?_,
    fun k b hk => ?_, h.exits⟩
  · rcases List.mem_append.mp he with hold | hnew
    · exact h.finished e hold
    obtain rfl := List.mem_singleton.mp hnew
    exact ⟨block, tail, (h.own _ rfl).1, hcode, hfollows⟩
  · refine h.waiting k b hk (fun c hc heq => ?_) fun e he => hnot e (List.mem_append_left _ he)
    cases hc
    exact hnot (pc, inst) (List.mem_append_right _ (List.mem_singleton_self _)) heq.symm
  · have hlast : (pc, inst) ∈ done ++ [(pc, inst)] :=
      List.mem_append_right _ (List.mem_singleton_self _)
    rcases h.known k b hk with hentry | hextra | ⟨e, he, hor⟩
    · exact .inl hentry
    · rcases List.mem_cons.mp hextra with rfl | htarget
      · exact .inr (.inr ⟨_, hlast, .inl rfl⟩)
      · exact .inr (.inr ⟨_, hlast, .inr htarget⟩)
    · exact .inr (.inr ⟨e, List.mem_append_left _ he, hor⟩)

lemma Building.step (h : Building L entry done none [] f) (hnew : ∀ e ∈ done, e.1 ≠ pc)
    (inst : Instruction) : ∃ f', L.liftInstruction f pc inst = some f' ∧
      Building L entry (done ++ [(pc, inst)]) none [] f' := by
  obtain ⟨h1, hcode⟩ := h.begin hnew
  have h2 := h1.set ([.storePc (L.pcConstant pc)] ++
    ((if L.callback then [.callback] else []) ++ [.semantics pc]))
  obtain ⟨f', tail, hbuild, h3, hcode', hfollows⟩ := h2.build (L.plan inst)
  rw [Blocks.code_set_self] at hcode'
  refine ⟨f', ?_, h3.finish hcode' hfollows⟩
  rwa [liftInstruction_eq, Blocks.append, hcode]

lemma Building.run {insts : List (PC × Instruction)} (h : Building L entry done none [] f)
    (hnodup : (done ++ insts).Pairwise fun e e' => e.1 ≠ e'.1) :
    ∃ f', L.liftInstructions f insts = some f' ∧ Building L entry (done ++ insts) none [] f' := by
  induction insts generalizing done f with
  | nil => exact ⟨f, rfl, by rwa [List.append_nil]⟩
  | cons e insts ih =>
  have hnew : ∀ e' ∈ done, e'.1 ≠ e.1 := fun e' he' =>
    (List.pairwise_append.mp hnodup).2.2 e' he' e (.head _)
  obtain ⟨f1, hf1, h1⟩ := h.step hnew e.2
  rw [List.append_cons] at hnodup ⊢
  obtain ⟨f', hf', h'⟩ := ih h1 hnodup
  refine ⟨f', ?_, h'⟩
  simp only [liftInstructions, hf1]
  exact hf'

lemma building_start (L : Lifter) (entry : PC) :
    Building L entry [] none [] (L.branchToEntry entry).2 := by
  -- one block that stands for a program counter, and the entry block
  have hfind : ∀ {k : PC} {b : Nat}, (L.branchToEntry entry).2.find? k = some b →
      k = entry ∧ b = 1 := by
    intro k b hk
    have hlookup : List.lookup k [(entry, 1)] = some b := hk
    by_cases heq : k = entry
    · simp only [List.lookup_cons, heq, beq_self_eq_true, Option.some.injEq] at hlookup
      exact ⟨heq, hlookup.symm⟩
    have hne : (k == entry) = false := beq_false_of_ne heq
    simp [List.lookup_cons, hne] at hlookup
  have hentry : (L.branchToEntry entry).2.find? entry = some 1 := by
    show List.lookup entry [(entry, 1)] = some 1
    simp
  have hsize : (L.branchToEntry entry).2.size = 2 := rfl
  refine ⟨⟨fun k b hk => ?_, fun k k' b hk hk' => ?_⟩, fun _ hc => (nomatch hc),
    ⟨1, hentry, rfl⟩, ⟨Nat.two_pos, fun k hk => ?_⟩, fun e he => (nomatch he), fun k b hk _ _ => ?_,
    fun k b hk => .inl (hfind hk).1, fun b hb hb0 hno => ?_⟩
  · rw [(hfind hk).2, hsize]
    exact Nat.one_lt_two
  · rw [(hfind hk).1, (hfind hk').1]
  · exact absurd (hfind hk).2 Nat.zero_ne_one
  · rw [(hfind hk).1, (hfind hk).2]
    rfl
  · obtain rfl : b = 1 := by
      rw [hsize] at hb
      omega
    exact absurd hentry (hno entry)

lemma terminator?_append_semantics (body : List IR) (pc : PC) :
    terminator? (body ++ [.semantics pc]) = none := by
  simp [terminator?]

lemma terminator?_append_term (body : List IR) (t : Terminator) :
    terminator? (body ++ [.term t]) = some t := by
  simp [terminator?]

lemma terminateStragglers_spec (f : LiftedCode) (blocks : List (PC × Nat)) :
    (terminateStragglers f blocks).size = f.size ∧
      (terminateStragglers f blocks).named = f.named ∧
      ∀ b, (terminateStragglers f blocks).code b =
        if (∃ p ∈ blocks, p.2 = b) ∧ terminator? (f.code b) = none then
          f.code b ++ [.call .missingBlock, .term .ret]
        else f.code b := by
  induction blocks generalizing f with
  | nil => exact ⟨rfl, rfl, fun b => by simp [terminateStragglers]⟩
  | cons p blocks ih =>
  obtain ⟨k, block⟩ := p
  cases hterm : terminator? (f.code block) with
  | some t =>
    obtain ⟨hsize, hnamed, hcode⟩ := ih f
    simp only [terminateStragglers, hterm]
    refine ⟨hsize, hnamed, fun b => ?_⟩
    rw [hcode b]
    by_cases hb : block = b
    · subst hb
      simp [hterm]
    · simp [hb]
  | none =>
  obtain ⟨hsize, hnamed, hcode⟩ := ih (addTerminatingTailCall f block .missingBlock)
  simp only [terminateStragglers, hterm]
  refine ⟨hsize, hnamed, fun b => ?_⟩
  rw [hcode b]
  by_cases hb : block = b
  · subst hb
    have hadded : (addTerminatingTailCall f block .missingBlock).code block =
        f.code block ++ [.call .missingBlock, .term .ret] := Blocks.code_append_self
    have hret : terminator? (f.code block ++ [.call .missingBlock, .term .ret]) =
        some .ret := by
      simp [terminator?]
    rw [hadded, hret]
    simp [hterm]
  have hkept : (addTerminatingTailCall f block .missingBlock).code b = f.code b :=
    Blocks.code_set_of_ne fun heq => hb heq.symm
  rw [hkept]
  simp [hb]

/-- The block has one terminator, at its end. -/
def Terminated (body : List IR) : Prop :=
  ∃ init t, body = init ++ [.term t] ∧ ∀ ir ∈ init, ir.isTerm = false

/-- What `LiftTrace` makes of a trace. -/
structure Lifted (L : Lifter) (trace : DecodedTrace) (f : LiftedCode) : Prop where
  wf : f.WF
  start : ∃ b, f.find? trace.pc = some b ∧ f.code 0 = [.prologue, .term (.br b)]
  zero : 0 < f.size ∧ ∀ k, f.find? k ≠ some 0
  finished : ∀ e ∈ trace.instructions.entries, ∃ b tail, f.find? e.1 = some b ∧
    f.code b = L.header e.1 ++ tail ∧ L.Follows f (L.plan e.2).closed tail
  missing : ∀ k b, f.find? k = some b → k ∉ trace.instructions.keys →
    f.code b = [.storePc (L.pcConstant k), .call .missingBlock, .term .ret]
  known : ∀ k b, f.find? k = some b → k ∈ trace.instructions.keys ∨
    ∃ e ∈ trace.instructions.entries, k ∈ (L.plan e.2).targets
  exits : ∀ b < f.size, b ≠ 0 → (∀ k, f.find? k ≠ some b) → f.code b = [.term .ret]

lemma Follows.terminated {plan : Plan} (h : Follows L f plan tail) (hne : plan ≠ .stays) :
    Terminated tail := by
  cases plan with
  | stays => exact absurd rfl hne
  | leaves callees =>
    refine ⟨callees.map .call, .ret, h, fun ir hir => ?_⟩
    obtain ⟨callee, _, rfl⟩ := List.mem_map.mp hir
    rfl
  | jumps pc =>
    obtain ⟨b, _, rfl⟩ := h
    exact ⟨[], _, rfl, fun ir hir => (nomatch hir)⟩
  | branches taken notTaken =>
    obtain ⟨b, b', _, _, rfl⟩ := h
    exact ⟨[], _, rfl, fun ir hir => (nomatch hir)⟩
  | calls callee next =>
  obtain ⟨b, b', _, _, rfl⟩ := h
  refine ⟨[.call callee], _, rfl, fun ir hir => ?_⟩
  rw [List.mem_singleton.mp hir]
  rfl

lemma Terminated.terminator? {tail : List IR} (h : Terminated tail) (body : List IR) :
    ∃ t, Vmill.terminator? (body ++ tail) = some t := by
  obtain ⟨init, t, rfl, _⟩ := h
  exact ⟨t, by rw [← List.append_assoc, terminator?_append_term]⟩

lemma mem_of_find? {k : PC} {b : Nat} (hk : f.find? k = some b) : ∃ p ∈ f.named, p.2 = b := by
  obtain ⟨l1, l2, hlist, _⟩ := List.lookup_eq_some_iff.mp hk
  exact ⟨(k, b), by rw [hlist]; simp, rfl⟩

/-- The end of `LiftTrace`, once every instruction has its block. -/
lemma Building.close (h : Building L trace.pc trace.instructions.entries none [] f)
    (hentry : trace.pc ∈ trace.instructions.keys) :
    L.Lifted trace (terminateStragglers f f.named) := by
  obtain ⟨hsize, hnamed, hcode⟩ := terminateStragglers_spec f f.named
  generalize terminateStragglers f f.named = f' at hsize hnamed hcode
  have hfind : ∀ k, f'.find? k = f.find? k := fun k => by
    unfold Blocks.find?
    rw [hnamed]
  -- a block with a terminator does not change
  have hkept : ∀ b t, terminator? (f.code b) = some t → f'.code b = f.code b := by
    intro b t hterm
    rw [hcode b, if_neg]
    rintro ⟨_, hnone⟩
    rw [hterm] at hnone
    exact nomatch hnone
  have hopen : ∀ k b, f.find? k = some b → terminator? (f.code b) = none →
      f'.code b = f.code b ++ [.call .missingBlock, .term .ret] := by
    intro k b hk hterm
    rw [hcode b, if_pos ⟨mem_of_find? hk, hterm⟩]
  have hwf : f'.WF := ⟨fun k b hk => by rw [hsize]; exact h.wf.below k b (hfind k ▸ hk),
    fun k k' b hk hk' => h.wf.inj k k' b (hfind k ▸ hk) (hfind k' ▸ hk')⟩
  have hexits : ∀ b < f'.size, b ≠ 0 → (∀ k, f'.find? k ≠ some b) → f'.code b = [.term .ret] := by
    intro b hb hb0 hno
    have hret := h.exits b (hsize ▸ hb) hb0 fun k hk => hno k (by rw [hfind, hk])
    rw [hkept b .ret (by rw [hret]; rfl), hret]
  have hunnamed : ∀ b, (∀ k, f.find? k ≠ some b) → ∀ k, f'.find? k ≠ some b := fun b hno k =>
    hfind k ▸ hno k
  have hexit : ∀ b, Exit f b → Exit f' b := fun b he =>
    ⟨hsize ▸ he.below, hunnamed b he.unnamed,
      by rw [hkept b .ret (by rw [he.returns]; rfl), he.returns]⟩
  refine ⟨hwf, ?_, ⟨hsize ▸ h.zero.1, hunnamed 0 h.zero.2⟩, fun e he => ?_, fun k b hk hnot => ?_,
    fun k b hk => ?_, hexits⟩
  · obtain ⟨b, hb, hcode0⟩ := h.start
    exact ⟨b, (hfind _).trans hb, by rw [hkept 0 _ (by rw [hcode0]; rfl), hcode0]⟩
  · obtain ⟨b, tail, hb, hbody, hf⟩ := h.finished e he
    by_cases hstays : L.plan e.2 = .stays
    · rw [hstays] at hf ⊢
      obtain rfl : tail = [] := hf
      have hnone : terminator? (f.code b) = none := by
        rw [hbody, List.append_nil]
        exact terminator?_append_semantics (_ :: _) e.1
      exact ⟨b, [.call .missingBlock, .term .ret], (hfind _).trans hb,
        by rw [hopen _ b hb hnone, hbody, List.append_nil], rfl⟩
    obtain ⟨t, ht⟩ := (hf.terminated hstays).terminator? (L.header e.1)
    rw [Plan.closed_of_ne hstays]
    exact ⟨b, tail, (hfind _).trans hb, by rw [hkept b t (by rw [hbody, ht]), hbody],
      hf.mono (fun k b hk => (hfind k).trans hk) hexit⟩
  · have hk' : f.find? k = some b := hfind k ▸ hk
    have hbody := h.waiting k b hk' (fun _ hc => (nomatch hc)) fun e he heq =>
      hnot (heq ▸ List.mem_map_of_mem he)
    rw [hopen k b hk' (by rw [hbody]; rfl), hbody]
    rfl
  · rcases h.known k b (hfind k ▸ hk) with rfl | hextra | ⟨e, he, rfl | htarget⟩
    · exact .inl hentry
    · exact nomatch hextra
    · exact .inl (List.mem_map_of_mem he)
    · exact .inr ⟨e, he, htarget⟩

lemma liftTrace_spec (L : Lifter) (hentry : trace.pc ∈ trace.instructions.keys) :
    ∃ f, L.liftTrace trace = some f ∧ L.Lifted trace f := by
  have hnodup : List.Pairwise (fun e e' : PC × Instruction => e.1 ≠ e'.1)
      ([] ++ trace.instructions.entries) :=
    trace.instructions.sorted.imp fun hlt => ne_of_lt hlt
  obtain ⟨f, hf, hbuilding⟩ := (building_start L trace.pc).run hnodup
  refine ⟨_, ?_, hbuilding.close hentry⟩
  have hcontains : trace.instructions.contains trace.pc = true := decide_eq_true hentry
  unfold liftTrace
  simp only [hcontains, Bool.not_true, Bool.false_eq_true, if_false, hf]

end Lifter

end Vmill
