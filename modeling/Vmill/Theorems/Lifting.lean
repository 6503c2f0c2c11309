import Vmill.Logic.Executor
import Vmill.Logic.Heads
import Vmill.Theorems.Traces

/-!
# Lifting for several tasks

The decoder has marked the traces when a task pauses, and does not decode them again; live they
become only when the task is resumed. In between, another task that wants the same code can get
`error_intrinsic`.
-/

namespace Vmill

open Base AddressSpace

namespace Executor

variable {ex ex' : Executor} {inHand traces : List DecodedTrace} {key : LiveTraceId} {cfg : Config}
  {s : AddressSpace} {st : DecoderState} {i task : Nat} {ready : Bool} {op : ExecutorOp}

/-- Another task is lifting a trace with the key. -/
def BeingLifted (ex : Executor) (task : Nat) (key : LiveTraceId) : Prop :=
  ∃ other key' traces ready, other ≠ task ∧ ex.tasks other = .lifting key' traces ready ∧
    ∃ t ∈ traces, t.liveId = key

/-- The side condition of a step. Where a call ends, the code that was asked for is not being lifted
for another task: it is live, or the call has a trace for it of its own, or nobody has. Program
counter zero is not asked for. -/
def NotBeingLifted (ex : Executor) : ExecutorOp → Prop
  | .memory op => ex.world.Guarded op ∧ ∀ i pc, op ≠ .markAsTraceHead i pc
  | .findLiftedFunction task i pc onCoroutine => pc ≠ 0 ∧
      (onCoroutine = false → ex.liveTraces ⟨pc, 0⟩ = none →
        ∀ s, ex.world.spaces[i]? = some s → s.traceHeads pc.val = true →
          ¬ ex.BeingLifted task ⟨pc, 0⟩)
  | .finishJob _ => True
  | .resume task => ∀ key traces, ex.tasks task = .lifting key traces true →
      ex.liveTraces key = none → (∀ t ∈ traces, t.liveId ≠ key) → ¬ ex.BeingLifted task key

/-- The trace is live, or will be. -/
def Pending (ex : Executor) (inHand : List DecodedTrace) (key : LiveTraceId) : Prop :=
  (ex.liveTraces key).isSome = true ∨
    (∃ task key' traces ready, ex.tasks task = .lifting key' traces ready ∧
      ∃ t ∈ traces, t.liveId = key ∧ t.id.pc ≠ 0) ∨
    ∃ t ∈ inHand, t.liveId = key ∧ t.id.pc ≠ 0

/-- A step keeps what is pending if live traces stay live, and if the traces of every
paused task, and those in hand, stay with the task, are in hand, or are live. -/
lemma Pending.step {inHand' : List DecodedTrace} (hp : ex.Pending inHand key)
    (hgrow : Grows ex.liveTraces ex'.liveTraces)
    (htasks : ∀ task key' traces ready, ex.tasks task = .lifting key' traces ready → ∀ t ∈ traces,
      t.id.pc ≠ 0 → ex'.Pending inHand' t.liveId)
    (hhand : ∀ t ∈ inHand, t.id.pc ≠ 0 → ex'.Pending inHand' t.liveId) :
    ex'.Pending inHand' key := by
  rcases hp with hlive | ⟨task, key', traces, ready, htask, t, ht, rfl, hpc⟩ | ⟨t, ht, rfl, hpc⟩
  · exact .inl (hgrow key hlive)
  · exact htasks task key' traces ready htask t ht hpc
  · exact hhand t ht hpc

/-- The invariant: marked entries, and the keys of paused calls, are pending. The
traces in hand and those of paused tasks are named by their entries. -/
structure Lifting (ex : Executor) (inHand : List DecodedTrace) : Prop where
  wf : ex.world.WF
  hand : ∀ t ∈ inHand, t.id.pc = t.pc
  ids : ∀ task key traces ready, ex.tasks task = .lifting key traces ready →
    ∀ t ∈ traces, t.id.pc = t.pc
  heads : ∀ (i : Nat) (s : AddressSpace) (pc : PC), ex.world.spaces[i]? = some s →
    s.traceHeads pc.val = true → pc ≠ 0 → ex.Pending inHand ⟨pc, 0⟩
  keys : ∀ task key traces ready, ex.tasks task = .lifting key traces ready →
    ex.Pending inHand key

lemma lifting_start (live : LiveTraceId → Option TraceId) (codeCache : TraceId → Bool) :
    (start live codeCache).Lifting [] where
  wf := World.init_wf
  hand t ht := absurd ht List.not_mem_nil
  ids task key traces ready htask := by simp [start] at htask
  heads i s pc hi := by simp [start, World.init] at hi
  keys task key traces ready htask := by simp [start] at htask

lemma Lifting.memory (hl : ex.Lifting inHand) {w : World} (hw : w.WF)
    (hheads : ∀ (j : Nat) (t : AddressSpace) (x : Nat), w.spaces[j]? = some t → t.traceHeads x =
      true → ∃ (i : Nat) (s : AddressSpace), ex.world.spaces[i]? = some s ∧ s.traceHeads x = true) :
    ({ ex with world := w } : Executor).Lifting inHand where
  wf := hw
  hand := hl.hand
  ids := hl.ids
  heads j t pc hj hx hpc := by
    obtain ⟨i, s, hi, hx⟩ := hheads j t pc.val hj hx
    exact hl.heads i s pc hi hx hpc
  keys := hl.keys

lemma versionAt_off (hoff : cfg.versionCode = false) (h : Heap) (s : AddressSpace) (a : Nat) :
    versionAt cfg h s a = 0 := by
  unfold versionAt
  rw [hoff, if_neg (by simp)]

lemma liveId_off (hoff : cfg.versionCode = false) {h : Heap} (hd : Decoding cfg h s st)
    {t : DecodedTrace} (ht : t ∈ st.traces) : t.liveId = ⟨t.pc, 0⟩ := by
  unfold DecodedTrace.liveId
  rw [hd.version t ht (.inl hoff), versionAt_off hoff]

lemma Lifting.decoded (hoff : cfg.versionCode = false) (hl : ex.Lifting [])
    (hi : ex.world.spaces[i]? = some s) (hd : Decoding cfg ex.world.heap s st)
    {live : LiveTraceId → Option TraceId}
    (hdrop : dropLifted ex.codeCache ex.liveTraces st.traces = (live, traces)) :
    Lifting { ex with world := ex.world.put i st.space st.heap, liveTraces := live } traces := by
  obtain ⟨hgrow, hdropped⟩ := dropLifted_spec ex.codeCache ex.liveTraces st.traces
  rw [hdrop] at hgrow hdropped
  have hkeep : ∀ key, ex.Pending [] key → Pending
      { ex with world := ex.world.put i st.space st.heap, liveTraces := live } traces key :=
    fun key hp => hp.step hgrow
      (fun task key' traces' ready htask t ht hpc =>
        .inr (.inl ⟨task, key', traces', ready, htask, t, ht, rfl, hpc⟩))
      nofun
  have hnew : ∀ t ∈ st.traces, t.pc ≠ 0 → Pending
      { ex with world := ex.world.put i st.space st.heap, liveTraces := live } traces
      ⟨t.pc, 0⟩ := by
    intro t ht hne
    have hid := liveId_off hoff hd ht
    rcases hdropped t ht with hlive | hmem
    · exact .inl (hid ▸ hlive)
    · exact .inr (.inr ⟨t, hmem, hid, hd.ids t ht ▸ hne⟩)
  have hsub := dropLifted_sublist ex.codeCache ex.liveTraces st.traces
  rw [hdrop] at hsub
  refine ⟨hl.wf.updates hi hd.updates, fun t ht => hd.ids t (hsub.subset ht), hl.ids,
    fun j t x hj hx hne => ?_, fun task key traces' ready htask => hkeep _ (hl.keys _ _ _ _ htask)⟩
  rcases World.put_cases hi hj with ⟨_, rfl⟩ | ⟨_, hj⟩
  · rcases (hd.heads x.val).mp hx with hx | ⟨t, ht, heq⟩
    · exact hkeep _ (hl.heads i s x hi hx hne)
    have heq : t.pc = x := Fin.ext heq
    exact heq ▸ hnew t ht (heq ▸ hne)
  · exact hkeep _ (hl.heads j t x hj hx hne)

lemma Lifting.pause (hl : ex.Lifting traces) (htask : ex.tasks task = .running)
    (hkey : ex.Pending traces key) :
    Lifting
      { ex with
        tasks := Function.update ex.tasks task (.lifting key traces false)
        jobs := ex.jobs ++ [task] } [] := by
  have hkeep : ∀ key', ex.Pending traces key' → Pending
      { ex with
        tasks := Function.update ex.tasks task (.lifting key traces false)
        jobs := ex.jobs ++ [task] } [] key' := by
    intro key' hp
    refine hp.step (Grows.refl _) ?_ ?_
    · intro other key1 traces1 ready hother t ht hpc
      have hne : other ≠ task := fun heq => by rw [heq, htask] at hother; cases hother
      refine .inr (.inl ⟨other, key1, traces1, ready, ?_, t, ht, rfl, hpc⟩)
      rw [← hother]
      exact Function.update_of_ne hne _ _
    intro t ht hpc
    exact .inr (.inl ⟨task, key, traces, false, Function.update_self _ _ _, t, ht, rfl, hpc⟩)
  refine ⟨hl.wf, nofun, fun other key1 traces1 ready hother => ?_,
    fun j t x hj hx hne => hkeep _ (hl.heads j t x hj hx hne),
    fun other key1 traces1 ready hother => ?_⟩
  · by_cases heq : other = task
    · subst heq
      simp only [Function.update_self, TaskState.lifting.injEq] at hother
      exact hother.2.1 ▸ hl.hand
    simp only [Function.update_of_ne heq] at hother
    exact hl.ids other key1 traces1 ready hother
  by_cases heq : other = task
  · subst heq
    simp only [Function.update_self, TaskState.lifting.injEq] at hother
    exact hother.1 ▸ hkeep key hkey
  simp only [Function.update_of_ne heq] at hother
  exact hkeep _ (hl.keys other key1 traces1 ready hother)

lemma Lifting.finish (hl : ex.Lifting traces) (key : LiveTraceId) :
    (ex.finishLifting key traces).2.Lifting [] := by
  obtain ⟨hworld, htasks, hgrow, hall, _⟩ := finishLifting_spec ex key traces
  have hkeep : ∀ key', ex.Pending traces key' →
      (ex.finishLifting key traces).2.Pending [] key' :=
    fun key' hp => hp.step hgrow
      (fun task key1 traces1 ready htask t ht hpc =>
        .inr (.inl ⟨task, key1, traces1, ready, htasks ▸ htask, t, ht, rfl, hpc⟩))
      (fun t ht hpc => .inl (hall t ht hpc))
  exact ⟨hworld ▸ hl.wf, nofun,
    fun task key' traces' ready htask => hl.ids _ _ _ _ (htasks ▸ htask),
    fun i s pc hi hx hpc => hkeep _ (hl.heads i s pc (hworld ▸ hi) hx hpc),
    fun task key' traces' ready htask => hkeep _ (hl.keys _ _ _ _ (htasks ▸ htask))⟩

/-- **What a call finds at its end**: its key, if it is pending, unless another task is paused with
the only trace for it. -/
lemma Lifting.found (hl : ex.Lifting traces) (hp : ex.Pending traces key)
    (htask : ex.tasks task = .running)
    (hcond : ex.liveTraces key = none → (∀ t ∈ traces, t.liveId ≠ key) → ¬ ex.BeingLifted task key) :
    (ex.finishLifting key traces).1 ≠ .error := by
  obtain ⟨_, _, hgrow, hall, hfound⟩ := finishLifting_spec ex key traces
  suffices hlive : ((ex.finishLifting key traces).2.liveTraces key).isSome = true by
    obtain ⟨id, hanswer⟩ := hfound hlive
    rw [hanswer]
    exact nofun
  rcases hp with hlive | ⟨other, key', traces', ready, hother, t, ht, rfl, hpc⟩ | ⟨t, ht, rfl, hpc⟩
  · exact hgrow key hlive
  · by_cases hlive : (ex.liveTraces t.liveId).isSome = true
    · exact hgrow _ hlive
    by_cases hhand : ∃ t' ∈ traces, t'.liveId = t.liveId
    · obtain ⟨t', ht', heq⟩ := hhand
      have hpc' : t'.id.pc = t.id.pc := by
        rw [hl.hand t' ht', hl.ids other key' traces' ready hother t ht]
        exact congrArg LiveTraceId.pc heq
      exact heq ▸ hall t' ht' (hpc' ▸ hpc)
    have hne : other ≠ task := fun heq => by rw [heq, htask] at hother; cases hother
    exact absurd ⟨other, key', traces', ready, hne, hother, t, ht, rfl⟩
      (hcond (by simpa using hlive) fun t' ht' heq => hhand ⟨t', ht', heq⟩)
  · exact hall t ht hpc

/-- **`FindLiftedFunctionForTask`** keeps the invariant, and does not fail if nobody
else is lifting the code it is asked for. -/
lemma Lifting.find (hoff : cfg.versionCode = false) (hl : ex.Lifting []) {pc : PC}
    {onCoroutine : Bool} (hi : ex.world.spaces[i]? = some s) (htask : ex.tasks task = .running)
    (hpc : pc ≠ 0)
    (hcond : onCoroutine = false → ex.liveTraces ⟨pc, 0⟩ = none → s.traceHeads pc.val = true → ¬
      ex.BeingLifted task ⟨pc, 0⟩) {r : Answer × Executor}
    (hf : Finds cfg ex s task i pc onCoroutine r) : r.2.Lifting [] ∧ r.1 ≠ .error := by
  cases hf with
  | looked answer s' h' hu _ hheads hfine =>
    refine ⟨hl.memory (hl.wf.updates hi hu) fun j t x hj hx => ?_, ?_⟩
    · rcases World.put_cases hi hj with ⟨_, rfl⟩ | ⟨_, hj⟩
      · exact ⟨i, s, hi, hheads ▸ hx⟩
      · exact ⟨j, t, hj, hx⟩
    rcases hfine with ⟨id, rfl⟩ | rfl
    · exact nofun
    · exact nofun
  | decoded key live traces st _ hkey hmissing _ hd hmarked hdrop hresult =>
  rw [versionAt_off hoff] at hkey
  subst hkey
  have hl' := hl.decoded hoff hi hd hdrop
  have hkey := hl'.heads i st.space pc (World.put_self hi) hmarked hpc
  cases onCoroutine with
  | true =>
    simp only [if_true] at hresult
    subst hresult
    exact ⟨hl'.pause htask hkey, nofun⟩
  | false =>
  simp only [Bool.false_eq_true, if_false] at hresult
  subst hresult
  refine ⟨hl'.finish _, hl'.found hkey htask fun hnone hhand => ?_⟩
  rcases (hd.heads pc.val).mp hmarked with hold | ⟨t, ht, heq⟩
  · exact hcond rfl hmissing hold
  -- a trace decoded just now is live or in hand
  have hid : t.liveId = ⟨pc, 0⟩ := by rw [liveId_off hoff hd ht, Fin.ext heq]
  have hdropped := (dropLifted_spec ex.codeCache ex.liveTraces st.traces).2 t ht
  rw [hdrop, hid] at hdropped
  rcases hdropped with hlive | hmem
  · simp only at hnone hlive
    rw [hnone] at hlive
    simp at hlive
  · exact absurd hid (hhand t hmem)

lemma Lifting.job (hl : ex.Lifting []) (jobs : List Nat)
    (htask : ex.tasks task = .lifting key traces ready) :
    Lifting
      { ex with tasks := Function.update ex.tasks task (.lifting key traces true), jobs := jobs }
      [] := by
  have htasks : ∀ other key' traces',
      (∃ ready', Function.update ex.tasks task (.lifting key traces true) other =
        .lifting key' traces' ready') ↔
      ∃ ready', ex.tasks other = .lifting key' traces' ready' := by
    intro other key' traces'
    by_cases heq : other = task
    · subst heq
      simp [htask]
    · simp [Function.update_of_ne heq]
  have hkeep : ∀ key', ex.Pending [] key' → Pending
      { ex with tasks := Function.update ex.tasks task (.lifting key traces true), jobs := jobs }
      [] key' := by
    intro key' hp
    refine hp.step (Grows.refl _) ?_ nofun
    intro other key1 traces1 ready1 hother t ht hpc
    obtain ⟨ready', hother'⟩ := (htasks other key1 traces1).mpr ⟨ready1, hother⟩
    exact .inr (.inl ⟨other, key1, traces1, ready', hother', t, ht, rfl, hpc⟩)
  refine ⟨hl.wf, hl.hand, fun other key1 traces1 ready1 hother => ?_,
    fun j t x hj hx hne => hkeep _ (hl.heads j t x hj hx hne),
    fun other key1 traces1 ready1 hother => ?_⟩
  · obtain ⟨ready', hother'⟩ := (htasks other key1 traces1).mp ⟨ready1, hother⟩
    exact hl.ids other key1 traces1 ready' hother'
  · obtain ⟨ready', hother'⟩ := (htasks other key1 traces1).mp ⟨ready1, hother⟩
    exact hkeep _ (hl.keys other key1 traces1 ready' hother')

lemma Lifting.unpause (hl : ex.Lifting []) (htask : ex.tasks task = .lifting key traces ready) :
    Lifting { ex with tasks := Function.update ex.tasks task .running } traces ∧
      Pending { ex with tasks := Function.update ex.tasks task .running } traces key := by
  have hothers : ∀ other key' traces' ready',
      Function.update ex.tasks task .running other = .lifting key' traces' ready' →
      ex.tasks other = .lifting key' traces' ready' := by
    intro other key' traces' ready' hother
    by_cases heq : other = task
    · rw [heq, Function.update_self] at hother
      cases hother
    · rwa [Function.update_of_ne heq] at hother
  have hkeep : ∀ key', ex.Pending [] key' → Pending
      { ex with tasks := Function.update ex.tasks task .running } traces key' := by
    intro key' hp
    refine hp.step (Grows.refl _) ?_ nofun
    intro other key1 traces1 ready1 hother t ht hpc
    by_cases heq : other = task
    · rw [heq, htask] at hother
      cases hother
      exact .inr (.inr ⟨t, ht, rfl, hpc⟩)
    refine .inr (.inl ⟨other, key1, traces1, ready1, ?_, t, ht, rfl, hpc⟩)
    rw [← hother]
    exact Function.update_of_ne heq _ _
  exact ⟨⟨hl.wf, hl.ids task key traces ready htask,
    fun other key1 traces1 ready1 hother => hl.ids _ _ _ _ (hothers _ _ _ _ hother),
    fun j t x hj hx hne => hkeep _ (hl.heads j t x hj hx hne),
    fun other key1 traces1 ready1 hother => hkeep _ (hl.keys _ _ _ _ (hothers _ _ _ _ hother))⟩,
    hkeep key (hl.keys task key traces ready htask)⟩

/-- **Step lemma**: no step fails. -/
lemma Lifting.step (hoff : cfg.versionCode = false) {arch : Arch} {numLiftThreads : Nat}
    (hl : ex.Lifting []) (hcond : ex.NotBeingLifted op) {answer : Answer}
    (hs : (executor cfg arch numLiftThreads).step op ex = some (answer, ex')) :
    ex'.Lifting [] ∧ answer ≠ .error := by
  simp only [executor] at hs
  cases op with
  | memory op =>
    simp only [Executor.step] at hs
    split at hs
    · cases hs
    next out w hstep =>
      cases hs
      have he := World.step_effect hl.wf hcond.1 hstep
      exact ⟨hl.memory (he.wf hl.wf) fun j t x hj hx => he.heads hl.wf hcond.2 hj hx, nofun⟩
  | findLiftedFunction task i pc onCoroutine =>
    simp only [Executor.step] at hs
    split at hs
    · cases hs
    next htask =>
      cases hi : ex.world.spaces[i]? with
      | none => simp [findLiftedFunctionForTask, hi] at hs
      | some s =>
      obtain ⟨r, hr, hf⟩ := find_cases cfg arch hl.wf task hi pc onCoroutine
      rw [hr] at hs
      cases hs
      exact hl.find hoff hi htask hcond.1 (fun hc hn hm => hcond.2 hc hn s hi hm) hf
  | finishJob task =>
    simp only [Executor.step] at hs
    split at hs
    · cases hs
    next key traces ready htask =>
      split at hs
      · cases hs
        exact ⟨hl.job _ htask, nofun⟩
      · cases hs
  | resume task =>
  simp only [Executor.step] at hs
  split at hs
  · cases hs
  · cases hs
    exact ⟨hl, nofun⟩
  next key traces htask =>
    obtain ⟨hl', hkey⟩ := hl.unpause htask
    have hr := Option.some.inj hs
    have hfound := hl'.found hkey (Function.update_self task _ ex.tasks)
      fun hnone hhand hbeing => hcond key traces htask hnone hhand ?_
    · rw [hr] at hfound
      exact ⟨by simpa only [hr] using hl'.finish key, hfound⟩
    · obtain ⟨other, key', traces', ready, hne, hother, t, ht, hid⟩ := hbeing
      simp only [Function.update_of_ne hne] at hother
      exact ⟨other, key', traces', ready, hne, hother, t, ht, hid⟩

/-- A test: a lookup that has lifted ends with a live trace or one of its own. -/
def endsWithOwnTraces (ex : Executor) : ExecutorOp → Bool
  | .memory op => decide (ex.world.Guarded op) &&
      match op with
      | .markAsTraceHead _ _ => false
      | _ => true
  | .findLiftedFunction _ _ pc onCoroutine => decide (pc ≠ 0) && onCoroutine
  | .finishJob _ => true
  | .resume task =>
    match ex.tasks task with
    | .lifting key traces true =>
      (ex.liveTraces key).isSome || traces.any (fun t => decide (t.liveId = key))
    | _ => true

lemma notBeingLifted_of_endsWithOwnTraces (h : ex.endsWithOwnTraces op = true) :
    ex.NotBeingLifted op := by
  cases op with
  | memory op =>
    obtain ⟨hguard, hop⟩ := Bool.and_eq_true_iff.mp h
    refine ⟨of_decide_eq_true hguard, fun i pc heq => ?_⟩
    rw [heq] at hop
    cases hop
  | findLiftedFunction task i pc onCoroutine =>
    obtain ⟨hpc, hon⟩ := Bool.and_eq_true_iff.mp h
    exact ⟨of_decide_eq_true hpc, fun hoff => absurd (hon.symm.trans hoff) (by simp)⟩
  | finishJob task => trivial
  | resume task =>
  intro key traces htask hnone hhand
  simp only [endsWithOwnTraces, htask, hnone, Option.isSome_none, Bool.false_or,
    List.any_eq_true, decide_eq_true_eq] at h
  obtain ⟨t, ht, heq⟩ := h
  exact absurd heq (hhand t ht)

end Executor

/-- **Finding lifted code.** With `--version_code` off, for every interleaving, code cache and
index: if no call for code that another task is lifting ends before that task has made it live, no
call ends with `error_intrinsic` without a fault. -/
theorem find_never_fails {cfg : Config} (hoff : cfg.versionCode = false) (arch : Arch)
    (numLiftThreads : Nat) (live : LiveTraceId → Option TraceId) (codeCache : TraceId → Bool)
    {ops : List ExecutorOp} {answers : List Answer} {ex : Executor}
    (hmeets : (executor cfg arch numLiftThreads).RunMeets Executor.NotBeingLifted ops
      (Executor.start live codeCache))
    (hrun : (executor cfg arch numLiftThreads).run ops (Executor.start live codeCache) =
      some (answers, ex)) : ∀ answer ∈ answers, answer ≠ .error := by
  refine Machine.run_outputs (I := fun ex => ex.Lifting []) (fun ex op answer ex' hl hcond hs => ?_)
    (Executor.lifting_start live codeCache) hmeets hrun
  exact hl.step hoff hcond hs

def twoProcedures : List ExecutorOp :=
  [.memory .new, .memory (.addMap 0 0x1000 0x2000 none 0), .memory (.tryWrite 0 0x1000 [1, 3]),
    .memory (.tryWrite 0 0x2000 [3]), .memory (.setPermissions 0 0x1000 0x2000 true false true)]

/-- Two tasks ask for the same code. The first one has it lifted and is resumed
first; both find it. -/
theorem find_never_fails_in_order :
    ∃ answers ex id, (executor (amd64 false) toyArch 1).run
      (twoProcedures ++ [.findLiftedFunction 1 0 0x1000 true, .findLiftedFunction 2 0 0x1000 true,
        .finishJob 1, .finishJob 2, .resume 1, .resume 2])
      (Executor.start (fun _ => none) (fun _ => false)) = some (answers, ex) ∧
    answers.drop 9 = [.found id, .found id] ∧ ∀ answer ∈ answers, answer ≠ .error := by
  have heval : (((executor (amd64 false) toyArch 1).run
      (twoProcedures ++ [.findLiftedFunction 1 0 0x1000 true, .findLiftedFunction 2 0 0x1000 true,
        .finishJob 1, .finishJob 2, .resume 1, .resume 2])
      (Executor.start (fun _ => none) (fun _ => false))).any fun r =>
        decide (r.1.drop 9 = [.found ⟨0x1000, 33562626⟩, .found ⟨0x1000, 33562626⟩])) = true := by
    decide +kernel
  obtain ⟨⟨answers, ex⟩, hrun, hanswers⟩ := (Option.any_eq_true _ _).mp heval
  refine ⟨answers, ex, _, hrun, of_decide_eq_true hanswers, find_never_fails rfl toyArch 1
    (fun _ => none) (fun _ => false) ?_ hrun⟩
  exact Machine.RunMeets.mono
    (P := fun ex op => ex.endsWithOwnTraces op = true) (by decide +kernel)
    fun _ _ h => Executor.notBeingLifted_of_endsWithOwnTraces h

/-- The same calls, with the second task resumed first: it gets `error_intrinsic`. -/
theorem find_fails_out_of_order :
    ∃ answers ex s, (executor (amd64 false) toyArch 1).run
      (twoProcedures ++ [.findLiftedFunction 1 0 0x1000 true, .findLiftedFunction 2 0 0x1000 true,
        .finishJob 1, .finishJob 2, .resume 2])
      (Executor.start (fun _ => none) (fun _ => false)) = some (answers, ex) ∧
    answers.getLast? = some .error ∧ ex.world.spaces[0]? = some s ∧
    s.canExecute 0x1000 = true := by
  have heval : (((executor (amd64 false) toyArch 1).run
      (twoProcedures ++ [.findLiftedFunction 1 0 0x1000 true, .findLiftedFunction 2 0 0x1000 true,
        .finishJob 1, .finishJob 2, .resume 2])
      (Executor.start (fun _ => none) (fun _ => false))).any fun r =>
        decide (r.1.getLast? = some .error) && (r.2.world.spaces[0]?).any fun s =>
          s.canExecute 0x1000) = true := by
    decide +kernel
  obtain ⟨⟨answers, ex⟩, hrun, hfacts⟩ := (Option.any_eq_true _ _).mp heval
  obtain ⟨hlast, hspace⟩ := Bool.and_eq_true_iff.mp hfacts
  obtain ⟨s, hs, hexec⟩ := (Option.any_eq_true _ _).mp hspace
  exact ⟨answers, ex, s, hrun, of_decide_eq_true hlast, hs, hexec⟩

end Vmill
