import Vmill.Logic.Executor
import Vmill.Logic.Marked
import Vmill.Theorems.Traces
import Vmill.Theorems.Versions

/-!
# Marked code is live

Code is looked up under the version of its range, and a marked trace head is not decoded again.
Marks are dropped in one place only, where the page loop of `TryWrite` gets to an executable page;
the version below a mark changes in other places as well (`KeepsCode`).
-/

namespace Vmill

open Base AddressSpace

namespace Executor

variable {cfg : Config} {arch : Arch} {ex ex' : Executor} {op : Op} {w : World}
  {i numLiftThreads : Nat} {s : AddressSpace} {live : LiveTraceId → Option TraceId}
  {traces : List DecodedTrace} {pc : PC} {onCoroutine : Bool} {answer : Answer} {ops : List TaskOp}

/-- The call leaves marked code alone. -/
def KeepsCode (cfg : Config) (ex : Executor) : TaskOp → Prop
  | .memory op => ex.world.KeepsMarks cfg op
  | .findLiftedFunction i _ _ =>
    ∀ s, ex.world.spaces[i]? = some s → s.accessible 0 = false

/-- Every marked trace head has a live trace. -/
structure Settled (cfg : Config) (ex : Executor) : Prop where
  wf : ex.world.WF
  parents : Heap.ParentsOk cfg.hash ex.world.heap
  live : ∀ (i : Nat) (s : AddressSpace) (pc : PC), ex.world.spaces[i]? = some s →
    Marked s pc.val → (ex.liveTraces ⟨pc, versionAt cfg ex.world.heap s pc.val⟩).isSome = true

lemma settled_start (cfg : Config) (live : LiveTraceId → Option TraceId)
    (codeCache : TraceId → Bool) : (start live codeCache).Settled cfg where
  wf := World.init_wf
  parents p q hk := by simp [start, World.init, newRange] at hk
  live i s pc hi := by simp [start, World.init] at hi

lemma Settled.memory (hon : cfg.versionCode = true) (hl : ex.Settled cfg) {out : Out}
    (hkeeps : ex.world.KeepsMarks cfg op) (hstep : World.step cfg op ex.world = some (out, w)) :
    ({ ex with world := w } : Executor).Settled cfg := by
  have he := World.step_effect hl.wf hkeeps.1 hstep
  refine ⟨he.wf hl.wf, he.parentsOk hl.wf hl.parents, fun j t pc hj hm => ?_⟩
  obtain ⟨i, s, hi, hms, hversion⟩ := he.marked hon hl.wf hl.parents hkeeps hj hm
  show (ex.liveTraces ⟨pc, versionAt cfg w.heap t pc.val⟩).isSome = true
  rw [hversion]
  exact hl.live i s pc hi hms

lemma Settled.looked (hl : ex.Settled cfg) {s' : AddressSpace} {h' : Heap}
    {v : Nat → Option UInt8} (hi : ex.world.spaces[i]? = some s)
    (hu : Updates ex.world.heap s h' s' v) (hc : Heap.Cached cfg.hash ex.world.heap h')
    (hworld : ex'.world = ex.world.put i s' h') (hgrow : Grows ex.liveTraces ex'.liveTraces)
    (hnew : ∀ pc : PC, Marked s' pc.val → Marked s pc.val ∨ (ex'.liveTraces ⟨pc, versionAt cfg
      ex.world.heap s pc.val⟩).isSome = true) : ex'.Settled cfg := by
  refine ⟨?_, ?_, fun j t pc hj hm => ?_⟩
  · rw [hworld]
    exact hl.wf.updates hi hu
  · rw [hworld]
    exact hc.parentsOk hl.parents
  rw [hworld] at hj ⊢
  show (ex'.liveTraces ⟨pc, versionAt cfg h' t pc.val⟩).isSome = true
  rcases World.put_cases hi hj with ⟨_, rfl⟩ | ⟨_, hj⟩
  · rw [versionAt_cached hl.wf.heap hu hc]
    rcases hnew pc hm with hold | hlive
    · exact hgrow _ (hl.live i s pc hi hold)
    · exact hlive
  rw [World.cached_versionAt hl.wf hc]
  exact hgrow _ (hl.live j t pc hj hm)

lemma Settled.decoded (hl : ex.Settled cfg) (hi : ex.world.spaces[i]? = some s)
    (hzero : s.accessible 0 = false) {st : DecoderState} (hd : Decoding cfg ex.world.heap s st)
    (hdrop : dropLifted ex.codeCache ex.liveTraces st.traces = (live, traces))
    (hworld : ex'.world = ex.world.put i st.space st.heap) (hgrow : Grows live ex'.liveTraces)
    (hlifted : ∀ t ∈ traces, t.id.pc ≠ 0 → (ex'.liveTraces t.liveId).isSome = true) :
    ex'.Settled cfg := by
  obtain ⟨hgrow', hdropped⟩ := dropLifted_spec ex.codeCache ex.liveTraces st.traces
  rw [hdrop] at hgrow' hdropped
  refine hl.looked hi hd.updates hd.cached hworld (hgrow'.trans hgrow) fun pc hm => ?_
  obtain ⟨hhead, hacc⟩ := hm
  rw [hd.updates.accessed.accessible, hd.updates.accessed.addrMask] at hacc
  rcases (hd.heads pc.val).mp hhead with hold | ⟨t, ht, heq⟩
  · exact .inl ⟨hold, hacc⟩
  -- the trace was decoded just now; its program counter is not zero
  obtain rfl : t.pc = pc := Fin.ext heq
  have hkey : t.liveId = ⟨t.pc, versionAt cfg ex.world.heap s t.pc.val⟩ := by
    unfold DecodedTrace.liveId
    rw [hd.version t ht (.inr hacc)]
  have hpc : t.id.pc ≠ 0 := by
    rw [hd.ids t ht]
    intro hz
    have hpage : alignDownToPage ((0 : PC).val &&& s.addrMask) = 0 := by
      rw [show (0 : PC).val = 0 from rfl, Nat.zero_and]
      rfl
    rw [hz, hpage, hzero] at hacc
    simp at hacc
  right
  rw [← hkey]
  rcases hdropped t ht with hlive | hmem
  · exact hgrow _ hlive
  · exact hlifted t hmem hpc

lemma finishLifting_ne_paused (ex : Executor) (liveId : LiveTraceId)
    (traces : List DecodedTrace) : (ex.finishLifting liveId traces).1 ≠ .paused := by
  unfold finishLifting
  simp only
  split
  · simp
  · simp

lemma completeFind_decoded
    {liveId : LiveTraceId}
    (hfind : Executor.step cfg arch numLiftThreads (.findLiftedFunction 0 i pc onCoroutine) ex =
      some (if onCoroutine then
          (.paused,
            { ex with
              world := w
              liveTraces := live
              tasks := Function.update ex.tasks 0 (.lifting liveId traces false)
              jobs := ex.jobs ++ [0] })
        else finishLifting { ex with world := w, liveTraces := live } liveId traces))
    (hrun : ex.completeFind cfg arch numLiftThreads i pc onCoroutine = some (answer, ex')) :
    ∃ ex1 : Executor, ex1.world = w ∧ ex1.liveTraces = live ∧
      finishLifting ex1 liveId traces = (answer, ex') := by
  unfold completeFind at hrun
  rw [hfind] at hrun
  cases onCoroutine with
  | false =>
    have hne := finishLifting_ne_paused { ex with world := w, liveTraces := live } liveId traces
    simp only [Bool.false_eq_true, if_false] at hrun
    split at hrun
    · next heq =>
        rw [Option.some.injEq] at heq
        exact absurd (congrArg Prod.fst heq) hne
    · exact ⟨{ ex with world := w, liveTraces := live }, rfl, rfl, Option.some.inj hrun⟩
  | true =>
  simp only [if_true, Executor.step, Function.update_self] at hrun
  -- the lift job ends, and the task is resumed
  by_cases hjob : 0 ∈ (ex.jobs ++ [0]).take numLiftThreads
  · rw [if_pos hjob] at hrun
    simp only [Function.update_self] at hrun
    exact ⟨_, rfl, rfl, Option.some.inj hrun⟩
  rw [if_neg hjob] at hrun
  cases hrun

/-- **A whole call** keeps the invariant, and does not end with `error_intrinsic` without a
fault. -/
lemma Settled.find (hl : ex.Settled cfg)
    (hzero : ∀ s, ex.world.spaces[i]? = some s → s.accessible 0 = false)
    (hrun : ex.completeFind cfg arch numLiftThreads i pc onCoroutine = some (answer, ex')) :
    ex'.Settled cfg ∧ answer ≠ .error := by
  cases htask : ex.tasks 0 with
  | lifting key traces ready =>
    simp only [completeFind, Executor.step, htask] at hrun
    cases hrun
  | running =>
  cases hi : ex.world.spaces[i]? with
  | none =>
    simp only [completeFind, Executor.step, htask, findLiftedFunctionForTask, hi] at hrun
    cases hrun
  | some s =>
  obtain ⟨r, hr, hf⟩ := find_cases cfg arch hl.wf 0 hi pc onCoroutine
  have hfind : Executor.step cfg arch numLiftThreads
      (.findLiftedFunction 0 i pc onCoroutine) ex = some r := by
    simp only [Executor.step, htask]
    exact hr
  cases hf with
  | looked found s' h' hu hc hheads hfine =>
    have hanswer : found ≠ .paused ∧ found ≠ .error := by
      rcases hfine with ⟨id, rfl⟩ | rfl
      · exact ⟨nofun, nofun⟩
      · exact ⟨nofun, nofun⟩
    unfold completeFind at hrun
    rw [hfind] at hrun
    split at hrun
    · next heq =>
        rw [Option.some.injEq] at heq
        exact absurd (congrArg Prod.fst heq) hanswer.1
    cases hrun
    refine ⟨hl.looked hi hu hc rfl (Grows.refl _) fun pc' hm => .inl ?_, hanswer.2⟩
    exact hu.accessed.marked hheads hm
  | decoded liveId live traces st _ hkey hmissing hexec hd hmarked hdrop hresult =>
  rw [hresult] at hfind
  obtain ⟨ex1, hworld, hlive, hfinish⟩ := completeFind_decoded hfind hrun
  obtain ⟨hworld', _, hgrow, hall, hfound⟩ := finishLifting_spec ex1 liveId traces
  rw [hfinish] at hworld' hgrow hall hfound
  have hl' : ex'.Settled cfg := hl.decoded hi (hzero s hi) hd hdrop
    (hworld'.trans hworld) (hlive ▸ hgrow) hall
  refine ⟨hl', ?_⟩
  -- the program counter is marked and executable now, so it is live
  have hspace : ex'.world.spaces[i]? = some st.space := by
    rw [hworld', hworld]
    exact World.put_self hi
  have hacc := accessible_of_canExecute hexec
  have hnow := hl'.live i st.space pc hspace ⟨hmarked, by
    rw [hd.updates.accessed.accessible, hd.updates.accessed.addrMask]
    exact hacc⟩
  rw [hworld', hworld] at hnow
  have hversion : versionAt cfg (ex.world.put i st.space st.heap).heap st.space pc.val =
      versionAt cfg ex.world.heap s pc.val :=
    versionAt_cached hl.wf.heap hd.updates hd.cached pc.val
  rw [hversion, ← hkey] at hnow
  obtain ⟨id, hid⟩ := hfound hnow
  exact fun herr => nomatch hid.symm.trans herr

lemma Settled.step (hon : cfg.versionCode = true) (hl : ex.Settled cfg) {op : TaskOp}
    (hkeeps : ex.KeepsCode cfg op)
    (hs : (singleTask cfg arch numLiftThreads).step op ex = some (answer, ex')) :
    ex'.Settled cfg ∧ answer ≠ .error := by
  cases op with
  | memory op =>
    simp only [singleTask, Executor.step] at hs
    split at hs
    · cases hs
    next out w hstep =>
      cases hs
      exact ⟨hl.memory hon hkeeps hstep, nofun⟩
  | findLiftedFunction i pc onCoroutine => exact hl.find hkeeps hs

/-- There is no trace head. -/
def Unmarked (w : World) : Prop :=
  ∀ (i : Nat) (s : AddressSpace) (x : Nat), w.spaces[i]? = some s → s.traceHeads x = false

lemma keepsMarks_of_unmarked (hun : Unmarked w) (hguard : w.Guarded op)
    (hop : ∀ i pc, op ≠ .markAsTraceHead i pc) : w.KeepsMarks cfg op := by
  refine ⟨hguard, fun i s _ hi => ?_⟩
  have hno : ∀ pc, s.traceHeads pc ≠ true := fun pc hpc =>
    absurd ((hun i s pc hi).symm.trans hpc) (by simp)
  have hpin : ∀ p, Pinned w.heap s p := fun p hp => by
    obtain ⟨pc, hm, _⟩ := hp
    exact absurd hm.head (hno pc)
  have hwrite : ∀ a n quick, WriteKeepsMarks w.heap s a n quick := fun a n quick =>
    ⟨fun _ _ => hpin _, .inr ⟨fun _ => hpin _, fun p _ _ _ => hpin p⟩⟩
  have hremap : ∀ base limit m, RemapKeepsMarks w.heap s base limit m := fun base limit m =>
    ⟨fun _ pc hpc => absurd hpc (hno pc), fun p pc hm => absurd hm.head (hno pc)⟩
  cases op with
  | addMap => exact hremap ..
  | removeMap => exact hremap ..
  | setPermissions => exact fun _ pc hpc => absurd hpc (hno pc)
  | copy =>
    rintro p ⟨pc, hm, _⟩
    exact absurd hm.head (hno pc)
  | tryWrite | tryWriteByte | tryWriteTyped => exact hwrite ..
  | markAsTraceHead i pc => exact absurd rfl (hop i pc)
  | _ => trivial

/-- A test: a guarded call that marks no trace head. -/
def marksNothing (ex : Executor) : TaskOp → Bool
  | .memory (.markAsTraceHead _ _) => false
  | .memory op => decide (ex.world.Guarded op)
  | .findLiftedFunction _ _ _ => false

lemma runMeets_of_marksNothing (live : LiveTraceId → Option TraceId) (codeCache : TraceId → Bool)
    (hrun : (singleTask cfg arch numLiftThreads).RunMeets (fun ex op => ex.marksNothing op = true)
      ops (start live codeCache)) :
    (singleTask cfg arch numLiftThreads).RunMeets (KeepsCode cfg) ops (start live codeCache) := by
  have hinv : ∀ {ex : Executor} {op : Op}, ex.marksNothing (.memory op) = true →
      ex.world.Guarded op ∧ ∀ i pc, op ≠ .markAsTraceHead i pc := by
    intro ex op hop
    cases op with
    | markAsTraceHead => cases hop
    | _ => exact ⟨of_decide_eq_true hop, nofun⟩
  refine Machine.RunMeets.mono (Machine.RunMeets.invariant
    (I := fun ex => ex.world.WF ∧ Unmarked ex.world) ?_ ?_ hrun) ?_
  · intro ex op answer ex' hI hop hs
    cases op with
    | memory op =>
      obtain ⟨hguard, hno⟩ := hinv hop
      simp only [singleTask, Executor.step] at hs
      split at hs
      · cases hs
      next out w hstep =>
        cases hs
        have he := World.step_effect hI.1 hguard hstep
        refine ⟨he.wf hI.1, fun j t x hj => ?_⟩
        by_contra hx
        obtain ⟨i, s, hi, hold⟩ := he.heads hI.1 hno hj (Bool.not_eq_false _ ▸ hx)
        exact absurd ((hI.2 i s x hi).symm.trans hold) (by simp)
    | findLiftedFunction => cases hop
  · exact ⟨World.init_wf, fun i s x hi => by simp [start, World.init] at hi⟩
  · intro ex op hop
    cases op with
    | memory op =>
      obtain ⟨hguard, hno⟩ := hinv hop.2
      exact keepsMarks_of_unmarked hop.1.2 hguard hno
    | findLiftedFunction => cases hop.2

/-- A test: the write reaches executable memory at once. -/
def startsInCode (h : Heap) (s : AddressSpace) (a n : Nat) : Bool :=
  decide (a % 4096 = 0 ∧ a < wrap64 (a + n)) && s.canWriteAligned a && s.canExecuteAligned a &&
    s.maps.any fun p => decide ((h.obj p).contains a = true) && h.isValid p

lemma storesToCode_of_startsInCode {h : Heap} (hwf : h.WF) {a n : Nat}
    (hstart : startsInCode h s a n = true) : StoresToCode h s a n := by
  simp only [startsInCode, Bool.and_eq_true, decide_eq_true_eq, List.any_eq_true] at hstart
  obtain ⟨⟨⟨⟨hmod, hlt⟩, hw⟩, hx⟩, p, hp, hin, hvalid⟩ := hstart
  have halt : a < 2 ^ 64 := hlt.trans (wrap64_lt _)
  have hpage : alignDownToPage a = a := alignDownToPage_of_aligned halt hmod
  refine ⟨a, ⟨le_rfl, hlt, fun y hy hya => ?_⟩, by rw [hpage]; exact hx⟩
  obtain rfl : y = a := by omega
  rw [hpage]
  exact ⟨hw, p, hp, (Heap.isValid_iff hwf).mp hvalid, Heap.contains_iff.mp hin⟩

/-- A test: only code is written, and page 0 is not accessible. -/
def rewritesCode (ex : Executor) : TaskOp → Bool
  | .memory (.tryWrite i addr vals) => (ex.world.spaces[i]?).all fun s =>
    startsInCode ex.world.heap s (addr &&& s.addrMask) vals.length
  | .memory _ => false
  | .findLiftedFunction i _ _ => (ex.world.spaces[i]?).all fun s => !s.accessible 0

lemma keepsCode_of_rewritesCode (hwf : ex.world.heap.WF) {op : TaskOp}
    (hop : ex.rewritesCode op = true) : ex.KeepsCode cfg op := by
  cases op with
  | memory op =>
    cases op with
    | tryWrite i addr vals =>
      refine ⟨World.guarded_of_isAccess rfl _, fun j s htarget hj => ?_⟩
      cases htarget
      have hstart := (Option.all_eq_true _ _).mp hop s hj
      exact ⟨nofun, .inl (storesToCode_of_startsInCode hwf hstart)⟩
    | _ => cases hop
  | findLiftedFunction i pc onCoroutine =>
  intro s hi
  have hzero := (Option.all_eq_true _ _).mp hop s hi
  simpa using hzero

lemma runMeets_of_rewritesCode (hon : cfg.versionCode = true) (hl : ex.Settled cfg)
    (hops : (singleTask cfg arch numLiftThreads).RunMeets (fun ex op => ex.rewritesCode op = true)
      ops ex) : (singleTask cfg arch numLiftThreads).RunMeets (KeepsCode cfg) ops ex := by
  refine Machine.RunMeets.mono (Machine.RunMeets.invariant (I := Settled cfg) ?_ hl hops) ?_
  · intro ex op answer ex' hl hop hs
    exact (hl.step hon (keepsCode_of_rewritesCode hl.wf.heap hop) hs).1
  intro ex op hop
  exact keepsCode_of_rewritesCode hop.1.wf.heap hop.2

end Executor

/-- **Marked code is live.** With `--version_code` on, for one task: in every run in which no step
changes the version below a mark, an executable and marked program counter is live under its code
version, and no call ends with `error_intrinsic` without a fault. -/
theorem marked_code_is_live {cfg : Config} (hon : cfg.versionCode = true) (arch : Arch)
    (numLiftThreads : Nat) (live : LiveTraceId → Option TraceId) (codeCache : TraceId → Bool)
    {ops : List TaskOp} {answers : List Answer} {ex : Executor}
    (hmeets : (singleTask cfg arch numLiftThreads).RunMeets (Executor.KeepsCode cfg) ops
      (Executor.start live codeCache))
    (hrun : (singleTask cfg arch numLiftThreads).run ops (Executor.start live codeCache) =
      some (answers, ex)) :
    (∀ (i : Nat) (s : AddressSpace) (pc : PC), ex.world.spaces[i]? = some s →
      s.canExecute pc.val = true → s.isMarkedTraceHead pc.val = true →
      (ex.liveTraces ⟨pc, (computeCodeVersion cfg s ex.world.heap pc.val).1⟩).isSome = true) ∧
    ∀ answer ∈ answers, answer ≠ .error := by
  have hstart := Executor.settled_start cfg live codeCache
  constructor
  · have hl := Machine.run_preserves (I := Executor.Settled cfg)
      (fun ex op answer ex' hl hkeeps hs => (hl.step hon hkeeps hs).1) hstart hmeets hrun
    intro i s pc hi hexec hmarked
    have hacc := accessible_of_canExecute hexec
    rw [computeCodeVersion_eq cfg hl.wf.heap (hl.wf.space i s hi) (.inr hacc)]
    exact hl.live i s pc hi ⟨hmarked, hacc⟩
  · exact Machine.run_outputs (I := Executor.Settled cfg)
      (fun ex op answer ex' hl hkeeps hs => hl.step hon hkeeps hs) hstart hmeets hrun

def loadProcedure : List TaskOp :=
  [.memory .new, .memory (.addMap 0 0x1000 0x1000 none 0),
    .memory (.setPermissions 0 0x1000 0x1000 true true true), .memory (.tryWrite 0 0x1000 [3])]

def rewriteProcedure : List TaskOp :=
  [.findLiftedFunction 0 0x1000 true, .memory (.tryWrite 0 0x1000 [2, 3, 3]),
    .findLiftedFunction 0 0x1000 false]

/-- Code versions that are told from the first byte of a range. -/
def firstByteVersions : Config :=
  { amd64 true with hash := fun bytes => (bytes.headD 0).toNat }

abbrev freshExecutor : Executor := Executor.start (fun _ => none) (fun _ => false)

lemma loadProcedure_marksNothing : (singleTask firstByteVersions toyArch 1).RunMeets
    (fun ex op => ex.marksNothing op = true) loadProcedure freshExecutor := by
  decide +kernel

lemma rewriteProcedure_eval :
    (((singleTask firstByteVersions toyArch 1).run loadProcedure freshExecutor).any fun r =>
      decide ((singleTask firstByteVersions toyArch 1).RunMeets
        (fun ex op => ex.rewritesCode op = true) rewriteProcedure r.2 ∧
      ((singleTask firstByteVersions toyArch 1).run rewriteProcedure r.2).map Prod.fst =
        some [.found ⟨0x1000, 16777217⟩, .memory (.wrote true), .found ⟨0x1000, 50356227⟩])) =
      true := by
  decide +kernel

/-- The second lookup finds other code than the first one. -/
theorem marked_code_rewritten :
    ∃ answers ex, (singleTask firstByteVersions toyArch 1).run (loadProcedure ++ rewriteProcedure)
        freshExecutor = some (answers, ex) ∧
      answers.drop 4 = [.found ⟨0x1000, 16777217⟩, .memory (.wrote true),
        .found ⟨0x1000, 50356227⟩] ∧
      (∀ (i : Nat) (s : AddressSpace) (pc : PC), ex.world.spaces[i]? = some s →
        s.canExecute pc.val = true → s.isMarkedTraceHead pc.val = true →
        (ex.liveTraces ⟨pc, (computeCodeVersion firstByteVersions s ex.world.heap pc.val).1⟩).isSome =
          true) ∧ ∀ answer ∈ answers, answer ≠ .error := by
  obtain ⟨⟨loaded, ex1⟩, hload, hfacts⟩ := (Option.any_eq_true _ _).mp rewriteProcedure_eval
  obtain ⟨hchecks, hanswers⟩ := of_decide_eq_true hfacts
  obtain ⟨⟨found, ex⟩, hrewrite, rfl⟩ := Option.map_eq_some_iff.mp hanswers
  have hmeets := Executor.runMeets_of_marksNothing _ _ loadProcedure_marksNothing
  have hsettled := Machine.run_preserves (I := Executor.Settled firstByteVersions)
    (fun ex op answer ex' hl hkeeps hs => (hl.step rfl hkeeps hs).1)
    (Executor.settled_start firstByteVersions _ _) hmeets hload
  have hmeets' := hmeets.append hload (Executor.runMeets_of_rewritesCode rfl hsettled hchecks)
  have hrun := Machine.run_append hload hrewrite
  have hlength := Machine.run_length hload
  refine ⟨_, ex, hrun, ?_, marked_code_is_live rfl toyArch 1 _ _ hmeets' hrun⟩
  exact List.drop_left' hlength

def replaceProcedure : List TaskOp :=
  [.memory .new, .memory (.addMap 0 0x1000 0x1000 none 0), .memory (.tryWrite 0 0x1000 [3]),
    .memory (.setPermissions 0 0x1000 0x1000 true false true),
    .findLiftedFunction 0 0x1000 true, .memory (.addMap 0 0x1000 0x1000 none 0),
    .memory (.setPermissions 0 0x1000 0x1000 true false true)]

/-- `AddMap` leaves the mark of the old code, and the new range has another version: the next lookup
does not decode and ends with `error_intrinsic`. -/
theorem marked_code_not_live :
    Function.Injective (amd64 true).hash ∧ ∃ answers ex s id,
      (singleTask (amd64 true) toyArch 1).run replaceProcedure freshExecutor =
        some (answers, ex) ∧
      ex.world.spaces[0]? = some s ∧ .found id ∈ answers ∧
      s.canExecute 0x1000 = true ∧ s.isMarkedTraceHead 0x1000 = true ∧
      ex.liveTraces ⟨0x1000, (computeCodeVersion (amd64 true) s ex.world.heap 0x1000).1⟩ = none ∧
      (ex.completeFind (amd64 true) toyArch 1 0 0x1000 true).map Prod.fst = some .error := by
  refine ⟨amd64_hash_injective true, ?_⟩
  have heval : (((singleTask (amd64 true) toyArch 1).run replaceProcedure freshExecutor).any fun r =>
      (r.2.world.spaces[0]?).any fun s => s.canExecute 0x1000 && s.isMarkedTraceHead 0x1000 &&
        (r.2.liveTraces
          ⟨0x1000, (computeCodeVersion (amd64 true) s r.2.world.heap 0x1000).1⟩).isNone &&
        decide (Answer.found ⟨0x1000, 16777217⟩ ∈ r.1) &&
        decide ((r.2.completeFind (amd64 true) toyArch 1 0 0x1000 true).map Prod.fst =
          some .error)) = true := by
    decide +kernel
  obtain ⟨⟨answers, ex⟩, hrun, hspace⟩ := (Option.any_eq_true _ _).mp heval
  obtain ⟨s, hi, hfacts⟩ := (Option.any_eq_true _ _).mp hspace
  simp only [Bool.and_eq_true, decide_eq_true_eq, Option.isNone_iff_eq_none] at hfacts
  obtain ⟨⟨⟨⟨hexec, hmarked⟩, hlive⟩, hfound⟩, herror⟩ := hfacts
  exact ⟨answers, ex, s, _, hrun, hi, hfound, hexec, hmarked, hlive, herror⟩

end Vmill
