import Vmill.Executor.Executor
import Vmill.Logic.Decode

/-!
# Calls of the executor

What `FindLiftedFunctionForTask` does, by its outcomes (`Finds`), and what becomes of the live
traces: they only grow.
-/

namespace Vmill

open Base AddressSpace

namespace Executor

/-- What is live stays live. -/
def Grows (live live' : LiveTraceId → Option TraceId) : Prop :=
  ∀ id, (live id).isSome = true → (live' id).isSome = true

lemma Grows.refl (live : LiveTraceId → Option TraceId) : Grows live live := fun _ hid => hid

lemma Grows.trans {live live' live'' : LiveTraceId → Option TraceId} (h1 : Grows live live')
    (h2 : Grows live' live'') : Grows live live'' := fun id hid => h2 id (h1 id hid)

lemma grows_update (live : LiveTraceId → Option TraceId) (key : LiveTraceId) (id : TraceId) :
    Grows live (Function.update live key (some id)) := by
  intro key' hkey
  by_cases heq : key' = key
  · rw [heq, Function.update_self]
    rfl
  · rwa [Function.update_of_ne heq]

lemma dropLifted_spec (codeCache : TraceId → Bool) (live : LiveTraceId → Option TraceId)
    (traces : List DecodedTrace) :
    Grows live (dropLifted codeCache live traces).1 ∧ ∀ t ∈ traces,
      ((dropLifted codeCache live traces).1 t.liveId).isSome = true ∨
        t ∈ (dropLifted codeCache live traces).2 := by
  induction traces generalizing live with
  | nil => exact ⟨Grows.refl live, nofun⟩
  | cons t ts ih =>
  unfold dropLifted
  by_cases hlive : (live t.liveId).isSome = true
  · rw [if_pos hlive]
    obtain ⟨hgrow, hall⟩ := ih live
    exact ⟨hgrow, List.forall_mem_cons.mpr ⟨.inl (hgrow _ hlive), hall⟩⟩
  rw [if_neg hlive]
  by_cases hcache : codeCache t.id = true
  · rw [if_pos hcache]
    obtain ⟨hgrow, hall⟩ := ih (Function.update live t.liveId (some t.id))
    exact ⟨(grows_update live t.liveId t.id).trans hgrow,
      List.forall_mem_cons.mpr ⟨.inl (hgrow _ (by rw [Function.update_self]; rfl)), hall⟩⟩
  rw [if_neg hcache]
  obtain ⟨hgrow, hall⟩ := ih live
  refine ⟨hgrow, fun t' ht' => ?_⟩
  rcases List.mem_cons.mp ht' with rfl | ht'
  · exact .inr (.head _)
  · exact (hall t' ht').imp_right (List.mem_cons_of_mem _)

lemma dropLifted_sublist (codeCache : TraceId → Bool) (live : LiveTraceId → Option TraceId)
    (traces : List DecodedTrace) : (dropLifted codeCache live traces).2.Sublist traces := by
  induction traces generalizing live with
  | nil => exact List.Sublist.refl []
  | cons t ts ih =>
  unfold dropLifted
  split
  · exact (ih live).cons t
  split
  · exact (ih _).cons t
  · exact (ih live).cons_cons t

lemma addLiveTraces_spec (codeCache : TraceId → Bool) (live : LiveTraceId → Option TraceId)
    (traces : List DecodedTrace) :
    Grows live (addLiveTraces codeCache live traces) ∧ ∀ t ∈ traces, codeCache t.id = true →
      (addLiveTraces codeCache live traces t.liveId).isSome = true := by
  unfold addLiveTraces
  induction traces generalizing live with
  | nil => exact ⟨Grows.refl live, nofun⟩
  | cons t ts ih =>
  rw [List.foldl_cons]
  by_cases hcache : codeCache t.id = true
  · rw [if_pos hcache]
    obtain ⟨hgrow, hall⟩ := ih (Function.update live t.liveId (some t.id))
    exact ⟨(grows_update live t.liveId t.id).trans hgrow,
      List.forall_mem_cons.mpr ⟨fun _ => hgrow _ (by rw [Function.update_self]; rfl), hall⟩⟩
  rw [if_neg hcache]
  obtain ⟨hgrow, hall⟩ := ih live
  exact ⟨hgrow, List.forall_mem_cons.mpr ⟨fun hc => absurd hc hcache, hall⟩⟩

lemma mem_addModuleToCache (codeCache : TraceId → Bool) {traces : List DecodedTrace}
    {t : DecodedTrace} (ht : t ∈ traces) (hpc : t.id.pc ≠ 0) :
    addModuleToCache codeCache traces t.id = true := by
  have hany : (traces.any fun t' => decide (t'.id = t.id)) = true :=
    List.any_eq_true.mpr ⟨t, ht, decide_eq_true rfl⟩
  unfold addModuleToCache
  rw [hany, decide_eq_true hpc, Bool.true_and, Bool.or_true]

/-- The answer from the live traces. -/
def answered (ex : Executor) (liveId : LiveTraceId) : Answer × Executor :=
  match ex.liveTraces liveId with
  | some id => (.found id, ex)
  | none => (.error, ex)

lemma finishLifting_spec (ex : Executor) (liveId : LiveTraceId) (traces : List DecodedTrace) :
    (ex.finishLifting liveId traces).2.world = ex.world ∧
      (ex.finishLifting liveId traces).2.tasks = ex.tasks ∧
      Grows ex.liveTraces (ex.finishLifting liveId traces).2.liveTraces ∧
      (∀ t ∈ traces, t.id.pc ≠ 0 →
        ((ex.finishLifting liveId traces).2.liveTraces t.liveId).isSome = true) ∧
      (((ex.finishLifting liveId traces).2.liveTraces liveId).isSome = true →
        ∃ id, (ex.finishLifting liveId traces).1 = .found id) := by
  obtain ⟨ex', hex', hworld, htasks, hgrow, hlive⟩ : ∃ ex' : Executor,
      ex.finishLifting liveId traces = ex'.answered liveId ∧ ex'.world = ex.world ∧
      ex'.tasks = ex.tasks ∧
      Grows ex.liveTraces ex'.liveTraces ∧
      ∀ t ∈ traces, t.id.pc ≠ 0 → (ex'.liveTraces t.liveId).isSome = true := by
    cases traces with
    | nil => exact ⟨ex, rfl, rfl, rfl, Grows.refl _, nofun⟩
    | cons t ts =>
    obtain ⟨hgrow, hall⟩ := addLiveTraces_spec (addModuleToCache ex.codeCache (t :: ts))
      ex.liveTraces (t :: ts)
    exact ⟨_, rfl, rfl, rfl, hgrow, fun t' ht' hpc =>
      hall t' ht' (mem_addModuleToCache ex.codeCache ht' hpc)⟩
  rw [hex']
  unfold answered
  cases hfound : ex'.liveTraces liveId with
  | none => exact ⟨hworld, htasks, hgrow, hlive, fun hsome => absurd hsome (by simp [hfound])⟩
  | some id => exact ⟨hworld, htasks, hgrow, hlive, fun _ => ⟨id, rfl⟩⟩

end Executor

namespace AddressSpace

lemma Decoding.after {cfg : Config} {h h1 : Heap} (hwf : h.WF) {s s1 : AddressSpace}
    {st : DecoderState} (hu : Updates h s h1 s1 (view h s)) (hc : Heap.Cached cfg.hash h h1)
    (hheads : s1.traceHeads = s.traceHeads) (hd : Decoding cfg h1 s1 st) : Decoding cfg h s st where
  updates := hu.trans (hu.view ▸ hd.updates)
  cached := hc.trans hd.cached
  heads := hheads ▸ hd.heads
  fresh := hheads ▸ hd.fresh
  nodup := hd.nodup
  ids := hd.ids
  version t ht hacc := by
    rw [← versionAt_cached hwf hu hc]
    refine hd.version t ht ?_
    rwa [hu.accessed.accessible, hu.accessed.addrMask]

end AddressSpace

namespace Executor

/-- The outcomes of `FindLiftedFunctionForTask` for `pc` in address space `i`, which is
`s`. -/
inductive Finds (cfg : Config) (ex : Executor) (s : AddressSpace) (task i : Nat) (pc : PC)
    (onCoroutine : Bool) : Answer × Executor → Prop
  | looked (answer : Answer) (s' : AddressSpace) (h' : Heap)
      (updates : Updates ex.world.heap s h' s' (view ex.world.heap s))
      (cached : Heap.Cached cfg.hash ex.world.heap h') (heads : s'.traceHeads = s.traceHeads)
      (fine : (∃ id, answer = .found id) ∨ answer = .fault) :
      Finds cfg ex s task i pc onCoroutine (answer, { ex with world := ex.world.put i s' h' })
  | decoded (liveId : LiveTraceId) (live : LiveTraceId → Option TraceId)
      (traces : List DecodedTrace) (st : DecoderState) (r : Answer × Executor)
      (key : liveId = ⟨pc, versionAt cfg ex.world.heap s pc.val⟩)
      (missing : ex.liveTraces liveId = none) (executable : s.canExecute pc.val = true)
      (decoding : Decoding cfg ex.world.heap s st) (marked : st.space.traceHeads pc.val = true)
      (dropped : dropLifted ex.codeCache ex.liveTraces st.traces = (live, traces))
      (result : r = if onCoroutine then
          (.paused,
            { ex with
              world := ex.world.put i st.space st.heap
              liveTraces := live
              tasks := Function.update ex.tasks task (.lifting liveId traces false)
              jobs := ex.jobs ++ [task] })
        else
          Executor.finishLifting
            { ex with world := ex.world.put i st.space st.heap, liveTraces := live }
            liveId traces) :
      Finds cfg ex s task i pc onCoroutine r

/-- `FindLiftedFunctionForTask` returns, in one of the ways of `Finds`. -/
lemma find_cases (cfg : Config) (arch : Arch) {ex : Executor} (hw : ex.world.WF) (task : Nat)
    {i : Nat} {s : AddressSpace} (hi : ex.world.spaces[i]? = some s) (pc : PC)
    (onCoroutine : Bool) :
    ∃ r, ex.findLiftedFunctionForTask cfg arch task i pc onCoroutine = some r ∧
      Finds cfg ex s task i pc onCoroutine r := by
  have hwf := hw.heap
  have hs := hw.space i s hi
  have hu := computeCodeVersion_updates cfg hwf hs pc.val
  have hl := computeCodeVersion_looked cfg hs pc.val
  have hc := computeCodeVersion_cached cfg ex.world.heap s pc.val
  have hv : s.accessible (alignDownToPage (pc.val &&& s.addrMask)) = true →
      (computeCodeVersion cfg s ex.world.heap pc.val).1 =
        versionAt cfg ex.world.heap s pc.val :=
    fun hacc => computeCodeVersion_eq cfg hwf hs (.inr hacc)
  unfold findLiftedFunctionForTask
  simp only [hi]
  generalize computeCodeVersion cfg s ex.world.heap pc.val = r at hu hl hc hv
  obtain ⟨v, s1, h1⟩ := r
  simp only at hu hl hc hv ⊢
  cases hlive : ex.liveTraces ⟨pc, v⟩ with
  | some id => exact ⟨_, rfl, .looked _ s1 h1 hu hc hl.heads (.inl ⟨id, rfl⟩)⟩
  | none =>
  have hexec : s1.canExecute pc.val = s.canExecute pc.val := by
    unfold canExecute canExecuteAligned
    rw [hl.accessed.canExecute, hl.accessed.addrMask]
  simp only [hexec]
  cases hx : s.canExecute pc.val with
  | false => exact ⟨_, rfl, .looked _ s1 h1 hu hc hl.heads (.inr rfl)⟩
  | true =>
  obtain ⟨st, hdec, hd, hmarked⟩ :=
    decodeTraces_spec cfg arch (hu.heapWF hwf) (hu.wf hs) pc
  simp only [hdec, Bool.not_true, Bool.false_eq_true, if_false]
  have hkey := hv (accessible_of_canExecute hx)
  have hput : (ex.world.put i s1 h1).put i st.space st.heap =
      ex.world.put i st.space st.heap := by
    unfold World.put
    simp
  rw [hput]
  refine ⟨_, ?_, .decoded ⟨pc, v⟩ _ _ st _ (by rw [hkey]) hlive hx
    (hd.after hwf hu hc hl.heads) hmarked rfl rfl⟩
  cases onCoroutine <;> rfl

end Executor

end Vmill
