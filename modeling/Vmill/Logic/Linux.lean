import Vmill.Runtime.Linux.Steps
import Mathlib.Tactic.Common

/-!
# What the steps of the runtime do to tasks

No step removes a task, so a property of single tasks is followed through a step with `Tracks`.
-/

namespace Vmill.Linux

open Base Kernel

variable {σ σ' : Kernel} {o : Out} {task uaddr bitset numToWake i utime : Nat} {woken : List Nat}
  {w : FutexWait} {m : FutexMemory} {code : Int} {e : Event}

/-- Every task is still there, and related by `R` to what it was. -/
def Tracks (R : Nat → LinuxTask → LinuxTask → Prop) (σ σ' : Kernel) : Prop :=
  ∀ i t, σ.tasks[i]? = some t → ∃ t', σ'.tasks[i]? = some t' ∧ R i t t'

namespace Kernel

lemma onTask_self {t : LinuxTask} (hi : σ.tasks[i]? = some t) (f : LinuxTask → LinuxTask) :
    (σ.onTask i f).tasks[i]? = some (f t) := by
  unfold onTask
  rw [List.getElem?_modify_eq, hi]
  rfl

lemma onTask_of_ne {j : Nat} (hne : j ≠ i) (f : LinuxTask → LinuxTask) :
    (σ.onTask i f).tasks[j]? = σ.tasks[j]? := by
  unfold onTask
  exact List.getElem?_modify_ne _ _ (Ne.symm hne)

lemma onTask_onTask (σ : Kernel) (i : Nat) (f g : LinuxTask → LinuxTask) :
    (σ.onTask i f).onTask i g = σ.onTask i (g ∘ f) := by
  unfold onTask
  rw [List.modify_modify_eq]

@[simp] lemma onTask_current (σ : Kernel) (i : Nat) (f : LinuxTask → LinuxTask) :
    (σ.onTask i f).current = σ.current := rfl

end Kernel

namespace Tracks

variable {R : Nat → LinuxTask → LinuxTask → Prop} {σ'' : Kernel}

lemma refl (hR : ∀ i t, R i t t) (σ : Kernel) : Tracks R σ σ := fun i t hi => ⟨t, hi, hR i t⟩

lemma trans (hR : ∀ i t t' t'', R i t t' → R i t' t'' → R i t t'') (h1 : Tracks R σ σ')
    (h2 : Tracks R σ' σ'') : Tracks R σ σ'' := by
  intro i t hi
  obtain ⟨t', hi', hr⟩ := h1 i t hi
  obtain ⟨t'', hi'', hr'⟩ := h2 i t' hi'
  exact ⟨t'', hi'', hR i t t' t'' hr hr'⟩

lemma onTask (hR : ∀ i t, R i t t) {i : Nat} {f : LinuxTask → LinuxTask}
    (hf : ∀ t, σ.tasks[i]? = some t → R i t (f t)) : Tracks R σ (σ.onTask i f) := by
  intro j t hj
  by_cases hji : j = i
  · subst hji
    exact ⟨f t, onTask_self hj f, hf t hj⟩
  · exact ⟨t, (onTask_of_ne hji f).trans hj, hR j t⟩

lemma of_tasks_eq (h : Tracks R σ σ') (heq : σ''.tasks = σ'.tasks) : Tracks R σ σ'' := by
  intro i t hi
  rw [heq]
  exact h i t hi

end Tracks

lemma byCurrent_eq_some {f : Nat → LinuxTask → Option (Out × Kernel)}
    (h : σ.byCurrent f = some (o, σ')) :
    ∃ i t, σ.current = some i ∧ σ.tasks[i]? = some t ∧ t.wait = none ∧ f i t = some (o, σ') := by
  unfold byCurrent at h
  split at h
  · simp at h
  rename_i i hcur
  split at h
  · simp at h
  rename_i t hi
  split at h
  · rename_i hwait
    exact ⟨i, t, hcur, hi, hwait, h⟩
  · simp at h

lemma linkTask_tracks (σ : Kernel) (task : Nat) :
    Tracks (fun _ t t' => ∃ n, t' = { t with nextCircular := n }) σ (σ.linkTask task).1 := by
  unfold linkTask
  split
  · exact Tracks.onTask (fun _ t => ⟨t.nextCircular, rfl⟩) fun t _ => ⟨_, rfl⟩
  · exact Tracks.refl (fun _ t => ⟨t.nextCircular, rfl⟩) σ

lemma linkTask_current (σ : Kernel) (task : Nat) : (σ.linkTask task).1.current = σ.current := by
  unfold linkTask
  split <;> rfl

lemma createTask_current (σ : Kernel) (pc memory : Nat) :
    (σ.createTask pc memory).current = σ.current := linkTask_current σ _

lemma createTask_tracks (σ : Kernel) (pc memory : Nat) :
    Tracks (fun _ t t' => ∃ n, t' = { t with nextCircular := n }) σ (σ.createTask pc memory) := by
  intro i t hi
  obtain ⟨t', hi', hr⟩ := linkTask_tracks σ σ.tasks.length i t hi
  obtain ⟨hlt, _⟩ := List.getElem?_eq_some_iff.mp hi'
  refine ⟨t', ?_, hr⟩
  simp only [createTask]
  rwa [List.getElem?_append_left hlt]

lemma createTask_new (σ : Kernel) (pc memory : Nat) :
    ∃ t, (σ.createTask pc memory).tasks[σ.tasks.length]? = some t ∧ t.toTask = Task.init pc ∧
      t.wait = none ∧ t.blockedCount = 0 ∧ t.futexUaddr = 0 := by
  have hlast : ∀ (tasks : List LinuxTask) (t : LinuxTask) (n : Nat), tasks.length = n →
      (tasks ++ [t])[n]? = some t := by
    rintro tasks t _ rfl
    exact List.getElem?_concat_length
  exact ⟨_, hlast _ _ _ (linkTask_length σ σ.tasks.length), rfl, rfl, rfl, rfl⟩

/-- A wake by `task` on `uaddr` concerns task `i`. -/
@[mk_iff]
structure Wakes (task memory uaddr bitset i : Nat) (t : LinuxTask) : Prop where
  other : i ≠ task
  memory : memory = t.memory
  uaddr : t.futexUaddr = uaddr
  blocked : 0 < t.blockedCount
  bits : t.futexBitset &&& bitset ≠ 0

lemma wakeLoop_succ {memory fuel nextTask : Nat} {tasks : List LinuxTask} :
    wakeLoop task memory uaddr bitset numToWake (fuel + 1) nextTask woken tasks =
      if nextTask = task then some (woken, tasks)
      else
        match tasks[nextTask]? with
        | none => none
        | some t =>
          if memory ≠ t.memory then
            wakeLoop task memory uaddr bitset numToWake fuel t.nextCircular woken tasks
          else if t.futexUaddr = uaddr ∧ 0 < t.blockedCount ∧ t.futexBitset &&& bitset ≠ 0 then
            if (woken ++ [nextTask]).length ≥ numToWake then
              some (woken ++ [nextTask], tasks.set nextTask { t with blockedCount := 0 })
            else wakeLoop task memory uaddr bitset numToWake fuel t.nextCircular
              (woken ++ [nextTask]) (tasks.set nextTask { t with blockedCount := 0 })
          else wakeLoop task memory uaddr bitset numToWake fuel t.nextCircular woken tasks := by
  unfold wakeLoop
  rw [ringLoop]
  refine ite_congr rfl (fun _ => rfl) fun _ => ?_
  cases tasks[nextTask]? with
  | none => rfl
  | some t =>
  simp only [wakeBody]
  split
  · rfl
  split
  · simp only [decide_eq_true_eq]
  · rfl

/-- The tasks one wake has woken are waiters it selects; no other changes. -/
lemma wakeLoop_spec {memory fuel nextTask : Nat} {woken' : List Nat}
    {tasks tasks' : List LinuxTask}
    (h : wakeLoop task memory uaddr bitset numToWake fuel nextTask woken tasks = some (woken',
      tasks')) :
    ∃ new, woken' = woken ++ new ∧ tasks'.length = tasks.length ∧ (∀ i ∈ new, i < tasks.length) ∧
      ∀ i t, tasks[i]? = some t →
        (i ∉ new ∧ tasks'[i]? = some t) ∨
        (i ∈ new ∧ Wakes task memory uaddr bitset i t ∧
          tasks'[i]? = some { t with blockedCount := 0 }) := by
  induction fuel generalizing nextTask woken tasks with
  | zero => exact absurd h nofun
  | succ fuel ih =>
  rw [wakeLoop_succ] at h
  split at h
  · cases h
    refine ⟨[], (List.append_nil _).symm, rfl, nofun, ?_⟩
    exact fun i t hi => .inl ⟨List.not_mem_nil, hi⟩
  rename_i hother
  split at h
  · simp at h
  rename_i u hu
  split at h
  · exact ih h
  rename_i hmem
  split at h
  · rename_i hsel
    have hwakes : Wakes task memory uaddr bitset nextTask u :=
      ⟨hother, Decidable.not_not.mp hmem, hsel.1, hsel.2.1, hsel.2.2⟩
    obtain ⟨hlt, _⟩ := List.getElem?_eq_some_iff.mp hu
    -- the tasks once `nextTask` is unblocked
    have hset : ∀ i t, tasks[i]? = some t →
        (i ≠ nextTask ∧
          (tasks.set nextTask { u with blockedCount := 0 })[i]? = some t) ∨
        (i = nextTask ∧ t = u ∧ (tasks.set nextTask { u with blockedCount := 0 })[i]? =
          some { u with blockedCount := 0 }) := by
      intro i t hi
      by_cases hin : i = nextTask
      · subst hin
        exact .inr ⟨rfl, (Option.mem_unique hu hi).symm,
          List.getElem?_set_self hlt⟩
      · exact .inl ⟨hin, (List.getElem?_set_ne (Ne.symm hin)).trans hi⟩
    split at h
    · cases h
      refine ⟨[nextTask], rfl, List.length_set,
        fun i hi => List.mem_singleton.mp hi ▸ hlt, fun i t hi => ?_⟩
      rcases hset i t hi with ⟨hne, hi'⟩ | ⟨rfl, rfl, hi'⟩
      · exact .inl ⟨by simpa using hne, hi'⟩
      · exact .inr ⟨List.mem_singleton_self _, hwakes, hi'⟩
    obtain ⟨new, rfl, hlen, hmem, hall⟩ := ih h
    rw [List.length_set] at hlen hmem
    refine ⟨nextTask :: new, by simp, hlen, List.forall_mem_cons.mpr ⟨hlt, hmem⟩, fun i t hi => ?_⟩
    rcases hset i t hi with ⟨hne, hi'⟩ | ⟨rfl, rfl, hi'⟩
    · rcases hall i t hi' with ⟨hnew, hi''⟩ | ⟨hnew, hw, hi''⟩
      · exact .inl ⟨by simp [hne, hnew], hi''⟩
      · exact .inr ⟨List.mem_cons_of_mem _ hnew, hw, hi''⟩
    -- an unblocked task is not selected again
    rcases hall i _ hi' with ⟨_, hi''⟩ | ⟨_, hw, _⟩
    · exact .inr ⟨(.head _), hwakes, hi''⟩
    · exact absurd hw.blocked (Nat.lt_irrefl 0)
  · exact ih h

lemma doWake_spec (h : doWake σ task uaddr bitset numToWake = some (woken, σ')) :
    (σ'.current = σ.current ∧ σ'.tasks.length = σ.tasks.length ∧
      ∀ i ∈ woken, i < σ.tasks.length) ∧ ∃ memory,
      Tracks (fun i t t' => (i ∉ woken ∧ t' = t) ∨
        (i ∈ woken ∧ Wakes task memory uaddr bitset i t ∧ t' = { t with blockedCount := 0 }))
        σ σ' := by
  unfold doWake at h
  split at h
  · simp at h
  rename_i t ht
  split at h
  · simp at h
  rename_i woken1 tasks hloop
  cases h
  obtain ⟨new, hnew, hlen, hmem, hall⟩ := wakeLoop_spec hloop
  rw [List.nil_append] at hnew
  subst hnew
  refine ⟨⟨rfl, hlen, hmem⟩, t.memory, fun i u hi => ?_⟩
  rcases hall i u hi with ⟨hnot, hi'⟩ | ⟨hin, hw, hi'⟩
  · exact ⟨u, hi', .inl ⟨hnot, rfl⟩⟩
  · exact ⟨_, hi', .inr ⟨hin, hw, rfl⟩⟩

/-- What a round of a futex wait returns, if it does, and what it makes of the task. -/
inductive WaitCases (w : FutexWait) (t : LinuxTask) : Option Int → LinuxTask → Prop
  | fault : WaitCases w t (some (-eFAULT)) t
  | changed : WaitCases w t (some (-eAGAIN)) { t with futexUaddr := 0, blockedCount := 0 }
  | woken (left : t.futexUaddr ≠ 0) (unblocked : t.blockedCount = 0)
      (same : t.futexUaddr = w.uaddr) :
      WaitCases w t (some 0) { t with futexBitset := 0, futexUaddr := 0 }
  | timedOut (last : waitCount w t = 0) : WaitCases w t (some (-eTIMEDOUT))
      { t with blockedCount := 0, futexBitset := 0, futexUaddr := 0 }
  | blocks (more : waitCount w t ≠ 0) : WaitCases w t none
      { t with blockedCount := waitCount w t, futexBitset := w.bitset, futexUaddr := w.uaddr }

lemma waitRound_cases {t t' : LinuxTask} {r : Option Int} (h : waitRound w m t = some (r, t')) :
    WaitCases w t r t' := by
  unfold waitRound at h
  split at h
  · split at h
    · cases h
      exact .changed
    split at h
    · rename_i hleft
      split at h
      · rename_i hsame
        cases h
        exact .woken hleft.1 hleft.2 hsame
      · simp at h
    split at h
    · rename_i hzero
      cases h
      exact .timedOut hzero
    rename_i hmore
    cases h
    exact .blocks hmore
  cases h
  exact .fault

lemma continueWait_round (h : continueWait σ i w m = some (o, σ')) :
    ∃ t t', σ.tasks[i]? = some t ∧
      ((∃ code, waitRound w m t = some (some code, t') ∧ o = .returned i code ∧
          σ' = σ.onTask i fun _ => { t' with wait := none }) ∨
        (waitRound w m t = some (none, t') ∧ o = .blocked i w ∧
          σ' = (σ.onTask i fun _ => { t' with wait := some w }).yield i)) := by
  unfold continueWait at h
  split at h
  · simp at h
  rename_i t hi
  split at h
  · simp at h
  · rename_i code t' hround
    cases h
    exact ⟨t, t', hi, .inl ⟨code, hround, rfl, rfl⟩⟩
  rename_i t' hround
  cases h
  exact ⟨t, t', hi, .inr ⟨hround, rfl, rfl⟩⟩

lemma continueWait_cases (h : continueWait σ i w m = some (o, σ')) :
    ∃ t t', σ.tasks[i]? = some t ∧
      ((∃ code, WaitCases w t (some code) t' ∧ o = .returned i code ∧
          σ' = σ.onTask i fun _ => { t' with wait := none }) ∨
        (WaitCases w t none t' ∧ o = .blocked i w ∧
          σ' = (σ.onTask i fun _ => { t' with wait := some w }).yield i)) := by
  obtain ⟨t, t', hi, ⟨code, hround, hends⟩ | ⟨hround, hends⟩⟩ := continueWait_round h
  · exact ⟨t, t', hi, .inl ⟨code, waitRound_cases hround, hends⟩⟩
  · exact ⟨t, t', hi, .inr ⟨waitRound_cases hround, hends⟩⟩

lemma continueWait_out (h : continueWait σ i w m = some (o, σ')) :
    (∃ code, o = .returned i code) ∨ o = .blocked i w := by
  obtain ⟨t, t', _, ⟨code, _, ho, _⟩ | ⟨_, ho, _⟩⟩ := continueWait_cases h
  · exact .inl ⟨code, ho⟩
  · exact .inr ho

/-- What the futex system call does until it returns or yields. -/
inductive FutexCases (σ : Kernel) (i utime : Nat) : Out → Kernel → Prop
  | fails (code : Int) (negative : code < 0) (f : LinuxTask → LinuxTask)
      (f_eq : f = id ∨ f = fun t => { t with blockedCount := 0 }) :
      FutexCases σ i utime (.returned i code) (σ.onTask i f)
  | wakes (f : LinuxTask → LinuxTask) (f_eq : f = id ∨ f = fun t => { t with blockedCount := 0 })
      (woken1 woken2 : List Nat) (uaddr1 uaddr2 : Nat) (σ1 σ2 : Kernel)
      (first : ∃ bitset n, doWake (σ.onTask i f) i uaddr1 bitset n = some (woken1, σ1))
      (second : (woken2 = [] ∧ σ2 = σ1) ∨
        ∃ bitset n, doWake σ1 i uaddr2 bitset n = some (woken2, σ2))
      (code : Int) :
      FutexCases σ i utime (.woke i (woken1.map (·, uaddr1) ++ woken2.map (·, uaddr2)) code) σ2
  | waits (w : FutexWait) (m : FutexMemory) (o : Out) (σ' : Kernel) (called : w.utime = utime)
      (timeout : w.timeout.isSome = true) (run : continueWait σ i w m = some (o, σ')) :
      FutexCases σ i utime o σ'

/-- **Rule.** What every wake does to the kernel the call does, unless it begins to wait. -/
lemma FutexCases.rule {R : Kernel → Kernel → Prop}
    (trans : ∀ {σ1 σ2 σ3}, R σ1 σ2 → R σ2 σ3 → R σ1 σ3) (same : R σ (σ.onTask i id))
    (unblock : R σ (σ.onTask i fun t => { t with blockedCount := 0 }))
    (wake : ∀ {σ1 σ2 uaddr bitset n woken},
      doWake σ1 i uaddr bitset n = some (woken, σ2) → R σ1 σ2)
    (h : FutexCases σ i utime o σ') :
    R σ σ' ∨ ∃ w m, continueWait σ i w m = some (o, σ') := by
  have hself : ∀ f : LinuxTask → LinuxTask,
      (f = id ∨ f = fun t => { t with blockedCount := 0 }) → R σ (σ.onTask i f) := by
    rintro f (rfl | rfl)
    · exact same
    · exact unblock
  cases h with
  | fails code negative f f_eq => exact .inl (hself f f_eq)
  | wakes f f_eq woken1 woken2 uaddr1 uaddr2 σ1 σ2 first second code =>
    obtain ⟨bitset, n, hfirst⟩ := first
    have h1 := trans (hself f f_eq) (wake hfirst)
    rcases second with ⟨_, rfl⟩ | ⟨bitset', n', hsecond⟩
    · exact .inl h1
    · exact .inl (trans h1 (wake hsecond))
  | waits w m o σ' called timeout run => exact .inr ⟨w, m, run⟩

lemma onTask_id (σ : Kernel) (i : Nat) : σ.onTask i id = σ := by
  unfold Kernel.onTask
  rw [List.modify_id]

lemma FutexCases.error (hneg : code < 0) : FutexCases σ i utime (.returned i code) σ := by
  have hfails : FutexCases σ i utime (.returned i code) (σ.onTask i id) :=
    .fails code hneg id (.inl rfl)
  rwa [onTask_id] at hfails

lemma doFutexWaitBitSet_cases (htimeout : w.timeout.isSome = true)
    (h : doFutexWaitBitSet σ i w m = some (o, σ')) : FutexCases σ i w.utime o σ' := by
  unfold doFutexWaitBitSet at h
  split at h
  · rename_i code hcode
    cases h
    have hneg : code < 0 := by
      unfold waitChecks at hcode
      split at hcode
      · rw [← Option.some.inj hcode]
        decide
      split at hcode
      · rw [← Option.some.inj hcode]
        decide
      · simp at hcode
    exact .error hneg
  · exact .waits w m o σ' rfl htimeout h

lemma FutexCases.wakeOnce {n : Nat} (f : LinuxTask → LinuxTask)
    (hf : f = id ∨ f = fun t => { t with blockedCount := 0 })
    (hwake : doWake (σ.onTask i f) i uaddr bitset n = some (woken, σ')) :
    FutexCases σ i utime (.woke i (woken.map (·, uaddr)) code) σ' := by
  have hwakes : FutexCases σ i utime
      (.woke i (woken.map (·, uaddr) ++ [].map (·, uaddr)) code) σ' :=
    .wakes f hf woken [] uaddr uaddr σ' σ' ⟨_, _, hwake⟩ (.inl ⟨rfl, rfl⟩) code
  rwa [List.map_nil, List.append_nil] at hwakes

lemma doFutexWakeBitSet_cases
    (h : doFutexWakeBitSet σ i uaddr numToWake bitset m = some (o, σ')) :
    FutexCases σ i utime o σ' := by
  unfold doFutexWakeBitSet at h
  simp only at h
  split at h
  · cases h
    exact .fails _ (by decide) _ (.inr rfl)
  split at h
  · cases h
    exact .fails _ (by decide) _ (.inr rfl)
  split at h
  · cases h
    exact .fails _ (by decide) _ (.inr rfl)
  split at h
  · simp at h
  rename_i woken σ1 hwake
  cases h
  exact .wakeOnce _ (.inr rfl) hwake

lemma doFutexWakeOp_cases {μ : Type} {word : WordAccess μ} {a a' : μ}
    {uaddr1 uaddr2 numToWake1 numToWake2 op : Nat}
    (h : doFutexWakeOp word σ i uaddr1 uaddr2 numToWake1 numToWake2 op a = some (o, σ', a')) :
    FutexCases σ i utime o σ' := by
  unfold doFutexWakeOp at h
  simp only at h
  split at h
  · simp at h
  · cases h
    exact .error (by decide)
  split at h
  · cases h
    exact .error (by decide)
  split at h
  · cases h
    exact .error (by decide)
  split at h
  · simp at h
  · cases h
    exact .error (by decide)
  split at h
  · simp at h
  · cases h
    exact .error (by decide)
  split at h
  · simp at h
  split at h
  · simp at h
  rename_i woken1 σ1 hfirst
  have hfirst' : doWake (σ.onTask i id) i uaddr1 (2 ^ 32 - 1) numToWake1 =
      some (woken1, σ1) := by
    rwa [onTask_id]
  split at h
  · split at h
    · simp at h
    rename_i woken2 σ2 hsecond
    simp only [Option.some.injEq, Prod.mk.injEq] at h
    obtain ⟨rfl, rfl, _⟩ := h
    exact .wakes id (.inl rfl) woken1 woken2 uaddr1 uaddr2 σ1 σ2 ⟨_, _, hfirst'⟩
      (.inr ⟨_, _, hsecond⟩) _
  cases h
  exact .wakeOnce id (.inl rfl) hfirst'

lemma sysFutex_cases {a : FutexArgs} (h : sysFutex σ i a m = some (o, σ')) :
    FutexCases σ i a.utime o σ' := by
  unfold sysFutex at h
  simp only at h
  split at h
  · cases h
    exact .error (by decide)
  split at h
  · cases h
    exact .error (by decide)
  split at h
  · cases h
    exact .error (by decide)
  split at h
  · exact doFutexWaitBitSet_cases rfl h
  · exact doFutexWaitBitSet_cases rfl h
  · exact doFutexWakeBitSet_cases h
  · exact doFutexWakeBitSet_cases h
  · obtain ⟨⟨o1, σ1, _⟩, hop, heq⟩ := Option.map_eq_some_iff.mp h
    obtain ⟨rfl, rfl⟩ := Prod.mk.inj heq
    exact doFutexWakeOp_cases hop
  cases h
  exact .error (by decide)

lemma FutexCases.out (h : FutexCases σ i utime o σ') :
    (∃ code, o = .returned i code) ∨ (∃ w, o = .blocked i w) ∨
      ∃ woken code, o = .woke i woken code := by
  cases h with
  | fails code negative f f_eq => exact .inl ⟨code, rfl⟩
  | wakes f f_eq woken1 woken2 uaddr1 uaddr2 σ1 σ2 first second code =>
    exact .inr (.inr ⟨_, code, rfl⟩)
  | waits w m o σ' called timeout run =>
  rcases continueWait_out run with hcode | ho
  · exact .inl hcode
  · exact .inr (.inl ⟨w, ho⟩)

lemma sysExit_cases (h : sysExit σ i = some (o, σ')) :
    ∃ σ1, σ' = (σ1.onTask i fun t => { t with toTask := t.toTask.setLocation t.pc .atExit }) ∧
      ((o = .quiet ∧ σ1 = σ) ∨ ∃ woken uaddr bitset n,
        o = .woke i (woken.map (·, uaddr)) 0 ∧ doWake σ i uaddr bitset n = some (woken, σ1)) := by
  unfold sysExit at h
  split at h
  · simp at h
  simp only at h
  split at h
  · cases h
    exact ⟨σ, rfl, .inl ⟨rfl, rfl⟩⟩
  split at h
  · simp at h
  rename_i woken σ1 hwake
  cases h
  exact ⟨σ1, rfl, .inr ⟨woken, _, _, _, rfl, hwake⟩⟩

/-- What a visit of a task does. -/
inductive VisitCases (σ : Kernel) (i : Nat) (t : LinuxTask) : Out → Kernel → Prop
  | ran (mayRun : t.status = .runnable ∨ t.status = .resumable) (unblocked : t.blockedCount = 0) :
      VisitCases σ i t (.ran i) (σ.run i)
  | ticked (mayRun : t.status = .runnable ∨ t.status = .resumable) (blocked : t.blockedCount ≠ 0) :
      VisitCases σ i t (.ticked i (t.blockedCount - 1))
        (σ.onTask i fun t => { t with blockedCount := t.blockedCount - 1 })
  | skipped (stopped : ¬ (t.status = .runnable ∨ t.status = .resumable)) :
      VisitCases σ i t (.skipped i) σ

lemma visit_cases (h : σ.visit i = some (o, σ')) :
    ∃ t, σ.current = none ∧ σ.tasks[i]? = some t ∧ VisitCases σ i t o σ' := by
  unfold Kernel.visit at h
  split at h
  · rename_i t hcur hi
    refine ⟨t, hcur, hi, ?_⟩
    split at h
    · rename_i hstatus
      split at h
      · rename_i hzero
        cases h
        exact .ran hstatus hzero
      rename_i hne
      cases h
      exact .ticked hstatus hne
    rename_i hstatus
    cases h
    exact .skipped hstatus
  · simp at h

/-- What an event does. -/
inductive Effect (σ : Kernel) : Event → Out → Kernel → Prop
  | create (pc memory : Nat) : Effect σ (.create pc memory) .quiet (σ.createTask pc memory)
  | clone (pc ctid : Nat) (parent : LinuxTask) :
      Effect σ (.clone pc ctid) .quiet (σ.cloneTask parent pc ctid)
  | visit (i : Nat) (o : Out) (σ' : Kernel) (run : σ.visit i = some (o, σ')) :
      Effect σ (.visit i) o σ'
  | act (a : Act) (i : Nat) : Effect σ (.act a) .quiet (σ.change i a.apply)
  | fault (kind : MemoryAccessFaultKind) (valueType : MemoryValueType) (size addr i : Nat) :
      Effect σ (.fault kind valueType size addr) .quiet
        (σ.change i (·.recordFault kind valueType size addr))
  | jump (pc i : Nat) : Effect σ (.jump pc) .quiet ((σ.change i (·.remillJump pc)).yield i)
  | functionCall (pc i : Nat) :
      Effect σ (.functionCall pc) .quiet ((σ.change i (·.remillFunctionCall pc)).yield i)
  | yield (i : Nat) : Effect σ .yield .quiet (σ.yield i)
  | finish (i : Nat) (current : σ.current = some i) : Effect σ .finish .quiet (σ.finish i)
  | setTidAddress (i tidptr : Nat) : Effect σ (.setTidAddress tidptr) .quiet
      (σ.onTask i fun t => { t with clearChildTid := tidptr })
  | futex (a : FutexArgs) (m : FutexMemory) (i : Nat) (t : LinuxTask) (o : Out) (σ' : Kernel)
      (current : σ.current = some i) (found : σ.tasks[i]? = some t) (outside : t.wait = none)
      (cases : FutexCases σ i a.utime o σ') : Effect σ (.futex a m) o σ'
  | wait (m : FutexMemory) (i : Nat) (t : LinuxTask) (w : FutexWait) (o : Out) (σ' : Kernel)
      (current : σ.current = some i) (found : σ.tasks[i]? = some t) (inside : t.wait = some w)
      (run : continueWait σ i w m = some (o, σ')) : Effect σ (.wait m) o σ'
  | exit (i : Nat) (o : Out) (σ1 : Kernel)
      (first : (o = .quiet ∧ σ1 = σ) ∨ ∃ woken uaddr bitset n,
        o = .woke i (woken.map (·, uaddr)) 0 ∧ doWake σ i uaddr bitset n = some (woken, σ1)) :
      Effect σ .exit o (σ1.change i fun t => t.setLocation t.pc .atExit)

/-- Every step of the kernel has one of the effects. -/
lemma step_effect (h : linux.step e σ = some (o, σ')) : Effect σ e o σ' := by
  cases e with
  | create pc memory =>
    cases h
    exact .create pc memory
  | clone pc ctid =>
    obtain ⟨i, t, _, _, _, hcall⟩ := byCurrent_eq_some h
    cases hcall
    exact .clone pc ctid t
  | visit i => exact .visit i o σ' h
  | act a =>
    obtain ⟨i, t, _, _, _, hcall⟩ := byCurrent_eq_some h
    cases hcall
    exact .act a i
  | fault kind valueType size addr =>
    simp only [linux, Kernel.step] at h
    split at h
    · simp at h
    cases h
    exact .fault kind valueType size addr _
  | jump pc =>
    obtain ⟨i, t, _, _, _, hcall⟩ := byCurrent_eq_some h
    cases hcall
    exact .jump pc i
  | functionCall pc =>
    obtain ⟨i, t, _, _, _, hcall⟩ := byCurrent_eq_some h
    cases hcall
    exact .functionCall pc i
  | yield =>
    obtain ⟨i, t, _, _, _, hcall⟩ := byCurrent_eq_some h
    cases hcall
    exact .yield i
  | finish =>
    obtain ⟨i, t, hcur, _, _, hcall⟩ := byCurrent_eq_some h
    cases hcall
    exact .finish i hcur
  | setTidAddress tidptr =>
    obtain ⟨i, t, _, _, _, hcall⟩ := byCurrent_eq_some h
    cases hcall
    exact .setTidAddress i tidptr
  | futex a m =>
    obtain ⟨i, t, hcur, hi, hwait, hcall⟩ := byCurrent_eq_some h
    exact .futex a m i t o σ' hcur hi hwait (sysFutex_cases hcall)
  | wait m =>
    simp only [linux, Kernel.step] at h
    split at h
    · simp at h
    rename_i i hcur
    split at h
    · simp at h
    rename_i t hi
    split at h
    · simp at h
    rename_i w hw
    exact .wait m i t w o σ' hcur hi hw h
  | exit =>
  obtain ⟨i, t, _, _, _, hcall⟩ := byCurrent_eq_some h
  obtain ⟨σ1, rfl, hfirst⟩ := sysExit_cases hcall
  exact .exit i o σ1 hfirst

lemma visit_of_scheduled (h : linux.step e σ = some (o, σ'))
    (ho : o = .ran i ∨ ∃ left, o = .ticked i left) :
    ∃ t, e = .visit i ∧ σ.tasks[i]? = some t ∧ VisitCases σ i t o σ' := by
  have hother : (o = .quiet ∨ (∃ j code, o = .returned j code) ∨ (∃ j w, o = .blocked j w) ∨
      ∃ j woken code, o = .woke j woken code) → False := by
    rintro (rfl | ⟨j, code, rfl⟩ | ⟨j, w, rfl⟩ | ⟨j, woken, code, rfl⟩) <;> simp at ho
  cases step_effect h with
  | visit j o σ' run =>
    obtain ⟨t, _, hj, hcases⟩ := visit_cases run
    have hij : j = i := by
      cases hcases with
      | ran mayRun unblocked => simpa using ho
      | ticked mayRun blocked => simpa using ho
      | skipped stopped => simp at ho
    subst hij
    exact ⟨t, rfl, hj, hcases⟩
  | futex a m j t o σ' current found outside cases =>
    rcases cases.out with ⟨code, hout⟩ | ⟨w, hout⟩ | ⟨woken, code, hout⟩
    · exact (hother (.inr (.inl ⟨j, code, hout⟩))).elim
    · exact (hother (.inr (.inr (.inl ⟨j, w, hout⟩)))).elim
    · exact (hother (.inr (.inr (.inr ⟨j, woken, code, hout⟩)))).elim
  | wait m j t w o σ' current found inside run =>
    rcases continueWait_out run with ⟨code, hout⟩ | hout
    · exact (hother (.inr (.inl ⟨j, code, hout⟩))).elim
    · exact (hother (.inr (.inr (.inl ⟨j, w, hout⟩)))).elim
  | exit j o σ1 first =>
    rcases first with ⟨hout, _⟩ | ⟨woken, uaddr, _, _, hout, _⟩
    · exact (hother (.inl hout)).elim
    · exact (hother (.inr (.inr (.inr ⟨j, _, _, hout⟩)))).elim
  | _ => exact (hother (.inl rfl)).elim

end Vmill.Linux
