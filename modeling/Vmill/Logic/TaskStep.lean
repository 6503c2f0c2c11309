import Vmill.Logic.Linux

/-!
# One task through a step

What a step of the runtime does to the futex fields of a single task, whoever makes the step
(`TaskStep`).
-/

namespace Vmill.Linux

open Base Kernel

variable {σ σ' : Kernel} {e : Event} {o : Out}

/-- The task waits for what it waited for, or was woken. -/
structure Kept (t t' : LinuxTask) : Prop where
  wait : t'.wait = t.wait
  uaddr : t'.futexUaddr = t.futexUaddr
  count : t'.blockedCount = t.blockedCount ∨ t'.blockedCount = 0

lemma Kept.refl (t : LinuxTask) : Kept t t := ⟨rfl, rfl, .inl rfl⟩

lemma Kept.trans {t t' t'' : LinuxTask} (h : Kept t t') (h' : Kept t' t'') : Kept t t'' where
  wait := h'.wait.trans h.wait
  uaddr := h'.uaddr.trans h.uaddr
  count := by
    rcases h'.count with hsame | hzero
    · rw [hsame]
      exact h.count
    · exact .inr hzero

/-- Every task is kept, and none is new. -/
structure AllKept (σ σ' : Kernel) : Prop where
  tracks : Tracks (fun _ => Kept) σ σ'
  length : σ'.tasks.length = σ.tasks.length

namespace AllKept

variable {σ'' : Kernel}

lemma refl (σ : Kernel) : AllKept σ σ := ⟨Tracks.refl (fun _ => Kept.refl) σ, rfl⟩

lemma trans (h : AllKept σ σ') (h' : AllKept σ' σ'') : AllKept σ σ'' :=
  ⟨Tracks.trans (fun _ _ _ _ => Kept.trans) h.tracks h'.tracks, h'.length.trans h.length⟩

lemma onTask (i : Nat) {f : LinuxTask → LinuxTask} (hf : ∀ t, Kept t (f t)) :
    AllKept σ (σ.onTask i f) :=
  ⟨Tracks.onTask (fun _ => Kept.refl) fun t _ => hf t, onTask_length ..⟩

lemma change (i : Nat) (f : Task → Task) : AllKept σ (σ.change i f) :=
  onTask i fun _ => ⟨rfl, rfl, .inl rfl⟩

lemma current (h : AllKept σ σ') (current : Option Nat) :
    AllKept σ { σ' with current := current } := ⟨h.tracks, h.length⟩

lemma yield (i : Nat) : AllKept σ (σ.yield i) := by
  have hpause : AllKept σ (σ.onTask i fun t => { t with toTask := t.toTask.pause }) :=
    onTask i fun _ => ⟨rfl, rfl, .inl rfl⟩
  exact hpause.current none

lemma finish (i : Nat) : AllKept σ (σ.finish i) := by
  have hend : AllKept σ (σ.onTask i fun t => { t with toTask := t.toTask.epilogue t.entryPc }) :=
    onTask i fun _ => ⟨rfl, rfl, .inl rfl⟩
  exact hend.current none

lemma run (i : Nat) : AllKept σ (σ.run i) := by
  have hstart : AllKept σ (σ.onTask i fun t =>
      if t.status = .resumable then { t with toTask := t.toTask.resume }
      else { t with entryPc := t.pc }) := by
    refine onTask i fun t => ?_
    split <;> exact ⟨rfl, rfl, .inl rfl⟩
  exact hstart.current (some i)

lemma doWake {task uaddr bitset numToWake : Nat} {woken : List Nat}
    (h : doWake σ task uaddr bitset numToWake = some (woken, σ')) : AllKept σ σ' := by
  obtain ⟨⟨_, hlen, _⟩, memory, htracks⟩ := doWake_spec h
  refine ⟨fun i t hi => ?_, hlen⟩
  obtain ⟨t', hi', ⟨_, rfl⟩ | ⟨_, _, rfl⟩⟩ := htracks i t hi
  · exact ⟨_, hi', .refl _⟩
  · exact ⟨_, hi', rfl, rfl, .inr rfl⟩

end AllKept

/-- What an event does to task `i`. -/
inductive TaskStep (σ : Kernel) (e : Event) (o : Out) (i : Nat) (t t' : LinuxTask) : Prop
  | kept (same : Kept t t')
  | ticked (blocked : t.blockedCount ≠ 0) (wait : t'.wait = t.wait)
      (uaddr : t'.futexUaddr = t.futexUaddr) (count : t'.blockedCount = t.blockedCount - 1)
  | returns (w : FutexWait) (m : FutexMemory) (code : Int) (u : LinuxTask)
      (current : σ.current = some i) (called : t.wait = none ∨ t.wait = some w ∧ e = .wait m)
      (round : waitRound w m t = some (some code, u)) (out : o = .returned i code)
      (task : t' = { u with wait := none })
  | blocks (w : FutexWait) (m : FutexMemory) (u : LinuxTask)
      (current : σ.current = some i) (called : t.wait = none ∨ t.wait = some w ∧ e = .wait m)
      (round : waitRound w m t = some (none, u)) (out : o = .blocked i w)
      (wait : t'.wait = some w) (uaddr : t'.futexUaddr = u.futexUaddr)
      (count : t'.blockedCount = u.blockedCount)

/-- The task has never waited. -/
structure Unused (t : LinuxTask) : Prop where
  wait : t.wait = none
  uaddr : t.futexUaddr = 0
  count : t.blockedCount = 0

/-- What an event does to all tasks. -/
structure TasksStep (σ : Kernel) (e : Event) (o : Out) (σ' : Kernel) : Prop where
  tracks : Tracks (TaskStep σ e o) σ σ'
  new : ∀ i t, σ.tasks.length ≤ i → σ'.tasks[i]? = some t → Unused t

namespace TasksStep

variable {i : Nat} {t : LinuxTask}

lemma of_length (htracks : Tracks (TaskStep σ e o) σ σ')
    (hlen : σ'.tasks.length = σ.tasks.length) : TasksStep σ e o σ' where
  tracks := htracks
  new i t hle hi := by
    obtain ⟨hlt, _⟩ := List.getElem?_eq_some_iff.mp hi
    omega

lemma of_kept (h : AllKept σ σ') : TasksStep σ e o σ' := by
  refine of_length (fun i t hi => ?_) h.length
  obtain ⟨t', hi', hkept⟩ := h.tracks i t hi
  exact ⟨t', hi', .kept hkept⟩

lemma of_create {pc memory : Nat} (h : AllKept (σ.createTask pc memory) σ') :
    TasksStep σ e o σ' where
  tracks i t hi := by
    obtain ⟨u, hu, n, rfl⟩ := createTask_tracks σ pc memory i t hi
    obtain ⟨t', hi', hkept⟩ := h.tracks i _ hu
    have hlink : Kept t { t with nextCircular := n } := ⟨rfl, rfl, .inl rfl⟩
    exact ⟨t', hi', .kept (hlink.trans hkept)⟩
  new i t hle hi := by
    obtain ⟨hlt, _⟩ := List.getElem?_eq_some_iff.mp hi
    rw [h.length, createTask_length] at hlt
    obtain rfl : i = σ.tasks.length := by omega
    obtain ⟨u, hu, _, hwait, hcount, huaddr⟩ := createTask_new σ pc memory
    obtain ⟨t', hi', hkept⟩ := h.tracks _ _ hu
    obtain rfl := Option.mem_unique hi' hi
    refine ⟨hkept.wait.trans hwait, hkept.uaddr.trans huaddr, ?_⟩
    rcases hkept.count with hsame | hzero
    · exact hsame.trans hcount
    · exact hzero

lemma of_continueWait {w : FutexWait} {m : FutexMemory} (hcur : σ.current = some i)
    (hi : σ.tasks[i]? = some t) (hcalled : t.wait = none ∨ t.wait = some w ∧ e = .wait m)
    (h : continueWait σ i w m = some (o, σ')) : TasksStep σ e o σ' := by
  obtain ⟨u, u', hu, hends⟩ := continueWait_round h
  obtain rfl := Option.mem_unique hi hu
  have hother : ∀ (j : Nat) (s : LinuxTask), TaskStep σ e o j s s := fun _ s => .kept (.refl s)
  rcases hends with ⟨code, hround, ho, rfl⟩ | ⟨hround, ho, rfl⟩
  · refine of_length (Tracks.onTask hother fun s hs => ?_) (onTask_length ..)
    obtain rfl := Option.mem_unique hi hs
    exact .returns w m code u' hcur hcalled hround ho rfl
  unfold Kernel.yield
  rw [onTask_onTask]
  refine of_length (Tracks.of_tasks_eq (Tracks.onTask hother fun s hs => ?_) rfl)
    (onTask_length ..)
  obtain rfl := Option.mem_unique hi hs
  exact .blocks w m u' hcur hcalled hround ho rfl rfl rfl

lemma of_futex {utime : Nat} (hcur : σ.current = some i) (hi : σ.tasks[i]? = some t)
    (hwait : t.wait = none) (h : FutexCases σ i utime o σ') : TasksStep σ e o σ' := by
  rcases h.rule (R := AllKept) .trans (.onTask i .refl)
    (.onTask i fun _ => ⟨rfl, rfl, .inr rfl⟩) .doWake with hkept | ⟨w, m, hrun⟩
  · exact .of_kept hkept
  · exact .of_continueWait hcur hi (.inl hwait) hrun

end TasksStep

/-- What any step does to the list of tasks. -/
lemma step_tasks (h : linux.step e σ = some (o, σ')) : TasksStep σ e o σ' := by
  cases step_effect h with
  | create pc memory => exact .of_create (.refl _)
  | clone pc ctid parent => exact .of_create (.onTask _ fun _ => ⟨rfl, rfl, .inl rfl⟩)
  | visit i o σ' run =>
    obtain ⟨t, _, hi, hcases⟩ := visit_cases run
    cases hcases with
    | ran mayRun unblocked => exact .of_kept (.run i)
    | ticked mayRun blocked =>
      refine .of_length (Tracks.onTask (fun _ s => .kept (.refl s)) fun s hs => ?_)
        (onTask_length ..)
      obtain rfl := Option.mem_unique hi hs
      exact .ticked blocked rfl rfl rfl
    | skipped stopped => exact .of_kept (.refl σ)
  | act a i | fault kind valueType size addr i => exact .of_kept (.change i _)
  | jump pc i | functionCall pc i => exact .of_kept ((AllKept.change i _).trans (.yield i))
  | yield i => exact .of_kept (.yield i)
  | finish i current => exact .of_kept (.finish i)
  | setTidAddress i tidptr => exact .of_kept (.onTask i fun _ => ⟨rfl, rfl, .inl rfl⟩)
  | futex a m i t o σ' current found outside cases =>
    exact .of_futex current found outside cases
  | wait m i t w o σ' current found inside run =>
    exact .of_continueWait current found (.inr ⟨inside, rfl⟩) run
  | exit i o σ1 first =>
  rcases first with ⟨rfl, rfl⟩ | ⟨woken, uaddr, bitset, n, rfl, hwake⟩
  · exact .of_kept (.change i _)
  · exact .of_kept ((AllKept.doWake hwake).trans (.change i _))

lemma each_task_step {P : LinuxTask → Prop} (hnew : ∀ t, Unused t → P t)
    (hstep : ∀ i t t', σ.tasks[i]? = some t → P t → TaskStep σ e o i t t' → P t')
    (hall : ∀ (i : Nat) (t : LinuxTask), σ.tasks[i]? = some t → P t)
    (h : linux.step e σ = some (o, σ')) (i : Nat) (t' : LinuxTask) (hi' : σ'.tasks[i]? = some t') :
    P t' := by
  rcases Nat.lt_or_ge i σ.tasks.length with hlt | hge
  · have hi := List.getElem?_eq_getElem hlt
    obtain ⟨u, hu, htask⟩ := (step_tasks h).tracks i _ hi
    obtain rfl := Option.mem_unique hu hi'
    exact hstep i _ _ hi (hall i _ hi) htask
  · exact hnew t' ((step_tasks h).new i t' hge hi')

end Vmill.Linux
