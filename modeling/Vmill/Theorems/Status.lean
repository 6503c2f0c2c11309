import Vmill.Logic.Linux

/-!
# A stopped task stays stopped

When lifted code returns, `__vmill_execute` computes the status anew, and makes the task runnable
unless a fault is recorded or the location is one of two of the error locations (`FinishKeeps`).
-/

namespace Vmill

open Base

namespace Task

variable {t : Task}

/-- The task has failed or exited. -/
def Final (t : Task) : Prop := t.status = .error ∨ t.status = .exited
deriving Decidable

lemma Final.not_mayRun (h : t.Final) : ¬ (t.status = .runnable ∨ t.status = .resumable) := by
  rcases h with h | h <;> rw [h] <;> decide

lemma stop_final {status : TaskStatus} (h : status = .error ∨ status = .exited) :
    (t.stop status).Final := h

lemma recordFault_final (h : t.Final) (kind : MemoryAccessFaultKind) (valueType : MemoryValueType)
    (size addr : Nat) : (t.recordFault kind valueType size addr).Final := by
  unfold recordFault
  split
  · exact .inl rfl
  · exact h

lemma setLocation_final (h : t.Final) (pc : Nat) (loc : TaskStopLocation) :
    (t.setLocation pc loc).Final := by
  unfold setLocation
  cases loc
  case atError | beforeUnhandledHyperCall | atUnsupportedInstruction => exact stop_final (.inl rfl)
  case atExit => exact stop_final (.inr rfl)
  all_goals exact h

lemma pause_final (h : t.Final) : t.pause.Final := by
  have hne : t.status ≠ .runnable := fun hrun => h.not_mayRun (.inl hrun)
  unfold pause
  simp only [if_neg hne]
  exact h

/-- The scheduler will let the task fail. -/
def EndsInError (t : Task) : Prop :=
  t.memAccessFault.kind ≠ .noFault ∨ t.location = .atError ∨ t.location = .beforeUnhandledHyperCall
deriving Decidable

lemma epilogue_of_error (h : t.EndsInError) (pc : Nat) : (t.epilogue pc).Final := by
  unfold epilogue
  simp only
  split
  · rename_i hno
    rcases h with hfault | hloc | hloc
    · exact absurd hno hfault
    · rw [hloc]
      exact .inl rfl
    rw [hloc]
    exact .inl rfl
  · exact .inl rfl

lemma epilogue_of_not_error (h : ¬ t.EndsInError) (pc : Nat) :
    (t.epilogue pc).status = .runnable := by
  unfold EndsInError at h
  rw [not_or, not_or, Decidable.not_not] at h
  obtain ⟨hno, herr, hunh⟩ := h
  unfold epilogue
  rw [if_pos hno]
  cases hloc : t.location
  case atError => exact absurd hloc herr
  case beforeUnhandledHyperCall => exact absurd hloc hunh
  all_goals rfl

end Task

namespace Linux

variable {σ σ' : Kernel} {w : FutexWait} {t : LinuxTask} {i : Nat} {o : Out} {e : Event}

lemma Act.apply_final {t : Task} (h : t.Final) (a : Act) : (a.apply t).Final := by
  cases a with
  | setLocation pc loc => exact Task.setLocation_final h pc loc
  | error pc => exact Task.stop_final (.inl rfl)
  | functionReturn pc => exact h
  | executeFault => exact .inl rfl

/-- A task that is final stays so. -/
def KeepsFinal (σ σ' : Kernel) : Prop := Tracks (fun _ t t' => t.Final → t'.Final) σ σ'

namespace KeepsFinal

variable {σ'' : Kernel}

lemma refl (σ : Kernel) : KeepsFinal σ σ := Tracks.refl (fun _ _ => id) σ

lemma trans (h1 : KeepsFinal σ σ') (h2 : KeepsFinal σ' σ'') : KeepsFinal σ σ'' :=
  Tracks.trans (fun _ _ _ _ hr hr' hf => hr' (hr hf)) h1 h2

lemma onTask {i : Nat} {f : LinuxTask → LinuxTask}
    (hf : ∀ t, σ.tasks[i]? = some t → t.Final → (f t).Final) : KeepsFinal σ (σ.onTask i f) :=
  Tracks.onTask (fun _ _ => id) hf

lemma change {f : Task → Task} (hf : ∀ t : Task, t.Final → (f t).Final) (i : Nat) :
    KeepsFinal σ (σ.change i f) := onTask fun _ _ => hf _

lemma yield (i : Nat) : KeepsFinal σ (σ.yield i) :=
  Tracks.of_tasks_eq (onTask fun _ _ h => Task.pause_final h) rfl

end KeepsFinal

lemma createTask_final (σ : Kernel) (pc memory : Nat) :
    KeepsFinal σ (σ.createTask pc memory) := by
  intro i t hi
  obtain ⟨t', hi', n, rfl⟩ := createTask_tracks σ pc memory i t hi
  exact ⟨_, hi', id⟩

lemma doWake_final {task uaddr bitset numToWake : Nat} {woken : List Nat}
    (h : doWake σ task uaddr bitset numToWake = some (woken, σ')) : KeepsFinal σ σ' := by
  obtain ⟨_, _, htracks⟩ := doWake_spec h
  intro i t hi
  obtain ⟨t', hi', ⟨_, rfl⟩ | ⟨_, _, rfl⟩⟩ := htracks i t hi
  · exact ⟨_, hi', id⟩
  · exact ⟨_, hi', id⟩

lemma WaitCases.toTask_eq {t' : LinuxTask} {r : Option Int} (h : WaitCases w t r t') :
    t'.toTask = t.toTask := by
  cases h <;> rfl

lemma continueWait_final {m : FutexMemory} (h : continueWait σ i w m = some (o, σ')) :
    KeepsFinal σ σ' := by
  obtain ⟨t, t', hi, ⟨code, hcases, _, rfl⟩ | ⟨hcases, _, rfl⟩⟩ := continueWait_cases h
  all_goals
    have hkeep : ∀ (u : LinuxTask) (wait : Option FutexWait), σ.tasks[i]? = some u → u.Final →
        ({ t' with wait := wait } : LinuxTask).Final := by
      intro u wait hu hf
      obtain rfl := Option.mem_unique hu hi
      have heq : ({ t' with wait := wait } : LinuxTask).toTask = u.toTask := hcases.toTask_eq
      rwa [heq]
  · exact .onTask fun u hu hf => hkeep u none hu hf
  · exact (KeepsFinal.onTask fun u hu hf => hkeep u (some w) hu hf).trans (.yield i)

lemma FutexCases.final {utime : Nat} (h : FutexCases σ i utime o σ') : KeepsFinal σ σ' :=
  (h.rule (R := KeepsFinal) .trans (.onTask fun _ _ => id) (.onTask fun _ _ => id)
    doWake_final).elim id fun ⟨_, _, hrun⟩ => continueWait_final hrun

/-- The lifted code of the current task returns only if the task has not stopped, or if the
status that `__vmill_execute` computes is an error. -/
def FinishKeeps (σ : Kernel) (e : Event) : Prop :=
  match e, σ.current.bind (σ.tasks[·]?) with
  | .finish, some t => t.Final → t.EndsInError
  | _, _ => True

instance (σ : Kernel) (e : Event) : Decidable (FinishKeeps σ e) := by
  unfold FinishKeeps
  split <;> infer_instance

lemma FinishKeeps.elim (h : FinishKeeps σ .finish) (hcur : σ.current = some i)
    (hi : σ.tasks[i]? = some t) (hf : t.Final) : t.EndsInError := by
  unfold FinishKeeps at h
  rw [hcur, Option.bind_some, hi] at h
  exact h hf

/-- A step keeps final tasks final if its finish does. -/
lemma step_final (hk : FinishKeeps σ e) (h : linux.step e σ = some (o, σ')) :
    KeepsFinal σ σ' := by
  cases step_effect h with
  | create pc memory => exact createTask_final σ pc memory
  | clone pc ctid parent =>
    exact (createTask_final σ pc parent.memory).trans (.onTask fun _ _ => id)
  | visit i o σ' run =>
    obtain ⟨t, _, hi, hcases⟩ := visit_cases run
    cases hcases with
    | ran mayRun unblocked =>
      -- the task that is run has not stopped
      refine Tracks.of_tasks_eq (KeepsFinal.onTask fun u hu hf => ?_) rfl
      obtain rfl := Option.mem_unique hi hu
      exact absurd mayRun hf.not_mayRun
    | ticked mayRun blocked => exact .onTask fun _ _ => id
    | skipped stopped => exact .refl σ
  | act a i => exact .change (fun _ hf => a.apply_final hf) i
  | fault kind valueType size addr i =>
    exact .change (fun _ hf => Task.recordFault_final hf kind valueType size addr) i
  | jump pc i =>
    have hjump : KeepsFinal σ (σ.change i (·.remillJump pc)) :=
      .change (f := (·.remillJump pc)) (fun _ hf => hf) i
    exact hjump.trans (.yield i)
  | functionCall pc i =>
    have hcall : KeepsFinal σ (σ.change i (·.remillFunctionCall pc)) :=
      .change (f := (·.remillFunctionCall pc)) (fun _ hf => hf) i
    exact hcall.trans (.yield i)
  | yield i => exact .yield i
  | finish i current =>
    refine Tracks.of_tasks_eq (KeepsFinal.onTask fun u hu hf => ?_) rfl
    exact Task.epilogue_of_error (hk.elim current hu hf) _
  | setTidAddress i tidptr => exact .onTask fun _ _ => id
  | futex a m i t o σ' current found outside cases => exact cases.final
  | wait m i t w o σ' current found inside run => exact continueWait_final run
  | exit i o σ1 first =>
  have hstop : KeepsFinal σ1 (σ1.change i fun t => t.setLocation t.pc .atExit) :=
    .change (f := fun t => t.setLocation t.pc .atExit)
      (fun _ hf => Task.setLocation_final hf _ _) i
  rcases first with ⟨rfl, rfl⟩ | ⟨woken, uaddr, bitset, n, rfl, hwake⟩
  · exact hstop
  · exact (doWake_final hwake).trans hstop

lemma step_ne_ran (h : linux.step e σ = some (o, σ')) (hi : σ.tasks[i]? = some t) (hf : t.Final) :
    o ≠ .ran i := by
  rintro rfl
  obtain ⟨u, _, hu, hcases⟩ := visit_of_scheduled h (.inl rfl)
  obtain rfl := Option.mem_unique hi hu
  cases hcases with
  | ran mayRun unblocked => exact hf.not_mayRun mayRun

/-- Task `i` is final. -/
def Stopped (σ : Kernel) (i : Nat) : Prop := ∃ t, σ.tasks[i]? = some t ∧ t.Final

/-- **Stopped tasks.** In every run whose steps meet the condition, a task that has exited or run
into an error keeps such a status, and is never run. Where the condition fails, the task becomes
runnable, and is run if it is not blocked. -/
theorem status_final (σ : Kernel) (i : Nat) :
    (∀ (events : List Event) (os : List Out) (σ' : Kernel), Stopped σ i →
      linux.RunMeets FinishKeeps events σ → linux.run events σ = some (os, σ') →
        Stopped σ' i ∧ Out.ran i ∉ os) ∧
    ∀ (t : LinuxTask), σ.current = some i → σ.tasks[i]? = some t →
      t.wait = none → ¬ FinishKeeps σ .finish → Stopped σ i ∧
        ∃ σ', linux.step .finish σ = some (.quiet, σ') ∧
          (∃ t', σ'.tasks[i]? = some t' ∧ t'.status = .runnable) ∧
          (t.blockedCount = 0 → ∃ σ'', linux.step (.visit i) σ' = some (.ran i, σ'')) := by
  constructor
  · intro events os σ' hstop hmeets hrun
    have hstep : ∀ τ e o τ', Stopped τ i → FinishKeeps τ e → linux.step e τ = some (o, τ') →
        Stopped τ' i ∧ o ≠ .ran i := by
      rintro τ e o τ' ⟨t, hi, hf⟩ hk hs
      obtain ⟨t', hi', hf'⟩ := step_final hk hs i t hi
      exact ⟨⟨t', hi', hf' hf⟩, step_ne_ran hs hi hf⟩
    refine ⟨Machine.run_preserves (I := (Stopped · i))
      (fun τ e o τ' hI hP hs => (hstep τ e o τ' hI hP hs).1) hstop hmeets hrun, fun hmem => ?_⟩
    exact Machine.run_outputs hstep hstop hmeets hrun _ hmem rfl
  · intro t hcur hi hwait hnot
    have hboth : t.Final ∧ ¬ t.EndsInError := by
      unfold FinishKeeps at hnot
      rw [hcur, Option.bind_some, hi] at hnot
      exact Classical.not_imp.mp hnot
    have hstatus := Task.epilogue_of_not_error hboth.2 t.entryPc
    have hfin : (σ.finish i).tasks[i]? =
        some { t with toTask := t.toTask.epilogue t.entryPc } := Kernel.onTask_self hi _
    refine ⟨⟨t, hi, hboth.1⟩, σ.finish i, ?_, ⟨_, hfin, hstatus⟩, fun hblocked => ?_⟩
    · simp [linux, Kernel.step, Kernel.byCurrent, hcur, hi, hwait]
    · refine ⟨(σ.finish i).run i, ?_⟩
      have hnone : (σ.finish i).current = none := rfl
      simp only [linux, Kernel.step, Kernel.visit, hnone, hfin]
      rw [if_pos (.inl hstatus), if_pos hblocked]

/-- A task that faults and then returns stays stopped while the scheduler goes on. -/
theorem status_final_fault :
    ∃ (σ σ' : Kernel) (os : List Out),
      linux.run [.create 0x1000 0, .create 0x2000 0, .visit 0, .fault .onRead .integer 1 0] .init =
        some ([.quiet, .quiet, .ran 0, .quiet], σ) ∧ Stopped σ 0 ∧
      linux.run [.finish, .visit 0, .visit 1, .finish, .visit 0] σ = some (os, σ') ∧
      Stopped σ' 0 ∧ Out.ran 0 ∉ os := by
  have hrun : ∃ (σ σ' : Kernel) (os : List Out),
      linux.run [.create 0x1000 0, .create 0x2000 0, .visit 0, .fault .onRead .integer 1 0] .init =
        some ([.quiet, .quiet, .ran 0, .quiet], σ) ∧
      linux.RunMeets FinishKeeps [.finish, .visit 0, .visit 1, .finish, .visit 0] σ ∧
      linux.run [.finish, .visit 0, .visit 1, .finish, .visit 0] σ = some (os, σ') ∧
      (∃ t, σ.tasks[0]? = some t ∧ t.Final) :=
    ⟨_, _, _, rfl, by decide, rfl, _, rfl, by decide⟩
  obtain ⟨σ, σ', os, hrun1, hmeets, hrun2, hstop⟩ := hrun
  exact ⟨σ, σ', os, hrun1, hstop, hrun2, (status_final σ 0).1 _ os σ' hstop hmeets hrun2⟩

/-- A task that exits is runnable once its lifted code has returned, and is run again. -/
theorem exited_task_runs_again :
    ∃ (σ σ' : Kernel), linux.run [.create 0x1000 0, .visit 0, .exit] .init =
        some ([.quiet, .ran 0, .quiet], σ) ∧
      (σ.tasks[0]?.map (·.status)) = some .exited ∧
      linux.run [.finish, .visit 0] σ = some ([.quiet, .ran 0], σ') ∧
      (σ'.tasks[0]?.map (·.status)) = some .runnable :=
  ⟨_, _, rfl, rfl, rfl, rfl⟩

end Linux

end Vmill
