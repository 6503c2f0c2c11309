import Vmill.Base.Links
import Vmill.Logic.Linux

/-!
# The list and the ring of tasks

In the order of creation the links count down: the list ends at the first task, and the ring goes
from there to the newest one. No step but `__vmill_create_task` touches the links (`SameLinks`).
-/

namespace Vmill.Linux

open Base Kernel

variable {σ σ' : Kernel} {e : Event} {o : Out} {i memory task uaddr bitset numToWake fuel : Nat}
  {tasks : List LinuxTask} {woken others : List Nat}

/-- The link of a task in the list. -/
def nextLink (tasks : List LinuxTask) (i : Nat) : Option (Option Nat) := tasks[i]?.map (·.next)

/-- The link of a task in the ring. -/
def circularLink (tasks : List LinuxTask) (i : Nat) : Option Nat := tasks[i]?.map (·.nextCircular)

/-- The list, the ring and the task ids are as they were. -/
structure SameLinks (σ σ' : Kernel) : Prop where
  tasks : Tracks (fun _ t t' => t'.next = t.next ∧ t'.nextCircular = t.nextCircular ∧
    t'.tid = t.tid) σ σ'
  length : σ'.tasks.length = σ.tasks.length
  taskList : σ'.taskList = σ.taskList
  lastTask : σ'.lastTask = σ.lastTask
  nextTid : σ'.nextTid = σ.nextTid

namespace SameLinks

variable {σ'' : Kernel}

lemma refl (σ : Kernel) : SameLinks σ σ :=
  ⟨Tracks.refl (fun _ _ => ⟨rfl, rfl, rfl⟩) σ, rfl, rfl, rfl, rfl⟩

lemma trans (h1 : SameLinks σ σ') (h2 : SameLinks σ' σ'') : SameLinks σ σ'' where
  tasks := by
    refine Tracks.trans (fun _ t t' t'' hr hr' => ?_) h1.tasks h2.tasks
    obtain ⟨hn, hc, ht⟩ := hr
    obtain ⟨hn', hc', ht'⟩ := hr'
    exact ⟨hn'.trans hn, hc'.trans hc, ht'.trans ht⟩
  length := h2.length.trans h1.length
  taskList := h2.taskList.trans h1.taskList
  lastTask := h2.lastTask.trans h1.lastTask
  nextTid := h2.nextTid.trans h1.nextTid

lemma onTask {f : LinuxTask → LinuxTask}
    (hf : ∀ t, σ.tasks[i]? = some t → (f t).next = t.next ∧ (f t).nextCircular = t.nextCircular ∧
      (f t).tid = t.tid) : SameLinks σ (σ.onTask i f) :=
  ⟨Tracks.onTask (fun _ _ => ⟨rfl, rfl, rfl⟩) hf, onTask_length .., rfl, rfl, rfl⟩

lemma change (i : Nat) (f : Task → Task) : SameLinks σ (σ.change i f) :=
  onTask fun _ _ => ⟨rfl, rfl, rfl⟩

lemma current (h : SameLinks σ σ') (current : Option Nat) :
    SameLinks σ { σ' with current := current } :=
  ⟨h.tasks, h.length, h.taskList, h.lastTask, h.nextTid⟩

lemma yield (i : Nat) : SameLinks σ (σ.yield i) := by
  have hpause : SameLinks σ (σ.onTask i fun t => { t with toTask := t.toTask.pause }) :=
    onTask fun _ _ => ⟨rfl, rfl, rfl⟩
  exact hpause.current none

lemma finish (i : Nat) : SameLinks σ (σ.finish i) := by
  have hend : SameLinks σ
      (σ.onTask i fun t => { t with toTask := t.toTask.epilogue t.entryPc }) :=
    onTask fun _ _ => ⟨rfl, rfl, rfl⟩
  exact hend.current none

lemma doWake {task uaddr bitset numToWake : Nat} {woken : List Nat}
    (h : doWake σ task uaddr bitset numToWake = some (woken, σ')) : SameLinks σ σ' := by
  obtain ⟨⟨_, hlen, _⟩, _, htracks⟩ := doWake_spec h
  have hglobals : σ'.taskList = σ.taskList ∧ σ'.lastTask = σ.lastTask ∧ σ'.nextTid = σ.nextTid := by
    unfold Linux.doWake at h
    split at h
    · exact nomatch h
    split at h
    · exact nomatch h
    cases h
    exact ⟨rfl, rfl, rfl⟩
  obtain ⟨hlist, hlast, htid⟩ := hglobals
  refine ⟨fun i t hi => ?_, hlen, hlist, hlast, htid⟩
  obtain ⟨t', hi', ⟨_, rfl⟩ | ⟨_, _, rfl⟩⟩ := htracks i t hi
  · exact ⟨_, hi', rfl, rfl, rfl⟩
  · exact ⟨_, hi', rfl, rfl, rfl⟩

lemma continueWait {w : FutexWait} {m : FutexMemory} (h : continueWait σ i w m = some (o, σ')) :
    SameLinks σ σ' := by
  obtain ⟨t, t', hi, hends⟩ := continueWait_cases h
  have hround : ∀ {r : Option Int} {wait : Option FutexWait}, WaitCases w t r t' →
      SameLinks σ (σ.onTask i fun _ => { t' with wait := wait }) := by
    intro r wait hcases
    refine onTask fun u hu => ?_
    obtain rfl := Option.mem_unique hu hi
    cases hcases <;> exact ⟨rfl, rfl, rfl⟩
  rcases hends with ⟨code, hcases, _, rfl⟩ | ⟨hcases, _, rfl⟩
  · exact hround hcases
  · exact (hround hcases).trans (yield i)

lemma futex {utime : Nat} (h : FutexCases σ i utime o σ') : SameLinks σ σ' :=
  (h.rule (R := SameLinks) trans (onTask fun _ _ => ⟨rfl, rfl, rfl⟩)
    (onTask fun _ _ => ⟨rfl, rfl, rfl⟩) doWake).elim id fun ⟨_, _, hrun⟩ => continueWait hrun

end SameLinks

lemma step_links (h : linux.step e σ = some (o, σ')) :
    (e.makesTask ∧ ∃ pc memory, SameLinks (σ.createTask pc memory) σ') ∨ SameLinks σ σ' := by
  cases step_effect h with
  | create pc memory => exact .inl ⟨rfl, pc, memory, .refl _⟩
  | clone pc ctid parent =>
    exact .inl ⟨rfl, pc, parent.memory, .onTask fun _ _ => ⟨rfl, rfl, rfl⟩⟩
  | visit i o σ' run =>
    obtain ⟨t, _, hi, hcases⟩ := visit_cases run
    cases hcases with
    | ran mayRun unblocked =>
      refine .inr (SameLinks.current (.onTask fun t _ => ?_) _)
      split <;> exact ⟨rfl, rfl, rfl⟩
    | ticked mayRun blocked => exact .inr (.onTask fun _ _ => ⟨rfl, rfl, rfl⟩)
    | skipped stopped => exact .inr (.refl σ)
  | act a i | fault kind valueType size addr i => exact .inr (.change i _)
  | jump pc i | functionCall pc i => exact .inr ((SameLinks.change i _).trans (.yield i))
  | yield i => exact .inr (.yield i)
  | finish i current => exact .inr (.finish i)
  | setTidAddress i tidptr => exact .inr (.onTask fun _ _ => ⟨rfl, rfl, rfl⟩)
  | futex a m i t o σ' current found outside cases => exact .inr (.futex cases)
  | wait m i t w o σ' current found inside run => exact .inr (.continueWait run)
  | exit i o σ1 first =>
  rcases first with ⟨rfl, rfl⟩ | ⟨woken, uaddr, bitset, n, rfl, hwake⟩
  · exact .inr (.change i _)
  · exact .inr ((SameLinks.doWake hwake).trans (.change i _))

/-- The links count down in the order of creation, and the ids count up. -/
structure Linked (σ : Kernel) : Prop where
  next : ∀ i < σ.tasks.length,
    nextLink σ.tasks i = some (if i = 0 then none else some (i - 1))
  circular : ∀ i < σ.tasks.length,
    circularLink σ.tasks i = some (if i = 0 then σ.tasks.length - 1 else i - 1)
  tid : ∀ i t, σ.tasks[i]? = some t → t.tid = kProcessId + i
  taskList : σ.taskList = if σ.tasks.length = 0 then none else some (σ.tasks.length - 1)
  lastTask : σ.lastTask = if σ.tasks.length = 0 then none else some 0
  nextTid : σ.nextTid = kProcessId + σ.tasks.length

lemma linked_init : Linked Kernel.init where
  next i hi := absurd hi (Nat.not_lt_zero i)
  circular i hi := absurd hi (Nat.not_lt_zero i)
  tid _ _ hi := nomatch hi
  taskList := rfl
  lastTask := rfl
  nextTid := rfl

lemma Linked.sameLinks (h : Linked σ) (hs : SameLinks σ σ') : Linked σ' := by
  have hlen := hs.length
  have htask : ∀ i < σ.tasks.length, ∃ t t', σ.tasks[i]? = some t ∧ σ'.tasks[i]? = some t' ∧
      t'.next = t.next ∧ t'.nextCircular = t.nextCircular ∧ t'.tid = t.tid := by
    intro i hi
    obtain ⟨t', hi', hsame⟩ := hs.tasks i _ (List.getElem?_eq_getElem hi)
    exact ⟨_, t', List.getElem?_eq_getElem hi, hi', hsame⟩
  refine ⟨fun i hi => ?_, fun i hi => ?_, fun i t' hi => ?_, ?_, ?_, ?_⟩
  · obtain ⟨t, t', ht, ht', hn, _⟩ := htask i (hlen ▸ hi)
    rw [← h.next i (hlen ▸ hi)]
    simp only [nextLink, ht, ht', Option.map_some, hn]
  · obtain ⟨t, t', ht, ht', _, hc, _⟩ := htask i (hlen ▸ hi)
    rw [hlen, ← h.circular i (hlen ▸ hi)]
    simp only [circularLink, ht, ht', Option.map_some, hc]
  · obtain ⟨hlt, _⟩ := List.getElem?_eq_some_iff.mp hi
    obtain ⟨t, u, ht, hu, _, _, htid⟩ := htask i (hlen ▸ hlt)
    obtain rfl := Option.mem_unique hu hi
    rw [htid, h.tid i t ht]
  · rw [hs.taskList, hlen, h.taskList]
  · rw [hs.lastTask, hlen, h.lastTask]
  · rw [hs.nextTid, hlen, h.nextTid]

lemma linkTask_globals (σ : Kernel) (task : Nat) :
    (σ.linkTask task).1.taskList = σ.taskList ∧ (σ.linkTask task).1.nextTid = σ.nextTid := by
  unfold linkTask
  split <;> exact ⟨rfl, rfl⟩

lemma Linked.linkTask_front (h : Linked σ) :
    (σ.linkTask σ.tasks.length).2 = σ.tasks.length - 1 ∧
      (σ.linkTask σ.tasks.length).1.lastTask = some 0 := by
  unfold linkTask
  rw [h.taskList, h.lastTask]
  by_cases hzero : σ.tasks.length = 0
  · simp only [hzero, if_true]
    exact ⟨trivial, trivial⟩
  simp only [hzero, if_false]
  refine ⟨trivial, ?_⟩
  show σ.lastTask = some 0
  rw [h.lastTask, if_neg hzero]

lemma Linked.linkTask_circular (h : Linked σ) (hi : i < σ.tasks.length) :
    circularLink (σ.linkTask σ.tasks.length).1.tasks i =
      some (if i = 0 then σ.tasks.length else i - 1) := by
  have hpos : σ.tasks.length ≠ 0 := by omega
  have hold := h.circular i hi
  unfold linkTask
  rw [h.taskList, h.lastTask]
  simp only [hpos, if_false, Kernel.onTask, circularLink] at hold ⊢
  obtain ⟨t, ht, hnext⟩ := Option.map_eq_some_iff.mp hold
  by_cases hzero : i = 0
  · subst hzero
    rw [List.getElem?_modify_eq, ht]
    rfl
  rw [List.getElem?_modify_ne _ _ (Ne.symm hzero), ht, if_neg hzero]
  rw [if_neg hzero] at hnext
  exact congrArg some hnext

lemma createTask_cases {pc : Nat} {t' : LinuxTask}
    (hi : (σ.createTask pc memory).tasks[i]? = some t') :
    (∃ t, i < σ.tasks.length ∧ σ.tasks[i]? = some t ∧
        (σ.linkTask σ.tasks.length).1.tasks[i]? = some t' ∧ t'.next = t.next ∧ t'.tid = t.tid) ∨
      (i = σ.tasks.length ∧ t'.next = σ.taskList ∧ t'.tid = σ.nextTid ∧
        t'.nextCircular = (σ.linkTask σ.tasks.length).2) := by
  have hlen := linkTask_length σ σ.tasks.length
  obtain ⟨hlist, htid⟩ := linkTask_globals σ σ.tasks.length
  simp only [createTask] at hi
  rcases Nat.lt_or_ge i σ.tasks.length with hlt | hge
  · rw [List.getElem?_append_left (by omega)] at hi
    obtain ⟨u, hu, n, rfl⟩ :=
      linkTask_tracks σ σ.tasks.length i _ (List.getElem?_eq_getElem hlt)
    obtain rfl := Option.mem_unique hu hi
    exact .inl ⟨_, hlt, List.getElem?_eq_getElem hlt, hi, rfl, rfl⟩
  obtain ⟨hlt, _⟩ := List.getElem?_eq_some_iff.mp hi
  rw [List.length_append, List.length_singleton] at hlt
  obtain rfl : i = σ.tasks.length := by omega
  rw [List.getElem?_append_right (by omega), hlen, Nat.sub_self] at hi
  cases hi
  exact .inr ⟨rfl, hlist, htid, rfl⟩

lemma Linked.createTask (h : Linked σ) (pc memory : Nat) : Linked (σ.createTask pc memory) := by
  have hlen := createTask_length σ pc memory
  obtain ⟨hfront, hlast⟩ := h.linkTask_front
  obtain ⟨hlist, htid⟩ := linkTask_globals σ σ.tasks.length
  refine ⟨fun i hi => ?_, fun i hi => ?_, fun i t' hi => ?_, ?_, ?_, ?_⟩
  · obtain ⟨t', ht'⟩ : ∃ t', (σ.createTask pc memory).tasks[i]? = some t' :=
      ⟨_, List.getElem?_eq_getElem hi⟩
    simp only [nextLink, ht', Option.map_some]
    rcases createTask_cases ht' with ⟨t, hlt, ht, _, hnext, _⟩ | ⟨rfl, hnext, _⟩
    · have hold := h.next i hlt
      simp only [nextLink, ht, Option.map_some] at hold
      rw [hnext, hold]
    · rw [hnext, h.taskList]
  · obtain ⟨t', ht'⟩ : ∃ t', (σ.createTask pc memory).tasks[i]? = some t' :=
      ⟨_, List.getElem?_eq_getElem hi⟩
    rw [hlen, Nat.add_sub_cancel]
    rcases createTask_cases ht' with ⟨t, hlt, _, hlink, _⟩ | ⟨rfl, _, _, hcircular⟩
    · rw [← h.linkTask_circular hlt]
      simp only [circularLink, ht', hlink]
    simp only [circularLink, ht', Option.map_some, hcircular, hfront]
    split <;> congr 1
    omega
  · rcases createTask_cases hi with ⟨t, _, ht, _, _, heq⟩ | ⟨rfl, _, heq, _⟩
    · rw [heq, h.tid i t ht]
    · rw [heq, h.nextTid]
  · rw [hlen, if_neg (Nat.succ_ne_zero _)]
    rfl
  · rwa [hlen, if_neg (Nat.succ_ne_zero _)]
  show (σ.linkTask σ.tasks.length).1.nextTid + 1 = _
  rw [htid, h.nextTid, hlen]
  rfl

lemma Linked.linux_step (h : Linked σ) (hs : linux.step e σ = some (o, σ')) : Linked σ' := by
  rcases step_links hs with ⟨_, pc, memory, hsame⟩ | hsame
  · exact (h.createTask pc memory).sameLinks hsame
  · exact h.sameLinks hsame

lemma Linked.step (h : Linked σ) (hmax : σ.nextTid < 2 ^ 31)
    (hs : linuxTasks.step e σ = some (o, σ')) : Linked σ' ∧ σ'.nextTid < 2 ^ 31 := by
  obtain ⟨hleft, hs⟩ : ¬(e.makesTask ∧ 2 ^ 31 ≤ σ.nextTid + 1) ∧
      linux.step e σ = some (o, σ') := by
    simp only [linuxTasks] at hs
    split at hs
    · exact nomatch hs
    · exact ⟨‹_›, hs⟩
  refine ⟨h.linux_step hs, ?_⟩
  rcases step_links hs with ⟨hmakes, pc, memory, hsame⟩ | hsame
  · have hnext : σ.nextTid + 1 < 2 ^ 31 := Nat.lt_of_not_ge fun hge => hleft ⟨hmakes, hge⟩
    rwa [hsame.nextTid, (h.createTask pc memory).nextTid, createTask_length, ← Nat.add_assoc,
      ← h.nextTid]
  · rwa [hsame.nextTid]

lemma linked_of_run {es : List Event} {outs : List Out}
    (h : linuxTasks.run es Kernel.init = some (outs, σ)) : Linked σ ∧ σ.nextTid < 2 ^ 31 := by
  let I := fun σ : Kernel => Linked σ ∧ σ.nextTid < 2 ^ 31
  have hstep : ∀ σ e o σ', I σ → True → linuxTasks.step e σ = some (o, σ') → I σ' :=
    fun σ e o σ' hI _ hs => hI.1.step hI.2 hs
  have hinit : I Kernel.init := ⟨linked_init, by decide⟩
  exact Machine.run_preserves (I := I) hstep hinit
    (Machine.runMeets_of_forall (fun _ _ _ => trivial) _) h

/-- A body that also keeps a list of the tasks that the loop comes to. -/
def logged {β : Type} (body : Nat → LinuxTask → β × List LinuxTask → Bool × β × List LinuxTask)
    (nextTask : Nat) (t : LinuxTask) :
    (List Nat × β) × List LinuxTask → Bool × (List Nat × β) × List LinuxTask
  | ((visited, b), tasks) =>
    let (stop, b, tasks) := body nextTask t (b, tasks)
    (stop, (visited ++ [nextTask], b), tasks)

/-- The list does not change what the loop does. -/
lemma ringLoop_logged {β : Type} (task fuel : Nat)
    (body : Nat → LinuxTask → β × List LinuxTask → Bool × β × List LinuxTask)
    (nextTask : Nat) (visited : List Nat) (b : β) (tasks : List LinuxTask) :
    (ringLoop task (logged body) fuel nextTask ((visited, b), tasks)).map
      (fun r => (r.1.2, r.2)) = ringLoop task body fuel nextTask (b, tasks) := by
  induction fuel generalizing nextTask visited b tasks with
  | zero => rfl
  | succ fuel ih =>
  rw [ringLoop, ringLoop]
  by_cases hend : nextTask = task
  · rw [if_pos hend, if_pos hend]
    rfl
  rw [if_neg hend, if_neg hend]
  cases tasks[nextTask]? with
  | none => rfl
  | some t =>
  rcases hbody : body nextTask t (b, tasks) with ⟨stop, b', tasks'⟩
  simp only [logged, hbody]
  cases stop with
  | true => rfl
  | false => exact ih ..

/-- The tasks that `DoWake` comes to. -/
def doWakeVisits (σ : Kernel) (task uaddr bitset numToWake : Nat) : Option (List Nat) :=
  match σ.tasks[task]? with
  | none => none
  | some t =>
    (ringLoop task (logged (wakeBody t.memory uaddr bitset numToWake)) (σ.tasks.length + 1)
      t.nextCircular (([], []), σ.tasks)).map (·.1.1)

lemma circularLink_set {t : LinuxTask} (ht : tasks[i]? = some t) :
    circularLink (tasks.set i { t with blockedCount := 0 }) = circularLink tasks := by
  funext k
  unfold circularLink
  rw [List.getElem?_set]
  obtain ⟨hlt, _⟩ := List.getElem?_eq_some_iff.mp ht
  split
  · rename_i heq
    subst heq
    rw [ht]
    rfl
  · rfl

/-- What the body does not change, and when it leaves the loop. -/
lemma wakeBody_spec {t : LinuxTask} {stop : Bool} {woken' : List Nat} {tasks' : List LinuxTask}
    (ht : tasks[i]? = some t)
    (h : wakeBody memory uaddr bitset numToWake i t (woken, tasks) = (stop, woken', tasks')) :
    circularLink tasks' = circularLink tasks ∧
      (stop = true → woken' ≠ [] ∧ numToWake ≤ woken'.length) := by
  simp only [wakeBody] at h
  split at h
  · cases h
    exact ⟨rfl, fun hstop => absurd hstop Bool.false_ne_true⟩
  split at h
  · cases h
    exact ⟨circularLink_set ht, fun hstop => ⟨by simp, of_decide_eq_true hstop⟩⟩
  · cases h
    exact ⟨rfl, fun hstop => absurd hstop Bool.false_ne_true⟩

/-- The loop goes through the tasks in front of it one by one, and leaves some out only after it has
woken as many as it should. -/
lemma wakeLoop_path (memory uaddr bitset numToWake : Nat) (visited woken : List Nat)
    {nextTask : Nat} (hfuel : others.length < fuel) (hnot : task ∉ others) (hpath : Path (circularLink tasks) nextTask others task) :
    ∃ new rest woken' tasks', others = new ++ rest ∧
      ringLoop task (logged (wakeBody memory uaddr bitset numToWake)) fuel nextTask
        ((visited, woken), tasks) = some ((visited ++ new, woken'), tasks') ∧
      (rest = [] ∨ woken' ≠ [] ∧ numToWake ≤ woken'.length) := by
  induction others generalizing fuel nextTask visited woken tasks with
  | nil =>
    cases hpath
    obtain ⟨fuel, rfl⟩ : ∃ n, fuel = n + 1 := ⟨fuel - 1, by omega⟩
    refine ⟨[], [], woken, tasks, rfl, ?_, .inl rfl⟩
    rw [ringLoop, if_pos rfl, List.append_nil]
  | cons i others ih =>
  obtain ⟨fuel, rfl⟩ : ∃ n, fuel = n + 1 := ⟨fuel - 1, by omega⟩
  cases hpath with
  | cons link rest =>
  obtain ⟨t, ht, rfl⟩ := Option.map_eq_some_iff.mp link
  have hne : i ≠ task := fun heq => hnot (heq ▸ (.head _))
  rcases hbody : wakeBody memory uaddr bitset numToWake i t (woken, tasks) with
    ⟨stop, woken1, tasks1⟩
  obtain ⟨hlinks, hstop⟩ := wakeBody_spec ht hbody
  rw [ringLoop, if_neg hne]
  simp only [ht, logged, hbody]
  cases stop with
  | true => exact ⟨[i], others, woken1, tasks1, rfl, rfl, .inr (hstop rfl)⟩
  | false =>
  rw [← hlinks] at rest
  obtain ⟨new, left, woken', tasks', hall, hloop, hend⟩ := ih (visited ++ [i]) woken1
    (Nat.lt_of_succ_lt_succ hfuel) (fun hmem => hnot (.tail _ hmem)) rest
  refine ⟨i :: new, left, woken', tasks', congrArg _ hall, ?_, hend⟩
  rw [List.append_assoc] at hloop
  exact hloop

/-- `DoWake` from task `i` returns. It comes to tasks of `others` in their order, each as often as
it is there, and to all of them unless it stops after `numToWake` wakes. -/
def WakesOthers (σ : Kernel) (i : Nat) (others : List Nat) : Prop :=
  ∀ uaddr bitset numToWake, ∃ visited rest woken σ', others = visited ++ rest ∧
    doWakeVisits σ i uaddr bitset numToWake = some visited ∧
    doWake σ i uaddr bitset numToWake = some (woken, σ') ∧
    (rest = [] ∨ woken ≠ [] ∧ numToWake ≤ woken.length)

lemma Linked.wakesOthers (hnodup : (i :: others).Nodup) (hlen : others.length < σ.tasks.length)
    (hpath : Path (circularLink σ.tasks) i (i :: others) i) : WakesOthers σ i others := by
  intro uaddr bitset numToWake
  cases hpath with
  | cons link rest =>
    obtain ⟨t, ht, rfl⟩ := Option.map_eq_some_iff.mp link
    have hnot := (List.nodup_cons.mp hnodup).1
    obtain ⟨visited, left, woken, tasks, hall, hlog, hstop⟩ :=
      wakeLoop_path t.memory uaddr bitset numToWake [] []
        (show others.length < σ.tasks.length + 1 by omega) hnot rest
    have hloop := ringLoop_logged i (σ.tasks.length + 1)
      (wakeBody t.memory uaddr bitset numToWake) t.nextCircular [] [] σ.tasks
    rw [hlog] at hloop
    refine ⟨visited, left, woken, { σ with tasks := tasks }, hall, ?_, ?_, hstop⟩
    · simp only [doWakeVisits, ht, hlog]
      rfl
    · simp only [doWake, ht, wakeLoop, ← hloop]
      rfl

lemma Linked.tids (h : Linked σ) :
    σ.tasks.map (·.tid) = (List.range σ.tasks.length).map (kProcessId + ·) := by
  refine List.ext_getElem? fun i => ?_
  rw [List.getElem?_map, List.getElem?_map]
  rcases Nat.lt_or_ge i σ.tasks.length with hlt | hge
  · have htask := List.getElem?_eq_getElem hlt
    rw [List.getElem?_range hlt, htask, Option.map_some, Option.map_some, h.tid i _ htask]
  rw [List.getElem?_eq_none hge, List.getElem?_eq_none (by rwa [List.length_range])]
  rfl

/-- **The ring of tasks.** In every reached state the list has every task once; `next_circular`
leads around a ring of the same tasks; the ids are distinct; and `DoWake` from any task returns,
after it came to every other task once or has woken as many as it was asked for. -/
theorem task_ring {es : List Event} {outs : List Out} {σ : Kernel}
    (h : linuxTasks.run es Kernel.init = some (outs, σ)) :
    (∃ chain, Chain (nextLink σ.tasks) σ.taskList chain ∧ chain.Nodup ∧
      (∀ i, i ∈ chain ↔ i < σ.tasks.length) ∧
      ∀ i ∈ chain, ∃ others, Path (circularLink σ.tasks) i (i :: others) i ∧
        (i :: others).Perm chain ∧ WakesOthers σ i others) ∧
    (σ.tasks.map (·.tid)).Nodup ∧ ∀ t ∈ σ.tasks, t.tid < 2 ^ 31 := by
  obtain ⟨hlinked, hmax⟩ := linked_of_run h
  refine ⟨⟨(List.range σ.tasks.length).reverse, ?_, ?_, ?_, ?_⟩, ?_, ?_⟩
  · rw [hlinked.taskList]
    exact chain_down hlinked.next
  · exact List.nodup_reverse.mpr List.nodup_range
  · intro i
    rw [List.mem_reverse, List.mem_range]
  · intro i hi
    rw [List.mem_reverse, List.mem_range] at hi
    obtain ⟨others, hring⟩ := @ringFrom_cons σ.tasks.length i
    have hperm := ringFrom_perm hi
    have hpath := ring_path hi hlinked.circular
    rw [hring] at hperm hpath
    refine ⟨others, hpath, hperm.trans (List.reverse_perm _).symm, ?_⟩
    have hlen := hperm.length_eq
    rw [List.length_cons, List.length_range] at hlen
    exact Linked.wakesOthers (hperm.nodup_iff.mpr List.nodup_range) (by omega) hpath
  · rw [hlinked.tids]
    exact List.Nodup.map (fun _ _ heq => Nat.add_left_cancel heq) List.nodup_range
  · intro t ht
    have htid : t.tid ∈ σ.tasks.map (·.tid) := List.mem_map_of_mem ht
    rw [hlinked.tids] at htid
    obtain ⟨i, hi, heq⟩ := List.mem_map.mp htid
    have hlt := List.mem_range.mp hi
    have hnext := hlinked.nextTid
    omega

abbrev sleeps : Event :=
  .futex ⟨0x1000, 0, 7, 0, 0, 0⟩ ⟨some 7, true, none, false, none⟩

abbrev twoWaiters : List Event :=
  [.create 0x400000 0, .create 0x400000 0, .create 0x400000 0, .visit 1, sleeps, .visit 2, sleeps,
    .visit 0]

theorem task_ring_three : ∃ outs σ, linuxTasks.run twoWaiters Kernel.init = some (outs, σ) ∧
    (σ.tasks.map (·.tid)).Nodup := by
  obtain ⟨⟨outs, σ⟩, hrun⟩ :=
    Option.isSome_iff_exists.mp (by decide : (linuxTasks.run twoWaiters Kernel.init).isSome)
  exact ⟨outs, σ, hrun, (task_ring hrun).2.1⟩

/-- **Tasks are never lost.** Whatever is run, from whatever state: a task stays at its place, with
its `tid` and its link to the task that was created before it. -/
theorem tasks_kept {es : List Event} {outs : List Out}
    (h : linuxTasks.run es σ = some (outs, σ')) :
    Tracks (fun _ t t' => t'.tid = t.tid ∧ t'.next = t.next) σ σ' := by
  refine Machine.run_preserves (M := linuxTasks) (I := Tracks _ σ) (P := fun _ _ => True) ?_
    (Tracks.refl (fun _ _ => ⟨rfl, rfl⟩) σ) (Machine.runMeets_of_forall (fun _ _ _ => trivial) _) h
  intro σ1 e o σ2 hI _ hs
  refine Tracks.trans (fun _ _ _ _ hr hr' => ⟨hr'.1.trans hr.1, hr'.2.trans hr.2⟩) hI fun i t hi => ?_
  simp only [linuxTasks] at hs
  split at hs
  · exact nomatch hs
  rcases step_links hs with ⟨_, pc, memory, hsame⟩ | hsame
  · obtain ⟨_, hi1, n, rfl⟩ := createTask_tracks σ1 pc memory i t hi
    obtain ⟨t', hi', hnext, _, htid⟩ := hsame.tasks i _ hi1
    exact ⟨t', hi', htid, hnext⟩
  · obtain ⟨t', hi', hnext, _, htid⟩ := hsame.tasks i t hi
    exact ⟨t', hi', htid, hnext⟩

theorem tasks_kept_exit : ∃ outs σ t, linuxTasks.run [.create 0x400000 0, .visit 0, .exit]
    (Kernel.init.createTask 0x400000 0) = some (outs, σ) ∧ σ.tasks[0]? = some t ∧
      t.tid = kProcessId := by
  obtain ⟨⟨outs, σ⟩, hrun⟩ := Option.isSome_iff_exists.mp (by decide : (linuxTasks.run
    [.create 0x400000 0, .visit 0, .exit] (Kernel.init.createTask 0x400000 0)).isSome)
  obtain ⟨t, ht, htid, _⟩ := tasks_kept hrun 0 _ rfl
  exact ⟨outs, σ, t, hrun, ht, htid⟩

/-- With one task to wake, `DoWake` does not come to the last task. -/
theorem wake_stops_early : ∃ outs σ visited,
    linuxTasks.run twoWaiters Kernel.init = some (outs, σ) ∧ σ.tasks.length = 3 ∧
    doWakeVisits σ 0 0x1000 1 1 = some visited ∧ 1 ∉ visited := by
  have hrun : (linuxTasks.run twoWaiters Kernel.init).any (fun r => decide (r.2.tasks.length = 3 ∧
      doWakeVisits r.2 0 0x1000 1 1 = some [2])) := by decide
  obtain ⟨⟨outs, σ⟩, hrun, hvisits⟩ := (Option.any_eq_true _ _).mp hrun
  obtain ⟨hlen, hvisits⟩ := of_decide_eq_true hvisits
  exact ⟨outs, σ, [2], hrun, hlen, hvisits, by decide⟩

end Vmill.Linux
