import Vmill.Runtime.Linux.Resume
import Vmill.Theorems.Ring

/-!
# The scheduler

A task that `__vmill_resume` runs can put new tasks in front of the list, but it does not touch the
links of the tasks that are there: so what is left of the pass (`Remaining`) is not changed.
-/

namespace Vmill.Linux

open Base Kernel

variable {s s' : Resume} {o : ResumeOut} {op : ResumeOp} {σ : Kernel} {rest : List Nat}
  {ops : List ResumeOp} {os : List ResumeOut}

/-- The scheduler runs such a task. -/
def LinuxTask.MayRun (t : LinuxTask) : Prop := t.status = .runnable ∨ t.status = .resumable
deriving Decidable

/-- What a step of `Resume` does. -/
inductive ResumeEffect (s : Resume) : ResumeOp → ResumeOut → Resume → Prop
  | begins (idle : s.kernel.current = none) (point : s.point = .test true) :
      ResumeEffect s .scheduler .passBegins { s with point := .loop false s.kernel.taskList }
  | returns (idle : s.kernel.current = none) (point : s.point = .test false) :
      ResumeEffect s .scheduler .returns { s with point := .returned }
  | ends (progressed : Bool) (idle : s.kernel.current = none)
      (point : s.point = .loop progressed none) :
      ResumeEffect s .scheduler .quiet { s with point := .test progressed }
  | visits (progressed : Bool) (i : Nat) (t : LinuxTask) (o : Out) (σ : Kernel)
      (idle : s.kernel.current = none) (point : s.point = .loop progressed (some i))
      (found : s.kernel.tasks[i]? = some t) (run : s.kernel.visit i = some (o, σ))
      (cases : VisitCases s.kernel i t o σ) :
      ResumeEffect s .scheduler (.visited i o) ⟨σ, .next (progressed || o.progresses) i⟩
  | advances (progressed : Bool) (i : Nat) (t : LinuxTask) (idle : s.kernel.current = none)
      (point : s.point = .next progressed i) (found : s.kernel.tasks[i]? = some t) :
      ResumeEffect s .scheduler .quiet { s with point := .loop progressed t.next }
  | guest (e : Event) (i : Nat) (o : Out) (σ : Kernel) (current : s.kernel.current = some i)
      (run : linux.step e s.kernel = some (o, σ)) :
      ResumeEffect s (.guest e) (.guest o) { s with kernel := σ }

lemma advance_effect (hidle : s.kernel.current = none) (h : s.advance = some (o, s')) :
    ResumeEffect s .scheduler o s' := by
  unfold Resume.advance at h
  split at h
  · rename_i hpoint
    cases h
    exact .begins hidle hpoint
  · rename_i hpoint
    cases h
    exact .returns hidle hpoint
  · rename_i progressed hpoint
    cases h
    exact .ends progressed hidle hpoint
  · rename_i progressed i hpoint
    split at h
    · exact nomatch h
    rename_i o' σ hrun
    cases h
    obtain ⟨t, _, hi, hcases⟩ := visit_cases hrun
    exact .visits progressed i t o' σ hidle hpoint hi hrun hcases
  · rename_i progressed i hpoint
    split at h
    · exact nomatch h
    rename_i t hi
    cases h
    exact .advances progressed i t hidle hpoint hi
  · exact nomatch h

lemma resume_effect (h : vmillResume.step op s = some (o, s')) : ResumeEffect s op o s' := by
  simp only [vmillResume, Resume.step] at h
  split at h
  · rename_i hidle
    exact advance_effect hidle h
  · rename_i e i hcur
    split at h
    · exact nomatch h
    rename_i o' σ hrun
    cases h
    exact .guest e i o' σ hcur hrun
  · exact nomatch h

lemma step_nextLink {σ' : Kernel} {e : Event} {o : Out} (h : linux.step e σ = some (o, σ'))
    {i : Nat} {b : Option Nat} (hlink : nextLink σ.tasks i = some b) :
    nextLink σ'.tasks i = some b := by
  have hsame : ∀ {τ τ' : Kernel}, SameLinks τ τ' → nextLink τ.tasks i = some b →
      nextLink τ'.tasks i = some b := by
    intro τ τ' hs hτ
    obtain ⟨t, ht, rfl⟩ := Option.map_eq_some_iff.mp hτ
    obtain ⟨t', ht', hnext, _⟩ := hs.tasks i t ht
    exact Option.map_eq_some_iff.mpr ⟨t', ht', hnext⟩
  rcases step_links h with ⟨_, pc, memory, hs⟩ | hs
  · refine hsame hs ?_
    obtain ⟨t, ht, rfl⟩ := Option.map_eq_some_iff.mp hlink
    obtain ⟨t', ht', n, rfl⟩ := createTask_tracks σ pc memory i t ht
    exact Option.map_eq_some_iff.mpr ⟨_, ht', rfl⟩
  · exact hsame hs hlink

/-- The tasks that the pass has still to visit. -/
inductive Remaining (tasks : List LinuxTask) : Point → List Nat → Prop
  | test (progressed : Bool) : Remaining tasks (.test progressed) []
  | loop (progressed : Bool) {task : Option Nat} {rest : List Nat}
      (chain : Chain (nextLink tasks) task rest) : Remaining tasks (.loop progressed task) rest
  | next (progressed : Bool) {task : Nat} {b : Option Nat} {rest : List Nat}
      (link : nextLink tasks task = some b) (chain : Chain (nextLink tasks) b rest) :
      Remaining tasks (.next progressed task) rest
  | returned : Remaining tasks .returned []

lemma Remaining.mono {tasks tasks' : List LinuxTask} {point : Point}
    (h : Remaining tasks point rest)
    (hlinks : ∀ i b, nextLink tasks i = some b → nextLink tasks' i = some b) :
    Remaining tasks' point rest := by
  cases h with
  | test progressed => exact .test progressed
  | loop progressed chain => exact .loop progressed (chain.mono hlinks)
  | next progressed link chain => exact .next progressed (hlinks _ _ link) (chain.mono hlinks)
  | returned => exact .returned

/-- The task that is visited. -/
def ResumeOut.visits : ResumeOut → Option Nat
  | .visited i _ => some i
  | _ => none

/-- **Step lemma.** A step inside of a pass takes a task from what is left, or nothing. -/
lemma Remaining.step (h : Remaining s.kernel.tasks s.point rest) (ho : o ≠ .passBegins)
    (hs : vmillResume.step op s = some (o, s')) :
    ∃ rest', Remaining s'.kernel.tasks s'.point rest' ∧ rest = o.visits.toList ++ rest' := by
  cases resume_effect hs with
  | begins idle point => exact absurd rfl ho
  | returns idle point =>
    rw [point] at h
    cases h
    exact ⟨[], .returned, rfl⟩
  | ends progressed idle point =>
    rw [point] at h
    cases h with
    | loop _ chain =>
      cases chain
      exact ⟨[], .test progressed, rfl⟩
  | visits progressed i t o σ idle point found run cases =>
    rw [point] at h
    cases h with
    | loop _ chain =>
      cases chain with
      | cons link rest =>
        have hlinks : ∀ j b,
            nextLink s.kernel.tasks j = some b → nextLink σ.tasks j = some b :=
          fun j b => step_nextLink (e := .visit i) run
        exact ⟨_, .next _ (hlinks _ _ link) (rest.mono hlinks), rfl⟩
  | advances progressed i t idle point found =>
    rw [point] at h
    cases h with
    | next _ link chain =>
      have hnext : nextLink s.kernel.tasks i = some t.next := by
        unfold nextLink
        rw [found, Option.map_some]
      obtain rfl := Option.mem_unique hnext link
      exact ⟨rest, .loop progressed chain, rfl⟩
  | guest e i o σ current run =>
    exact ⟨rest, h.mono fun j b => step_nextLink run, rfl⟩

lemma Remaining.run (h : Remaining s.kernel.tasks s.point rest)
    (hrun : vmillResume.run ops s = some (os, s')) (hos : ResumeOut.passBegins ∉ os) :
    ∃ rest', Remaining s'.kernel.tasks s'.point rest' ∧
      rest = os.filterMap ResumeOut.visits ++ rest' := by
  induction ops generalizing s os rest with
  | nil =>
    cases hrun
    exact ⟨rest, h, rfl⟩
  | cons op ops ih =>
  obtain ⟨o, os', s1, hs, hrun', rfl⟩ := Machine.run_cons_eq_some hrun
  have hne : o ≠ .passBegins := fun heq => hos (heq ▸ (.head _))
  have hos' : ResumeOut.passBegins ∉ os' := fun hmem => hos (.tail _ hmem)
  obtain ⟨rest1, h1, rfl⟩ := h.step hne hs
  obtain ⟨rest', h', rfl⟩ := ih h1 hrun' hos'
  refine ⟨rest', h', ?_⟩
  rw [List.filterMap_cons]
  cases o.visits <;> rfl

/-- Whether the pass has made progress. -/
def Point.progressed : Point → Bool
  | .test progressed | .loop progressed _ | .next progressed _ => progressed
  | .returned => false

/-- A task runs only behind a visit. Until the pass has progressed, all tasks that may run are
still to be visited. -/
structure Resumes (s : Resume) : Prop where
  linked : Linked s.kernel
  running : ∀ i, s.kernel.current = some i → ∃ j, s.point = .next true j
  remaining : ∃ rest, Remaining s.kernel.tasks s.point rest ∧
    (s.point.progressed = false →
      ∀ (i : Nat) (t : LinuxTask), s.kernel.tasks[i]? = some t → t.MayRun → i ∈ rest)

lemma Linked.list (h : Linked σ) :
    Chain (nextLink σ.tasks) σ.taskList (List.range σ.tasks.length).reverse := by
  rw [h.taskList]
  exact chain_down h.next

/-- **Step lemma** of the passes. -/
lemma Resumes.step (h : Resumes s) (hs : vmillResume.step op s = some (o, s')) : Resumes s' := by
  obtain ⟨rest, hrest, hidle⟩ := h.remaining
  cases resume_effect hs with
  | begins idle point =>
    refine ⟨h.linked, fun i hcur => absurd (hcur.symm.trans idle) (by simp), _,
      .loop false h.linked.list, fun _ i t hi _ => ?_⟩
    rw [List.mem_reverse, List.mem_range]
    exact (List.getElem?_eq_some_iff.mp hi).1
  | returns idle point =>
    refine ⟨h.linked, fun i hcur => absurd (hcur.symm.trans idle) (by simp), ?_⟩
    rw [point] at hrest hidle
    cases hrest
    exact ⟨[], .returned, fun _ => hidle rfl⟩
  | ends progressed idle point =>
    refine ⟨h.linked, fun i hcur => absurd (hcur.symm.trans idle) (by simp), ?_⟩
    rw [point] at hrest hidle
    cases hrest with
    | loop _ chain =>
      cases chain
      exact ⟨[], .test progressed, hidle⟩
  | visits progressed i t o σ idle point found run cases =>
    have hlinked : Linked σ := h.linked.linux_step (e := .visit i) run
    obtain ⟨rest', hrest', heq⟩ := hrest.step (by simp) hs
    refine ⟨hlinked, fun j hcur => ?_, rest', hrest', fun hnot j u hj hmay => ?_⟩
    · cases cases with
      | ran mayRun unblocked => exact ⟨i, by simp [Out.progresses]⟩
      | ticked mayRun blocked => exact absurd (hcur.symm.trans idle) (by simp)
      | skipped stopped => exact absurd (hcur.symm.trans idle) (by simp)
    -- the pass has not progressed, so the task was skipped
    simp only [Point.progressed, Bool.or_eq_false_iff] at hnot
    cases cases with
    | ran mayRun unblocked => exact absurd hnot.2 (by simp [Out.progresses])
    | ticked mayRun blocked => exact absurd hnot.2 (by simp [Out.progresses])
    | skipped stopped =>
    have hmem : j ∈ rest := hidle (by rw [point]; exact hnot.1) j u hj hmay
    rw [heq] at hmem
    rcases List.mem_append.mp hmem with hi | hmem
    · obtain rfl : j = i := by simpa [ResumeOut.visits] using hi
      obtain rfl := Option.mem_unique found hj
      exact absurd hmay stopped
    · exact hmem
  | advances progressed i t idle point found =>
    obtain ⟨rest', hrest', heq⟩ := hrest.step (by simp) hs
    obtain rfl : rest = rest' := heq
    refine ⟨h.linked, fun i hcur => absurd (hcur.symm.trans idle) (by simp), rest, hrest', ?_⟩
    rwa [point] at hidle
  | guest e i o σ current run =>
  obtain ⟨j, hpoint⟩ := h.running i current
  refine ⟨h.linked.linux_step run, fun _ _ => ⟨j, hpoint⟩, rest,
    hrest.mono fun _ _ => step_nextLink run, fun hnot => ?_⟩
  rw [hpoint] at hnot
  exact absurd hnot (by simp [Point.progressed])

lemma resumes_of_run {es : List Event} {outs : List Out}
    (hinit : linux.run es .init = some (outs, σ)) (hidle : σ.current = none)
    (hrun : vmillResume.run ops ⟨σ, .test true⟩ = some (os, s)) : Resumes s := by
  have hlinked : Linked σ :=
    Machine.run_preserves (P := fun _ _ => True) (fun _ _ _ _ hI _ hs => Linked.linux_step hI hs)
      linked_init (Machine.runMeets_of_forall (fun _ _ _ => trivial) _) hinit
  have hstart : Resumes ⟨σ, .test true⟩ :=
    ⟨hlinked, fun i hcur => absurd (hcur.symm.trans hidle) (by simp), [], .test true,
      fun hnot => absurd hnot (by simp [Point.progressed])⟩
  exact Machine.run_preserves (P := fun _ _ => True) (fun _ _ _ _ hI _ hs => Resumes.step hI hs)
    hstart (Machine.runMeets_of_forall (fun _ _ _ => trivial) _) hrun

lemma Resumes.pass {progressed : Bool} (h : Resumes s)
    (hrun : vmillResume.run ops s = some (.passBegins :: os, s')) (hos : ResumeOut.passBegins ∉ os)
    (hend : s'.point = .test progressed) :
    os.filterMap ResumeOut.visits = (List.range s.kernel.tasks.length).reverse := by
  cases ops with
  | nil => simp at hrun
  | cons op ops =>
  obtain ⟨o, os', s1, hs, hrun', heq⟩ := Machine.run_cons_eq_some hrun
  obtain ⟨rfl, rfl⟩ := List.cons.inj heq
  cases resume_effect hs with
  | begins idle point =>
    have hstart : Remaining s.kernel.tasks (.loop false s.kernel.taskList) _ :=
      .loop false h.linked.list
    obtain ⟨rest, hrest, hall⟩ := hstart.run hrun' hos
    rw [hend] at hrest
    cases hrest
    rw [hall, List.append_nil]

lemma Resumes.goes_on (h : Resumes s) (hidle : s.kernel.current = none)
    (hpoint : s.point ≠ .returned) : ∃ o s', vmillResume.step .scheduler s = some (o, s') := by
  obtain ⟨rest, hrest, _⟩ := h.remaining
  simp only [vmillResume, Resume.step, hidle]
  unfold Resume.advance
  cases hcase : s.point with
  | test progressed => cases progressed <;> exact ⟨_, _, rfl⟩
  | loop progressed task =>
    cases task with
    | none => exact ⟨_, _, rfl⟩
    | some i =>
    rw [hcase] at hrest
    cases hrest with
    | loop _ chain =>
      cases chain with
      | cons link _ =>
        obtain ⟨t, ht, _⟩ := Option.map_eq_some_iff.mp link
        have hvisit : ∃ o σ, s.kernel.visit i = some (o, σ) := by
          simp only [Kernel.visit, hidle, ht]
          split
          · split <;> exact ⟨_, _, rfl⟩
          · exact ⟨_, _, rfl⟩
        obtain ⟨o, σ, hvisit⟩ := hvisit
        simp only [hvisit]
        exact ⟨_, _, rfl⟩
  | next progressed i =>
    rw [hcase] at hrest
    cases hrest with
    | next _ link _ =>
      obtain ⟨t, ht, _⟩ := Option.map_eq_some_iff.mp link
      simp only [ht]
      exact ⟨_, _, rfl⟩
  | returned => exact absurd hcase hpoint

lemma guest_not_scheduled {o : Out} (hs : vmillResume.step op s = some (.guest o, s')) (i : Nat) :
    o ≠ .ran i ∧ ∀ left, o ≠ .ticked i left := by
  cases resume_effect hs with
  | guest e j o σ current run =>
    have hnot : ¬ (o = .ran i ∨ ∃ left, o = .ticked i left) := by
      intro ho
      obtain ⟨t, rfl, _, _⟩ := visit_of_scheduled run ho
      obtain ⟨_, hidle, _⟩ := visit_cases run
      exact absurd (current.symm.trans hidle) (by simp)
    exact ⟨fun heq => hnot (.inl heq), fun left heq => hnot (.inr ⟨left, heq⟩)⟩

/-- **The scheduler.** In every run of `__vmill_resume`, whatever the tasks do that it runs:

* the scheduler does not get stuck;
* a visit runs a task that may run if its `blocked_count` is zero, and else takes one off it;
  and nothing but a visit does either;
* every pass visits the tasks that were in the list when it began, each once;
* when it has returned, every task is in error or has exited. -/
theorem resume_visits_all {es : List Event} {outs : List Out} {σ : Kernel} {ops : List ResumeOp}
    {os : List ResumeOut} {s : Resume} (hinit : linux.run es .init = some (outs, σ))
    (hidle : σ.current = none) (hrun : vmillResume.run ops ⟨σ, .test true⟩ = some (os, s)) :
    (s.kernel.current = none → s.point ≠ .returned →
      ∃ o s', vmillResume.step .scheduler s = some (o, s')) ∧
    (∀ op i o s', vmillResume.step op s = some (.visited i o, s') →
      ∃ t, s.kernel.tasks[i]? = some t ∧ VisitCases s.kernel i t o s'.kernel) ∧
    (∀ op o s', vmillResume.step op s = some (.guest o, s') →
      ∀ i, o ≠ .ran i ∧ ∀ left, o ≠ .ticked i left) ∧
    (∀ ops' os' s' progressed, vmillResume.run ops' s = some (.passBegins :: os', s') →
      ResumeOut.passBegins ∉ os' → s'.point = .test progressed →
      ∃ list, Chain (nextLink s.kernel.tasks) s.kernel.taskList list ∧ list.Nodup ∧
        os'.filterMap ResumeOut.visits = list) ∧
    (s.point = .returned → ∀ (i : Nat) (t : LinuxTask), s.kernel.tasks[i]? = some t →
      t.status = .error ∨ t.status = .exited) := by
  have h := resumes_of_run hinit hidle hrun
  refine ⟨h.goes_on, fun op i o s' hs => ?_, fun op o s' hs => guest_not_scheduled hs,
    fun ops' os' s' progressed hrun' hos hend => ?_, fun hend i t hi => ?_⟩
  · cases resume_effect hs with
    | visits progressed i t o σ idle point found run cases => exact ⟨t, found, cases⟩
  · exact ⟨_, h.linked.list, List.nodup_reverse.mpr List.nodup_range, h.pass hrun' hos hend⟩
  · obtain ⟨rest, hrest, hidle⟩ := h.remaining
    rw [hend] at hrest hidle
    cases hrest
    have hstopped : ¬ t.MayRun := fun hmay => absurd (hidle rfl i t hi hmay) List.not_mem_nil
    unfold LinuxTask.MayRun at hstopped
    cases hstatus : t.status with
    | runnable => exact absurd (.inl hstatus) hstopped
    | resumable => exact absurd (.inr hstatus) hstopped
    | error => exact .inl rfl
    | exited => exact .inr rfl

def cloneAndExit : List ResumeOp :=
  [.scheduler, .scheduler, .guest (.clone 0 0), .guest .exit, .guest .yield, .scheduler, .scheduler]

def exitNext : List ResumeOp :=
  [.scheduler, .scheduler, .guest .exit, .guest .yield, .scheduler, .scheduler, .scheduler,
    .scheduler]

/-- The new task is visited first in the second pass. The third one finds no task that may run,
and when the scheduler returns, both have exited. -/
theorem resume_visits_all_clone :
    ∃ outs σ os s os' s' os'' s'', linux.run [.create 0 0] .init = some (outs, σ) ∧
      vmillResume.run cloneAndExit ⟨σ, .test true⟩ = some (os, s) ∧
      vmillResume.run exitNext s = some (.passBegins :: os', s') ∧
      (∃ list, Chain (nextLink s.kernel.tasks) s.kernel.taskList list ∧ list.Nodup ∧
        os'.filterMap ResumeOut.visits = list) ∧
      os'.filterMap ResumeOut.visits = [1, 0] ∧
      vmillResume.run (cloneAndExit ++ exitNext ++ List.replicate 7 .scheduler) ⟨σ, .test true⟩ =
        some (os'', s'') ∧
      s''.kernel.tasks.length = 2 ∧
      ∀ (i : Nat) (t : LinuxTask), s''.kernel.tasks[i]? = some t →
        t.status = .error ∨ t.status = .exited := by
  have hrun : ∃ outs σ os s os' s' os'' s'', linux.run [.create 0 0] .init = some (outs, σ) ∧
      σ.current = none ∧ vmillResume.run cloneAndExit ⟨σ, .test true⟩ = some (os, s) ∧
      vmillResume.run exitNext s = some (.passBegins :: os', s') ∧
      ResumeOut.passBegins ∉ os' ∧ s'.point = .test true ∧
      os'.filterMap ResumeOut.visits = [1, 0] ∧
      vmillResume.run (cloneAndExit ++ exitNext ++ List.replicate 7 .scheduler) ⟨σ, .test true⟩ =
        some (os'', s'') ∧
      s''.kernel.tasks.length = 2 ∧ s''.point = .returned :=
    ⟨_, _, _, _, _, _, _, _, rfl, rfl, rfl, rfl, by decide, rfl, rfl, rfl, rfl, rfl⟩
  obtain ⟨outs, σ, os, s, os', s', os'', s'', hinit, hidle, hrun, hpass, hos, hend, hvisits, hall,
    hlen, hreturned⟩ := hrun
  obtain ⟨_, _, _, hpasses, _⟩ := resume_visits_all hinit hidle hrun
  obtain ⟨_, _, _, _, hstopped⟩ := resume_visits_all hinit hidle hall
  exact ⟨outs, σ, os, s, os', s', os'', s'', hinit, hrun, hpass,
    hpasses exitNext os' s' true hpass hos hend, hvisits, hall, hlen, hstopped hreturned⟩

end Vmill.Linux
