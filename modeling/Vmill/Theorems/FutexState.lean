import Vmill.Logic.TaskStep
import Vmill.Theorems.Futex

/-!
# What a futex wait leaves behind

All ways out of a wait reset `futex_uaddr`, except the one on a word that can no longer be read or
written: the next wait of the task then believes it has been woken.
-/

namespace Vmill.Linux

open Base Futex

variable {w : FutexWait} {m : FutexMemory} {t t' u : LinuxTask} {code : Int} {σ σ' : Kernel}
  {i : Nat} {e : Event} {o : Out}

/-- The word can be read and written. -/
def FutexMemory.Accessible (m : FutexMemory) : Prop := m.uval.isSome ∧ m.writable
deriving Decidable

lemma waitRound_returned (h : waitRound w m t = some (some code, t')) :
    (¬ m.Accessible ∧ code = -eFAULT ∧ t' = t) ∨
      (m.Accessible ∧ t'.futexUaddr = 0 ∧ t'.blockedCount = 0) := by
  unfold waitRound at h
  split at h
  · rename_i uval huval hwritable
    have haccess : m.Accessible := ⟨by rw [huval]; rfl, hwritable⟩
    split at h
    · cases h
      exact .inr ⟨haccess, rfl, rfl⟩
    split at h
    · rename_i hleft
      split at h
      · cases h
        exact .inr ⟨haccess, rfl, hleft.2⟩
      · simp at h
    split at h
    · cases h
      exact .inr ⟨haccess, rfl, rfl⟩
    · simp at h
  rename_i hnot
  obtain ⟨hcode, rfl⟩ := Prod.mk.inj (Option.some.inj h)
  refine .inl ⟨fun haccess => ?_, (Option.some.inj hcode).symm, rfl⟩
  obtain ⟨uval, huval⟩ := Option.isSome_iff_exists.mp haccess.1
  exact hnot uval huval haccess.2

lemma waitRound_blocked (h : waitRound w m t = some (none, t')) : t'.futexUaddr = w.uaddr := by
  cases waitRound_cases h with
  | blocks more => rfl

lemma waitRound_isSome (m : FutexMemory) (h : t.futexUaddr = 0 ∨ t.futexUaddr = w.uaddr) :
    (waitRound w m t).isSome := by
  unfold waitRound
  split
  · split
    · rfl
    split
    · rename_i hleft
      rcases h with hzero | hsame
      · exact absurd hzero hleft.1
      rw [if_pos hsame]
      rfl
    · split <;> rfl
  · rfl

lemma waitRound_first {r : Option Int} (hzero : t.futexUaddr = 0)
    (h : waitRound w m t = some (r, t')) : r ≠ some 0 := by
  cases waitRound_cases h with
  | fault => decide
  | changed => decide
  | woken left unblocked same => exact absurd hzero left
  | timedOut last => decide
  | blocks more => simp

/-- `futex_uaddr` is set during a wait, and only then. -/
structure Settled (t : LinuxTask) : Prop where
  outside : t.wait = none → t.futexUaddr = 0 ∧ t.blockedCount = 0
  inside : ∀ w, t.wait = some w → t.futexUaddr = w.uaddr

/-- The memory with which a wait goes on. -/
def Event.goesOn : Event → Option FutexMemory
  | .wait m => some m
  | _ => none

/-- When a wait goes on, its word is still accessible. -/
def WordStays (σ : Kernel) (e : Event) : Prop :=
  ∀ m ∈ e.goesOn, ∀ t ∈ σ.current.bind (σ.tasks[·]?),
    m.Accessible ∨ t.wait.map (·.uaddr) = some 0
deriving Decidable

lemma wordStays_wait (hcur : σ.current = some i) (hi : σ.tasks[i]? = some t)
    (hw : t.wait = some w) : WordStays σ (.wait m) ↔ m.Accessible ∨ w.uaddr = 0 := by
  simp only [WordStays, Event.goesOn, hcur, Option.bind_some, hi, Option.mem_some_iff,
    forall_eq', hw, Option.map_some, Option.some.injEq]

/-- Every task is settled. -/
structure AllSettled (σ : Kernel) : Prop where
  waiting : ∃ φ, Waiting σ φ
  tasks : ∀ (i : Nat) (t : LinuxTask), σ.tasks[i]? = some t → Settled t

lemma AllSettled.current_unblocked (h : AllSettled σ) (hcur : σ.current = some i)
    (hi : σ.tasks[i]? = some t) : t.blockedCount = 0 := by
  obtain ⟨φ, hφ⟩ := h.waiting
  exact hφ.current_unblocked hcur hi

lemma Settled.returns (h : Settled t) (hw : t.wait = some w) (hcount : t.blockedCount = 0)
    (hround : waitRound w m t = some (some code, u)) :
    m.Accessible ∨ w.uaddr = 0 ↔ u.futexUaddr = 0 ∧ u.blockedCount = 0 := by
  rcases waitRound_returned hround with ⟨hgone, _, rfl⟩ | ⟨haccess, hcleared⟩
  · rw [h.inside w hw]
    exact ⟨fun hor => ⟨hor.resolve_left hgone, hcount⟩, fun hand => .inr hand.1⟩
  · exact ⟨fun _ => hcleared, fun _ => .inl haccess⟩

lemma Settled.returns_first (h : Settled t) (hw : t.wait = none)
    (hround : waitRound w m t = some (some code, u)) : u.futexUaddr = 0 ∧ u.blockedCount = 0 := by
  rcases waitRound_returned hround with ⟨_, _, rfl⟩ | ⟨_, hcleared⟩
  · exact h.outside hw
  · exact hcleared

/-- **Step lemma** for one task. -/
lemma Settled.step (hall : AllSettled σ) (hword : WordStays σ e) (hi : σ.tasks[i]? = some t)
    (hstep : TaskStep σ e o i t t') : Settled t' := by
  have h := hall.tasks i t hi
  cases hstep with
  | kept same =>
    refine ⟨fun hw => ?_, fun w hw => ?_⟩
    · obtain ⟨huaddr, hcount⟩ := h.outside (same.wait.symm.trans hw)
      refine ⟨same.uaddr.trans huaddr, ?_⟩
      rcases same.count with hsame | hzero
      · exact hsame.trans hcount
      · exact hzero
    rw [same.uaddr]
    exact h.inside w (same.wait.symm.trans hw)
  | ticked blocked wait uaddr count =>
    refine ⟨fun hw => ?_, fun w hw => ?_⟩
    · exact absurd (h.outside (wait.symm.trans hw)).2 blocked
    rw [uaddr]
    exact h.inside w (wait.symm.trans hw)
  | returns w m code u current called round out task =>
    subst task
    refine ⟨fun _ => ?_, fun w hw => absurd hw (by simp)⟩
    rcases called with hfirst | ⟨hw, rfl⟩
    · have hcleared := h.returns_first hfirst round
      exact hcleared
    have hok := (wordStays_wait current hi hw).mp hword
    have hcleared := (h.returns hw (hall.current_unblocked current hi) round).mp hok
    exact hcleared
  | blocks w m u current called round out wait uaddr count =>
  refine ⟨fun hw => absurd (wait.symm.trans hw) (by simp), fun w' hw' => ?_⟩
  obtain rfl := Option.mem_unique wait hw'
  rw [uaddr]
  exact waitRound_blocked round

lemma init_allSettled : AllSettled .init where
  waiting := ⟨_, init_waiting⟩
  tasks i t hi := absurd hi (by simp [Kernel.init])

lemma AllSettled.step (h : AllSettled σ) (hword : WordStays σ e)
    (hs : linux.step e σ = some (o, σ')) : AllSettled σ' where
  waiting := by
    obtain ⟨φ, hφ⟩ := h.waiting
    exact ⟨_, hφ.step hs⟩
  tasks i t hi := by
    refine each_task_step (P := Settled) (fun t hnew => ?_) (fun j s s' hj _ htask => ?_) h.tasks
      hs i t hi
    · exact ⟨fun _ => ⟨hnew.uaddr, hnew.count⟩,
        fun w hw => absurd (hnew.wait.symm.trans hw) (by simp)⟩
    · exact Settled.step h hword hj htask

lemma AllSettled.wait_returned (h : AllSettled σ)
    (hs : linux.step (.wait m) σ = some (.returned i code, σ')) :
    WordStays σ (.wait m) ↔
      ∃ t, σ'.tasks[i]? = some t ∧ t.futexUaddr = 0 ∧ t.blockedCount = 0 := by
  cases step_effect hs with
  | wait m j t w o σ' current found inside run =>
    obtain ⟨u, u', hu, ⟨code', hround, hout, rfl⟩ | ⟨_, hout, _⟩⟩ := continueWait_round run
    · obtain ⟨rfl, rfl⟩ : i = j ∧ code = code' := by simpa using hout
      obtain rfl := Option.mem_unique found hu
      rw [wordStays_wait current found inside,
        (h.tasks i t found).returns inside (h.current_unblocked current found) hround,
        Kernel.onTask_self found]
      simp
    · simp at hout

/-- **Futex state.** In every run in which no blocked wait finds its word gone, a wait that is
started passes the assertion and does not return zero in its first round. One that goes on passes it
too, and if it returns, both fields are zero exactly if its word is there. -/
theorem futex_wait_clears {es : List Event} {os : List Out} {σ : Kernel}
    (hword : linux.RunMeets WordStays es .init) (hrun : linux.run es .init = some (os, σ)) :
    (∀ m i code σ', linux.step (.wait m) σ = some (.returned i code, σ') →
      (WordStays σ (.wait m) ↔
        ∃ t, σ'.tasks[i]? = some t ∧ t.futexUaddr = 0 ∧ t.blockedCount = 0)) ∧
    ∀ (i : Nat) (t : LinuxTask), σ.tasks[i]? = some t →
      (t.wait = none → t.futexUaddr = 0 ∧ t.blockedCount = 0 ∧
        ∀ w m, ∃ r t', waitRound w m t = some (r, t') ∧ r ≠ some 0) ∧
      ∀ w, t.wait = some w → ∀ m, (waitRound w m t).isSome := by
  have hall : AllSettled σ :=
    Machine.run_preserves (fun _ _ _ _ hI hP hs => AllSettled.step hI hP hs) init_allSettled hword
      hrun
  refine ⟨fun m i code σ' hs => hall.wait_returned hs, fun i t hi => ?_⟩
  have h := hall.tasks i t hi
  refine ⟨fun hw => ?_, fun w hw m => waitRound_isSome m (.inr (h.inside w hw))⟩
  obtain ⟨huaddr, hcount⟩ := h.outside hw
  refine ⟨huaddr, hcount, fun w m => ?_⟩
  obtain ⟨⟨r, t'⟩, hround⟩ :=
    Option.isSome_iff_exists.mp (waitRound_isSome (w := w) m (.inl huaddr))
  exact ⟨r, t', hround, waitRound_first huaddr hround⟩

def wokenOnce : List Event :=
  [.create 0 0, .create 0 0, .visit 0, .futex (waitForZero 0) zeroWord, .visit 1,
    .futex wakeOne zeroWord, .yield, .visit 0]

/-- It finds its word, and has forgotten about the wait when it returns. -/
theorem futex_wait_clears_woken :
    ∃ os σ σ', linux.run wokenOnce .init = some (os, σ) ∧
      linux.step (.wait zeroWord) σ = some (.returned 0 0, σ') ∧
      ∃ t, σ'.tasks[0]? = some t ∧ t.futexUaddr = 0 ∧ t.blockedCount = 0 := by
  have hrun : ∃ os σ σ', linux.run wokenOnce .init = some (os, σ) ∧
      linux.step (.wait zeroWord) σ = some (.returned 0 0, σ') ∧ WordStays σ (.wait zeroWord) :=
    ⟨_, _, _, rfl, rfl, by decide⟩
  obtain ⟨os, σ, σ', hrun, hs, hword⟩ := hrun
  exact ⟨os, σ, σ', hrun, hs,
    ((futex_wait_clears (by decide) hrun).1 zeroWord 0 0 σ' hs).mp hword⟩

def noWord : FutexMemory := { zeroWord with uval := none }

/-- The word is gone when the wait goes on: it returns `-EFAULT`, and keeps the address. The next
wait on the same address returns zero at once, and one on another address fails its assertion. -/
theorem futex_wait_leaves_address :
    ∃ os σ t, linux.run (wokenOnce ++ [.wait noWord]) .init = some (os, σ) ∧
      Out.returned 0 (-eFAULT) ∈ os ∧ σ.tasks[0]? = some t ∧ t.wait = none ∧
      t.futexUaddr = 0x100 ∧
      (linux.step (.futex (waitForZero 0) zeroWord) σ).map Prod.fst = some (.returned 0 0) ∧
      linux.step (.futex { waitForZero 0 with uaddr := 0x200 } zeroWord) σ = none :=
  ⟨_, _, _, rfl, by decide, rfl, rfl, rfl, by decide, by decide⟩

end Vmill.Linux
