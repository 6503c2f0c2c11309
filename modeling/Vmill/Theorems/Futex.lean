import Vmill.Logic.Linux
import Vmill.Spec.Futex

/-!
# Futex waits

The loop of `DoFutexWaitBitSet` cannot tell a wake from a countdown to zero by the scheduler, and
returns zero in both cases.
-/

namespace Vmill.Linux

open Base Futex

variable {i : Nat} {t t' : LinuxTask} {p : Phase} {σ σ' : Kernel} {φ : Nat → Phase} {w : FutexWait}
  {m : FutexMemory} {o : Out} {e : Event} {os : List Out}

/-- The task's fields are what its phase says. -/
structure InPhase (current : Option Nat) (i : Nat) (t : LinuxTask) (p : Phase) : Prop where
  idle : t.wait = none → p = .idle ∧ t.blockedCount = 0
  waits : ∀ w, t.wait = some w → ∃ woken expired, p = .blocked w woken expired ∧
    (t.blockedCount = 0 → woken = true ∨ expired = true) ∧
    (t.blockedCount ≠ 0 → woken = false ∧ expired = false ∧ t.futexUaddr = w.uaddr ∧
      current ≠ some i)

/-- Every task is in its phase. -/
structure Waiting (σ : Kernel) (φ : Nat → Phase) : Prop where
  tasks : ∀ (i : Nat) (t : LinuxTask), σ.tasks[i]? = some t → InPhase σ.current i t (φ i)
  unused : ∀ i, σ.tasks.length ≤ i → φ i = .idle

lemma init_waiting : Waiting .init (fun _ => .idle) where
  tasks i t hi := absurd hi (by simp [Kernel.init])
  unused _ _ := rfl

lemma InPhase.congr {current current' : Option Nat} (h : InPhase current i t p)
    (hwait : t'.wait = t.wait) (hcount : t'.blockedCount = t.blockedCount)
    (huaddr : t'.futexUaddr = t.futexUaddr)
    (hcur : current' = some i → t.blockedCount ≠ 0 → current = some i) :
    InPhase current' i t' p := by
  constructor
  · rw [hwait, hcount]
    exact h.idle
  intro w hw
  rw [hwait] at hw
  obtain ⟨woken, expired, hp, hzero, hpos⟩ := h.waits w hw
  refine ⟨woken, expired, hp, by rw [hcount]; exact hzero, ?_⟩
  rw [hcount, huaddr]
  intro hne
  obtain ⟨h1, h2, h3, h4⟩ := hpos hne
  exact ⟨h1, h2, h3, fun hc => h4 (hcur hc hne)⟩

lemma Waiting.current_unblocked (h : Waiting σ φ) (hcur : σ.current = some i)
    (hi : σ.tasks[i]? = some t) : t.blockedCount = 0 := by
  by_contra hne
  have hphase := h.tasks i t hi
  cases hw : t.wait with
  | none => exact hne (hphase.idle hw).2
  | some w =>
  obtain ⟨_, _, _, _, hpos⟩ := hphase.waits w hw
  exact (hpos hne).2.2.2 hcur

lemma Waiting.blocked (h : Waiting σ φ) (hi : σ.tasks[i]? = some t) (hne : t.blockedCount ≠ 0) :
    ∃ w, t.wait = some w ∧ φ i = .blocked w false false ∧ t.futexUaddr = w.uaddr := by
  have hphase := h.tasks i t hi
  cases hw : t.wait with
  | none => exact absurd (hphase.idle hw).2 hne
  | some w =>
  obtain ⟨woken, expired, hp, _, hpos⟩ := hphase.waits w hw
  obtain ⟨rfl, rfl, huaddr, _⟩ := hpos hne
  exact ⟨w, rfl, hp, huaddr⟩

/-- The task waits as it did. -/
def SameWait (_ : Nat) (t t' : LinuxTask) : Prop :=
  t'.wait = t.wait ∧ t'.blockedCount = t.blockedCount ∧ t'.futexUaddr = t.futexUaddr

lemma SameWait.refl (i : Nat) (t : LinuxTask) : SameWait i t t := ⟨rfl, rfl, rfl⟩

lemma Waiting.frame (h : Waiting σ φ) (htracks : Tracks SameWait σ σ')
    (hlen : σ'.tasks.length = σ.tasks.length)
    (hcur : ∀ i t, σ'.current = some i → σ.tasks[i]? = some t → t.blockedCount ≠ 0 → σ.current =
      some i) : Waiting σ' φ where
  tasks i t' hi' := by
    obtain ⟨hlt, _⟩ := List.getElem?_eq_some_iff.mp hi'
    have hi := List.getElem?_eq_getElem (hlen ▸ hlt)
    obtain ⟨u, hu, hwait, hcount, huaddr⟩ := htracks i _ hi
    obtain rfl := Option.mem_unique hu hi'
    exact (h.tasks i _ hi).congr hwait hcount huaddr fun hc hne => hcur i _ hc hi hne
  unused i hle := h.unused i (hlen ▸ hle)

lemma Waiting.onTask (h : Waiting σ φ) {f : LinuxTask → LinuxTask} (hi : σ.tasks[i]? = some t)
    (htasks : σ'.tasks = (σ.onTask i f).tasks)
    (hcur : ∀ j, σ'.current = some j → j ≠ i → σ.current = some j)
    (hf : InPhase σ'.current i (f t) p) : Waiting σ' (Function.update φ i p) where
  tasks j u hj := by
    rw [htasks] at hj
    by_cases hji : j = i
    · subst hji
      rw [Kernel.onTask_self hi] at hj
      cases hj
      rwa [Function.update_self]
    rw [Kernel.onTask_of_ne hji] at hj
    rw [Function.update_of_ne hji]
    exact (h.tasks j u hj).congr rfl rfl rfl fun hc _ => hcur j hc hji
  unused j hle := by
    rw [htasks, Kernel.onTask_length] at hle
    obtain ⟨hlt, _⟩ := List.getElem?_eq_some_iff.mp hi
    rw [Function.update_of_ne (by omega)]
    exact h.unused j hle

lemma Waiting.createTask (h : Waiting σ φ) (pc memory : Nat) :
    Waiting (σ.createTask pc memory) φ where
  tasks i t' hi' := by
    obtain ⟨hlt', _⟩ := List.getElem?_eq_some_iff.mp hi'
    rw [Kernel.createTask_length] at hlt'
    rw [createTask_current]
    by_cases hnew : i = σ.tasks.length
    · subst hnew
      obtain ⟨u, hu, _, hwait, hcount, _⟩ := createTask_new σ pc memory
      obtain rfl := Option.mem_unique hu hi'
      exact ⟨fun _ => ⟨h.unused _ le_rfl, hcount⟩,
        fun w hw => absurd (hw.symm.trans hwait) (by simp)⟩
    have hlt : i < σ.tasks.length := by omega
    have hi := List.getElem?_eq_getElem hlt
    obtain ⟨u, hu, n, rfl⟩ := createTask_tracks σ pc memory i _ hi
    obtain rfl := Option.mem_unique hu hi'
    exact (h.tasks i _ hi).congr rfl rfl rfl fun hc _ => hc
  unused i hle := by
    rw [Kernel.createTask_length] at hle
    exact h.unused i (by omega)

lemma selected_append (waker : Nat) (l l' : List (Nat × Nat)) (φ : Nat → Phase) :
    selected waker (l ++ l') φ = selected waker l' (selected waker l φ) := by
  funext i
  unfold selected
  cases φ i with
  | idle => rfl
  | blocked w wk ex =>
    simp only [List.mem_append, Bool.or_assoc, and_or_left, Bool.decide_or]

lemma selected_nil (waker : Nat) (φ : Nat → Phase) : selected waker [] φ = φ := by
  funext i
  unfold selected
  cases φ i with
  | idle => rfl
  | blocked w wk ex => simp

lemma Waiting.doWake (h : Waiting σ φ) {task uaddr bitset numToWake : Nat} {woken : List Nat}
    (hwake : doWake σ task uaddr bitset numToWake = some (woken, σ')) :
    Waiting σ' (selected task (woken.map (·, uaddr)) φ) := by
  obtain ⟨⟨hcur, hlen, _⟩, memory, htracks⟩ := doWake_spec hwake
  constructor
  · intro i t' hi'
    obtain ⟨hlt, _⟩ := List.getElem?_eq_some_iff.mp hi'
    have hi := List.getElem?_eq_getElem (hlen ▸ hlt)
    obtain ⟨u, hu, hcases⟩ := htracks i _ hi
    obtain rfl := Option.mem_unique hu hi'
    rw [hcur]
    rcases hcases with ⟨hnot, heq⟩ | ⟨hin, hwakes, heq⟩
    · -- not selected: neither the task nor its phase changes
      have hphase : selected task (woken.map (·, uaddr)) φ i = φ i := by
        unfold selected
        cases φ i with
        | idle => rfl
        | blocked w wk ex => simp [hnot]
      rw [hphase, heq]
      exact h.tasks i _ hi
    obtain ⟨w, hw, hphase, huaddr⟩ := h.blocked hi (Nat.pos_iff_ne_zero.mp hwakes.blocked)
    have hsel : selected task (woken.map (·, uaddr)) φ i = .blocked w true false := by
      unfold selected
      rw [hphase]
      simp [hwakes.other, hin, ← huaddr, hwakes.uaddr]
    rw [hsel, heq]
    refine ⟨fun hnone => absurd (hw.symm.trans hnone) (by simp), fun w' hw' => ?_⟩
    obtain rfl := Option.mem_unique hw hw'
    exact ⟨true, false, rfl, fun _ => .inl rfl, fun hne => absurd rfl hne⟩
  intro i hle
  unfold selected
  rw [h.unused i (hlen ▸ hle)]

lemma WaitCases.unblocked {code : Int} (h : WaitCases w t (some code) t')
    (hcount : t.blockedCount = 0) : t'.blockedCount = 0 := by
  cases h with
  | fault => exact hcount
  | changed => rfl
  | woken left unblocked same => exact hcount
  | timedOut last => rfl

lemma Waiting.continueWait (h : Waiting σ φ) (hcur : σ.current = some i)
    (hrun : continueWait σ i w m = some (o, σ')) : Waiting σ' (observe o φ) := by
  obtain ⟨t, t', hi, ⟨code, hcases, rfl, rfl⟩ | ⟨hcases, rfl, rfl⟩⟩ := continueWait_cases hrun
  · have hcount := hcases.unblocked (h.current_unblocked hcur hi)
    refine h.onTask hi rfl (fun _ hc _ => hc) ⟨fun _ => ⟨rfl, hcount⟩, fun w hw => ?_⟩
    simp at hw
  cases hcases with
  | blocks more =>
    unfold Kernel.yield
    rw [Kernel.onTask_onTask]
    refine h.onTask hi rfl (fun _ hc _ => absurd hc (by simp))
      ⟨fun hnone => absurd hnone (by simp), fun w' hw' => ?_⟩
    obtain rfl : w = w' := by simpa using hw'
    exact ⟨false, false, rfl, fun hzero => absurd hzero more,
      fun _ => ⟨rfl, rfl, rfl, by simp⟩⟩

lemma Waiting.sysFutex (h : Waiting σ φ) {utime : Nat} (hcur : σ.current = some i)
    (hi : σ.tasks[i]? = some t) (hwait : t.wait = none) (hcases : FutexCases σ i utime o σ') :
    Waiting σ' (observe o φ) := by
  have hself : ∀ f : LinuxTask → LinuxTask,
      (f = id ∨ f = fun t => { t with blockedCount := 0 }) → Waiting (σ.onTask i f) φ := by
    intro f hf
    have hsame : SameWait i t (f t) := by
      rcases hf with rfl | rfl
      · exact .refl i t
      · exact ⟨rfl, (h.current_unblocked hcur hi).symm, rfl⟩
    refine h.frame (Tracks.onTask SameWait.refl fun u hu => ?_) (Kernel.onTask_length ..)
      (fun j _ hc _ _ => hc)
    obtain rfl := Option.mem_unique hi hu
    exact hsame
  have hidle : φ i = .idle := ((h.tasks i t hi).idle hwait).1
  cases hcases with
  | fails code negative f f_eq =>
    have hphase : observe (.returned i code) φ = φ := by
      simp only [observe]
      rw [← hidle, Function.update_eq_self]
    rw [hphase]
    exact hself f f_eq
  | wakes f f_eq woken1 woken2 uaddr1 uaddr2 σ1 σ2 first second code =>
    obtain ⟨bitset, n, hfirst⟩ := first
    have h1 := (hself f f_eq).doWake hfirst
    simp only [observe]
    rw [selected_append]
    rcases second with ⟨rfl, rfl⟩ | ⟨bitset', n', hsecond⟩
    · rwa [List.map_nil, selected_nil]
    · exact h1.doWake hsecond
  | waits w m o σ' called timeout run => exact h.continueWait hcur run

lemma observe_ticked {n : Nat} (hphase : φ i = .blocked w false false) :
    observe (.ticked i n) φ = Function.update φ i (.blocked w false (decide (n = 0))) := by
  cases n with
  | zero => simp only [observe, hphase, expire, decide_true]
  | succ n =>
  have hfalse : decide (n + 1 = 0) = false := by simp
  rw [hfalse, ← hphase, Function.update_eq_self]
  rfl

lemma Waiting.visit (h : Waiting σ φ) (hrun : σ.visit i = some (o, σ')) :
    Waiting σ' (observe o φ) := by
  obtain ⟨t, hcur, hi, hcases⟩ := visit_cases hrun
  cases hcases with
  | ran mayRun unblocked =>
    refine h.frame (Tracks.of_tasks_eq (Tracks.onTask SameWait.refl fun u _ => ?_) rfl)
      (Kernel.onTask_length ..) fun j u hc hj hne => ?_
    · split <;> exact ⟨rfl, rfl, rfl⟩
    · obtain rfl : i = j := by simpa [Kernel.run] using hc
      obtain rfl := Option.mem_unique hi hj
      exact absurd unblocked hne
  | ticked mayRun blocked =>
    obtain ⟨w, hw, hphase, huaddr⟩ := h.blocked hi blocked
    rw [observe_ticked hphase]
    refine h.onTask hi rfl (fun _ hc _ => hc)
      ⟨fun hnone => absurd (hw.symm.trans hnone) (by simp), fun w' hw' => ?_⟩
    obtain rfl := Option.mem_unique hw hw'
    refine ⟨false, _, rfl, fun hzero => .inr (decide_eq_true hzero), fun hpos => ?_⟩
    refine ⟨rfl, decide_eq_false hpos, huaddr, ?_⟩
    rw [Kernel.onTask_current, hcur]
    simp
  | skipped stopped => exact h

lemma Waiting.leave (h : Waiting σ φ) (i : Nat) (f : LinuxTask → Task) :
    Waiting { σ.onTask i (fun t => { t with toTask := f t }) with current := none } φ := by
  have htracks : Tracks SameWait σ (σ.onTask i fun t => { t with toTask := f t }) :=
    Tracks.onTask SameWait.refl fun _ _ => ⟨rfl, rfl, rfl⟩
  exact h.frame (htracks.of_tasks_eq rfl) (Kernel.onTask_length ..)
    fun _ _ hc _ _ => absurd hc (by simp)

/-- **Step lemma** of the waits. -/
lemma Waiting.step (h : Waiting σ φ) (hrun : linux.step e σ = some (o, σ')) :
    Waiting σ' (observe o φ) := by
  have hchange : ∀ {σ1 : Kernel}, Waiting σ1 φ → ∀ (f : Task → Task) (i : Nat),
      Waiting (σ1.change i f) φ := fun h1 f i =>
    h1.frame (Tracks.onTask SameWait.refl fun _ _ => ⟨rfl, rfl, rfl⟩) (Kernel.onTask_length ..)
      fun _ _ hc _ _ => hc
  cases step_effect hrun with
  | create pc memory => exact h.createTask pc memory
  | clone pc ctid parent =>
    exact (h.createTask pc parent.memory).frame
      (Tracks.onTask SameWait.refl fun _ _ => ⟨rfl, rfl, rfl⟩) (Kernel.onTask_length ..)
      fun _ _ hc _ _ => hc
  | visit i o σ' run => exact h.visit run
  | act a i => exact hchange h _ i
  | fault kind valueType size addr i => exact hchange h _ i
  | jump pc i => exact (hchange h _ i).leave i fun t => t.toTask.pause
  | functionCall pc i => exact (hchange h _ i).leave i fun t => t.toTask.pause
  | yield i => exact h.leave i fun t => t.toTask.pause
  | finish i current => exact h.leave i fun t => t.toTask.epilogue t.entryPc
  | setTidAddress i tidptr =>
    exact h.frame (Tracks.onTask SameWait.refl fun _ _ => ⟨rfl, rfl, rfl⟩)
      (Kernel.onTask_length ..) fun _ _ hc _ _ => hc
  | futex a m i t o σ' current found outside cases => exact h.sysFutex current found outside cases
  | wait m i t w o σ' current found inside run => exact h.continueWait current run
  | exit i o σ1 first =>
  rcases first with ⟨rfl, rfl⟩ | ⟨woken, uaddr, bitset, n, rfl, hwake⟩
  · exact hchange h _ i
  have h1 := h.doWake hwake
  exact h1.frame (Tracks.onTask SameWait.refl fun _ _ => ⟨rfl, rfl, rfl⟩)
    (Kernel.onTask_length ..) fun _ _ hc _ _ => hc

lemma waiting_of_run {es : List Event} (h : linux.run es .init = some (os, σ)) :
    Waiting σ (known observe os (fun _ => .idle)) :=
  (Machine.run_monitored (P := fun _ _ => True) (Q := fun _ _ => True)
    (fun _ _ _ _ _ hI _ hs => ⟨trivial, hI.step hs⟩) init_waiting
    (Machine.runMeets_of_forall (fun _ _ _ => trivial) _) h).2

/-- The scheduler does not take a task that may run to the end of its rounds. -/
def NoExpiry (σ : Kernel) (e : Event) : Prop :=
  match e with
  | .visit i =>
    match σ.tasks[i]? with
    | some t => t.status = .runnable ∨ t.status = .resumable → t.blockedCount ≠ 1
    | none => True
  | _ => True

instance (σ : Kernel) (e : Event) : Decidable (NoExpiry σ e) := by
  unfold NoExpiry
  split
  · split <;> infer_instance
  · infer_instance

/-- No wait has run out. -/
def Fresh (φ : Nat → Phase) : Prop := ∀ i w woken expired,
  φ i = .blocked w woken expired → expired = false

lemma Fresh.update (h : Fresh φ) (i : Nat)
    (hp : ∀ w woken expired, p = .blocked w woken expired → expired = false) :
    Fresh (Function.update φ i p) := by
  intro j w woken expired hj
  by_cases hji : j = i
  · subst hji
    rw [Function.update_self] at hj
    exact hp w woken expired hj
  rw [Function.update_of_ne hji] at hj
  exact h j w woken expired hj

lemma Fresh.observe (h : Fresh φ) (ho : ∀ i, o ≠ .ticked i 0) : Fresh (observe o φ) := by
  unfold Futex.observe
  split
  · exact h.update _ fun w woken expired heq => by
      simp only [Phase.blocked.injEq] at heq
      exact heq.2.2.symm
  · exact h.update _ fun w woken expired heq => absurd heq (by simp)
  · exact absurd rfl (ho _)
  · intro i w woken expired hi
    unfold selected at hi
    split at hi
    · simp at hi
    rename_i w' wk ex hφ
    simp only [Phase.blocked.injEq] at hi
    exact hi.2.2 ▸ h i _ _ _ hφ
  · exact h

lemma not_last_tick (hno : NoExpiry σ e) (h : linux.step e σ = some (o, σ')) (i : Nat) :
    o ≠ .ticked i 0 := by
  rintro rfl
  obtain ⟨t, rfl, hi, hcases⟩ := visit_of_scheduled h (.inr ⟨0, rfl⟩)
  unfold NoExpiry at hno
  simp only [hi] at hno
  generalize hout : Out.ticked i 0 = o at hcases
  cases hcases with
  | ran mayRun unblocked => simp at hout
  | ticked mayRun blocked =>
    have hlast : 0 = t.blockedCount - 1 := by simpa using hout
    exact hno mayRun (by omega)
  | skipped stopped => simp at hout

lemma allowed_of_phase
    (ho : (∃ code, o = .returned i code) ∨ (∃ w, o = .blocked i w) ∨ ∃ woken code, o = .woke i
      woken code) (hphase : φ i = .idle ∨ ∃ w, φ i = .blocked w true false) : Allowed φ o := by
  rcases ho with ⟨code, rfl⟩ | ⟨w, rfl⟩ | ⟨woken, code, rfl⟩
  all_goals rcases hphase with hidle | ⟨w', hblocked⟩
  · simp [Allowed, hidle]
  · simp [Allowed, hblocked]
  · simp [Allowed, hidle]
  · simp [Allowed, hblocked]
  · trivial
  · trivial

lemma step_allowed (h : Waiting σ φ) (hfresh : Fresh φ) (hrun : linux.step e σ = some (o, σ')) :
    Allowed φ o := by
  cases step_effect hrun with
  | visit i o σ' run =>
    obtain ⟨t, _, _, hcases⟩ := visit_cases run
    cases hcases <;> trivial
  | futex a m i t o σ' current found outside cases =>
    exact allowed_of_phase cases.out (.inl ((h.tasks i t found).idle outside).1)
  | wait m i t w o σ' current found inside run =>
    -- the task runs, so it is not blocked any more, and the reason is a wake
    obtain ⟨woken, expired, hphase, hzero, _⟩ := (h.tasks i t found).waits w inside
    obtain rfl := hfresh i w woken expired hphase
    have hwoken : woken = true := by
      rcases hzero (h.current_unblocked current found) with hwoken | hexp
      · exact hwoken
      · simp at hexp
    subst hwoken
    refine allowed_of_phase ?_ (.inr ⟨w, hphase⟩)
    rcases continueWait_out run with hcode | hblocked
    · exact .inl hcode
    · exact .inr (.inl ⟨w, hblocked⟩)
  | exit i o σ1 first =>
    rcases first with ⟨rfl, _⟩ | ⟨woken, uaddr, _, _, rfl, _⟩
    · trivial
    · trivial
  | _ => trivial

lemma waitCount_ne_zero (w : FutexWait) (h : t.blockedCount = 0) : waitCount w t ≠ 0 := by
  unfold waitCount
  rw [if_neg (by simp [h])]
  split <;> decide

lemma not_allowed_of_expired (h : Waiting σ φ) (hcur : σ.current = some i)
    (hphase : φ i = .blocked w false true) (htimed : w.utime ≠ 0)
    (hrun : continueWait σ i w m = some (o, σ')) : ¬ Allowed φ o := by
  obtain ⟨t, t', hi, ⟨code, hcases, rfl, rfl⟩ | ⟨_, rfl, rfl⟩⟩ := continueWait_cases hrun
  · have hcode : code ≠ -eTIMEDOUT := by
      have hzero := h.current_unblocked hcur hi
      cases hcases with
      | fault => decide
      | changed => decide
      | woken left unblocked same => decide
      | timedOut last => exact absurd last (waitCount_ne_zero w hzero)
    simp [Allowed, hphase, hcode]
  · simp [Allowed, hphase, htimed]

lemma expired_not_accepted (h : Waiting σ φ) (hi : σ.tasks[i]? = some t) (hw : t.wait = some w)
    (hlast : t.blockedCount = 1) (htimed : w.utime ≠ 0)
    (hmay : t.status = .runnable ∨ t.status = .resumable)
    (hrun : linux.run [.visit i, .visit i, .wait m] σ = some (os, σ')) :
    ¬ Accepts observe Allowed os φ := by
  obtain ⟨o1, _, σ1, hs1, hrun1, rfl⟩ := Machine.run_cons_eq_some hrun
  obtain ⟨o2, _, σ2, hs2, hrun2, rfl⟩ := Machine.run_cons_eq_some hrun1
  obtain ⟨o3, _, σ3, hs3, _, rfl⟩ := Machine.run_cons_eq_some hrun2
  have h1 := h.step hs1
  have h2 := h1.step hs2
  obtain ⟨t1, _, hi1, hcases1⟩ := visit_cases hs1
  obtain rfl := Option.mem_unique hi hi1
  obtain ⟨w', hw', hphase, _⟩ := h.blocked hi (by omega)
  obtain rfl := Option.mem_unique hw hw'
  cases hcases1 with
  | ran mayRun unblocked => omega
  | skipped stopped => exact absurd hmay stopped
  | ticked mayRun blocked =>
  obtain ⟨t2, _, hi2, hcases2⟩ := visit_cases hs2
  rw [Kernel.onTask_self hi] at hi2
  cases hi2
  have hphase1 : observe (.ticked i (t.blockedCount - 1)) φ i = .blocked w false true := by
    rw [observe_ticked hphase, Function.update_self, hlast]
    rfl
  cases hcases2 with
  | ticked mayRun' blocked' => exact absurd (by rw [hlast]) blocked'
  | skipped stopped => exact absurd hmay stopped
  | ran mayRun' unblocked =>
  -- the wait goes on with its rounds used up
  cases step_effect hs3 with
  | wait m j t3 w3 o σ' current found inside run =>
    obtain rfl : i = j := Option.some.inj current
    obtain ⟨woken, expired, hp, _⟩ := (h2.tasks i t3 found).waits w3 inside
    have hsame : w3 = w := by
      have heq := hp.symm.trans hphase1
      simp only [Phase.blocked.injEq] at heq
      exact heq.1
    subst hsame
    rintro ⟨_, _, hallowed, _⟩
    exact not_allowed_of_expired h2 current hphase1 htimed run hallowed

/-- **Futex waits.** In every run in which the scheduler takes no waiting task to the end of its
rounds, all futex calls keep the rules. Where it does, a call with a timeout breaks them as soon as
it goes on. -/
theorem futex_wait_outcome {events : List Event} {os : List Out} {σ : Kernel}
    (hrun : linux.run events .init = some (os, σ)) :
    (linux.RunMeets NoExpiry events .init → Accepts observe Allowed os (fun _ => .idle)) ∧
    ∀ (i : Nat) (t : LinuxTask) (w : FutexWait) (m : FutexMemory) (os' : List Out) (σ' : Kernel),
      σ.tasks[i]? = some t → t.wait = some w → w.utime ≠ 0 → ¬ NoExpiry σ (.visit i) →
      linux.run [.visit i, .visit i, .wait m] σ = some (os', σ') →
        ¬ Accepts observe Allowed (os ++ os') (fun _ => .idle) := by
  constructor
  · intro hmeets
    have hinit : Waiting .init (fun _ => .idle) ∧ Fresh (fun _ => .idle) :=
      ⟨init_waiting, fun _ _ _ _ h => absurd h (by simp)⟩
    refine (Machine.run_monitored (I := fun σ φ => Waiting σ φ ∧ Fresh φ) (P := NoExpiry)
      (fun τ φ e o τ' hI hno hs => ?_) hinit hmeets hrun).1
    exact ⟨step_allowed hI.1 hI.2 hs, hI.1.step hs, hI.2.observe (not_last_tick hno hs)⟩
  · intro i t w m os' σ' hi hw htimed hexp hrun'
    have hwaiting := waiting_of_run hrun
    have hlast : (t.status = .runnable ∨ t.status = .resumable) ∧ t.blockedCount = 1 := by
      unfold NoExpiry at hexp
      simp only [hi] at hexp
      exact ⟨(Classical.not_imp.mp hexp).1, Decidable.not_not.mp (Classical.not_imp.mp hexp).2⟩
    rw [accepts_append]
    rintro ⟨_, hrest⟩
    exact expired_not_accepted hwaiting hi hw hlast.2 htimed hlast.1 hrun' hrest

def zeroWord : FutexMemory :=
  { uval := some 0, writable := true, uval2 := none, writable2 := false, timespec := some (1, 0) }

def waitForZero (utime : Nat) : FutexArgs :=
  { uaddr := 0x100, op := 0, val := 0, utime := utime, uaddr2 := 0, val3 := 0 }

def wakeOne : FutexArgs :=
  { uaddr := 0x100, op := 1, val := 1, utime := 0, uaddr2 := 0, val3 := 0 }

/-- One task waits, another wakes it, and the wait returns zero. -/
theorem futex_wait_outcome_woken :
    ∃ os σ, linux.run [.create 0 0, .create 0 0, .visit 0, .futex (waitForZero 0) zeroWord, .visit 1,
        .futex wakeOne zeroWord, .yield, .visit 0, .wait zeroWord] .init = some (os, σ) ∧
      Out.woke 1 [(0, 0x100)] 1 ∈ os ∧ Out.returned 0 0 ∈ os ∧
      Accepts observe Allowed os (fun _ => .idle) := by
  have hrun : ∃ os σ, linux.run [.create 0 0, .create 0 0, .visit 0,
        .futex (waitForZero 0) zeroWord, .visit 1, .futex wakeOne zeroWord, .yield, .visit 0,
        .wait zeroWord] .init = some (os, σ) ∧
      Out.woke 1 [(0, 0x100)] 1 ∈ os ∧ Out.returned 0 0 ∈ os := ⟨_, _, rfl, by decide, by decide⟩
  obtain ⟨os, σ, hrun, hwoke, hret⟩ := hrun
  exact ⟨os, σ, hrun, hwoke, hret, (futex_wait_outcome hrun).1 (by decide)⟩

/-- A task waits alone, without a timeout: after a hundred rounds of the scheduler it is
run, and its wait returns zero. -/
theorem futex_wait_ends_unwoken :
    ∃ os σ, linux.run ([.create 0 0, .visit 0, .futex (waitForZero 0) zeroWord] ++
        List.replicate 101 (.visit 0) ++ [.wait zeroWord]) .init = some (os, σ) ∧
      Out.returned 0 0 ∈ os ∧ ¬ Accepts observe Allowed os (fun _ => .idle) := by
  have hany : (linux.run ([.create 0 0, .visit 0, .futex (waitForZero 0) zeroWord] ++
      List.replicate 101 (.visit 0) ++ [.wait zeroWord]) .init).any (fun r =>
        decide (Out.returned 0 0 ∈ r.1 ∧ ¬ Accepts observe Allowed r.1 (fun _ => .idle))) =
      true := by
    decide +kernel
  obtain ⟨⟨os, σ⟩, hrun, hbad⟩ := (Option.any_eq_true _ _).mp hany
  exact ⟨os, σ, hrun, of_decide_eq_true hbad⟩

end Vmill.Linux
