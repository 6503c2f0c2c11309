import Vmill.Theorems.FutexState
import Vmill.Theorems.Ring
import Mathlib.Data.List.Count

/-!
# What a wake selects

`DoWake` goes once around the ring and unblocks as many tasks as it was asked for, but at least one,
since it counts before it compares.
-/

namespace Vmill.Linux

open Base Kernel Futex

variable {tasks : List LinuxTask} {t : LinuxTask} {task uaddr bitset numToWake j : Nat}
  {woken others : List Nat} {σ σ' : Kernel} {w : FutexWait} {e : Event}

/-- The ring of the tasks, from `task` on: the others in the order in which `next_circular`
leads to them, each once. -/
structure IsRing (tasks : List LinuxTask) (task : Nat) (others : List Nat) : Prop where
  path : Path (circularLink tasks) task (task :: others) task
  nodup : (task :: others).Nodup

instance (task memory uaddr bitset i : Nat) (t : LinuxTask) :
    Decidable (Wakes task memory uaddr bitset i t) :=
  decidable_of_iff' _ (wakes_iff ..)

/-- The tasks that the wake concerns, in the order of the ring. -/
def waiters (tasks : List LinuxTask) (task memory uaddr bitset : Nat) (others : List Nat) :
    List Nat :=
  others.filter fun i => tasks[i]?.any fun t => Wakes task memory uaddr bitset i t

/-- Wake these tasks. -/
def unblock (tasks : List LinuxTask) (woken : List Nat) : List LinuxTask :=
  tasks.mapIdx fun i t => if i ∈ woken then { t with blockedCount := 0 } else t

lemma getElem?_unblock (tasks : List LinuxTask) (woken : List Nat) (i : Nat) :
    (unblock tasks woken)[i]? =
      tasks[i]?.map fun t => if i ∈ woken then { t with blockedCount := 0 } else t :=
  List.getElem?_mapIdx

lemma unblock_nil (tasks : List LinuxTask) : unblock tasks [] = tasks := by
  refine List.ext_getElem? fun i => ?_
  rw [getElem?_unblock]
  simp

lemma unblock_set {i : Nat} (ht : tasks[i]? = some t) (woken : List Nat) :
    unblock (tasks.set i { t with blockedCount := 0 }) woken = unblock tasks (i :: woken) := by
  refine List.ext_getElem? fun j => ?_
  rw [getElem?_unblock, getElem?_unblock]
  by_cases hji : j = i
  · subst hji
    obtain ⟨hlt, _⟩ := List.getElem?_eq_some_iff.mp ht
    rw [List.getElem?_set_self hlt, ht]
    simp
  rw [List.getElem?_set_ne (Ne.symm hji)]
  simp [hji]

section
variable {memory i : Nat}

lemma waiters_cons_of_wakes (ht : tasks[i]? = some t)
    (hwakes : Wakes task memory uaddr bitset i t) :
    waiters tasks task memory uaddr bitset (i :: others) =
      i :: waiters tasks task memory uaddr bitset others := by
  unfold waiters
  rw [List.filter_cons_of_pos]
  simp [ht, hwakes]

lemma waiters_cons_of_not (ht : tasks[i]? = some t)
    (hnot : ¬ Wakes task memory uaddr bitset i t) :
    waiters tasks task memory uaddr bitset (i :: others) =
      waiters tasks task memory uaddr bitset others := by
  unfold waiters
  rw [List.filter_cons_of_neg]
  simp [ht, hnot]

lemma waiters_set (hi : i ∉ others) :
    waiters (tasks.set i t) task memory uaddr bitset others =
      waiters tasks task memory uaddr bitset others := by
  refine List.filter_congr fun j hj => ?_
  have hne : i ≠ j := fun heq => hi (heq ▸ hj)
  rw [List.getElem?_set_ne hne]

end

/-- The loop wakes the first waiters along the ring. -/
lemma wakeLoop_ring {memory fuel nextTask : Nat}
    (hpath : Path (circularLink tasks) nextTask others task) (hnodup : others.Nodup)
    (hnot : task ∉ others) (hfuel : others.length < fuel) (hmore : woken.length < max 1 numToWake)
    {new : List Nat}
    (hnew : new = (waiters tasks task memory uaddr bitset others).take (max 1 numToWake -
      woken.length)) :
    wakeLoop task memory uaddr bitset numToWake fuel nextTask woken tasks =
      some (woken ++ new, unblock tasks new) := by
  induction others generalizing fuel nextTask woken tasks new with
  | nil =>
    cases hpath
    obtain ⟨fuel, rfl⟩ : ∃ n, fuel = n + 1 := ⟨fuel - 1, by omega⟩
    obtain rfl : new = [] := by rw [hnew, waiters, List.filter_nil, List.take_nil]
    rw [wakeLoop_succ, if_pos rfl, unblock_nil, List.append_nil]
  | cons i others ih =>
  obtain ⟨fuel, rfl⟩ : ∃ n, fuel = n + 1 := ⟨fuel - 1, by omega⟩
  have hfuel' : others.length < fuel := by
    rw [List.length_cons] at hfuel
    omega
  obtain ⟨hi, hrest⟩ := List.nodup_cons.mp hnodup
  have hne : i ≠ task := fun heq => hnot (heq ▸ (.head _))
  have hnot' : task ∉ others := fun hmem => hnot (.tail _ hmem)
  cases hpath with
  | cons link rest =>
    obtain ⟨t, ht, rfl⟩ := Option.map_eq_some_iff.mp link
    rw [wakeLoop_succ, if_neg hne]
    simp only [ht]
    by_cases hwakes : Wakes task memory uaddr bitset i t
    · rw [waiters_cons_of_wakes ht hwakes] at hnew
      rw [if_neg (not_not_intro hwakes.memory),
        if_pos ⟨hwakes.uaddr, hwakes.blocked, hwakes.bits⟩, List.length_append,
        List.length_singleton]
      by_cases hmany : woken.length + 1 ≥ numToWake
      · -- the `break`
        have hone : max 1 numToWake - woken.length = 1 := by omega
        rw [hone, List.take_succ_cons, List.take_zero] at hnew
        rw [if_pos hmany, hnew, ← unblock_set ht, unblock_nil]
      obtain ⟨left, hleft⟩ : ∃ left, max 1 numToWake - woken.length = left + 1 :=
        ⟨max 1 numToWake - woken.length - 1, by omega⟩
      rw [hleft, List.take_succ_cons] at hnew
      have hlength : (woken ++ [i]).length = woken.length + 1 := by
        rw [List.length_append, List.length_singleton]
      have hpath' := rest
      rw [← circularLink_set ht] at hpath'
      have hleft' : max 1 numToWake - (woken ++ [i]).length = left := by omega
      have hmore' : (woken ++ [i]).length < max 1 numToWake := by omega
      have hrec := ih hpath' hrest hnot' hfuel' hmore' rfl
      rw [if_neg hmany, hnew, hrec, hleft', waiters_set hi, unblock_set ht,
        List.append_assoc]
      rfl
    rw [waiters_cons_of_not ht hwakes] at hnew
    have hskip := ih rest hrest hnot' hfuel' hmore hnew
    split
    · exact hskip
    rename_i hmem
    split
    · rename_i hsel
      exact absurd ⟨hne, Decidable.not_not.mp hmem, hsel.1, hsel.2.1, hsel.2.2⟩ hwakes
    · exact hskip

lemma IsRing.length_le (h : IsRing tasks task others) : others.length < tasks.length := by
  have hcells : ∀ {a b : Nat} {cells : List Nat}, Path (circularLink tasks) a cells b →
      ∀ c ∈ cells, c < tasks.length := by
    intro a b cells hpath
    induction hpath with
    | nil a => exact nofun
    | cons link rest ih =>
    intro c hc
    rcases List.mem_cons.mp hc with rfl | hc
    · obtain ⟨t, ht, _⟩ := Option.map_eq_some_iff.mp link
      exact (List.getElem?_eq_some_iff.mp ht).1
    · exact ih c hc
  have hsub : (task :: others) ⊆ List.range tasks.length := fun c hc =>
    List.mem_range.mpr (hcells h.path c hc)
  have hle := (List.subperm_of_subset h.nodup hsub).length_le
  rw [List.length_range, List.length_cons] at hle
  omega

lemma IsRing.unblock (h : IsRing tasks task others) (woken : List Nat) :
    IsRing (unblock tasks woken) task others := by
  refine ⟨h.path.congr fun c _ => ?_, h.nodup⟩
  unfold circularLink
  rw [getElem?_unblock, Option.map_map]
  congr 1
  funext t
  simp only [Function.comp_apply]
  split <;> rfl

lemma doWake_ring (ht : σ.tasks[task]? = some t) (hring : IsRing σ.tasks task others)
    (hwoken : woken = (waiters σ.tasks task t.memory uaddr bitset others).take (max 1 numToWake)) :
    doWake σ task uaddr bitset numToWake =
      some (woken, { σ with tasks := unblock σ.tasks woken }) := by
  obtain ⟨hnot, hnodup⟩ := List.nodup_cons.mp hring.nodup
  have hlt := hring.length_le
  unfold doWake
  rw [ht]
  simp only
  cases hring.path with
  | cons link rest =>
    obtain ⟨u, hu, rfl⟩ := Option.map_eq_some_iff.mp link
    obtain rfl := Option.mem_unique ht hu
    have hmore : ([] : List Nat).length < max 1 numToWake := by
      rw [List.length_nil]
      omega
    rw [wakeLoop_ring rest hnodup hnot (by omega) hmore hwoken]
    rfl

/-- Task `j` was woken and has not run since. -/
def Selected (j : Nat) (w : FutexWait) (σ : Kernel) : Prop :=
  ∃ t, σ.tasks[j]? = some t ∧ t.wait = some w ∧ t.futexUaddr = w.uaddr ∧ t.blockedCount = 0

/-- A blocked task is in a wait. -/
def BlockedInWait (σ : Kernel) : Prop :=
  ∀ (i : Nat) (t : LinuxTask), σ.tasks[i]? = some t → t.blockedCount ≠ 0 →
    ∃ w, t.wait = some w ∧ t.futexUaddr = w.uaddr

lemma Waiting.blockedInWait {φ : Nat → Phase} (h : Waiting σ φ) : BlockedInWait σ := by
  intro i t hi hne
  obtain ⟨w, hw, _, huaddr⟩ := h.blocked hi hne
  exact ⟨w, hw, huaddr⟩

lemma BlockedInWait.kept (h : BlockedInWait σ) (hkept : AllKept σ σ') : BlockedInWait σ' := by
  intro i t' hi' hne
  obtain ⟨hlt, _⟩ := List.getElem?_eq_some_iff.mp hi'
  have hi := List.getElem?_eq_getElem (hkept.length ▸ hlt)
  obtain ⟨u, hu, hsame⟩ := hkept.tracks i _ hi
  obtain rfl := Option.mem_unique hu hi'
  rw [hsame.count.resolve_right hne] at hne
  rw [hsame.wait, hsame.uaddr]
  exact h i _ hi hne

lemma Selected.kept (h : Selected j w σ) (hkept : AllKept σ σ') : Selected j w σ' := by
  obtain ⟨t, hj, hw, huaddr, hcount⟩ := h
  obtain ⟨t', hj', hsame⟩ := hkept.tracks j t hj
  refine ⟨t', hj', hsame.wait.trans hw, hsame.uaddr.trans huaddr, ?_⟩
  rcases hsame.count with heq | hzero
  · exact heq.trans hcount
  · exact hzero

lemma selected_of_doWake (hb : BlockedInWait σ)
    (h : doWake σ task uaddr bitset numToWake = some (woken, σ')) (hj : j ∈ woken) :
    ∃ w, w.uaddr = uaddr ∧ Selected j w σ' := by
  obtain ⟨⟨_, _, hmem⟩, memory, htracks⟩ := doWake_spec h
  have hi := List.getElem?_eq_getElem (hmem j hj)
  obtain ⟨t', hj', ⟨hnot, _⟩ | ⟨_, hwakes, rfl⟩⟩ := htracks j _ hi
  · exact absurd hj hnot
  obtain ⟨w, hw, huaddr⟩ := hb j _ hi (Nat.pos_iff_ne_zero.mp hwakes.blocked)
  exact ⟨w, huaddr.symm.trans hwakes.uaddr, _, hj', hw, huaddr, rfl⟩

lemma selected_of_woke {woken : List (Nat × Nat)} {code : Int} (hb : BlockedInWait σ)
    (h : linux.step e σ = some (.woke task woken code, σ')) (hj : (j, uaddr) ∈ woken) :
    ∃ w, w.uaddr = uaddr ∧ Selected j w σ' := by
  have hmap : ∀ {l : List Nat} {a : Nat}, (j, uaddr) ∈ l.map (·, a) → j ∈ l ∧ a = uaddr := by
    intro l a hmem
    obtain ⟨i, hi, heq⟩ := List.mem_map.mp hmem
    obtain ⟨rfl, rfl⟩ := Prod.mk.inj heq
    exact ⟨hi, rfl⟩
  generalize hout : Out.woke task woken code = o at h
  cases step_effect h with
  | futex a m i t o σ' current found outside cases =>
    cases cases with
    | fails code negative f f_eq => simp at hout
    | wakes f f_eq woken1 woken2 uaddr1 uaddr2 σ1 σ2 first second code =>
      obtain ⟨_, rfl, _⟩ := Out.woke.inj hout
      obtain ⟨bitset, n, hfirst⟩ := first
      have hb' : BlockedInWait (σ.onTask i f) := by
        rcases f_eq with rfl | rfl
        · exact hb.kept (.onTask i .refl)
        · exact hb.kept (.onTask i fun _ => ⟨rfl, rfl, .inr rfl⟩)
      rcases List.mem_append.mp hj with hj | hj
      · obtain ⟨hmem, rfl⟩ := hmap hj
        obtain ⟨w, hw, hsel⟩ := selected_of_doWake hb' hfirst hmem
        refine ⟨w, hw, ?_⟩
        rcases second with ⟨_, rfl⟩ | ⟨_, _, hwake⟩
        · exact hsel
        · exact hsel.kept (.doWake hwake)
      obtain ⟨hmem, rfl⟩ := hmap hj
      rcases second with ⟨rfl, _⟩ | ⟨_, _, hwake⟩
      · cases hmem
      · exact selected_of_doWake (hb'.kept (.doWake hfirst)) hwake hmem
    | waits w m o σ' called timeout run =>
    rcases continueWait_out run with ⟨code', rfl⟩ | rfl
    · simp at hout
    · simp at hout
  | visit i o σ' run =>
    obtain ⟨t, _, _, hcases⟩ := visit_cases run
    cases hcases <;> simp at hout
  | wait m i t w o σ' current found inside run =>
    rcases continueWait_out run with ⟨code', rfl⟩ | rfl
    · simp at hout
    · simp at hout
  | exit i o σ1 first =>
    rcases first with ⟨rfl, _⟩ | ⟨woken1, uaddr1, bitset, n, rfl, hwake⟩
    · simp at hout
    obtain ⟨_, rfl, _⟩ := Out.woke.inj hout
    obtain ⟨hmem, rfl⟩ := hmap hj
    obtain ⟨w, hw, hsel⟩ := selected_of_doWake hb hwake hmem
    exact ⟨w, hw, hsel.kept (.change i _)⟩
  | _ => simp at hout

/-- Task `j` has looked at its word again. -/
def Out.EndsRound (j : Nat) : Out → Prop
  | .returned i _ => i = j
  | .blocked i _ => i = j
  | _ => False

lemma Selected.step {o : Out} (h : Selected j w σ) (ho : ¬ o.EndsRound j)
    (hs : linux.step e σ = some (o, σ')) : Selected j w σ' := by
  obtain ⟨t, hj, hw, huaddr, hcount⟩ := h
  obtain ⟨t', hj', htask⟩ := (step_tasks hs).tracks j t hj
  cases htask with
  | kept same =>
    refine ⟨t', hj', same.wait.trans hw, same.uaddr.trans huaddr, ?_⟩
    rcases same.count with heq | hzero
    · exact heq.trans hcount
    · exact hzero
  | ticked blocked wait uaddr count => exact absurd hcount blocked
  | returns w m code u current called round out task =>
    subst out
    exact absurd rfl ho
  | blocks w m u current called round out wait uaddr count =>
  subst out
  exact absurd rfl ho

/-- What a woken task returns. -/
def wokenCode (w : FutexWait) (m : FutexMemory) : Int :=
  if ¬ m.Accessible then -eFAULT
  else if m.uval ≠ some w.val then -eAGAIN
  else 0

lemma waitRound_unblocked (m : FutexMemory) (hne : w.uaddr ≠ 0) (huaddr : t.futexUaddr = w.uaddr)
    (hcount : t.blockedCount = 0) : ∃ t', waitRound w m t = some (some (wokenCode w m), t') := by
  unfold waitRound wokenCode
  split
  · rename_i uval huval hwritable
    have haccess : m.Accessible := ⟨by rw [huval]; rfl, hwritable⟩
    rw [if_neg (not_not_intro haccess), huval]
    by_cases hval : uval = w.val
    · rw [if_neg (not_not_intro hval), if_neg (not_not_intro (congrArg some hval)),
        if_pos ⟨huaddr ▸ hne, hcount⟩, if_pos huaddr]
      exact ⟨_, rfl⟩
    rw [if_pos hval, if_pos fun heq => hval (Option.some.inj heq)]
    exact ⟨_, rfl⟩
  rename_i hnot
  have haccess : ¬ m.Accessible := by
    intro haccess
    obtain ⟨uval, huval⟩ := Option.isSome_iff_exists.mp haccess.1
    exact hnot uval huval haccess.2
  rw [if_pos haccess]
  exact ⟨_, rfl⟩

lemma step_wait (m : FutexMemory) (hcur : σ.current = some j) (hj : σ.tasks[j]? = some t)
    (hw : t.wait = some w) : linux.step (.wait m) σ = continueWait σ j w m := by
  simp only [linux, Kernel.step, hcur, hj, hw]

/-- Task `j` is in a wait on `uaddr`. The next time the scheduler comes to it, it is run, if it
is not stopped; when it is running, its wait returns; and no step blocks it. -/
def LeavesWait (j uaddr : Nat) (σ : Kernel) : Prop :=
  ∃ t w, σ.tasks[j]? = some t ∧ t.wait = some w ∧ w.uaddr = uaddr ∧
    (σ.current = none → t.status = .runnable ∨ t.status = .resumable →
      linux.step (.visit j) σ = some (.ran j, σ.run j)) ∧
    (σ.current = some j →
      ∀ m, ∃ σ', linux.step (.wait m) σ = some (.returned j (wokenCode w m), σ')) ∧
    ∀ e w' σ', linux.step e σ ≠ some (.blocked j w', σ')

lemma step_blocked (h : linux.step e σ = some (.blocked j w, σ')) :
    ∃ t m u, σ.tasks[j]? = some t ∧ (t.wait = none ∨ t.wait = some w) ∧
      waitRound w m t = some (none, u) := by
  have hround : ∀ {i : Nat} {w' : FutexWait} {m : FutexMemory} {t : LinuxTask} {o : Out},
      Out.blocked j w = o → σ.tasks[i]? = some t → (t.wait = none ∨ t.wait = some w') →
      continueWait σ i w' m = some (o, σ') →
      ∃ t m u, σ.tasks[j]? = some t ∧ (t.wait = none ∨ t.wait = some w) ∧
        waitRound w m t = some (none, u) := by
    intro i w' m t o hout hi hwait hrun
    obtain ⟨u, u', hu, ⟨code, _, ho, _⟩ | ⟨hround, ho, _⟩⟩ := continueWait_round hrun
    · exact absurd (hout.trans ho) (by simp)
    obtain ⟨rfl, rfl⟩ := Out.blocked.inj (hout.trans ho)
    obtain rfl := Option.mem_unique hi hu
    exact ⟨t, m, u', hi, hwait, hround⟩
  generalize hout : Out.blocked j w = o at h
  cases step_effect h with
  | futex a m i t o σ' current found outside cases =>
    cases cases with
    | fails code negative f f_eq => simp at hout
    | wakes f f_eq woken1 woken2 uaddr1 uaddr2 σ1 σ2 first second code =>
      simp at hout
    | waits w' m o σ' called timeout run => exact hround hout found (.inl outside) run
  | visit i o σ' run =>
    obtain ⟨t, _, _, hcases⟩ := visit_cases run
    cases hcases <;> simp at hout
  | wait m i t w' o σ' current found inside run => exact hround hout found (.inr inside) run
  | exit i o σ1 first =>
    rcases first with ⟨rfl, _⟩ | ⟨woken1, uaddr1, bitset, n, rfl, hwake⟩
    · simp at hout
    · simp at hout
  | _ => simp at hout

lemma Selected.leavesWait (h : Selected j w σ) (hne : w.uaddr ≠ 0) : LeavesWait j w.uaddr σ := by
  obtain ⟨t, hj, hw, huaddr, hcount⟩ := h
  refine ⟨t, w, hj, hw, rfl, fun hcur hmay => ?_, fun hcur m => ?_, fun e w' σ' hs => ?_⟩
  · simp only [linux, Kernel.step, Kernel.visit, hcur, hj, if_pos hmay, if_pos hcount]
  · obtain ⟨t', hround⟩ := waitRound_unblocked m hne huaddr hcount
    rw [step_wait m hcur hj hw]
    simp only [continueWait, hj, hround]
    exact ⟨_, rfl⟩
  obtain ⟨u, m, u', hu, hwait, hround⟩ := step_blocked hs
  obtain rfl := Option.mem_unique hj hu
  rcases hwait with hnone | hsome
  · exact absurd (hw.symm.trans hnone) (by simp)
  obtain rfl := Option.mem_unique hw hsome
  obtain ⟨t', hround'⟩ := waitRound_unblocked m hne huaddr hcount
  exact absurd (hround.symm.trans hround') (by simp)

/-- **Wakes.** On every ring `DoWake` unblocks exactly the first `max 1 numToWake` of the tasks that
wait on the address, or all, returns how many, and changes nothing else. In every run, a task
selected on an address other than zero leaves its wait with its next round. -/
theorem doWake_selects :
    (∀ (σ : Kernel) (task uaddr bitset numToWake : Nat) (t : LinuxTask) (others : List Nat),
      σ.tasks[task]? = some t → IsRing σ.tasks task others →
      let W := waiters σ.tasks task t.memory uaddr bitset others
      let woken := W.take (max 1 numToWake)
      doWake σ task uaddr bitset numToWake =
          some (woken, { σ with tasks := unblock σ.tasks woken }) ∧
        woken.length = min W.length (max 1 numToWake) ∧
        (numToWake < 2 ^ 32 → woken.length < 2 ^ 32)) ∧
    ∀ (es : List Event) (os : List Out) (σ : Kernel) (e : Event) (task : Nat)
      (woken : List (Nat × Nat)) (code : Int) (σ1 : Kernel) (j uaddr : Nat) (es' : List Event)
      (os' : List Out) (σ2 : Kernel),
      linux.run es .init = some (os, σ) → linux.step e σ = some (.woke task woken code, σ1) →
      (j, uaddr) ∈ woken → uaddr ≠ 0 → linux.run es' σ1 = some (os', σ2) →
      (∀ o ∈ os', ¬ o.EndsRound j) → LeavesWait j uaddr σ2 := by
  constructor
  · intro σ task uaddr bitset numToWake t others ht hring W woken
    have hlen : woken.length = min W.length (max 1 numToWake) := by
      rw [List.length_take, Nat.min_comm]
    refine ⟨doWake_ring ht hring rfl, hlen, fun hmax => ?_⟩
    have hle : woken.length ≤ max 1 numToWake := hlen ▸ Nat.min_le_right _ _
    omega
  · intro es os σ e task woken code σ1 j uaddr es' os' σ2 hrun hs hj hne hrun' hquiet
    have hwaiting : Waiting σ (known observe os (fun _ => .idle)) := waiting_of_run hrun
    obtain ⟨w, rfl, hsel⟩ := selected_of_woke hwaiting.blockedInWait hs hj
    have hsel2 : Selected j w σ2 :=
      Machine.run_preserves_while (fun _ _ _ _ hI hQ hs => Selected.step hI hQ hs) hsel hrun' hquiet
    exact hsel2.leavesWait hne

/-- The first of two tasks waits; the second wakes it, and yields; then the first one runs. -/
theorem doWake_selects_first :
    ∃ os σ σ1 os' σ2, linux.run [.create 0 0, .create 0 0, .visit 0,
        .futex (waitForZero 0) zeroWord, .visit 1] .init = some (os, σ) ∧
      (∃ σ', doWake σ 1 0x100 (2 ^ 32 - 1) 0 = some ([0], σ')) ∧
      linux.step (.futex wakeOne zeroWord) σ = some (.woke 1 [(0, 0x100)] 1, σ1) ∧
      linux.run [.yield, .visit 0] σ1 = some (os', σ2) ∧ LeavesWait 0 0x100 σ2 := by
  have hrun : ∃ os σ σ1 os' σ2 t, linux.run [.create 0 0, .create 0 0, .visit 0,
        .futex (waitForZero 0) zeroWord, .visit 1] .init = some (os, σ) ∧
      σ.tasks[1]? = some t ∧ IsRing σ.tasks 1 [0] ∧
      waiters σ.tasks 1 t.memory 0x100 (2 ^ 32 - 1) [0] = [0] ∧
      linux.step (.futex wakeOne zeroWord) σ = some (.woke 1 [(0, 0x100)] 1, σ1) ∧
      linux.run [.yield, .visit 0] σ1 = some (os', σ2) ∧ os' = [.quiet, .ran 0] :=
    ⟨_, _, _, _, _, _, rfl, rfl, ⟨.cons rfl (.cons rfl (.nil _)), by decide⟩, by decide, rfl, rfl,
      rfl⟩
  obtain ⟨os, σ, σ1, os', σ2, t, hrun, ht, hring, hwaiters, hs, hrun', rfl⟩ := hrun
  have hfirst := (doWake_selects.1 σ 1 0x100 (2 ^ 32 - 1) 0 t [0] ht hring).1
  rw [hwaiters] at hfirst
  refine ⟨os, σ, σ1, _, σ2, hrun, ⟨_, hfirst⟩, hs, hrun', ?_⟩
  exact doWake_selects.2 _ os σ _ 1 _ 1 σ1 0 0x100 _ _ σ2 hrun hs (by decide) (by decide) hrun'
    (by simp [Out.EndsRound])

end Vmill.Linux
