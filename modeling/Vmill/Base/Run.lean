import Mathlib.Data.List.Basic

/-!
# Partial machines and their runs

`step op σ = none` is a step that never hands back a state (the process dies, or the call does not
terminate). Each rule lifts a step obligation to whole runs.
-/

namespace Vmill.Base

/-- An observer with the rules `obs` and `Q` accepts a list of outputs. -/
def Accepts {Out Known : Type} (obs : Out → Known → Known) (Q : Known → Out → Prop) :
    List Out → Known → Prop
  | [], _ => True
  | o :: os, φ => Q φ o ∧ Accepts obs Q os (obs o φ)

/-- What an observer knows after a list of outputs. -/
def known {Out Known : Type} (obs : Out → Known → Known) (os : List Out) (φ : Known) : Known :=
  os.foldl (fun φ o => obs o φ) φ

lemma accepts_append {Out Known : Type} {obs : Out → Known → Known} {Q : Known → Out → Prop}
    (os os' : List Out) (φ : Known) :
    Accepts obs Q (os ++ os') φ ↔ Accepts obs Q os φ ∧ Accepts obs Q os' (known obs os φ) := by
  induction os generalizing φ with
  | nil => simp [Accepts, known]
  | cons o os ih =>
  simp only [List.cons_append, Accepts, ih, and_assoc]
  rfl

instance decideAccepts {Out Known : Type} (obs : Out → Known → Known) (Q : Known → Out → Prop)
    [∀ φ o, Decidable (Q φ o)] : ∀ (os : List Out) (φ : Known), Decidable (Accepts obs Q os φ)
  | [], _ => isTrue trivial
  | o :: os, φ =>
    have := decideAccepts obs Q os (obs o φ)
    inferInstanceAs (Decidable (Q φ o ∧ Accepts obs Q os (obs o φ)))

/-- A machine with partial steps and an output for each step. -/
structure Machine (State Op Out : Type) where
  step : Op → State → Option (Out × State)

namespace Machine

variable {State Op Out State' : Type}

/-- Run a list of operations, collecting the outputs in order. -/
def run (M : Machine State Op Out) : List Op → State → Option (List Out × State)
  | [], σ => some ([], σ)
  | op :: ops, σ =>
    match M.step op σ with
    | none => none
    | some (o, σ1) =>
      match M.run ops σ1 with
      | none => none
      | some (os, σ2) => some (o :: os, σ2)

/-- Every step of the run from `σ` meets the side condition `P`, read in the
state the step starts from. -/
def RunMeets (M : Machine State Op Out) (P : State → Op → Prop) : List Op → State → Prop
  | [], _ => True
  | op :: ops, σ =>
    P σ op ∧
      match M.step op σ with
      | none => True
      | some (_, σ1) => M.RunMeets P ops σ1

/-- Whether a run meets a decidable side condition is found by running it. -/
def decideRunMeets (M : Machine State Op Out) (P : State → Op → Prop)
    [∀ σ op, Decidable (P σ op)] : ∀ (ops : List Op) (σ : State), Decidable (M.RunMeets P ops σ)
  | [], _ => isTrue trivial
  | op :: ops, σ =>
    match hs : M.step op σ with
    | none => decidable_of_iff (P σ op) (by simp [RunMeets, hs])
    | some (_, σ1) =>
      have := decideRunMeets M P ops σ1
      decidable_of_iff (P σ op ∧ M.RunMeets P ops σ1) (by simp [RunMeets, hs])

instance (M : Machine State Op Out) (P : State → Op → Prop) [∀ σ op, Decidable (P σ op)]
    (ops : List Op) (σ : State) : Decidable (M.RunMeets P ops σ) := M.decideRunMeets P ops σ

variable {M : Machine State Op Out} {I : State → Prop} {P : State → Op → Prop} {op : Op} {o : Out}
  {ops ops' : List Op} {os os' : List Out} {σ σ1 σ' : State}

lemma RunMeets.tail (h : M.RunMeets P (op :: ops) σ) (hs : M.step op σ = some (o, σ1)) :
    M.RunMeets P ops σ1 := by
  have hrest := h.2
  rwa [hs] at hrest

@[simp] lemma run_nil (M : Machine State Op Out) (σ : State) : M.run [] σ = some ([], σ) := rfl

lemma run_cons_eq_some (h : M.run (op :: ops) σ = some (os, σ')) :
    ∃ o os' σ1, M.step op σ = some (o, σ1) ∧ M.run ops σ1 = some (os', σ') ∧ os = o :: os' := by
  unfold run at h
  cases hs : M.step op σ with
  | none => rw [hs] at h; simp at h
  | some r =>
  obtain ⟨o, σ1⟩ := r
  rw [hs] at h
  simp only at h
  cases hr : M.run ops σ1 with
  | none => rw [hr] at h; simp at h
  | some r' =>
  obtain ⟨os', σ2⟩ := r'
  rw [hr] at h
  cases h
  exact ⟨o, os', σ1, rfl, hr, rfl⟩

lemma run_cons (hs : M.step op σ = some (o, σ1)) (hr : M.run ops σ1 = some (os, σ')) :
    M.run (op :: ops) σ = some (o :: os, σ') := by
  unfold run
  rw [hs]
  simp only [hr]

lemma run_length (h : M.run ops σ = some (os, σ')) : os.length = ops.length := by
  induction ops generalizing σ os with
  | nil =>
    cases h
    rfl
  | cons op ops ih =>
  obtain ⟨o, os', σ1, _, hr, rfl⟩ := run_cons_eq_some h
  rw [List.length_cons, List.length_cons, ih hr]

lemma run_append (h : M.run ops σ = some (os, σ1)) (h' : M.run ops' σ1 = some (os', σ')) :
    M.run (ops ++ ops') σ = some (os ++ os', σ') := by
  induction ops generalizing σ os with
  | nil =>
    cases h
    exact h'
  | cons op ops ih =>
  obtain ⟨o, os1, σ2, hs, hr, rfl⟩ := run_cons_eq_some h
  exact run_cons hs (ih hr)

lemma RunMeets.and {Q : State → Op → Prop} (hP : M.RunMeets P ops σ) (hQ : M.RunMeets Q ops σ) :
    M.RunMeets (fun σ op => P σ op ∧ Q σ op) ops σ := by
  induction ops generalizing σ with
  | nil => trivial
  | cons op ops ih =>
  refine ⟨⟨hP.1, hQ.1⟩, ?_⟩
  cases hs : M.step op σ with
  | none => trivial
  | some r => exact ih (hP.tail hs) (hQ.tail hs)

lemma RunMeets.mono {Q : State → Op → Prop} (hP : M.RunMeets P ops σ)
    (himp : ∀ σ op, P σ op → Q σ op) : M.RunMeets Q ops σ := by
  induction ops generalizing σ with
  | nil => trivial
  | cons op ops ih =>
  refine ⟨himp σ op hP.1, ?_⟩
  cases hs : M.step op σ with
  | none => trivial
  | some r => exact ih (hP.tail hs)

lemma runMeets_of_forall (hP : ∀ σ, ∀ op ∈ ops, P σ op) (σ : State) : M.RunMeets P ops σ := by
  induction ops generalizing σ with
  | nil => trivial
  | cons op ops ih =>
  refine ⟨hP σ op (.head _), ?_⟩
  split
  · trivial
  · exact ih (fun σ' op' hop => hP σ' op' (.tail _ hop)) _

/-- **Invariant rule.** A property kept by every step that meets `P` holds at
the end of every run whose steps all meet `P`. -/
lemma run_preserves
    (hstep : ∀ σ op o σ', I σ → P σ op → M.step op σ = some (o, σ') → I σ') (hI : I σ)
    (hP : M.RunMeets P ops σ) (hr : M.run ops σ = some (os, σ')) : I σ' := by
  induction ops generalizing σ os with
  | nil =>
    cases hr
    exact hI
  | cons op ops ih =>
  obtain ⟨o, os', σ1, hs, hr', _⟩ := run_cons_eq_some hr
  exact ih (hstep σ op o σ1 hI hP.1 hs) (hP.tail hs) hr'

/-- **Invariant rule**, with a condition on what the steps put out. -/
lemma run_preserves_while {Q : Out → Prop}
    (hstep : ∀ σ op o σ', I σ → Q o → M.step op σ = some (o, σ') → I σ') (hI : I σ)
    (hr : M.run ops σ = some (os, σ')) (hQ : ∀ o ∈ os, Q o) : I σ' := by
  induction ops generalizing σ os with
  | nil =>
    cases hr
    exact hI
  | cons op ops ih =>
  obtain ⟨o, os', σ1, hs, hr', rfl⟩ := run_cons_eq_some hr
  have hI1 := hstep σ op o σ1 hI (hQ o (.head _)) hs
  exact ih hI1 hr' fun o' ho' => hQ o' (.tail _ ho')

lemma RunMeets.invariant
    (hstep : ∀ σ op o σ', I σ → P σ op → M.step op σ = some (o, σ') → I σ') (hI : I σ)
    (hP : M.RunMeets P ops σ) : M.RunMeets (fun σ op => I σ ∧ P σ op) ops σ := by
  induction ops generalizing σ with
  | nil => trivial
  | cons op ops ih =>
  refine ⟨⟨hI, hP.1⟩, ?_⟩
  cases hs : M.step op σ with
  | none => trivial
  | some r => exact ih (hstep σ op r.1 r.2 hI hP.1 hs) (hP.tail hs)

lemma RunMeets.append (hP : M.RunMeets P ops σ) (hr : M.run ops σ = some (os, σ1))
    (hP' : M.RunMeets P ops' σ1) : M.RunMeets P (ops ++ ops') σ := by
  induction ops generalizing σ os with
  | nil =>
    cases hr
    exact hP'
  | cons op ops ih =>
  obtain ⟨o, os1, σ2, hs, hr', rfl⟩ := run_cons_eq_some hr
  refine ⟨hP.1, ?_⟩
  rw [hs]
  exact ih (hP.tail hs) hr'

/-- **Output rule.** Under an invariant, what holds of each step's output holds
of every output of a run. -/
lemma run_outputs {Q : Out → Prop}
    (hstep : ∀ σ op o σ', I σ → P σ op → M.step op σ = some (o, σ') → I σ' ∧ Q o) (hI : I σ)
    (hP : M.RunMeets P ops σ) (hr : M.run ops σ = some (os, σ')) : ∀ o ∈ os, Q o := by
  induction ops generalizing σ os with
  | nil =>
    cases hr
    exact nofun
  | cons op ops ih =>
  obtain ⟨o, os', σ1, hs, hr', rfl⟩ := run_cons_eq_some hr
  obtain ⟨hI1, hQ⟩ := hstep σ op o σ1 hI hP.1 hs
  exact List.forall_mem_cons.mpr ⟨hQ, ih hI1 (hP.tail hs) hr'⟩

/-- **Monitor rule.** An observer updates what it knows with `obs` and judges each output with `Q`.
If every step keeps an invariant of state and knowledge, and its output passes, the observer accepts
every run, and the invariant holds at its end. -/
lemma run_monitored {Known : Type} {I : State → Known → Prop} {obs : Out → Known → Known}
    {Q : Known → Out → Prop} {φ : Known}
    (hstep : ∀ σ φ op o σ', I σ φ → P σ op → M.step op σ = some (o, σ') → Q φ o ∧ I σ' (obs o φ))
    (hI : I σ φ) (hP : M.RunMeets P ops σ) (hr : M.run ops σ = some (os, σ')) :
    Accepts obs Q os φ ∧ I σ' (known obs os φ) := by
  induction ops generalizing σ os φ with
  | nil =>
    cases hr
    exact ⟨trivial, hI⟩
  | cons op ops ih =>
  obtain ⟨o, os', σ1, hs, hr', rfl⟩ := run_cons_eq_some hr
  obtain ⟨hQ, hI1⟩ := hstep σ φ op o σ1 hI hP.1 hs
  obtain ⟨hrest, hend⟩ := ih hI1 (hP.tail hs) hr'
  exact ⟨⟨hQ, hrest⟩, hend⟩

/-- **Progress rule.** Where every step that meets `P` returns, with an output in `Q`, and
keeps `I`, every run that meets `P` returns. -/
lemma run_returns {Q : Out → Prop}
    (hstep : ∀ σ op, I σ → P σ op → ∃ o σ', M.step op σ = some (o, σ') ∧ Q o ∧ I σ') (hI : I σ)
    (hP : M.RunMeets P ops σ) :
    ∃ os σ', M.run ops σ = some (os, σ') ∧ (∀ o ∈ os, Q o) ∧ I σ' := by
  induction ops generalizing σ with
  | nil => exact ⟨[], σ, rfl, nofun, hI⟩
  | cons op ops ih =>
  obtain ⟨o, σ1, hs, hQ, hI1⟩ := hstep σ op hI hP.1
  obtain ⟨os, σ', hr, hQs, hend⟩ := ih hI1 (hP.tail hs)
  exact ⟨o :: os, σ', run_cons hs hr, List.forall_mem_cons.mpr ⟨hQ, hQs⟩, hend⟩

/-- **Projection rule.** If every step of `M` is a step of `N` on a part of the state, so is every
run. -/
lemma run_projects {Out' : Type} {N : Machine State' Op Out'} {f : State → State'}
    (hstep : ∀ op σ o σ', M.step op σ = some (o, σ') → ∃ o', N.step op (f σ) = some (o', f σ'))
    (hr : M.run ops σ = some (os, σ')) : ∃ os', N.run ops (f σ) = some (os', f σ') := by
  induction ops generalizing σ os with
  | nil =>
    cases hr
    exact ⟨[], rfl⟩
  | cons op ops ih =>
  obtain ⟨o, os1, σ1, hs, hr', _⟩ := run_cons_eq_some hr
  obtain ⟨o', hs'⟩ := hstep op σ o σ1 hs
  obtain ⟨os', hrest⟩ := ih hr'
  exact ⟨o' :: os', run_cons hs' hrest⟩

/-- **Lock-step rule.** Machines whose related states step together, or are stuck together, with the
same output, give the same outputs along every run. -/
lemma run_outputs_eq {N : Machine State' Op Out} {R : State → State' → Prop} {P : Op → Prop}
    {τ : State'} (hstep : ∀ σ τ op, R σ τ → P op → (M.step op σ = none ∧ N.step op τ = none) ∨
      ∃ o σ' τ', M.step op σ = some (o, σ') ∧ N.step op τ = some (o, τ') ∧ R σ' τ')
    (hP : ∀ op ∈ ops, P op) (hR : R σ τ) :
    (M.run ops σ).map Prod.fst = (N.run ops τ).map Prod.fst := by
  induction ops generalizing σ τ with
  | nil => rfl
  | cons op ops ih =>
  have hrest : ∀ op' ∈ ops, P op' := fun op' hop => hP op' (.tail _ hop)
  simp only [run]
  rcases hstep σ τ op hR (hP op (.head _)) with ⟨hM, hN⟩ | ⟨o, σ', τ', hM, hN, hR'⟩
  · rw [hM, hN]
    rfl
  have heq := ih hrest hR'
  rw [hM, hN]
  simp only
  cases hr : M.run ops σ' with
  | none =>
    rw [hr, Option.map_none, eq_comm, Option.map_eq_none_iff] at heq
    rw [heq]
    rfl
  | some r =>
  rw [hr, Option.map_some, eq_comm, Option.map_eq_some_iff] at heq
  obtain ⟨r', hr', hfst⟩ := heq
  rw [hr']
  simp only [Option.map_some, hfst]

end Machine

end Vmill.Base
