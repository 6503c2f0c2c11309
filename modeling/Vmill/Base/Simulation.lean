import Mathlib.Data.List.Basic

/-!
# Systems and what they show

If every step of one system is matched by a run of another one that shows the same, so is every run
(`Simulates.trace`).
-/

namespace Vmill.Base

/-- A transition system. A state that shows nothing is a hidden one. -/
structure System (State Obs : Type) where
  step : State → State → Prop
  shows : State → Option Obs

namespace System

variable {State Obs : Type} {A : System State Obs} {s t : State}

/-- A run, with what its states show. The first state is not counted. -/
inductive Trace (A : System State Obs) : State → List Obs → State → Prop
  | refl (s : State) : Trace A s [] s
  | step {s t u : State} {os : List Obs} : A.step s t → Trace A t os u →
      Trace A s ((A.shows t).toList ++ os) u

lemma Trace.trans {u : State} {os os' : List Obs} (h : A.Trace s os t) (h' : A.Trace t os' u) :
    A.Trace s (os ++ os') u := by
  induction h with
  | refl s => exact h'
  | step hstep _ ih =>
  rw [List.append_assoc]
  exact .step hstep (ih h')

lemma Trace.one (h : A.step s t) : A.Trace s (A.shows t).toList t := by
  have htrace := Trace.step h (.refl t)
  rwa [List.append_nil] at htrace

end System

variable {State State' State'' Obs : Type}

/-- Every step of `A` is matched by a run of `B` that shows the same. -/
def Simulates (A : System State Obs) (B : System State' Obs) (R : State → State' → Prop) : Prop :=
  ∀ s t s', R s t → A.step s s' → ∃ t', B.Trace t (A.shows s').toList t' ∧ R s' t'

namespace Simulates

variable {A : System State Obs} {B : System State' Obs} {C : System State'' Obs}
  {R : State → State' → Prop} {R' : State' → State'' → Prop}

/-- **Runs.** Every run is matched by a run that shows the same. -/
lemma trace (h : Simulates A B R) {s s' : State} {t : State'} {os : List Obs} (hr : R s t)
    (hrun : A.Trace s os s') : ∃ t', B.Trace t os t' ∧ R s' t' := by
  induction hrun generalizing t with
  | refl s => exact ⟨t, .refl t, hr⟩
  | step hstep _ ih =>
  obtain ⟨t1, hfirst, hr1⟩ := h _ _ _ hr hstep
  obtain ⟨t2, hrest, hr2⟩ := ih hr1
  exact ⟨t2, hfirst.trans hrest, hr2⟩

lemma refl (A : System State Obs) : Simulates A A Eq := by
  rintro s _ s' rfl hstep
  exact ⟨s', .one hstep, rfl⟩

lemma comp (h : Simulates A B R) (h' : Simulates B C R') :
    Simulates A C fun s u => ∃ t, R s t ∧ R' t u := by
  rintro s u s' ⟨t, hr, hr'⟩ hstep
  obtain ⟨t', hrun, hr1⟩ := h s t s' hr hstep
  obtain ⟨u', hrun', hr2⟩ := h'.trace hr' hrun
  exact ⟨u', hrun', t', hr1, hr2⟩

end Simulates

lemma shows_same {A : System State Obs} {B : System State' Obs} {R R' : State → State' → Prop}
    (h : Simulates A B R) (h' : Simulates B A fun t s => R' s t) {s : State} {t : State'}
    (hr : R s t) (hr' : R' s t) (os : List Obs) :
    (∃ s', A.Trace s os s') ↔ ∃ t', B.Trace t os t' := by
  constructor
  · rintro ⟨s', hrun⟩
    obtain ⟨t', hrun', _⟩ := h.trace hr hrun
    exact ⟨t', hrun'⟩
  rintro ⟨t', hrun⟩
  obtain ⟨s', hrun', _⟩ := h'.trace hr' hrun
  exact ⟨s', hrun'⟩

end Vmill.Base
