import Vmill.Runtime.Linux.Futex

/-!
# What a futex wait should return

`observe` keeps track of the calls that are blocked, and `Allowed` says which returns the rules
permit.
-/

namespace Vmill.Futex

open Linux

/-- Where a task is: not in a blocked wait, or in one that has, since it blocked, been
selected by a wake, or used up its rounds. -/
inductive Phase where
  | idle
  | blocked (w : FutexWait) (woken expired : Bool)
deriving DecidableEq, Repr

def selected (waker : Nat) (woken : List (Nat × Nat)) (φ : Nat → Phase) (i : Nat) : Phase :=
  match φ i with
  | .idle => .idle
  | .blocked w wk ex => .blocked w (wk || decide (i ≠ waker ∧ (i, w.uaddr) ∈ woken)) ex

def expire : Phase → Phase
  | .idle => .idle
  | .blocked w wk _ => .blocked w wk true

def observe (o : Linux.Out) (φ : Nat → Phase) : Nat → Phase :=
  match o with
  | .blocked i w => Function.update φ i (.blocked w false false)
  | .returned i _ => Function.update φ i .idle
  | .ticked i 0 => Function.update φ i (expire (φ i))
  | .woke waker woken _ => selected waker woken φ
  | _ => φ

/-- A call that has blocked returns zero only if it was woken. When its rounds are used up
and it was not woken, a call with a timeout returns `-ETIMEDOUT`, and one without is not
ended. -/
def Allowed (φ : Nat → Phase) : Linux.Out → Prop
  | .returned i code =>
    match φ i with
    | .idle => True
    | .blocked w woken expired =>
      (code = 0 → woken = true) ∧
      (expired = true → woken = false → w.utime ≠ 0 ∧ code = -eTIMEDOUT)
  | .blocked i _ =>
    match φ i with
    | .idle => True
    | .blocked w woken expired => expired = true → woken = false → w.utime = 0
  | _ => True

instance (φ : Nat → Phase) (o : Linux.Out) : Decidable (Allowed φ o) := by
  unfold Allowed
  split
  · split <;> infer_instance
  · split <;> infer_instance
  · infer_instance

end Vmill.Futex
