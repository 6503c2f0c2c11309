import Vmill.Arch.X86.Coroutine

/-!
# Two sides that take turns

Each side goes on in the context in which it left off.
-/

namespace Vmill.Switch

/-- What an observer of the switches knows: where the suspended side left off, and `on_stack`. -/
structure Known where
  suspended : Option Context
  onStack : Nat

/-- A switch leaves the caller suspended, the final return nobody. -/
def observe (o : Switched) (_ : Known) : Known :=
  match o.op with
  | .execute c | .pause c | .resume c => ⟨some (.ofCaller c), o.onStack⟩
  | .finish _ => ⟨none, o.onStack⟩

/-- A switch enters `__vmill_execute` on the coroutine's stack, or goes back to the side that
was suspended. -/
def Allowed (L : Layout) (φ : Known) (o : Switched) : Prop :=
  match o.op with
  | .execute _ =>
    o.found.rip = L.execute ∧ o.found.rsp = L.stackEnd - 136 ∧
      o.onStack = (φ.onStack + 1) % 2 ^ 32
  | .pause _ | .resume _ => φ.suspended = some o.found ∧ o.onStack = φ.onStack
  | .finish _ => φ.suspended = some o.found ∧ (o.onStack + 1) % 2 ^ 32 = φ.onStack

end Vmill.Switch
