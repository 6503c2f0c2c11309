import Vmill.Logic.Space
import Vmill.Runtime.Linux.MM

/-!
# What a mapping holds

When the call returns, the memory holds what the call's own reads returned, and zeroes.
-/

namespace Vmill.Mmap

abbrev Known := Nat → List UInt8

def observe (o : MmapOut) (φ : Known) : Known :=
  match o with
  | .read t bytes => Function.update φ t (φ t ++ bytes)
  | .failed t _ | .mapped t _ _ _ _ => Function.update φ t []
  | _ => φ

/-- A call that returns an address has mapped what its reads returned, followed by
zeroes. -/
def Allowed (φ : Known) (o : MmapOut) : Prop :=
  match o with
  | .mapped t addr size s h =>
    (φ t).length ≤ size ∧ ∀ k < size, AddressSpace.view h s (addr + k) = some ((φ t).getD k 0)
  | _ => True

end Vmill.Mmap
