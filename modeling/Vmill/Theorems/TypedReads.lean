import Vmill.Logic.Rooted

/-!
# The two ways to read a value
-/

namespace Vmill

open AddressSpace

/-- **The fast path agrees with the loop.** In every run, for every address space, whatever its index
and caches hold, every type and every value in front of the last page: the typed and the sized read
both return, with the same flag and the same caches, and, if they succeed, with the same bytes. -/
theorem tryReadTyped_agrees {cfg : Config} {ops : List Op} {os : List Out} {w : World}
    (hrun : (memory cfg).run ops World.init = some (os, w)) (s : AddressSpace) (type : ValueType)
    {addr : Nat} (hend : (addr &&& s.addrMask) + type.size ≤ 2 ^ 64 - 4096) :
    ∃ ok typed sized s', tryReadTyped type s w.heap addr = some (ok, typed, s') ∧
      s.tryRead w.heap addr type.size = some (ok, sized, s') ∧
      (ok = true → typed = sized ∧ sized.length = type.size) := by
  have hpos := type.size_pos
  have hlast : (addr &&& s.addrMask) < 2 ^ 64 - 4096 := by omega
  rcases tryReadTyped_or_missing (World.rooted_of_run hrun) s type hlast with
    heq | ⟨vals, s', htyped, hsized⟩
  · obtain ⟨⟨ok, vals, s'⟩, hr⟩ := tryRead_isSome hend
    refine ⟨ok, vals, vals, s', heq.trans hr, hr, ?_⟩
    rintro rfl
    exact ⟨rfl, tryRead_length (by omega) hr⟩
  · exact ⟨false, [], vals, s', htyped, hsized, fun h => absurd h (by simp)⟩

/-- Eight bytes across a page border, where a mapping call that wraps around has left two ranges. -/
theorem tryReadTyped_agrees_crossing :
    ∃ os w s, (memory (amd64 false)).run
        [.new, .addMap 0 0x10000 0x30000 none 0, .addMap 0 0x30000 (2 ^ 64 - 0x10000) none 0,
          .tryWrite 0 0x1fffe [1, 2, 3, 4]] World.init = some (os, w) ∧
      w.spaces[0]? = some s ∧
      ∃ ok typed sized s', tryReadTyped .uint64 s w.heap 0x1fffc = some (ok, typed, s') ∧
        s.tryRead w.heap 0x1fffc 8 = some (ok, sized, s') ∧
        (ok = true → typed = sized ∧ sized.length = 8) := by
  obtain ⟨os, w, s, hrun, hi, hmask⟩ := World.run_eval (amd64 false)
    [.new, .addMap 0 0x10000 0x30000 none 0, .addMap 0 0x30000 (2 ^ 64 - 0x10000) none 0,
      .tryWrite 0 0x1fffe [1, 2, 3, 4]] (fun _ s => s.addrMask = 2 ^ 64 - 1)
    (by decide +kernel)
  have haddr : 0x1fffc &&& s.addrMask = 0x1fffc := by
    rw [hmask]
    decide
  exact ⟨os, w, s, hrun, hi, tryReadTyped_agrees hrun s .uint64 (by rw [haddr]; decide)⟩

end Vmill
