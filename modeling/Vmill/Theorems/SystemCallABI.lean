import Vmill.Runtime.Linux.SystemCallABI
import Vmill.Theorems.Probes

/-!
# Arguments that cannot be read

`TryGetArgs` with three to six outputs asks `CanReadArgs` for two arguments only, and the check of a
pack in memory probes its first byte only.
-/

namespace Vmill.Linux

open Guest

namespace ArgumentABI

variable {abi : ArgumentABI} {g : Guest} {k : Nat}

/-- The addresses of the bytes of argument `i`, if it is in memory. -/
def argBytes (abi : ArgumentABI) (g : Guest) (i : Nat) : List Nat :=
  match abi with
  | .registers .x86SysEnter32 gpr =>
    if i = 5 then (List.range (IoVec.addrSize g)).map fun j => g.addrT (gpr .rbp + j) else []
  | .registers _ _ => []
  | .socketCall T argAddr =>
    (List.range T.size).map fun j => g.addrT (g.addrT (argAddr + i * T.size) + j)

/-- Every byte of the first `k` arguments is mapped, and its page is readable. -/
def Readable (abi : ArgumentABI) (g : Guest) (k : Nat) : Prop :=
  ∀ i < k, ∀ a ∈ abi.argBytes g i,
    g.space.canRead a = true ∧ (AddressSpace.view g.heap g.space a).isSome = true

instance (abi : ArgumentABI) (g : Guest) (k : Nat) : Decidable (abi.Readable g k) :=
  inferInstanceAs (Decidable (∀ i < k, ∀ a ∈ abi.argBytes g i,
    g.space.canRead a = true ∧ (AddressSpace.view g.heap g.space a).isSome = true))

/-- What `TryGetArgs` with `k` outputs comes to is right: it returns true only if the arguments
are readable, and if they are not it returns false and no fault is recorded. -/
def ChecksArgs (abi : ArgumentABI) (g : Guest) (k : Nat) (args : Option (List Nat))
    (g' : Guest) : Prop :=
  (args.isSome = true → abi.Readable g k) ∧
    (¬ abi.Readable g k → args = none ∧ g'.task = g.task)

/-- The memory is such that the check cannot be wrong. -/
def CheckTells (abi : ArgumentABI) (g : Guest) (k : Nat) : Prop :=
  match abi with
  | .registers .x86SysEnter32 _ => k < 6 ∨ abi.Readable g k
  | .registers _ _ => True
  | .socketCall _ argAddr => g.space.canRead (g.addrT argAddr) = false ∨ abi.Readable g k

/-- What the check comes to: it looks at the first byte of a pack, and at no stack. -/
def passes (abi : ArgumentABI) (g : Guest) : Bool :=
  match abi with
  | .registers _ _ => true
  | .socketCall _ argAddr => g.space.canRead (g.addrT argAddr)

lemma canReadArgs_eq (hmask : g.MaskOk)
    {n : Nat} (hn : n = 1 ∨ n = 2) : abi.canReadArgs g n = some (abi.passes g) := by
  cases abi with
  | registers abi gpr => rcases hn with rfl | rfl <;> cases abi <;> rfl
  | socketCall T argAddr =>
  have hsize : 0 < n * T.size ∧ n * T.size ≤ 4096 := by
    rcases hn with rfl | rfl <;> cases T <;> decide
  exact canReadMemory_small hmask hsize.1 hsize.2

lemma tryGetArgs_eq (hmask : g.MaskOk)
    (hk : 1 ≤ k ∧ k ≤ 6) :
    abi.tryGetArgs k g =
      some (if abi.passes g then (some (abi.getArgs k 0 g).1, (abi.getArgs k 0 g).2)
        else (none, g)) := by
  obtain ⟨n, hn, heq⟩ : ∃ n, (n = 1 ∨ n = 2) ∧ abi.tryGetArgs k g = abi.tryGet n k g := by
    rcases (show k = 1 ∨ k = 2 ∨ k = 3 ∨ k = 4 ∨ k = 5 ∨ k = 6 by omega) with
      rfl | rfl | rfl | rfl | rfl | rfl
    · exact ⟨1, .inl rfl, rfl⟩
    all_goals exact ⟨2, .inr rfl, rfl⟩
  rw [heq, tryGet, canReadArgs_eq hmask hn]
  cases abi.passes g <;> rfl

lemma readable_registers (h : ∀ i < k, abi.argBytes g i = []) : abi.Readable g k := by
  intro i hi a ha
  rw [h i hi] at ha
  exact nomatch ha

lemma checkTells_iff (abi : ArgumentABI) (g : Guest) (k : Nat) :
    abi.CheckTells g k ↔ abi.passes g = false ∨ abi.Readable g k := by
  cases abi with
  | registers abi gpr =>
    cases abi with
    | x86SysEnter32 =>
      refine ⟨fun h => .inr (h.elim (fun hk => readable_registers fun i hi => ?_) id),
        fun h => .inr (h.resolve_left (by simp [passes]))⟩
      exact if_neg (by omega)
    | _ => exact ⟨fun _ => .inr (readable_registers fun _ _ => rfl), fun _ => trivial⟩
  | socketCall T argAddr => exact Iff.rfl

end ArgumentABI

open ArgumentABI

/-- **`TryGetArgs`.** For every ABI, every arity and every guest memory: the call returns, and it
returns true only for readable arguments and false without a fault otherwise, if and only if the
check can tell. -/
theorem tryGetArgs_checks (abi : ArgumentABI) (g : Guest)
    (hmask : g.space.addrMask = 2 ^ 32 - 1 ∨ g.space.addrMask = 2 ^ 64 - 1) (k : Nat)
    (hk : 1 ≤ k ∧ k ≤ 6) :
    ∃ args g', abi.tryGetArgs k g = some (args, g') ∧
      (abi.ChecksArgs g k args g' ↔ abi.CheckTells g k) := by
  rw [checkTells_iff]
  refine ⟨_, _, tryGetArgs_eq hmask hk, ?_⟩
  cases abi.passes g with
  | true =>
    refine ⟨fun h => .inr (h.1 rfl), fun h => ?_⟩
    have hread : abi.Readable g k := h.resolve_left (by decide)
    exact ⟨fun _ => hread, fun hno => absurd hread hno⟩
  | false => exact ⟨fun _ => .inl rfl, fun _ => ⟨fun hsome => (nomatch hsome), fun _ => ⟨rfl, rfl⟩⟩⟩

/-- Two arguments, 5 and 6, in a page of a 32-bit guest. -/
theorem tryGetArgs_checks_pack : ∃ (w : World) (s : AddressSpace),
    World.Reachable (Vmill.x86 false) w ∧ w.spaces[0]? = some s ∧
    let g : Guest := ⟨some (Task.init 0), s, w.heap⟩
    ∃ g', (socketCall .uint32 0x1ff8).tryGetArgs 2 g = some (some [5, 6], g') ∧
      (socketCall .uint32 0x1ff8).ChecksArgs g 2 (some [5, 6]) g' := by
  obtain ⟨w, s, hw, hi, hm, hargs, hread⟩ :=
    World.reachable_eval (Vmill.x86 false)
      [.new, .addMap 0 0x1000 0x1000 none 0, .tryWrite 0 0x1ff8 [5, 0, 0, 0, 6, 0, 0, 0]]
      (fun w s => s.addrMask = 2 ^ 32 - 1 ∧
        ((socketCall .uint32 0x1ff8).tryGetArgs 2 ⟨some (Task.init 0), s, w.heap⟩).map Prod.fst =
          some (some [5, 6]) ∧
        (socketCall .uint32 0x1ff8).Readable ⟨some (Task.init 0), s, w.heap⟩ 2)
      (by decide +kernel)
  refine ⟨w, s, hw, hi, ?_⟩
  obtain ⟨args, g', hcall, hiff⟩ := tryGetArgs_checks (socketCall .uint32 0x1ff8)
    ⟨some (Task.init 0), s, w.heap⟩ (.inl hm) 2 (by decide)
  rw [hcall, Option.map_some] at hargs
  obtain rfl : args = some [5, 6] := Option.some.inj hargs
  exact ⟨g', hcall, hiff.mpr (.inr hread)⟩

/-- A stack at `0x5000`. -/
def stackArgs : ArgReg → Nat
  | .rbp => 0x5000
  | _ => 0

/-- A pack with its second argument in a page that is not mapped, and the sixth argument of
`sysenter` on a stack that is not mapped: `TryGetArgs` returns true, and a fault is recorded. -/
theorem tryGetArgs_reads_unmapped : ∃ (w : World) (s : AddressSpace),
    World.Reachable (Vmill.x86 false) w ∧ w.spaces[0]? = some s ∧
    let g : Guest := ⟨some (Task.init 0), s, w.heap⟩
    (∃ g', (socketCall .uint32 0x1ffc).tryGetArgs 2 g = some (some [5, 0], g') ∧
      g'.task.map (·.memAccessFault.address) = some 0x2000 ∧
      ¬ (socketCall .uint32 0x1ffc).ChecksArgs g 2 (some [5, 0]) g') ∧
    ∃ g', (registers .x86SysEnter32 stackArgs).tryGetArgs 6 g =
        some (some [0, 0, 0, 0, 0, 0], g') ∧
      g'.task.map (·.memAccessFault.address) = some 0x5000 ∧
      ¬ (registers .x86SysEnter32 stackArgs).ChecksArgs g 6
        (some [0, 0, 0, 0, 0, 0]) g' := by
  obtain ⟨w, s, hw, hi, ⟨hpack, h2⟩, hstack, h5⟩ :=
    World.reachable_eval (Vmill.x86 false)
      [.new, .addMap 0 0x1000 0x1000 none 0, .tryWrite 0 0x1ffc [5, 0, 0, 0]]
      (fun w s =>
        (((socketCall .uint32 0x1ffc).tryGetArgs 2 ⟨some (Task.init 0), s, w.heap⟩).map
            (fun r => (r.1, r.2.task.map (·.memAccessFault.address))) =
          some (some [5, 0], some 0x2000) ∧
          ¬ (socketCall .uint32 0x1ffc).Readable ⟨some (Task.init 0), s, w.heap⟩ 2) ∧
        ((registers .x86SysEnter32 stackArgs).tryGetArgs 6
            ⟨some (Task.init 0), s, w.heap⟩).map
            (fun r => (r.1, r.2.task.map (·.memAccessFault.address))) =
          some (some [0, 0, 0, 0, 0, 0], some 0x5000) ∧
        ¬ (registers .x86SysEnter32 stackArgs).Readable
          ⟨some (Task.init 0), s, w.heap⟩ 6)
      (by decide +kernel)
  obtain ⟨⟨_, g2⟩, hcall2, heq2⟩ := Option.map_eq_some_iff.mp hpack
  obtain ⟨rfl, hfault2⟩ := Prod.mk.inj heq2
  obtain ⟨⟨_, g5⟩, hcall5, heq5⟩ := Option.map_eq_some_iff.mp hstack
  obtain ⟨rfl, hfault5⟩ := Prod.mk.inj heq5
  exact ⟨w, s, hw, hi,
    ⟨g2, hcall2, hfault2, fun h => h2 (h.1 rfl)⟩, g5, hcall5, hfault5, fun h => h5 (h.1 rfl)⟩

end Vmill.Linux
