import Vmill.Logic.Decode

/-!
# Traces are determined by their entries

Both loops of the decoder share one work list, and the inner loop is left at the first instruction
that does not decode, with what it has not looked at yet still in the list.
-/

namespace Vmill

open Base AddressSpace

/-- **Decoding.** The traces have pairwise different entries. If none stops at an instruction that
does not decode, with program counters left to look at, before another one is decoded, each has its
entry, only what can be reached from there, and all of that if its instructions decode. -/
theorem decodeTraces_determined {cfg : Config} {w : World} (hw : World.Reachable cfg w) {i : Nat}
    {s : AddressSpace} (hi : w.spaces[i]? = some s) (arch : Arch) (startPc : PC) :
    ∃ traces s' h', decodeTraces cfg arch s w.heap startPc = some (traces, s', h') ∧
      (traces.map DecodedTrace.pc).Nodup ∧
      ((Traces.separate (codeAt arch w.heap s) (fun pc => s.traceHeads pc.val) startPc).isSome →
        ∀ t ∈ traces, Traces.IsTrace (codeAt arch w.heap s) t.pc t.instructions) := by
  have hwf := hw.wf.heap
  have hs := hw.wf.space i s hi
  obtain ⟨st, hrun, hd, _⟩ := decodeTraces_spec cfg arch hwf hs startPc
  exact ⟨_, _, _, hrun, hd.nodup, fun hsep => decodeTraces_isTrace hwf hs hsep hrun⟩

/-- A machine with one-byte instructions: `1` calls the next page, `2` branches two
bytes ahead, `3` returns, and nothing else decodes. -/
def toyArch : Arch where
  maxInstructionSize := 1
  lazyDecodeInstruction pc bytes :=
    match bytes with
    | [1] => (⟨.directFunctionCall, pc + 1, pc + 0x1000, bytes⟩, true)
    | [2] => (⟨.conditionalBranch, pc + 1, pc + 2, bytes⟩, true)
    | [3] => (⟨.functionReturn, pc + 1, 0, bytes⟩, true)
    | _ => (⟨.invalid, pc + 1, 0, bytes⟩, false)
  digest seed bytes := seed + Fin.ofNat (2 ^ 64) bytes.length

/-- A procedure that calls another one: both are decoded. -/
theorem decodeTraces_call :
    ∃ w s traces s' h', World.Reachable (amd64 false) w ∧ w.spaces[0]? = some s ∧
      decodeTraces (amd64 false) toyArch s w.heap 0x1000 = some (traces, s', h') ∧
      traces.map DecodedTrace.pc = [0x1000, 0x2000] ∧
      ∀ t ∈ traces, Traces.IsTrace (codeAt toyArch w.heap s) t.pc t.instructions := by
  obtain ⟨w, s, hw, hi, hsep, hcall⟩ := World.reachable_eval (amd64 false)
    [.new, .addMap 0 0x1000 0x2000 none 0, .tryWrite 0 0x1000 [1, 3], .tryWrite 0 0x2000 [3],
      .setPermissions 0 0x1000 0x2000 true false true]
    (fun w s => (Traces.separate (codeAt toyArch w.heap s) (fun pc => s.traceHeads pc.val)
        0x1000).isSome = true ∧
      (decodeTraces (amd64 false) toyArch s w.heap 0x1000).any (fun r =>
        decide (r.1.map DecodedTrace.pc = [0x1000, 0x2000])) = true)
    (by decide +kernel)
  obtain ⟨traces, s', h', hdec, _, hall⟩ := decodeTraces_determined hw hi toyArch 0x1000
  rw [hdec] at hcall
  exact ⟨w, s, traces, s', h', hw, hi, hdec, of_decide_eq_true hcall, hall hsep⟩

/-- The first procedure calls the second one, branches, and then does not decode. The branch target
is still in the work list when the second one is decoded: its trace is an instruction of the first
procedure, and does not have its own entry. -/
theorem decodeTraces_leaks :
    ∃ w s traces s' h' t, World.Reachable (amd64 false) w ∧ w.spaces[0]? = some s ∧
      decodeTraces (amd64 false) toyArch s w.heap 0x1000 = some (traces, s', h') ∧
      t ∈ traces ∧ t.pc = 0x2000 ∧ t.instructions.keys = [0x1003] := by
  obtain ⟨w, s, hw, hi, hcall⟩ := World.reachable_eval (amd64 false)
    [.new, .addMap 0 0x1000 0x2000 none 0, .tryWrite 0 0x1000 [1, 2], .tryWrite 0 0x2000 [3],
      .setPermissions 0 0x1000 0x2000 true false true]
    (fun w s => (decodeTraces (amd64 false) toyArch s w.heap 0x1000).any (fun r =>
      r.1.any fun t => decide (t.pc = 0x2000 ∧ t.instructions.keys = [0x1003])) = true)
    (by decide +kernel)
  obtain ⟨⟨traces, s', h'⟩, hdec, hany⟩ := (Option.any_eq_true _ _).mp hcall
  obtain ⟨t, ht, hkeys⟩ := List.any_eq_true.mp hany
  exact ⟨w, s, traces, s', h', t, hw, hi, hdec, ht,
    of_decide_eq_true hkeys⟩

end Vmill
