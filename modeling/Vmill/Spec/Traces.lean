import Mathlib.Logic.Relation
import Vmill.Arch.Decoder

/-!
# What a trace is

A trace is determined by its entry (`IsTrace`). `explore` is the inner loop of the decoder over such
code, from any work list; `separate` is a decoder that starts every trace from its entry alone.
-/

namespace Vmill.Traces

open Base

variable {entry x : PC} {work rest left : SortedSet PC}

/-- The instruction at every program counter, and whether it can be decoded. -/
abbrev Code := PC → Instruction × Bool

/-- `y` follows `x` within a procedure: the instruction at `x` decodes, and
`AddSuccessorsToWorkList` adds `y` for it. -/
def Successor (code : Code) (x y : PC) : Prop :=
  (code x).2 = true ∧ y ∈ addSuccessorsToWorkList (code x).1

/-- The instruction map of the trace with this entry. -/
structure IsTrace (code : Code) (entry : PC) (insts : InstructionMap) : Prop where
  hasEntry : entry ∈ insts.keys
  decoded : ∀ e ∈ insts.entries, e.2 = (code e.1).1
  reachable : ∀ x ∈ insts.keys, Relation.ReflTransGen (Successor code) entry x
  closed : (∀ x ∈ insts.keys, (code x).2 = true) →
    ∀ x ∈ insts.keys, ∀ y, Successor code x y → y ∈ insts.keys

structure Explored where
  instructions : InstructionMap
  traceList : List PC

def visit (code : Code) (pc : PC) (t : Explored) : Option (Flow Explored PC) :=
  if t.instructions.contains pc then some (.next t [])
  else if !(code pc).2 then
    some (.leave { t with instructions := t.instructions.insert pc (code pc).1 })
  else
    some (.next
      { instructions := t.instructions.insert pc (code pc).1
        traceList := t.traceList ++ addSuccessorsToTraceList (code pc).1 }
      (addSuccessorsToWorkList (code pc).1))

def explore (code : Code) (work : SortedSet PC) : Option (SortedSet PC × Explored) :=
  drain (visit code) kWorkListSteps work { instructions := .empty, traceList := [] }

lemma card_pc : Fintype.card PC = 2 ^ 64 := Fintype.card_fin _

lemma drain_pc_isSome {σ : Type} {body : PC → σ → Option (Flow σ PC)} {I : σ → Prop} {μ : σ → Nat}
    (hbody : ∀ x st, I st → ∃ f, body x st = some f ∧ ∀ st' new, f = .next st' new → I st' ∧ (μ st'
      < μ st ∨ μ st' ≤ μ st ∧ new = [])) (work : SortedSet PC) {st : σ} (hI : I st)
    (hμ : μ st ≤ 2 ^ 64) : ∃ r, drain body kWorkListSteps work st = some r := by
  refine drain_isSome hbody hI ?_
  have hlen := work.nodup_keys.length_le_card
  have hmul := Nat.mul_le_mul_left (2 ^ 64 + 1) hμ
  rw [card_pc] at hlen ⊢
  unfold kWorkListSteps
  omega

lemma explore_isSome (code : Code) (work : SortedSet PC) : ∃ r, explore code work = some r := by
  refine drain_pc_isSome (I := fun _ => True)
    (μ := fun t => 2 ^ 64 - t.instructions.keys.length) (fun pc t _ => ?_) work trivial
    (Nat.sub_le _ _)
  unfold visit
  split
  · refine ⟨_, rfl, fun t' new hflow => ⟨trivial, .inr ?_⟩⟩
    obtain ⟨rfl, rfl⟩ := Flow.next.inj hflow
    exact ⟨le_rfl, rfl⟩
  rename_i hnew
  split
  · exact ⟨_, rfl, fun t' new hflow => nomatch hflow⟩
  refine ⟨_, rfl, fun t' new hflow => ⟨trivial, .inl ?_⟩⟩
  obtain ⟨rfl, rfl⟩ := Flow.next.inj hflow
  -- one more instruction, of at most `2 ^ 64`
  have hmem : pc ∉ t.instructions.keys := by
    simpa [SortedMap.contains] using hnew
  have hlen : (t.instructions.insert pc (code pc).1).keys.length =
      t.instructions.keys.length + 1 := SortedMap.length_insert_of_not_mem hmem
  have hle := (t.instructions.insert pc (code pc).1).nodup_keys.length_le_card
  rw [card_pc] at hle
  simp only
  omega

structure Exploring (code : Code) (entry : PC) (work : SortedSet PC) (t : Explored) : Prop where
  decodes : ∀ x ∈ t.instructions.keys, (code x).2 = true
  decoded : ∀ e ∈ t.instructions.entries, e.2 = (code e.1).1
  found : ∀ x ∈ t.instructions.keys, Relation.ReflTransGen (Successor code) entry x
  pending : ∀ x ∈ work.keys, Relation.ReflTransGen (Successor code) entry x
  edges : ∀ x ∈ t.instructions.keys, ∀ y, Successor code x y →
    y ∈ t.instructions.keys ∨ y ∈ work.keys
  start : entry ∈ t.instructions.keys ∨ work.keys = [entry]

lemma Exploring.init (code : Code) (entry : PC) :
    Exploring code entry (SortedMap.empty.insert entry ())
      { instructions := .empty, traceList := [] } := by
  have hempty : ∀ x, x ∉ (SortedMap.empty : InstructionMap).keys := fun x hx => nomatch hx
  have hwork : ((SortedMap.empty : SortedSet PC).insert entry ()).keys = [entry] := rfl
  exact
    { decodes := fun x hx => absurd hx (hempty x)
      decoded := fun e he => nomatch he
      found := fun x hx => absurd hx (hempty x)
      pending := fun x hx => List.mem_singleton.mp (hwork ▸ hx) ▸ .refl
      edges := fun x hx => absurd hx (hempty x)
      start := .inr hwork }

variable {code : Code} {t : Explored}

lemma Exploring.skip (he : Exploring code entry work t) (hk : work.keys = x :: rest.keys)
    (hx : x ∈ t.instructions.keys) : Exploring code entry rest t := by
  have hrest : ∀ y ∈ rest.keys, y ∈ work.keys := fun y hy => hk ▸ List.mem_cons_of_mem _ hy
  refine { he with
    pending := fun y hy => he.pending y (hrest y hy)
    edges := fun y hy z hz => ?_
    start := ?_ }
  · rcases he.edges y hy z hz with hfound | hwork
    · exact .inl hfound
    rw [hk] at hwork
    rcases List.mem_cons.mp hwork with rfl | hwork
    · exact .inl hx
    · exact .inr hwork
  · rcases he.start with hmem | hone
    · exact .inl hmem
    rw [hk] at hone
    exact .inl ((List.cons.inj hone).1 ▸ hx)

lemma Exploring.entry_mem (he : Exploring code entry work t) (hk : work.keys = x :: rest.keys) :
    entry ∈ (t.instructions.insert x (code x).1).keys := by
  rw [SortedMap.mem_keys_insert]
  rcases he.start with hmem | hone
  · exact .inr hmem
  rw [hk] at hone
  exact .inl (List.cons.inj hone).1.symm

lemma Exploring.insert (he : Exploring code entry work t) (hk : work.keys = x :: rest.keys) :
    (∀ e ∈ (t.instructions.insert x (code x).1).entries, e.2 = (code e.1).1) ∧
      ∀ y ∈ (t.instructions.insert x (code x).1).keys,
        Relation.ReflTransGen (Successor code) entry y := by
  refine ⟨fun e hmem => ?_, fun y hy => ?_⟩
  · rcases SortedMap.mem_entries_insert hmem with rfl | hmem
    · rfl
    · exact he.decoded e hmem
  rcases SortedMap.mem_keys_insert.mp hy with rfl | hy
  · exact he.pending y (hk ▸ (.head _))
  · exact he.found y hy

lemma Exploring.step (he : Exploring code entry work t) (hk : work.keys = x :: rest.keys)
    (hok : (code x).2 = true) (calls : List PC) :
    Exploring code entry (rest.insertAll (addSuccessorsToWorkList (code x).1))
      { instructions := t.instructions.insert x (code x).1, traceList := calls } := by
  have hrest : ∀ y ∈ rest.keys, y ∈ work.keys := fun y hy => hk ▸ List.mem_cons_of_mem _ hy
  have hx := he.pending x (hk ▸ (.head _))
  refine ⟨fun y hy => ?_, (he.insert hk).1, (he.insert hk).2, fun y hy => ?_,
    fun y hy z hz => ?_, .inl (he.entry_mem hk)⟩
  · rcases SortedMap.mem_keys_insert.mp hy with rfl | hy
    · exact hok
    · exact he.decodes y hy
  · rcases SortedMap.mem_insertAll.mp hy with hsucc | hy
    · exact hx.tail ⟨hok, hsucc⟩
    · exact he.pending y (hrest y hy)
  · rw [SortedMap.mem_keys_insert, SortedMap.mem_insertAll]
    rcases SortedMap.mem_keys_insert.mp hy with rfl | hy
    · exact .inr (.inl hz.2)
    rcases he.edges y hy z hz with hfound | hwork
    · exact .inl (.inr hfound)
    rw [hk] at hwork
    rcases List.mem_cons.mp hwork with rfl | hwork
    · exact .inl (.inl rfl)
    · exact .inr (.inr hwork)

/-- **From an entry alone**, the inner loop gives the trace of that entry. -/
lemma explore_isTrace (hrun : explore code (SortedMap.empty.insert entry ()) = some (left, t)) :
    IsTrace code entry t.instructions := by
  refine drain_rule (I := Exploring code entry) (J := fun _ t => IsTrace code entry t.instructions)
    ?_ ?_ ?_ (Exploring.init code entry) hrun
  · intro work x rest t t' new hpop he hbody
    have hk := SortedMap.keys_of_pop hpop
    unfold visit at hbody
    split at hbody
    · rename_i hmem
      obtain ⟨rfl, rfl⟩ := Flow.next.inj (Option.some.inj hbody)
      exact he.skip hk (by simpa [SortedMap.contains] using hmem)
    split at hbody
    · exact nomatch Option.some.inj hbody
    rename_i hok
    obtain ⟨rfl, rfl⟩ := Flow.next.inj (Option.some.inj hbody)
    exact he.step hk (by simpa using hok) _
  · intro work x rest t t' hpop he hbody
    have hk := SortedMap.keys_of_pop hpop
    unfold visit at hbody
    split at hbody
    · exact nomatch Option.some.inj hbody
    split at hbody
    · rename_i hfail
      obtain rfl := Flow.leave.inj (Option.some.inj hbody)
      refine ⟨he.entry_mem hk, (he.insert hk).1, (he.insert hk).2, fun hall => ?_⟩
      -- the trace has an instruction that does not decode
      have hok := hall x (SortedMap.mem_keys_insert.mpr (.inl rfl))
      rw [hok] at hfail
      simp at hfail
    · exact nomatch Option.some.inj hbody
  · intro work t hempty he
    exact ⟨he.start.resolve_right (by simp [hempty]), he.decoded, he.found,
      fun _ x hx y hy => (he.edges x hx y hy).resolve_right (by simp [hempty])⟩

/-- An instruction map that is closed if all of it decodes, and has the entry then. It may have
more than what can be reached from the entry. -/
structure Complete (code : Code) (entry : PC) (insts : InstructionMap) : Prop where
  decoded : ∀ e ∈ insts.entries, e.2 = (code e.1).1
  closed : (∀ x ∈ insts.keys, (code x).2 = true) → entry ∈ insts.keys ∧
    ∀ x ∈ insts.keys, ∀ y, Successor code x y → y ∈ insts.keys

/-- The invariant of the inner loop, from any work list that has the entry. -/
structure Following (code : Code) (entry : PC) (work : SortedSet PC) (t : Explored) : Prop where
  decoded : ∀ e ∈ t.instructions.entries, e.2 = (code e.1).1
  edges : ∀ x ∈ t.instructions.keys, ∀ y, Successor code x y →
    y ∈ t.instructions.keys ∨ y ∈ work.keys
  start : entry ∈ t.instructions.keys ∨ entry ∈ work.keys

lemma Following.next {t' : Explored} {new : List PC} (h : Following code entry work t)
    (hk : work.keys = x :: rest.keys) (hdecoded : ∀ e ∈ t'.instructions.entries, e.2 = (code e.1).1)
    (hkeys : ∀ y, y ∈ t'.instructions.keys ↔ y = x ∨ y ∈ t.instructions.keys)
    (hnew : ∀ y, Successor code x y → y ∈ t'.instructions.keys ∨ y ∈ work.keys ∨ y ∈ new) :
    Following code entry (rest.insertAll new) t' := by
  -- what was in the work list is still there, or has been looked at
  have hwork : ∀ y ∈ work.keys, y ∈ t'.instructions.keys ∨ y ∈ (rest.insertAll new).keys := by
    intro y hy
    rw [hk] at hy
    rcases List.mem_cons.mp hy with rfl | hy
    · exact .inl ((hkeys y).mpr (.inl rfl))
    · exact .inr (SortedMap.mem_insertAll.mpr (.inr hy))
  refine ⟨hdecoded, fun y hy z hz => ?_, ?_⟩
  · by_cases hyx : y = x
    · subst hyx
      rcases hnew z hz with hfound | hpending | hadded
      · exact .inl hfound
      · exact hwork z hpending
      · exact .inr (SortedMap.mem_insertAll.mpr (.inl hadded))
    rcases h.edges y (((hkeys y).mp hy).resolve_left hyx) z hz with hfound | hpending
    · exact .inl ((hkeys z).mpr (.inr hfound))
    · exact hwork z hpending
  rcases h.start with hfound | hpending
  · exact .inl ((hkeys entry).mpr (.inr hfound))
  · exact hwork entry hpending

lemma explore_complete (hentry : entry ∈ work.keys) (hrun : explore code work = some (left, t)) :
    Complete code entry t.instructions := by
  have hinit : Following code entry work { instructions := .empty, traceList := [] } :=
    ⟨fun e he => (nomatch he), fun x hx => (nomatch hx), .inr hentry⟩
  have hinsert : ∀ {t : Explored} (pc : PC),
      (∀ e ∈ t.instructions.entries, e.2 = (code e.1).1) →
      ∀ e ∈ (t.instructions.insert pc (code pc).1).entries, e.2 = (code e.1).1 := by
    intro t pc hdecoded e he
    rcases SortedMap.mem_entries_insert he with rfl | he
    · rfl
    · exact hdecoded e he
  refine drain_rule (I := Following code entry)
    (J := fun _ t => Complete code entry t.instructions) ?_ ?_ ?_ hinit hrun
  · intro work x rest t t' new hpop h hbody
    have hk := SortedMap.keys_of_pop hpop
    unfold visit at hbody
    split at hbody
    · rename_i hmem
      obtain ⟨rfl, rfl⟩ := Flow.next.inj (Option.some.inj hbody)
      have hx : x ∈ t.instructions.keys := by simpa [SortedMap.contains] using hmem
      exact h.next hk h.decoded (fun y => ⟨.inr, fun hy => hy.elim (· ▸ hx) id⟩)
        fun y hy => (h.edges x hx y hy).imp_right .inl
    split at hbody
    · exact nomatch Option.some.inj hbody
    obtain ⟨rfl, rfl⟩ := Flow.next.inj (Option.some.inj hbody)
    exact h.next hk (hinsert x h.decoded) (fun _ => SortedMap.mem_keys_insert)
      fun y hy => .inr (.inr hy.2)
  · intro work x rest t t' hpop h hbody
    unfold visit at hbody
    split at hbody
    · exact nomatch Option.some.inj hbody
    split at hbody
    · rename_i hfail
      obtain rfl := Flow.leave.inj (Option.some.inj hbody)
      refine ⟨hinsert x h.decoded, fun hall => ?_⟩
      have hok := hall x (SortedMap.mem_keys_insert.mpr (.inl rfl))
      rw [hok] at hfail
      simp at hfail
    · exact nomatch Option.some.inj hbody
  · intro work t hempty h
    exact ⟨h.decoded, fun _ => ⟨h.start.resolve_right (by simp [hempty]),
      fun x hx y hy => (h.edges x hx y hy).resolve_right (by simp [hempty])⟩⟩

/-- The variables of the outer loop: the entries marked, what the last trace left in
its work list, and the traces. -/
structure Separated where
  marked : PC → Bool
  left : SortedSet PC
  traces : List (PC × InstructionMap)

/-- The body of the outer loop. There is no trace to start while something is
left of the last one. -/
def separateTrace (code : Code) (tracePc : PC) (st : Separated) : Option (Flow Separated PC) :=
  if st.marked tracePc then some (.next st [])
  else if st.left.keys ≠ [] then none
  else
    match explore code (SortedMap.empty.insert tracePc ()) with
    | none => none
    | some (left, t) =>
      some (.next
        { marked := Function.update st.marked tracePc true
          left := left
          traces := st.traces ++ [(tracePc, t.instructions)] }
        t.traceList)

/-- Decode the traces from `startPc` on, each from its own entry alone. `none`: a
trace stopped at an instruction that does not decode, with program counters left in
its work list, and was not the last one. -/
def separate (code : Code) (marked : PC → Bool) (startPc : PC) :
    Option (List (PC × InstructionMap)) :=
  (drain (separateTrace code) kWorkListSteps (SortedMap.empty.insert startPc ())
    { marked := marked, left := .empty, traces := [] }).map (fun r => r.2.traces)

end Vmill.Traces
