import Vmill.Logic.EdgeSplit

/-!
# A pass of the branch coverage tool

The tool changes a function by edits (`Edit`). `Progress` says what it has made of `f` when it has
split some edges.
-/

namespace Vmill

open Base Ssa

namespace BranchCoverage

variable {J V C O : Type} {f : Function J V C O}

/-- What the tool does to a function. An edge that is not there is not split. -/
inductive Edit where
  | split (b i : Nat)
  | call (b : Nat) (c : Call)

/-- Make one edit; one that fits no edge or block does nothing. -/
def Edit.apply (f : Function J V C O) : Edit → Function J V C O
  | .split b i =>
    if b < f.next then
      match (f.block b).succs[i]? with
      | none => f
      | some dest => splitEdge f b i dest
    else f
  | .call b c => createCall f b c

/-- `g` is `f` after some edits. -/
def Edited (f g : Function J V C O) : Prop := ∃ edits : List Edit, g = edits.foldl Edit.apply f

lemma Edited.refl (f : Function J V C O) : Edited f f := ⟨[], rfl⟩

lemma Edited.trans {g k : Function J V C O} (h : Edited f g) (h' : Edited g k) : Edited f k := by
  obtain ⟨edits, rfl⟩ := h
  obtain ⟨edits', rfl⟩ := h'
  exact ⟨edits ++ edits', List.foldl_append.symm⟩

lemma edited_split {b i dest : Nat} (hb : b < f.next)
    (hsucc : (f.block b).succs[i]? = some dest) : Edited f (splitEdge f b i dest) := by
  refine ⟨[.split b i], ?_⟩
  simp only [List.foldl_cons, List.foldl_nil, Edit.apply, if_pos hb, hsucc]

lemma edited_call (f : Function J V C O) (b : Nat) (c : Call) : Edited f (createCall f b c) :=
  ⟨[.call b c], rfl⟩

lemma createCall_block (f : Function J V C O) (b : Nat) (c : Call) (b' : Nat) :
    (createCall f b c).block b' =
      { f.block b' with
        insts := (if b' = b then [.call c] else []) ++ (f.block b').insts } := by
  unfold createCall
  by_cases hb : b' = b
  · subst hb
    simp only [Function.update_self, if_pos, List.singleton_append]
  · simp only [Function.update_of_ne hb, if_neg hb, List.nil_append]

lemma createCall_verified (hf : f.Verified) (b : Nat) (c : Call) :
    (createCall f b c).Verified := by
  have hphis : ∀ t, ((createCall f b c).block t).phis = (f.block t).phis := fun t => by
    rw [createCall_block]
  have hsuccs : ∀ t, ((createCall f b c).block t).succs = (f.block t).succs := fun t => by
    rw [createCall_block]
  refine ⟨⟨hf.wf.order, ?_, ?_, ?_⟩, ?_, ?_, ?_, ?_⟩
  · intro t ht
    rw [hsuccs t]
    exact hf.wf.succs t ht
  · intro t ht
    rw [hsuccs t]
    exact hf.wf.entry t ht
  · intro t ht phi hphi
    rw [hphis t] at hphi
    have hm := hf.wf.phis t ht phi hphi
    refine ⟨fun b' hb' => ?_, hm.known, hm.same⟩
    rw [hsuccs b']
    exact hm.edges b' hb'
  · intro t ht
    rw [createCall_block]
    exact hf.arity t ht
  · intro t ht phi hphi
    rw [hphis t] at hphi
    exact hf.dests t ht phi hphi
  · intro t ht phi hphi
    rw [hphis t] at hphi
    exact hf.incoming t ht phi hphi
  intro t ht inst hinst
  rw [createCall_block] at hinst
  rcases List.mem_append.mp hinst with hcall | hold
  · split at hcall
    · obtain rfl := List.mem_singleton.mp hcall
      trivial
    · cases hcall
  · exact hf.insts t ht inst hold

lemma ForwardsAll.no_call {src mid tmp : Nat} {phis phis' : List (Phi (Operand V))}
    {insts : List (Inst J V)} (h : ForwardsAll src mid tmp phis phis' insts) (c : Call) :
    Inst.call c ∉ insts := by
  induction h with
  | nil tmp => exact List.not_mem_nil
  | cons _ _ ih => simpa using ih

/-- The number of a block, and of a successor of it. -/
abbrev Edge := Nat × Nat

/-- Block `k` past those of `f` stands on edge `e` and calls `c`, if any, and nothing else. -/
structure MidBlock (f g : Function J V C O) (k : Nat) (e : Edge) (c : Option Call) : Prop where
  src_lt : e.1 < f.next
  leads : (g.block e.1).succs[e.2]? = some (f.next + k)
  block : ∃ dest insts, (f.block e.1).succs[e.2]? = some dest ∧ (∀ c', Inst.call c' ∉ insts) ∧
    g.block (f.next + k) = ⟨[], c.toList.map .call ++ insts, .br, [dest]⟩

/-- `g` is `f` with the edges of `done` split, in order, and their calls made. -/
structure Progress (f g : Function J V C O) (done : List (Edge × Option Call)) : Prop where
  verified : g.Verified
  edited : Edited f g
  next : g.next = f.next + done.length
  kind : ∀ b < f.next, (g.block b).kind = (f.block b).kind
  length : ∀ b < f.next, (g.block b).succs.length = (f.block b).succs.length
  other : ∀ b < f.next, ∀ i, (b, i) ∉ done.map Prod.fst →
    (g.block b).succs[i]? = (f.block b).succs[i]?
  mid : ∀ k e c, done[k]? = some (e, c) → MidBlock f g k e c

lemma Progress.refl (hf : f.Verified) : Progress f f [] where
  verified := hf
  edited := .refl f
  next := rfl
  kind _ _ := rfl
  length _ _ := rfl
  other _ _ _ _ := rfl
  mid _ _ _ hk := absurd hk.symm (Option.some_ne_none _)

namespace Progress

variable {g : Function J V C O} {done : List (Edge × Option Call)} {dest : Nat}

lemma next_le (h : Progress f g done) : f.next ≤ g.next := by
  rw [h.next]
  exact Nat.le_add_right _ _

lemma should (h : Progress f g done) (hdest : dest < f.next) :
    shouldInstrumentEdge g dest = shouldInstrumentEdge f dest := by
  unfold shouldInstrumentEdge
  rw [h.kind dest hdest]

/-- One more edge split, with no call in its block yet. -/
lemma split (h : Progress f g done) (hf : f.Verified) {b i : Nat} (hb : b < f.next)
    (hnew : (b, i) ∉ done.map Prod.fst) (hsucc : (f.block b).succs[i]? = some dest) :
    Progress f (splitEdge g b i dest) (done ++ [((b, i), none)]) := by
  have hdest := hf.dest_lt hb hsucc
  have hle := h.next_le
  have hb' : b < g.next := Nat.lt_of_lt_of_le hb hle
  have hsucc' : (g.block b).succs[i]? = some dest := (h.other b hb i hnew).trans hsucc
  obtain ⟨phis, insts, hs⟩ := splitEdge_split h.verified hb' hsucc'
  have hlt : ∀ b' < f.next, b' < g.next := fun b' hb' => Nat.lt_of_lt_of_le hb' hle
  refine ⟨hs.verified h.verified, h.edited.trans (edited_split hb' hsucc'), ?_, ?_, ?_, ?_, ?_⟩
  · rw [hs.next, h.next, List.length_append]
    rfl
  · intro b' hb'
    rw [hs.kind b' (hlt b' hb'), h.kind b' hb']
  · intro b' hb'
    rw [hs.succs b' (hlt b' hb'), ← h.length b' hb']
    split
    · exact List.length_set
    · rfl
  · intro b' hb' i' hnew'
    rw [List.map_append, List.mem_append, not_or] at hnew'
    rw [hs.succs_other (hlt b' hb'), h.other b' hb' i' hnew'.1]
    rintro ⟨rfl, rfl⟩
    exact hnew'.2 (.head _)
  intro k e c hk
  rcases Nat.lt_or_ge k done.length with hlen | hlen
  · -- an edge that was split before
    rw [List.getElem?_append_left hlen] at hk
    obtain ⟨hsrc, hleads, dest', insts', hsucc'', hcalls, hblock⟩ := h.mid k e c hk
    have hmem : e ∈ done.map Prod.fst := List.mem_map.mpr ⟨(e, c), List.mem_of_getElem? hk, rfl⟩
    have hkept : (splitEdge g b i dest).block (f.next + k) = g.block (f.next + k) := by
      have hlt' : f.next + k < g.next := by rw [h.next]; omega
      have hphis := hs.phis _ hlt'
      have hsuccs := hs.succs _ hlt'
      rw [if_neg (by omega)] at hphis hsuccs
      cases hold : g.block (f.next + k) with
      | mk phis1 insts1 kind1 succs1 =>
        cases hcur : (splitEdge g b i dest).block (f.next + k) with
        | mk phis2 insts2 kind2 succs2 =>
          have hinsts := hs.insts _ hlt'
          have hkind := hs.kind _ hlt'
          rw [hold, hcur] at hphis hsuccs hinsts hkind
          simp only at hphis hsuccs hinsts hkind
          rw [hphis, hsuccs, hinsts, hkind]
    refine ⟨hsrc, ?_, dest', insts', hsucc'', hcalls, hkept.trans hblock⟩
    rw [hs.succs_other (hlt _ hsrc), hleads]
    rintro ⟨rfl, rfl⟩
    exact hnew hmem
  -- the new one
  rw [List.getElem?_append_right hlen] at hk
  obtain ⟨hzero, hget⟩ := List.getElem?_eq_some_iff.mp hk
  obtain rfl : k = done.length := by
    simp only [List.length_singleton] at hzero
    omega
  obtain ⟨rfl, rfl⟩ : (b, i) = e ∧ none = c := by
    simpa using hget
  refine ⟨hb, ?_, dest, insts, hsucc, hs.forwards.no_call, ?_⟩
  · rw [hs.succs_split, h.next]
  rw [← h.next]
  exact hs.mid

/-- The call put into the block of a split edge. -/
lemma call {front back : List (Edge × Option Call)} {e : Edge}
    (h : Progress f g (front ++ (e, none) :: back)) (c : Call) :
    Progress f (createCall g (f.next + front.length) c) (front ++ (e, some c) :: back) := by
  have hset : front ++ (e, some c) :: back =
      (front ++ (e, none) :: back).set front.length (e, some c) := by
    rw [List.set_append_right _ _ (Nat.le_refl _), Nat.sub_self]
    rfl
  refine ⟨createCall_verified h.verified _ _, h.edited.trans (edited_call _ _ _), ?_, ?_, ?_,
    ?_, ?_⟩
  · rw [hset, List.length_set]
    exact h.next
  · intro b hb
    rw [createCall_block]
    exact h.kind b hb
  · intro b hb
    rw [createCall_block]
    exact h.length b hb
  · intro b hb i hnew
    rw [createCall_block]
    refine h.other b hb i fun hmem => hnew ?_
    rw [List.map_append, List.map_cons] at hmem ⊢
    exact hmem
  · intro k e' c' hk
    rw [hset] at hk
    by_cases hkl : k = front.length
    · subst hkl
      rw [List.getElem?_set_self (by simp)] at hk
      cases hk
      obtain ⟨hsrc, hleads, dest, insts, hsucc, hcalls, hblock⟩ :=
        h.mid front.length e none (by simp)
      refine ⟨hsrc, by rw [createCall_block]; exact hleads, dest, insts, hsucc, hcalls, ?_⟩
      rw [createCall_block, if_pos rfl, hblock]
      rfl
    rw [List.getElem?_set_ne fun hc => hkl hc.symm] at hk
    obtain ⟨hsrc, hleads, dest, insts, hsucc, hcalls, hblock⟩ := h.mid k e' c' hk
    refine ⟨hsrc, by rw [createCall_block]; exact hleads, dest, insts, hsucc, hcalls, ?_⟩
    rw [createCall_block, if_neg (by omega), hblock]
    rfl

end Progress

end BranchCoverage

end Vmill
