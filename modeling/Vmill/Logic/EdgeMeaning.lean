import Vmill.Logic.EdgeSplit

/-!
# The meaning of a function with split edges

On a split edge the new function goes through one more block, which is hidden and carries the values
of the PHI nodes through memory (`ForwardsAll.run`).
-/

namespace Vmill

open Base Ssa

namespace BranchCoverage

variable {J V C O W M : Type} {n : Nat} {phis phis' : List (Phi (Operand V))}

/-- Two states that differ in temporaries from `n` on at most. -/
structure Agree (n : Nat) (s s' : State V W M) : Prop where
  env : ∀ val : Operand V, val.Below n → s.1 val = s'.1 val
  mem : s.2.1 = s'.2.1
  slots : ∀ tmp < n, s.2.2 tmp = s'.2.2 tmp

namespace Agree

variable {n' : Nat} {s s' s'' : State V W M}

lemma refl (n : Nat) (s : State V W M) : Agree n s s := ⟨fun _ _ => rfl, rfl, fun _ _ => rfl⟩

lemma trans (h : Agree n s s') (h' : Agree n s' s'') : Agree n s s'' :=
  ⟨fun val hval => (h.env val hval).trans (h'.env val hval), h.mem.trans h'.mem,
    fun tmp htmp => (h.slots tmp htmp).trans (h'.slots tmp htmp)⟩

lemma mono (h : Agree n s s') (hle : n' ≤ n) : Agree n' s s' :=
  ⟨fun val hval => h.env val (hval.mono hle), h.mem,
    fun tmp htmp => h.slots tmp (Nat.lt_of_lt_of_le htmp hle)⟩

lemma own_eq (h : Agree n s s') : s.own = s'.own := by
  unfold State.own
  rw [h.mem, funext fun v => h.env (.value v) trivial]

lemma takes_iff (h : Agree n s s') (sem : Meaning J V C O W M) (kind : Kind V C O) (i : Nat) :
    takes sem kind s i ↔ takes sem kind s' i := by
  cases kind with
  | br => exact Iff.rfl
  | condBr cond => rw [takes, takes, h.env (.value cond) trivial]
  | switch cond cases => rw [takes, takes, h.env (.value cond) trivial]
  | catchSwitch o => rw [takes, takes, h.own_eq]
  | other o => rw [takes, takes, h.own_eq]

variable [DecidableEq V]

lemma exec (h : Agree n s s') (sem : Meaning J V C O W M) {inst : Inst J V}
    (hinst : inst.Below n) :
    Agree n (BranchCoverage.exec sem inst s) (BranchCoverage.exec sem inst s') := by
  cases inst with
  | inst j =>
    refine ⟨fun val hval => ?_, ?_, h.slots⟩
    · cases val with
      | value v => simp only [BranchCoverage.exec, h.own_eq]
      | load tmp => exact h.env (.load tmp) hval
    · simp only [BranchCoverage.exec, h.own_eq]
  | alloca tmp =>
    refine ⟨h.env, h.mem, fun t ht => ?_⟩
    simp only [BranchCoverage.exec, Function.update_apply, h.slots t ht]
  | store val tmp =>
    refine ⟨h.env, h.mem, fun t ht => ?_⟩
    simp only [BranchCoverage.exec, Function.update_apply, h.slots t ht, h.env val hinst.1]
  | load tmp =>
    refine ⟨fun val hval => ?_, h.mem, h.slots⟩
    simp only [BranchCoverage.exec, Function.update_apply, h.slots tmp hinst, h.env val hval,
      h.env (.load tmp) hinst]
  | call c => exact h

lemma run (h : Agree n s s') (sem : Meaning J V C O W M) {insts : List (Inst J V)}
    (hinsts : ∀ inst ∈ insts, inst.Below n) :
    Agree n ((semantics sem).run insts s) ((semantics sem).run insts s') := by
  induction insts generalizing s s' with
  | nil => exact h
  | cons inst insts ih =>
  exact ih (h.exec sem (hinsts inst (.head _)))
    fun inst' hmem => hinsts inst' (.tail _ hmem)

end Agree

variable [DecidableEq V]

lemma ForwardsAll.run (sem : Meaning J V C O W M) {src mid tmp : Nat} {insts : List (Inst J V)}
    (h : ForwardsAll src mid tmp phis phis' insts) (hn : n ≤ tmp)
    (hbelow : ∀ phi ∈ phis, ∀ e ∈ phi.incoming, e.2.Below n) (st : State V W M) :
    Agree tmp st ((semantics sem).run insts st) ∧
      List.Forall₂ (fun phi phi' => ∃ t val, Forwards src mid t val phi phi' ∧
        ((semantics sem).run insts st).1 (.load t) = st.1 val) phis phis' := by
  induction h generalizing st with
  | nil tmp => exact ⟨.refl _ _, .nil⟩
  | @cons tmp val phi phi' phis phis' insts hfwd _ ih =>
  -- the three instructions for the first node
  let st1 : State V W M := (Function.update st.1 (.load tmp) (st.1 val), st.2.1,
    Function.update st.2.2 tmp (some (st.1 val)))
  have hfirst : (semantics sem).run (.alloca tmp :: .store val tmp :: .load tmp :: insts) st =
      (semantics sem).run insts st1 := by
    simp only [Semantics.run_cons, semantics, BranchCoverage.exec, Function.update_self,
      Function.update_idem, Option.getD_some, st1]
  have hagree : Agree tmp st st1 := by
    refine ⟨fun v hv => ?_, rfl, fun t ht => ?_⟩
    · refine (Function.update_of_ne (fun hc => ?_) _ _).symm
      rw [hc] at hv
      exact Nat.lt_irrefl _ hv
    · exact (Function.update_of_ne (Nat.ne_of_lt ht) _ _).symm
  obtain ⟨hrest, hall⟩ := ih (Nat.le_succ_of_le hn)
    (fun p hp => hbelow p (.tail _ hp)) st1
  rw [hfirst]
  refine ⟨hagree.trans (hrest.mono (Nat.le_succ _)), .cons ⟨tmp, val, hfwd, ?_⟩ ?_⟩
  · rw [← hrest.env (.load tmp) (Nat.lt_succ_self _)]
    exact Function.update_self _ _ _
  refine ((List.forall₂_and_left _ _).mpr ⟨fun p hp => hp, hall⟩).imp ?_
  rintro p p' ⟨hmem, t, v, hf, hv⟩
  refine ⟨t, v, hf, hv.trans ?_⟩
  exact (hagree.env v ((hbelow p (.tail _ hmem) _ hf.mem).mono hn)).symm

lemma enter_agree {pred pred' : Nat} {env env' : Operand V → W}
    (hagree : ∀ val : Operand V, val.Below n → env val = env' val)
    (hphis : List.Forall₂ (fun phi phi' => phi.dest = phi'.dest ∧ Option.Rel (fun v v' => env v =
      env' v') (phi.incoming.lookup pred) (phi'.incoming.lookup pred')) phis phis') :
    Option.Rel (fun e e' => ∀ val : Operand V, val.Below n → e val = e' val)
      (enter pred env phis) (enter pred' env' phis') := by
  refine enter_rel hagree (hphis.imp ?_)
  rintro phi phi' ⟨hdest, hrel⟩
  refine ⟨hdest, hrel, fun e e' w he val hval => ?_⟩
  simp only [Function.update_apply, he val hval]

namespace Split

variable {f f' : Function J V C O} {src i dest : Nat} {insts : List (Inst J V)} {s s' : State V W M}

lemma enter_mid (h : Split f f' src i dest phis' insts) (hf : f.Verified)
    (sem : Meaning J V C O W M) (hagree : Agree f.nextTmp s s') :
    Option.Rel (fun e e' => ∀ val : Operand V, val.Below f.nextTmp → e val = e' val)
      (enter src s.1 (f.block dest).phis)
      (enter f.next ((semantics sem).run insts s').1 phis') := by
  have hbelow := hf.incoming dest (h.dest_lt hf)
  obtain ⟨hrun, hall⟩ := h.forwards.run sem (Nat.le_refl _) hbelow s'
  refine enter_agree (hagree.trans hrun).env ?_
  refine ((List.forall₂_and_left _ _).mpr ⟨fun p hp => hp, hall⟩).imp ?_
  rintro phi phi' ⟨hmem, t, val, hfwd, hval⟩
  have hm := hf.wf.phis dest (h.dest_lt hf) phi hmem
  refine ⟨hfwd.dest_eq.symm, ?_⟩
  rw [hfwd.lookup_src, hfwd.lookup_mid fun e he => Nat.ne_of_lt (hm.known e he)]
  exact .some ((hagree.env val (hbelow phi hmem _ hfwd.mem)).trans hval.symm)

lemma enter_other (h : Split f f' src i dest phis' insts) (hf : f.Verified) {b j t : Nat}
    (hb : b < f.next) (hother : ¬ (b = src ∧ j = i)) (hsucc : (f.block b).succs[j]? = some t)
    (hagree : Agree f.nextTmp s s') :
    Option.Rel (fun e e' => ∀ val : Operand V, val.Below f.nextTmp → e val = e' val)
      (enter b s.1 (f.block t).phis) (enter b s'.1 (f'.block t).phis) := by
  have ht := hf.dest_lt hb hsucc
  refine enter_agree hagree.env ?_
  have hsame : ∀ phi ∈ (f.block t).phis, Option.Rel (fun v v' => s.1 v = s'.1 v')
      (phi.incoming.lookup b) (phi.incoming.lookup b) := by
    intro phi hphi
    cases hl : phi.incoming.lookup b with
    | none => exact .none
    | some val =>
    obtain ⟨front, back, heq, _⟩ := List.lookup_eq_some_iff.mp hl
    exact .some (hagree.env val (hf.incoming t ht phi hphi (b, val) (by rw [heq]; simp)))
  rw [h.phis t ht]
  by_cases hd : t = dest
  · subst hd
    rw [if_pos rfl]
    refine h.forwards.forall₂.imp ?_
    rintro phi phi' ⟨hmem, tmp, val, _, hfwd⟩
    have hm := hf.wf.phis t ht phi hmem
    refine ⟨hfwd.dest_eq.symm, ?_⟩
    by_cases hs : b = src
    · -- a second edge between the two blocks, and so a second entry
      subst hs
      have hcount : 2 ≤ (phi.incoming.map Prod.fst).count b := by
        have hleft := h.count_succs hb ht
        have hpos : 0 < (f'.block b).succs.count t :=
          List.count_pos_iff.mpr (List.mem_of_getElem? ((h.succs_other hb hother).trans hsucc))
        rw [if_pos ⟨rfl, rfl⟩] at hleft
        rw [hm.edges b hb]
        omega
      rw [hfwd.lookup_again (Nat.ne_of_lt hb) hcount hm.same, ← hfwd.lookup_src]
      exact hsame phi hmem
    rw [hfwd.lookup_other hs (Nat.ne_of_lt hb)]
    exact hsame phi hmem
  rw [if_neg hd, List.forall₂_same]
  exact fun phi hphi => ⟨rfl, hsame phi hphi⟩

end Split

/-- The transition system of `f`, which shows the first `shown` blocks. -/
def Function.paths (f : Function J V C O) (sem : Meaning J V C O W M) (shown : Nat) :
    System (Nat × State V W M) (Nat × (V → W) × M) :=
  f.toFunc.system (semantics sem) shown State.own

/-- Both are in the same block of `f`, in states that agree. -/
def SameBlock (f : Function J V C O) (a b : Nat × State V W M) : Prop :=
  a.1 = b.1 ∧ a.1 < f.next ∧ Agree f.nextTmp a.2 b.2

/-- The one is about to take the split edge, the other is in the new block. -/
def OnEdge (f : Function J V C O) (sem : Meaning J V C O W M) (src i : Nat)
    (a b : Nat × State V W M) : Prop :=
  a.1 = src ∧ b.1 = f.next ∧
    takes sem (f.block src).kind ((semantics sem).run (f.block src).insts a.2) i ∧
    Agree f.nextTmp ((semantics sem).run (f.block src).insts a.2) b.2

namespace Split

variable {f f' : Function J V C O} {src i dest shown : Nat} {insts : List (Inst J V)}
  {sem : Meaning J V C O W M} {s : State V W M}

lemma shows_eq (sem : Meaning J V C O W M) (shown : Nat) {t : Nat} {u u' : State V W M} {n : Nat}
    (hagree : Agree n u u') :
    (f.paths sem shown).shows (t, u) = (f'.paths sem shown).shows (t, u') := by
  simp only [Function.paths, Func.system, hagree.own_eq]

lemma shows_mid (sem : Meaning J V C O W M) (hshown : shown ≤ f.next) (u : State V W M) :
    (f'.paths sem shown).shows (f.next, u) = none := by
  simp only [Function.paths, Func.system]
  exact if_neg (Nat.not_lt.mpr hshown)

lemma step_to_mid (h : Split f f' src i dest phis' insts) (shown : Nat)
    (htakes : takes sem (f.block src).kind ((semantics sem).run (f.block src).insts s) i) :
    (f'.paths sem shown).step (src, s) (f.next, (semantics sem).run (f.block src).insts s) := by
  have hinsts := h.insts src h.src_lt
  refine ⟨by rw [h.next]; exact Nat.lt_succ_of_lt h.src_lt, i, ?_, h.succs_split, ?_, ?_⟩
  · rwa [hinsts, h.kind src h.src_lt]
  · rw [hinsts, h.mid]
    rfl
  · rw [hinsts]

lemma step_from_mid (h : Split f f' src i dest phis' insts) (hf : f.Verified) (shown : Nat)
    {e : Operand V → W} (henter : enter f.next ((semantics sem).run insts s).1 phis' = some e) :
    (f'.paths sem shown).step (f.next, s) (dest, e, ((semantics sem).run insts s).2) := by
  refine ⟨by rw [h.next]; exact Nat.lt_succ_self _, 0, ?_, ?_, ?_, ?_⟩
  · rw [h.mid]
    rfl
  · rw [h.mid]
    rfl
  · rwa [h.mid, h.phis dest (h.dest_lt hf), if_pos rfl]
  · rw [h.mid]

/-- What `f` does, the function with the edge split does. -/
lemma simulates (h : Split f f' src i dest phis' insts) (hf : f.Verified)
    (sem : Meaning J V C O W M) (hshown : shown ≤ f.next) :
    Simulates (f.paths sem shown) (f'.paths sem shown) (SameBlock f) := by
  rintro ⟨b, s⟩ ⟨b', s'⟩ ⟨t, u⟩ ⟨rfl, hb, hagree⟩ ⟨_, j, htakes, hsucc, henter, hmem⟩
  simp only at hagree htakes hsucc henter hmem hb
  have hst := hagree.run sem (hf.insts b hb)
  by_cases hedge : b = src ∧ j = i
  · obtain ⟨rfl, rfl⟩ := hedge
    obtain rfl : t = dest := Option.mem_unique hsucc h.succ
    obtain ⟨e', henter', hrel⟩ := (exists_of_rel (h.enter_mid hf sem hst)).1 _ henter
    obtain ⟨hmid, _⟩ := h.forwards.run sem (Nat.le_refl _) (hf.incoming t (h.dest_lt hf))
      ((semantics sem).run (f.block b).insts s')
    have hafter := hst.trans hmid
    have hu : Agree f.nextTmp u (e', ((semantics sem).run insts
        ((semantics sem).run (f.block b).insts s')).2) := by
      refine ⟨hrel, ?_, ?_⟩ <;> rw [hmem]
      · exact hafter.mem
      · exact hafter.slots
    refine ⟨(t, e', ((semantics sem).run insts ((semantics sem).run (f.block b).insts s')).2), ?_,
      rfl, h.dest_lt hf, hu⟩
    have htrace := System.Trace.step (h.step_to_mid shown ((hst.takes_iff sem _ _).mp htakes))
      (.one (h.step_from_mid hf shown henter'))
    rwa [shows_mid sem hshown, ← shows_eq sem shown hu] at htrace
  have hsucc' := (h.succs_other hb hedge).trans hsucc
  obtain ⟨e', henter', hrel⟩ := (exists_of_rel (h.enter_other hf hb hedge hsucc hst)).1 _ henter
  have hu : Agree f.nextTmp u (e', ((semantics sem).run (f.block b).insts s').2) := by
    refine ⟨hrel, ?_, ?_⟩ <;> rw [hmem]
    · exact hst.mem
    · exact hst.slots
  refine ⟨(t, e', ((semantics sem).run (f.block b).insts s').2), ?_, rfl, hf.dest_lt hb hsucc, hu⟩
  rw [shows_eq sem shown hu]
  refine .one ⟨by rw [h.next]; exact Nat.lt_succ_of_lt hb, j, ?_, hsucc', ?_, ?_⟩
  · rw [h.insts b hb, h.kind b hb]
    exact (hst.takes_iff sem _ _).mp htakes
  · rwa [h.insts b hb]
  · rw [h.insts b hb]

/-- What the function with the edge split does, `f` does. -/
lemma simulated (h : Split f f' src i dest phis' insts) (hf : f.Verified)
    (sem : Meaning J V C O W M) (hshown : shown ≤ f.next) :
    Simulates (f'.paths sem shown) (f.paths sem shown)
      fun b a => SameBlock f a b ∨ OnEdge f sem src i a b := by
  rintro ⟨b', s'⟩ ⟨b, s⟩ ⟨t, u⟩ (⟨rfl, hb, hagree⟩ | ⟨rfl, rfl, htakes, hagree⟩)
    ⟨_, j, htakes', hsucc, henter, hmem⟩
  · simp only at hagree htakes' hsucc henter hmem hb
    rw [h.insts b hb] at htakes' henter hmem
    rw [h.kind b hb] at htakes'
    have hst := hagree.run sem (hf.insts b hb)
    have htakes := (hst.takes_iff sem _ _).mpr htakes'
    by_cases hedge : b = src ∧ j = i
    · -- the old function stays where it is
      obtain ⟨rfl, rfl⟩ := hedge
      obtain rfl : t = f.next := Option.mem_unique hsucc h.succs_split
      rw [h.mid] at henter
      obtain rfl : u = (semantics sem).run (f.block b).insts s' :=
        Prod.ext (Option.some.inj henter).symm hmem
      refine ⟨(b, s), ?_, .inr ⟨rfl, rfl, htakes, hst⟩⟩
      rw [shows_mid sem hshown]
      exact .refl _
    rw [h.succs_other hb hedge] at hsucc
    obtain ⟨e, henter', hrel⟩ := (exists_of_rel (h.enter_other hf hb hedge hsucc hst)).2 _ henter
    have hu : Agree f.nextTmp (e, ((semantics sem).run (f.block b).insts s).2) u := by
      refine ⟨hrel, ?_, ?_⟩ <;> rw [hmem]
      · exact hst.mem
      · exact hst.slots
    refine ⟨(t, e, ((semantics sem).run (f.block b).insts s).2), ?_,
      .inl ⟨rfl, hf.dest_lt hb hsucc, hu⟩⟩
    rw [← shows_eq sem shown hu]
    exact .one ⟨hb, j, htakes, hsucc, henter', rfl⟩
  · simp only at hagree htakes htakes' hsucc henter hmem
    rw [h.mid] at htakes' hsucc henter hmem
    obtain rfl : j = 0 := htakes'
    obtain rfl : dest = t := Option.some.inj hsucc
    rw [h.phis dest (h.dest_lt hf), if_pos rfl] at henter
    obtain ⟨e, henter', hrel⟩ := (exists_of_rel (h.enter_mid hf sem hagree)).2 _ henter
    obtain ⟨hmid, _⟩ := h.forwards.run sem (Nat.le_refl _) (hf.incoming dest (h.dest_lt hf)) s'
    have hafter := hagree.trans hmid
    have hu : Agree f.nextTmp (e, ((semantics sem).run (f.block b).insts s).2) u := by
      refine ⟨hrel, ?_, ?_⟩ <;> rw [hmem]
      · exact hafter.mem
      · exact hafter.slots
    refine ⟨(dest, e, ((semantics sem).run (f.block b).insts s).2), ?_,
      .inl ⟨rfl, h.dest_lt hf, hu⟩⟩
    rw [← shows_eq sem shown hu]
    exact .one ⟨h.src_lt, i, htakes, h.succ, henter', rfl⟩

end Split

end BranchCoverage

end Vmill
