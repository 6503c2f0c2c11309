import Mathlib.Data.List.Nodup
import Vmill.Logic.CoveragePlan
import Vmill.Logic.EdgeMeaning

/-!
# The branch coverage tool

Edges may be split in any order without a change of meaning. The loop over the successors of a
switch has one round less than there are successors, so the last case gets no block of its own.
-/

namespace Vmill

open Base Ssa

namespace BranchCoverage

variable {J V C O W M : Type}

section Meaning

variable [DecidableEq V] {f : Function J V C O}

/-- Each function simulates the other from the blocks below `shown`, whatever the instructions mean. -/
def SameMeaning (shown : Nat) (f g : Function J V C O) : Prop :=
  ∀ (W M : Type) (sem : Meaning J V C O W M),
    ∃ R R' : Nat × State V W M → Nat × State V W M → Prop,
      Simulates (f.paths sem shown) (g.paths sem shown) R ∧
      Simulates (g.paths sem shown) (f.paths sem shown) (fun b a => R' a b) ∧
      ∀ b < shown, ∀ s, R (b, s) (b, s) ∧ R' (b, s) (b, s)

lemma SameMeaning.refl (shown : Nat) (f : Function J V C O) : SameMeaning shown f f := by
  intro W M sem
  refine ⟨Eq, Eq, .refl _, ?_, fun _ _ _ => ⟨rfl, rfl⟩⟩
  have hsymm : (fun b a : Nat × State V W M => a = b) = Eq := by
    funext b a
    exact propext eq_comm
  rw [hsymm]
  exact .refl _

lemma SameMeaning.trans {shown : Nat} {g k : Function J V C O} (h : SameMeaning shown f g)
    (h' : SameMeaning shown g k) : SameMeaning shown f k := by
  intro W M sem
  obtain ⟨R1, R1', hsim1, hback1, hstart1⟩ := h W M sem
  obtain ⟨R2, R2', hsim2, hback2, hstart2⟩ := h' W M sem
  refine ⟨_, fun a c => ∃ b, R2' b c ∧ R1' a b, hsim1.comp hsim2, hback2.comp hback1, ?_⟩
  intro b hb s
  obtain ⟨h1, h1'⟩ := hstart1 b hb s
  obtain ⟨h2, h2'⟩ := hstart2 b hb s
  exact ⟨⟨(b, s), h1, h2⟩, ⟨(b, s), h2', h1'⟩⟩

lemma createCall_paths (f : Function J V C O) (b : Nat) (c : Call) (sem : Meaning J V C O W M)
    (shown : Nat) : (createCall f b c).paths sem shown = f.paths sem shown := by
  have hrun : ∀ t (s : State V W M), (semantics sem).run ((createCall f b c).block t).insts s =
      (semantics sem).run (f.block t).insts s := by
    intro t s
    rw [createCall_block]
    split
    · rfl
    · rfl
  have hstep : (createCall f b c).toFunc.Step (semantics sem) = f.toFunc.Step (semantics sem) := by
    funext s t
    unfold Func.Step
    rw [hrun, createCall_block, createCall_block]
    rfl
  unfold Function.paths Func.system
  rw [hstep]

lemma Edit.apply_spec (hf : f.Verified) (edit : Edit) :
    (edit.apply f).Verified ∧ f.next ≤ (edit.apply f).next ∧
      (edit.apply f).order.head? = f.order.head? ∧
      ∀ shown ≤ f.next, SameMeaning shown f (edit.apply f) := by
  cases edit with
  | split b i =>
    rw [Edit.apply]
    split
    · rename_i hb
      cases hsucc : (f.block b).succs[i]? with
      | none => exact ⟨hf, Nat.le_refl _, rfl, fun shown _ => .refl shown f⟩
      | some dest =>
      obtain ⟨phis, insts, hs⟩ := splitEdge_split hf hb hsucc
      refine ⟨hs.verified hf, ?_, hs.head hf, fun shown hshown W M sem => ?_⟩
      · rw [hs.next]
        exact Nat.le_succ _
      refine ⟨SameBlock f, fun a b' => SameBlock f a b' ∨ OnEdge f sem b i a b',
        hs.simulates hf sem hshown, hs.simulated hf sem hshown, fun t ht s => ?_⟩
      have hsame : SameBlock f (t, s) (t, s) :=
        ⟨rfl, Nat.lt_of_lt_of_le ht hshown, .refl _ _⟩
      exact ⟨hsame, .inl hsame⟩
    · exact ⟨hf, Nat.le_refl _, rfl, fun shown _ => .refl shown f⟩
  | call b c =>
  refine ⟨createCall_verified hf b c, Nat.le_refl _, rfl, fun shown _ W M sem => ?_⟩
  obtain ⟨R, R', hsim, hback, hstart⟩ := SameMeaning.refl shown f W M sem
  refine ⟨R, R', ?_, ?_, hstart⟩
  · rwa [Edit.apply, createCall_paths]
  · rwa [Edit.apply, createCall_paths]

lemma edits_spec (hf : f.Verified) (edits : List Edit) :
    (edits.foldl Edit.apply f).Verified ∧
      (edits.foldl Edit.apply f).order.head? = f.order.head? ∧
      ∀ shown ≤ f.next, SameMeaning shown f (edits.foldl Edit.apply f) := by
  induction edits generalizing f with
  | nil => exact ⟨hf, rfl, fun shown _ => .refl shown f⟩
  | cons edit edits ih =>
  obtain ⟨hverified, hnext, hhead, hmeaning⟩ := edit.apply_spec hf
  obtain ⟨hverified', hhead', hmeaning'⟩ := ih hverified
  refine ⟨hverified', hhead'.trans hhead, fun shown hshown => ?_⟩
  exact (hmeaning shown hshown).trans (hmeaning' shown (Nat.le_trans hshown hnext))

/-- **Edge splitting.** For every function and all edits in any order: each PHI node has one entry
for each edge to its block, and along all paths the blocks are entered with the values and in the
states of before. `InstrumentTrace` consists of such edits. -/
theorem edges_split_same_meaning (f : Function J V C O) (hf : f.Verified) :
    (∀ edits : List Edit, let g := edits.foldl Edit.apply f
      (∀ t < g.next, ∀ phi ∈ (g.block t).phis,
        (∀ b < g.next, (phi.incoming.map Prod.fst).count b = (g.block b).succs.count t) ∧
        ∀ e ∈ phi.incoming, e.1 < g.next) ∧
      g.order.head? = f.order.head? ∧
      ∀ (W M : Type) (sem : Meaning J V C O W M) (b : Nat) (s : State V W M)
        (os : List (Nat × (V → W) × M)), b < f.next →
        ((∃ t, (f.paths sem f.next).Trace (b, s) os t) ↔
          ∃ t, (g.paths sem f.next).Trace (b, s) os t)) ∧
    ∀ loc, ∃ edits : List Edit, (instrumentTrace f loc).1 = edits.foldl Edit.apply f := by
  constructor
  · intro edits
    obtain ⟨hverified, hhead, hmeaning⟩ := edits_spec hf edits
    refine ⟨fun t ht phi hphi => ?_, hhead, fun W M sem b s os hb => ?_⟩
    · have hm := hverified.wf.phis t ht phi hphi
      exact ⟨hm.edges, hm.known⟩
    · obtain ⟨R, R', hsim, hback, hstart⟩ := hmeaning f.next (Nat.le_refl _) W M sem
      exact shows_same hsim hback (hstart b hb s).1 (hstart b hb s).2 os
  · intro loc
    cases hnaked : f.naked with
    | true =>
      refine ⟨[], ?_⟩
      simp only [instrumentTrace, if_pos hnaked]
      rfl
    | false =>
      obtain ⟨g, hrun, hprogress⟩ := instrumentTrace_progress hf hnaked loc
      rw [hrun]
      exact hprogress.edited

/-- Both edges of a branch lead to one block. -/
def sameTargets : Function Unit Nat Nat Unit where
  order := [0, 1]
  block
    | 0 => { phis := [], insts := [], kind := .condBr 0, succs := [1, 1] }
    | _ => { phis := [⟨.value 2, [(0, .value 1), (0, .value 1)]⟩], insts := [], kind := .other (),
             succs := [] }
  next := 2
  nextTmp := 0
  naked := false

theorem edges_split_sameTargets :
    sameTargets.Verified ∧
    let g := [Edit.split 0 1, Edit.split 0 0].foldl Edit.apply sameTargets
    (g.block 0).succs = [3, 2] ∧
    (g.block 1).phis = [⟨.value 2, [(2, .load 0), (3, .load 1)]⟩] ∧
    ∀ (W M : Type) (sem : Meaning Unit Nat Nat Unit W M) (s : State Nat W M)
      (os : List (Nat × (Nat → W) × M)),
      (∃ t, (sameTargets.paths sem 2).Trace (0, s) os t) ↔
        ∃ t, (g.paths sem 2).Trace (0, s) os t := by
  have hverified : sameTargets.Verified := by decide
  obtain ⟨_, _, hmeaning⟩ := (edges_split_same_meaning sameTargets hverified).1
    [.split 0 1, .split 0 0]
  exact ⟨hverified, by decide, by decide, fun W M sem s os => hmeaning W M sem 0 s os (by decide)⟩

end Meaning

/-- An edge of a conditional branch or of a switch whose target has an insertion point. -/
def Instrumentable (f : Function J V C O) (e : Edge) : Prop :=
  e.1 < f.next ∧ ((∃ cond, (f.block e.1).kind = .condBr cond) ∨
    ∃ cond cases, (f.block e.1).kind = .switch cond cases) ∧ hasInsertionPt f e.1 e.2 = true

/-- In `g`, which is `f` with new blocks, the block `mid` is on the edge `e` and on no other one,
goes on to the target of `e` in `f`, and has the call `c` and no other one. -/
structure OwnBlock (f g : Function J V C O) (e : Edge) (mid : Nat) (c : Call) : Prop where
  src_lt : e.1 < f.next
  new : f.next ≤ mid
  lt : mid < g.next
  leads : (g.block e.1).succs[e.2]? = some mid
  only : ∀ b < g.next, ∀ i, (g.block b).succs[i]? = some mid → (b, i) = e
  continues : ∃ dest, (f.block e.1).succs[e.2]? = some dest ∧ (g.block mid).kind = .br ∧
    (g.block mid).succs = [dest]
  reports : ∀ c', Inst.call c' ∈ (g.block mid).insts ↔ c' = c

/-- What functions should satisfy, each given with what was made of it: every edge to be
instrumented has a block of its own, no two edges report one location, and the list passed for a
switch has the locations of all its instrumented edges. -/
structure CoversAll (made : List (Function J V C O × Function J V C O)) : Prop where
  covered : ∀ (j : Nat) f g, made[j]? = some (f, g) → ∀ e, Instrumentable f e →
    ∃ mid c, OwnBlock f g e mid c
  distinct : ∀ (j : Nat) f g (j' : Nat) f' g', made[j]? = some (f, g) → made[j']? = some (f', g') →
    ∀ e mid c e' mid' c', OwnBlock f g e mid c → OwnBlock f' g' e' mid' c' →
    c.edge = c'.edge → j = j' ∧ e = e'
  lists : ∀ (j : Nat) f g, made[j]? = some (f, g) → ∀ b cond cases,
    (f.block b).kind = .switch cond cases → ∀ i mid c, OwnBlock f g (b, i) mid c →
    ∃ edge edges, c = .covSwitch edge edges ∧
      ∀ l, l ∈ edges ↔ ∃ i' mid' c', OwnBlock f g (b, i') mid' c' ∧ c'.edge = l

/-- The last successor of a switch, which the loop leaves out, has no insertion point. -/
def LastCasesPlain (f : Function J V C O) : Prop :=
  ∀ b < f.next, ∀ cond cases, (f.block b).kind = .switch cond cases →
    hasInsertionPt f b cases.length = false

/-- The locations taken by the functions in front of function `j`. -/
def startOf (fs : List (Function J V C O)) (j : Nat) : Nat := ((fs.take j).map locsTaken).sum

/-- No two edges get a location from the counter at the same place of two of its rounds. -/
def NoCollision (fs : List (Function J V C O)) : Prop :=
  ∀ (j : Nat) f (j' : Nat) f', fs[j]? = some f → fs[j']? = some f' →
    ∀ p ∈ plan f 0, ∀ p' ∈ plan f' 0,
    (startOf fs j + p.number) % 2 ^ 32 = (startOf fs j' + p'.number) % 2 ^ 32 →
    j = j' ∧ p.edge = p'.edge

section Coverage

variable {f g : Function J V C O} {loc : Location} {e : Edge} {p : Planned} {j i : Nat}

lemma ownBlock_iff (hf : f.Verified) (hprogress : Progress f g ((plan f loc).map Planned.entry))
    {mid : Nat} {c : Call} :
    OwnBlock f g e mid c ↔ ∃ k p, (plan f loc)[k]? = some p ∧ p.edge = e ∧ mid = f.next + k ∧
      p.call = c := by
  have hentry : ∀ {k : Nat} {p : Planned}, (plan f loc)[k]? = some p →
      MidBlock f g k p.edge (some p.call) := by
    intro k p hp
    refine hprogress.mid k p.edge (some p.call) ?_
    rw [List.getElem?_map, hp]
    rfl
  have hcalls : ∀ {k : Nat} {p : Planned}, (plan f loc)[k]? = some p →
      ∀ c', Inst.call c' ∈ (g.block (f.next + k)).insts ↔ c' = p.call := by
    intro k p hp c'
    obtain ⟨_, _, dest, insts, _, hno, hblock⟩ := hentry hp
    rw [hblock]
    simp [hno c']
  -- an edge that leads to a new block is one of the plan
  have hfind : ∀ b < f.next, ∀ i m, f.next ≤ m → (g.block b).succs[i]? = some m →
      ∃ k p, (plan f loc)[k]? = some p ∧ p.edge = (b, i) ∧ m = f.next + k := by
    intro b hb i m hm hleads
    by_cases hmem : (b, i) ∈ ((plan f loc).map Planned.entry).map Prod.fst
    · rw [List.map_map] at hmem
      obtain ⟨p, hp, heq⟩ := List.mem_map.mp hmem
      obtain ⟨k, hk⟩ := List.getElem?_of_mem hp
      have hlead := (hentry hk).leads
      have hedge : p.edge = (b, i) := heq
      rw [hedge] at hlead
      exact ⟨k, p, hk, hedge, Option.mem_unique hleads hlead⟩
    rw [hprogress.other b hb i hmem] at hleads
    have hlt := hf.dest_lt hb hleads
    omega
  constructor
  · intro hown
    obtain ⟨k, p, hk, hedge, hmid⟩ := hfind e.1 hown.src_lt e.2 mid hown.new hown.leads
    refine ⟨k, p, hk, hedge, hmid, ?_⟩
    subst hmid
    exact ((hown.reports p.call).mp ((hcalls hk p.call).mpr rfl))
  rintro ⟨k, p, hk, rfl, rfl, rfl⟩
  obtain ⟨hsrc, hleads, dest, insts, hsucc, hno, hblock⟩ := hentry hk
  have hlen := (List.getElem?_eq_some_iff.mp hk).1
  refine ⟨hsrc, Nat.le_add_right _ _, ?_, hleads, fun b hb i hlead => ?_,
    ⟨dest, hsucc, by rw [hblock], by rw [hblock]⟩, hcalls hk⟩
  · rw [hprogress.next, List.length_map]
    omega
  · rcases Nat.lt_or_ge b f.next with hold | hnew
    · obtain ⟨k', p', hk', hedge', heq⟩ := hfind b hold i _ (Nat.le_add_right _ _) hlead
      obtain rfl : k = k' := by omega
      rw [← hedge', Option.mem_unique hk' hk]
    -- a new block leads to an old one
    rw [hprogress.next, List.length_map] at hb
    obtain ⟨p', hp'⟩ : ∃ p', (plan f loc)[b - f.next]? = some p' :=
      ⟨_, List.getElem?_eq_getElem (by omega)⟩
    obtain ⟨hsrc', _, dest', insts', hsucc', _, hblock'⟩ := hentry hp'
    have hdest := hf.dest_lt hsrc' hsucc'
    rw [show f.next + (b - f.next) = b by omega] at hblock'
    rw [hblock'] at hlead
    have hmem := List.mem_of_getElem? hlead
    rw [List.mem_singleton] at hmem
    omega

/-- The plan leaves out only the last edge of a switch. -/
lemma mem_plan_iff (hf : f.Verified) :
    (∃ p ∈ plan f loc, p.edge = e) ↔ Instrumentable f e ∧
      ∀ cond cases, (f.block e.1).kind = .switch cond cases → e.2 ≠ cases.length := by
  obtain ⟨b, i⟩ := e
  constructor
  · rintro ⟨p, hp, hedge⟩
    have hblock : p.edge.1 = b := by rw [hedge]
    have hb := plan_lt hf hp
    obtain ⟨hkind, _⟩ := plan_cases hp
    rw [hblock] at hb hkind
    rcases hkind with ⟨cond, hkind⟩ | ⟨cond, cases, hkind⟩
    · obtain ⟨m, hm⟩ := plan_branch hf loc hb hkind
      have hmem := (hm p).mp ⟨hp, hblock⟩
      refine ⟨⟨hb, .inl ⟨cond, hkind⟩, ?_⟩, fun cond' cases' hkind' => ?_⟩
      · simp only [branchPlan, hkind, List.mem_append, mem_edgePlan] at hmem
        rcases hmem with ⟨hpoint, rfl⟩ | ⟨hpoint, rfl⟩
        all_goals
          obtain ⟨_, rfl⟩ := Prod.mk.inj hedge
          exact hpoint
      rw [hkind] at hkind'
      cases hkind'
    obtain ⟨m, hm⟩ := plan_switch hf loc hb hkind
    obtain ⟨k, i', hget, rfl⟩ := mem_switchPlan.mp ((hm p).mp ⟨hp, hblock⟩)
    obtain ⟨_, rfl⟩ := Prod.mk.inj hedge
    obtain ⟨hlt, hpoint⟩ := (mem_switchCases hkind).mp (List.mem_of_getElem? hget)
    refine ⟨⟨hb, .inr ⟨cond, cases, hkind⟩, hpoint⟩, fun cond' cases' hkind' => ?_⟩
    rw [hkind] at hkind'
    obtain ⟨_, rfl⟩ := Kind.switch.inj hkind'
    exact Nat.ne_of_lt hlt
  rintro ⟨⟨hb, hkind, hpoint⟩, hlast⟩
  simp only at hb hkind hpoint hlast
  have hlength : i < (f.block b).succs.length := by
    unfold hasInsertionPt at hpoint
    split at hpoint
    · cases hpoint
    rename_i dest hsucc
    exact (List.getElem?_eq_some_iff.mp hsucc).1
  have harity := hf.arity b hb
  rcases hkind with ⟨cond, hkind⟩ | ⟨cond, cases, hkind⟩
  · obtain ⟨m, hm⟩ := plan_branch hf loc hb hkind
    rw [hkind] at harity
    have htwo : i < 2 := harity ▸ hlength
    have hmem : ∃ p ∈ branchPlan f loc m b, p.edge = (b, i) := by
      simp only [branchPlan, hkind, List.mem_append, mem_edgePlan]
      rcases Nat.lt_or_ge i 1 with hzero | hone
      · obtain rfl : i = 0 := by omega
        exact ⟨_, .inl ⟨hpoint, rfl⟩, rfl⟩
      obtain rfl : i = 1 := by omega
      exact ⟨_, .inr ⟨hpoint, rfl⟩, rfl⟩
    obtain ⟨p, hp, hedge⟩ := hmem
    exact ⟨p, ((hm p).mpr hp).1, hedge⟩
  obtain ⟨m, hm⟩ := plan_switch hf loc hb hkind
  rw [hkind] at harity
  have hlt : i < cases.length := by
    have hne := hlast cond cases hkind
    have hle : i < cases.length + 1 := harity ▸ hlength
    omega
  obtain ⟨k, hget⟩ := List.getElem?_of_mem ((mem_switchCases hkind).mpr ⟨hlt, hpoint⟩)
  exact ⟨_, ((hm _).mpr (mem_switchPlan.mpr ⟨k, i, hget, rfl⟩)).1, rfl⟩

lemma plan_lists (hf : f.Verified) {b : Nat} (hb : b < f.next) {cond : V} {cases : List C}
    (hkind : (f.block b).kind = .switch cond cases) (hp : p ∈ plan f loc) (hblock : p.edge.1 = b) :
    ∃ edge edges, p.call = .covSwitch edge edges ∧
      ∀ l, l ∈ edges ↔ ∃ p' ∈ plan f loc, p'.edge.1 = b ∧ p'.call.edge = l := by
  obtain ⟨m, hm⟩ := plan_switch hf loc hb hkind
  obtain ⟨k, i, _, rfl⟩ := mem_switchPlan.mp ((hm p).mp ⟨hp, hblock⟩)
  refine ⟨_, _, rfl, fun l => ?_⟩
  rw [switchEdges, List.mem_map]
  constructor
  · rintro ⟨k', hk', rfl⟩
    have hget := List.getElem?_eq_getElem (List.mem_range.mp hk')
    have hin := (hm _).mpr (mem_switchPlan.mpr ⟨k', _, hget, rfl⟩)
    exact ⟨_, hin.1, hin.2, rfl⟩
  rintro ⟨p', hp', hblock', rfl⟩
  obtain ⟨k', i', hget, rfl⟩ := mem_switchPlan.mp ((hm p').mp ⟨hp', hblock'⟩)
  exact ⟨k', List.mem_range.mpr (List.getElem?_eq_some_iff.mp hget).1, rfl⟩

lemma locAt_eq_iff (loc : Location) (n m : Nat) :
    locAt loc n = locAt loc m ↔ n % 2 ^ 32 = m % 2 ^ 32 := by
  unfold locAt
  rw [BitVec.add_right_inj, ← BitVec.toNat_inj, BitVec.toNat_ofNat, BitVec.toNat_ofNat]

lemma plan_moved (hp : p ∈ plan f loc) (loc' : Location) :
    ∃ q ∈ plan f loc', q.edge = p.edge ∧ q.number = p.number := by
  have hmem : (p.edge, p.number) ∈ (plan f loc').map fun q => (q.edge, q.number) := by
    rw [plan_numbers f loc' loc]
    exact List.mem_map.mpr ⟨p, hp, rfl⟩
  obtain ⟨q, hq, heq⟩ := List.mem_map.mp hmem
  exact ⟨q, hq, Prod.mk.inj heq⟩

variable {fs : List (Function J V C O)}

lemma instrumentTraces_get (hfs : ∀ f ∈ fs, f.Verified ∧ f.naked = false) (loc : Location)
    (hget : fs[j]? = some f) :
    ∃ g, (fs.zip (instrumentTraces fs loc))[j]? = some (f, g) ∧
      Progress f g ((plan f (locAt loc (startOf fs j))).map Planned.entry) := by
  induction fs generalizing loc j with
  | nil => simp at hget
  | cons f' fs ih =>
  obtain ⟨hf', hnaked⟩ := hfs f' (.head _)
  obtain ⟨g', hrun, hprogress⟩ := instrumentTrace_progress hf' hnaked loc
  simp only [instrumentTraces, hrun, List.zip_cons_cons]
  cases j with
  | zero =>
    obtain rfl := Option.some.inj hget
    refine ⟨g', rfl, ?_⟩
    have hstart : locAt loc (startOf (f' :: fs) 0) = loc := locAt_zero loc
    rwa [hstart]
  | succ j =>
  obtain ⟨g, hmade, hrest⟩ := ih (fun k hk => hfs k (.tail _ hk))
    (locAt loc (locsTaken f')) hget
  refine ⟨g, hmade, ?_⟩
  have hstart : locAt (locAt loc (locsTaken f')) (startOf fs j) =
      locAt loc (startOf (f' :: fs) (j + 1)) := by
    have hsum : startOf (f' :: fs) (j + 1) = locsTaken f' + startOf fs j := List.sum_cons
    rw [hsum, ← locAt_add]
    rfl
  rwa [← hstart]

lemma made_progress (hfs : ∀ f ∈ fs, f.Verified ∧ f.naked = false) (loc : Location)
    (hmade : (fs.zip (instrumentTraces fs loc))[j]? = some (f, g)) :
    f.Verified ∧ fs[j]? = some f ∧
      Progress f g ((plan f (locAt loc (startOf fs j))).map Planned.entry) := by
  have hget : fs[j]? = some f := (List.getElem?_zip_eq_some.mp hmade).1
  obtain ⟨g', hmade', hprogress⟩ := instrumentTraces_get hfs loc hget
  obtain rfl : g = g' := (Prod.mk.inj (Option.mem_unique hmade hmade')).2
  exact ⟨(hfs f (List.mem_of_getElem? hget)).1, hget, hprogress⟩

lemma plan_edge {n : Nat} (hp : p ∈ plan f (locAt loc n)) :
    p.call.edge = locAt loc (n + p.number) := by
  rw [(plan_cases hp).2, ← locAt_add]
  rfl

lemma startOf_succ (hget : fs[j]? = some f) :
    startOf fs (j + 1) = startOf fs j + locsTaken f := by
  rw [startOf, startOf, List.take_add_one, hget, Option.toList_some, List.map_append,
    List.sum_append, List.map_singleton, List.sum_singleton]

lemma startOf_mono (hij : i ≤ j) : startOf fs i ≤ startOf fs j := by
  obtain ⟨d, rfl⟩ := Nat.exists_eq_add_of_le hij
  rw [startOf, startOf, List.take_add, List.map_append, List.sum_append]
  exact Nat.le_add_right _ _

lemma number_lt_startOf (hget : fs[i]? = some f) (hij : i < j) (hp : p ∈ plan f loc) :
    startOf fs i + p.number < startOf fs j := by
  have hlt := (plan_increasing f loc).2 p hp
  have hmono : startOf fs (i + 1) ≤ startOf fs j := startOf_mono hij
  rw [startOf_succ hget] at hmono
  omega

lemma noCollision_of_le (hle : startOf fs fs.length ≤ 2 ^ 32) : NoCollision fs := by
  intro j f j' f' hget hget' p hp p' hp' heq
  have hlt := number_lt_startOf hget (List.getElem?_eq_some_iff.mp hget).1 hp
  have hlt' := number_lt_startOf hget' (List.getElem?_eq_some_iff.mp hget').1 hp'
  rw [Nat.mod_eq_of_lt (Nat.lt_of_lt_of_le hlt hle),
    Nat.mod_eq_of_lt (Nat.lt_of_lt_of_le hlt' hle)] at heq
  have hsame : j = j' := by
    rcases Nat.lt_trichotomy j j' with hbefore | hsame | hafter
    · have hnext := number_lt_startOf hget hbefore hp
      omega
    · exact hsame
    have hnext := number_lt_startOf hget' hafter hp'
    omega
  subst hsame
  obtain rfl : f = f' := Option.mem_unique hget hget'
  have hnodup : ((plan f 0).map Planned.number).Nodup :=
    List.pairwise_map.mpr ((plan_increasing f 0).1.imp Nat.ne_of_lt)
  have hnumber : p.number = p'.number := by omega
  rw [List.inj_on_of_nodup_map hnodup hp hp' hnumber]
  exact ⟨rfl, rfl⟩

/-- **Branch coverage.** For all functions that are instrumented one after the other: all edges of
branches and switches are covered exactly if the last case of each switch has no insertion point,
and no two locations are one place in two rounds of the counter. -/
theorem coverage_complete_iff (fs : List (Function J V C O))
    (hfs : ∀ f ∈ fs, f.Verified ∧ f.naked = false) (loc : Location) :
    CoversAll (fs.zip (instrumentTraces fs loc)) ↔
      (∀ f ∈ fs, LastCasesPlain f) ∧ NoCollision fs := by
  constructor
  · intro hall
    constructor
    · intro f hmem b hb cond cases hkind
      obtain ⟨j, hget⟩ := List.getElem?_of_mem hmem
      obtain ⟨g, hmade, hprogress⟩ := instrumentTraces_get hfs loc hget
      have hf := (hfs f hmem).1
      rw [← Bool.not_eq_true]
      intro hpoint
      obtain ⟨mid, c, hown⟩ := hall.covered j f g hmade (b, cases.length)
        ⟨hb, .inr ⟨cond, cases, hkind⟩, hpoint⟩
      obtain ⟨k, p, hk, hedge, _⟩ := (ownBlock_iff hf hprogress).mp hown
      exact ((mem_plan_iff hf).mp ⟨p, List.mem_of_getElem? hk, hedge⟩).2 cond cases hkind rfl
    · intro j f j' f' hget hget' p hp p' hp' heq
      obtain ⟨g, hmade, hprogress⟩ := instrumentTraces_get hfs loc hget
      obtain ⟨g', hmade', hprogress'⟩ := instrumentTraces_get hfs loc hget'
      obtain ⟨q, hq, hedge, hnumber⟩ := plan_moved hp (locAt loc (startOf fs j))
      obtain ⟨q', hq', hedge', hnumber'⟩ := plan_moved hp' (locAt loc (startOf fs j'))
      obtain ⟨k, hk⟩ := List.getElem?_of_mem hq
      obtain ⟨k', hk'⟩ := List.getElem?_of_mem hq'
      have hown := (ownBlock_iff (hfs f (List.mem_of_getElem? hget)).1 hprogress).mpr
        ⟨k, q, hk, rfl, rfl, rfl⟩
      have hown' := (ownBlock_iff (hfs f' (List.mem_of_getElem? hget')).1 hprogress').mpr
        ⟨k', q', hk', rfl, rfl, rfl⟩
      have hloc : q.call.edge = q'.call.edge := by
        rwa [plan_edge hq, plan_edge hq', locAt_eq_iff, hnumber, hnumber']
      rw [← hedge, ← hedge']
      exact hall.distinct j f g j' f' g' hmade hmade' _ _ _ _ _ _ hown hown' hloc
  · rintro ⟨hplain, hcollision⟩
    refine ⟨fun j f g hmade e he => ?_, ?_, ?_⟩
    · obtain ⟨hf, hget, hprogress⟩ := made_progress hfs loc hmade
      obtain ⟨p, hp, hedge⟩ := (mem_plan_iff hf).mpr ⟨he, fun cond cases hkind hlast => by
        have hpoint := he.2.2
        rw [hlast, hplain f (List.mem_of_getElem? hget) e.1 he.1 cond cases hkind] at hpoint
        exact Bool.false_ne_true hpoint⟩
      obtain ⟨k, hk⟩ := List.getElem?_of_mem hp
      exact ⟨_, _, (ownBlock_iff hf hprogress).mpr ⟨k, p, hk, hedge, rfl, rfl⟩⟩
    · intro j f g j' f' g' hmade hmade' e mid c e' mid' c' hown hown' hloc
      obtain ⟨hf, hget, hprogress⟩ := made_progress hfs loc hmade
      obtain ⟨hf', hget', hprogress'⟩ := made_progress hfs loc hmade'
      obtain ⟨k, p, hk, rfl, _, rfl⟩ := (ownBlock_iff hf hprogress).mp hown
      obtain ⟨k', p', hk', rfl, _, rfl⟩ := (ownBlock_iff hf' hprogress').mp hown'
      have hp := List.mem_of_getElem? hk
      have hp' := List.mem_of_getElem? hk'
      rw [plan_edge hp, plan_edge hp', locAt_eq_iff] at hloc
      obtain ⟨q, hq, hedge, hnumber⟩ := plan_moved hp 0
      obtain ⟨q', hq', hedge', hnumber'⟩ := plan_moved hp' 0
      rw [← hnumber, ← hnumber'] at hloc
      rw [← hedge, ← hedge']
      exact hcollision j f j' f' hget hget' q hq q' hq' hloc
    · intro j f g hmade b cond cases hkind i mid c hown
      obtain ⟨hf, _, hprogress⟩ := made_progress hfs loc hmade
      obtain ⟨k, p, hk, hedge, _, rfl⟩ := (ownBlock_iff hf hprogress).mp hown
      obtain ⟨edge, edges, hcall, hedges⟩ := plan_lists hf hown.src_lt hkind
        (List.mem_of_getElem? hk) (by rw [hedge])
      refine ⟨edge, edges, hcall, fun l => (hedges l).trans ⟨?_, ?_⟩⟩
      · rintro ⟨p', hp', rfl, rfl⟩
        obtain ⟨k', hk'⟩ := List.getElem?_of_mem hp'
        exact ⟨_, _, _, (ownBlock_iff hf hprogress).mpr ⟨k', p', hk', rfl, rfl, rfl⟩, rfl⟩
      · rintro ⟨i', mid', c', hown', rfl⟩
        obtain ⟨k', p', hk', hedge', _, rfl⟩ := (ownBlock_iff hf hprogress).mp hown'
        exact ⟨p', List.mem_of_getElem? hk', by rw [hedge'], rfl⟩

/-- The entry block goes to one of two blocks that return. -/
def fork (kind : Kind Nat Nat Unit) : Function Unit Nat Nat Unit where
  order := [0, 1, 2]
  block
    | 0 => { phis := [], insts := [], kind := kind, succs := [1, 2] }
    | _ => { phis := [], insts := [], kind := .other (), succs := [] }
  next := 3
  nextTmp := 0
  naked := false

/-- Both edges of a conditional branch are covered. -/
theorem coverage_complete_condBr :
    let f := fork (.condBr 0)
    CoversAll ([f].zip (instrumentTraces [f] 0)) := by
  intro f
  refine (coverage_complete_iff [f] ?_ 0).mpr ⟨?_, ?_⟩
  · decide
  · rw [List.forall_mem_singleton]
    intro b hb cond cases hkind
    match b, hb with
    | 0, _ => cases hkind
    | 1, _ => cases hkind
    | 2, _ => cases hkind
  · exact noCollision_of_le (by decide)

/-- The case of a switch, successor 1, is not covered: only the default gets a new block. -/
theorem coverage_misses_case :
    let f := fork (.switch 0 [7])
    f.Verified ∧ f.naked = false ∧ Instrumentable f (0, 1) ∧
    ((instrumentTrace f 0).1.block 0).succs = [3, 2] ∧
    ¬ CoversAll ([f].zip (instrumentTraces [f] 0)) := by
  intro f
  have hcase : Instrumentable f (0, 1) := ⟨by decide, .inr ⟨0, [7], rfl⟩, rfl⟩
  refine ⟨by decide, rfl, hcase, by decide, fun hall => ?_⟩
  obtain ⟨mid, c, hown⟩ := hall.covered 0 f _ rfl (0, 1) hcase
  have hmid : 2 = mid := Option.some.inj hown.leads
  have hnew : 3 ≤ mid := hown.new
  omega

end Coverage

end BranchCoverage

end Vmill
