import Vmill.Logic.Coverage

/-!
# The plan of the branch coverage tool

Which edges of a function are split, in which order, and with which calls, can be read off the
function (`plan`).
-/

namespace Vmill

open Base Ssa

namespace BranchCoverage

variable {J V C O : Type}

/-- The location `n` after `loc`. -/
def locAt (loc : Location) (n : Nat) : Location := loc + BitVec.ofNat 32 n

/-- An edge, the number of its location, and the call for it. -/
structure Planned where
  edge : Edge
  number : Nat
  call : Call

/-- The entry of `Progress` for a planned call. -/
def Planned.entry (p : Planned) : Edge × Option Call := (p.edge, some p.call)

/-- Whether the target of an edge can be instrumented. -/
def hasInsertionPt (f : Function J V C O) (b i : Nat) : Bool :=
  match (f.block b).succs[i]? with
  | none => false
  | some dest => shouldInstrumentEdge f dest

/-- The plan for one edge. -/
def edgePlan (f : Function J V C O) (b i n : Nat) (c : Call) : List Planned :=
  if hasInsertionPt f b i then [⟨(b, i), n, c⟩] else []

/-- The plan for a block that ends in a branch. -/
def branchPlan (f : Function J V C O) (loc : Location) (n b : Nat) : List Planned :=
  match (f.block b).kind with
  | .condBr _ =>
    edgePlan f b 0 n (.covBranch (locAt loc n) (locAt loc (n + 1))) ++
      edgePlan f b 1 (n + 1) (.covBranch (locAt loc (n + 1)) (locAt loc n))
  | _ => []

/-- How many locations a branch takes. -/
def branchLocs (f : Function J V C O) (b : Nat) : Nat :=
  match (f.block b).kind with
  | .condBr _ => 2
  | _ => 0

/-- The cases of a switch that are instrumented. The default is not among them. -/
def switchCases (f : Function J V C O) (b : Nat) : List Nat :=
  match (f.block b).kind with
  | .switch _ cases => (List.range' 0 cases.length).filter (hasInsertionPt f b)
  | _ => []

/-- The locations of all cases of a switch. -/
def switchEdges (f : Function J V C O) (loc : Location) (n b : Nat) : List Location :=
  (List.range (switchCases f b).length).map fun k => locAt loc (n + k)

/-- The plan for a block that ends in a switch. -/
def switchPlan (f : Function J V C O) (loc : Location) (n b : Nat) : List Planned :=
  (switchCases f b).zipIdx.map fun (i, k) =>
    ⟨(b, i), n + k, .covSwitch (locAt loc (n + k)) (switchEdges f loc n b)⟩

/-- The plans of blocks one after the other, from location `n` on. -/
def planFrom (plan : Nat → Nat → List Planned) (locs : Nat → Nat) : Nat → List Nat → List Planned
  | _, [] => []
  | n, b :: bs => plan n b ++ planFrom plan locs (n + locs b) bs

/-- The blocks of the first loop. -/
def branchBlocks (f : Function J V C O) : List Nat := f.order.filter (isBranch f)

/-- The blocks of the second loop. -/
def switchBlocks (f : Function J V C O) : List Nat := f.order.filter (isSwitch f)

/-- How many locations the first loop takes. -/
def branchTotal (f : Function J V C O) : Nat := ((branchBlocks f).map (branchLocs f)).sum

/-- How many locations the pass takes. -/
def locsTaken (f : Function J V C O) : Nat :=
  branchTotal f + ((switchBlocks f).map fun b => (switchCases f b).length).sum

/-- All calls the pass inserts, in order. -/
def plan (f : Function J V C O) (loc : Location) : List Planned :=
  planFrom (branchPlan f loc) (branchLocs f) 0 (branchBlocks f) ++
    planFrom (switchPlan f loc) (fun b => (switchCases f b).length) (branchTotal f) (switchBlocks f)

lemma locAt_zero (loc : Location) : locAt loc 0 = loc := by
  simp [locAt]

lemma locAt_add (loc : Location) (n m : Nat) :
    locAt loc n + BitVec.ofNat 32 m = locAt loc (n + m) := by
  unfold locAt
  rw [BitVec.ofNat_add, BitVec.add_assoc]

namespace Progress

variable {f g : Function J V C O} {done : List (Edge × Option Call)} {b : Nat}

lemma instrumentEdge (h : Progress f g done) (hf : f.Verified) {i dest : Nat} (hb : b < f.next)
    (hnew : (b, i) ∉ done.map Prod.fst) (hsucc : (f.block b).succs[i]? = some dest) (n : Nat)
    (c : Call) : Progress f (BranchCoverage.instrumentEdge g b i dest c)
      (done ++ (edgePlan f b i n c).map Planned.entry) := by
  have hpoint : hasInsertionPt f b i = shouldInstrumentEdge f dest := by
    simp only [hasInsertionPt, hsucc]
  unfold BranchCoverage.instrumentEdge edgePlan
  rw [h.should (hf.dest_lt hb hsucc), hpoint]
  by_cases hshould : shouldInstrumentEdge f dest = true
  · rw [if_pos hshould, if_pos hshould]
    have hcall := (h.split hf hb hnew hsucc).call c
    rwa [← h.next] at hcall
  · rwa [if_neg hshould, if_neg hshould, List.map_nil, List.append_nil]

lemma succs_eq (h : Progress f g done) (hb : b < f.next)
    (hnew : ∀ i, (b, i) ∉ done.map Prod.fst) : (g.block b).succs = (f.block b).succs :=
  List.ext_getElem? fun i => h.other b hb i (hnew i)

lemma instrumentBranch (h : Progress f g done) (hf : f.Verified) (loc : Location) (n : Nat)
    (hb : b < f.next) (hnew : ∀ i, (b, i) ∉ done.map Prod.fst) :
    ∃ g', BranchCoverage.instrumentBranch g (locAt loc n) b = (g', locAt loc (n + branchLocs f b)) ∧
      Progress f g' (done ++ (branchPlan f loc n b).map Planned.entry) := by
  have harity := hf.arity b hb
  unfold BranchCoverage.instrumentBranch branchPlan branchLocs
  rw [h.kind b hb, h.succs_eq hb hnew]
  cases hkind : (f.block b).kind with
  | condBr cond =>
    rw [hkind] at harity
    obtain ⟨taken, notTaken, hsuccs⟩ : ∃ t t', (f.block b).succs = [t, t'] :=
      List.length_eq_two.mp harity
    have h1 : locAt loc n + 1 = locAt loc (n + 1) := locAt_add loc n 1
    have h2 : locAt loc n + 2 = locAt loc (n + 2) := locAt_add loc n 2
    simp only [hsuccs, h1, h2]
    refine ⟨_, rfl, ?_⟩
    have hsucc0 : (f.block b).succs[0]? = some taken := by rw [hsuccs]; rfl
    have hsucc1 : (f.block b).succs[1]? = some notTaken := by rw [hsuccs]; rfl
    have hfirst := h.instrumentEdge hf hb (hnew 0) hsucc0 n
      (.covBranch (locAt loc n) (locAt loc (n + 1)))
    have hnew1 : (b, 1) ∉ (done ++ (edgePlan f b 0 n
        (.covBranch (locAt loc n) (locAt loc (n + 1)))).map Planned.entry).map Prod.fst := by
      rw [List.map_append, List.mem_append, not_or]
      refine ⟨hnew 1, ?_⟩
      unfold edgePlan
      split <;> simp [Planned.entry]
    have hsecond := hfirst.instrumentEdge hf hb hnew1 hsucc1 (n + 1)
      (.covBranch (locAt loc (n + 1)) (locAt loc n))
    rwa [List.map_append, ← List.append_assoc]
  | br | switch _ _ | catchSwitch _ | other _ => exact ⟨g, rfl, by simpa using h⟩

lemma instrumentCases (h : Progress f g done) (hf : f.Verified) (loc : Location) (n : Nat)
    (hb : b < f.next) (i count : Nat) (hnew : ∀ j ≥ i, (b, j) ∉ done.map Prod.fst) :
    let js := (List.range' i count).filter (hasInsertionPt f b)
    ∃ g', BranchCoverage.instrumentCases g (locAt loc n) b i count =
        (g', locAt loc (n + js.length), List.range' (f.next + done.length) js.length,
          (List.range js.length).map fun k => locAt loc (n + k)) ∧
      Progress f g' (done ++ js.map fun j => ((b, j), none)) := by
  induction count generalizing g done n i with
  | zero => exact ⟨g, rfl, by simpa using h⟩
  | succ count ih =>
  simp only [BranchCoverage.instrumentCases, List.range'_succ]
  rw [h.other b hb i (hnew i (Nat.le_refl i))]
  cases hsucc : (f.block b).succs[i]? with
  | none =>
    have hpoint : ¬ hasInsertionPt f b i = true := by simp [hasInsertionPt, hsucc]
    rw [List.filter_cons_of_neg hpoint]
    exact ih h n (i + 1) fun j hj => hnew j (by omega)
  | some dest =>
  simp only
  rw [h.should (hf.dest_lt hb hsucc)]
  by_cases hshould : shouldInstrumentEdge f dest = true
  · have hpoint : hasInsertionPt f b i = true := by
      simpa [hasInsertionPt, hsucc] using hshould
    rw [if_pos hshould, List.filter_cons_of_pos hpoint]
    obtain ⟨g', hrun, hprogress⟩ := ih
      (h.split hf hb (hnew i (Nat.le_refl i)) hsucc) (n + 1) (i + 1) (by
        intro j hj hmem
        rw [List.map_append, List.mem_append] at hmem
        rcases hmem with hmem | hmem
        · exact hnew j (by omega) hmem
        have hji := (Prod.mk.inj (List.mem_singleton.mp hmem)).2
        omega)
    have hloc : locAt loc n + 1 = locAt loc (n + 1) := locAt_add loc n 1
    refine ⟨g', ?_, ?_⟩
    · have hsplit : setSuccessor (blockForEdge g b dest) b i g.next =
          splitEdge g b i dest := rfl
      rw [hsplit, hloc, hrun]
      simp only [List.length_cons, List.length_append, List.length_nil, List.range'_succ,
        List.range_succ_eq_map, List.map_cons, List.map_map, h.next]
      refine Prod.ext rfl (Prod.ext ?_ (Prod.ext rfl ?_))
      · rw [Nat.add_right_comm, Nat.add_assoc]
      refine congrArg₂ List.cons rfl (List.map_congr_left fun k _ => ?_)
      exact congrArg (locAt loc) (by simp only [Nat.succ_eq_add_one]; omega)
    rw [List.map_cons]
    rwa [List.append_assoc] at hprogress
  have hpoint : ¬ hasInsertionPt f b i = true := by
    simpa [hasInsertionPt, hsucc] using hshould
  rw [if_neg hshould, List.filter_cons_of_neg hpoint]
  exact ih h n (i + 1) fun j hj => hnew j (by omega)

lemma createCalls {es : List Edge} {locs : List Location} {front : List (Edge × Option Call)}
    (h : Progress f g (front ++ es.map fun e => (e, none))) (edges : List Location)
    (hlen : es.length = locs.length) :
    Progress f (BranchCoverage.createCalls edges g (List.range' (f.next + front.length) es.length)
        locs)
      (front ++ (es.zip locs).map fun p => (p.1, some (.covSwitch p.2 edges))) := by
  induction es generalizing g front locs with
  | nil =>
    cases locs with
    | nil => exact h
    | cons l locs => simp at hlen
  | cons e es ih =>
  cases locs with
  | nil => simp at hlen
  | cons l locs =>
  have hcall := Progress.call h (.covSwitch l edges)
  rw [← List.singleton_append, ← List.append_assoc] at hcall
  have hrest := ih hcall (Nat.succ.inj hlen)
  rw [List.length_append, List.length_singleton, List.append_assoc] at hrest
  rwa [List.length_cons, List.range'_succ, BranchCoverage.createCalls]

lemma instrumentSwitch (h : Progress f g done) (hf : f.Verified) (loc : Location) (n : Nat)
    (hb : b < f.next) (hnew : ∀ i, (b, i) ∉ done.map Prod.fst) :
    ∃ g', BranchCoverage.instrumentSwitch g (locAt loc n) b =
        (g', locAt loc (n + (switchCases f b).length)) ∧
      Progress f g' (done ++ (switchPlan f loc n b).map Planned.entry) := by
  unfold BranchCoverage.instrumentSwitch
  rw [h.kind b hb]
  cases hkind : (f.block b).kind with
  | switch cond cases =>
    have hcases : switchCases f b = (List.range' 0 cases.length).filter (hasInsertionPt f b) := by
      simp only [switchCases, hkind]
    obtain ⟨g', hrun, hprogress⟩ := h.instrumentCases hf loc n hb 0 cases.length
      fun j _ => hnew j
    rw [← hcases] at hrun hprogress
    simp only [hrun]
    refine ⟨_, rfl, ?_⟩
    have hedges : Progress f g' (done ++ ((switchCases f b).map fun j => (b, j)).map fun e =>
        (e, none)) := by
      rwa [List.map_map]
    have hcalls := hedges.createCalls (switchEdges f loc n b)
      (show _ = (switchEdges f loc n b).length by simp [switchEdges])
    rw [List.length_map] at hcalls
    have hplan : ((switchCases f b).map fun j => (b, j)).zip (switchEdges f loc n b) =
        (switchCases f b).zipIdx.map fun p => ((b, p.1), locAt loc (n + p.2)) := by
      rw [switchEdges, List.zip_map, List.zipIdx_eq_zip_range', List.range_eq_range']
      rfl
    rw [hplan, List.map_map] at hcalls
    unfold switchPlan
    rwa [List.map_map]
  | br | condBr _ | catchSwitch _ | other _ =>
    exact ⟨g, by simp [switchCases, hkind], by simpa [switchPlan, switchCases, hkind] using h⟩

/-- A loop over blocks follows the plan if its body does for each block. -/
lemma fold (step : Function J V C O × Location → Nat → Function J V C O × Location)
    (plan : Nat → Nat → List Planned) (locs : Nat → Nat) {loc : Location}
    (hstep : ∀ (g : Function J V C O) (done : List (Edge × Option Call)) (n b : Nat), Progress f g
      done → b < f.next → (∀ i, (b, i) ∉ done.map Prod.fst) → ∃ g', step (g, locAt loc n) b = (g',
      locAt loc (n + locs b)) ∧ Progress f g' (done ++ (plan n b).map Planned.entry))
    (hplan : ∀ n b, ∀ p ∈ plan n b, p.edge.1 = b) {bs : List Nat} (hnodup : bs.Nodup)
    (hlt : ∀ b ∈ bs, b < f.next) (n : Nat) (h : Progress f g done)
    (hnew : ∀ b ∈ bs, ∀ i, (b, i) ∉ done.map Prod.fst) :
    ∃ g', bs.foldl step (g, locAt loc n) = (g', locAt loc (n + (bs.map locs).sum)) ∧
      Progress f g' (done ++ (planFrom plan locs n bs).map Planned.entry) := by
  induction bs generalizing g done n with
  | nil => exact ⟨g, rfl, by simpa [planFrom] using h⟩
  | cons b bs ih =>
  obtain ⟨hb, hnodup⟩ := List.nodup_cons.mp hnodup
  obtain ⟨g1, hrun, h1⟩ := hstep g done n b h (hlt b (.head _))
    (hnew b (.head _))
  obtain ⟨g2, hrest, h2⟩ := ih hnodup (fun b' hb' => hlt b' (.tail _ hb'))
    (n + locs b) h1 (by
      intro b' hb' i hmem
      rw [List.map_append, List.mem_append] at hmem
      rcases hmem with hmem | hmem
      · exact hnew b' (.tail _ hb') i hmem
      obtain ⟨entry, hentry, heq⟩ := List.mem_map.mp hmem
      obtain ⟨p, hp, rfl⟩ := List.mem_map.mp hentry
      have hpb := hplan n b p hp
      have hpe : p.edge = (b', i) := heq
      rw [hpe] at hpb
      subst hpb
      exact hb hb')
  refine ⟨g2, ?_, ?_⟩
  · rw [List.foldl_cons, hrun, hrest, List.map_cons, List.sum_cons, Nat.add_assoc]
  · rwa [planFrom, List.map_append, ← List.append_assoc]

end Progress

section Plan

variable {f : Function J V C O} {loc : Location} {b i n : Nat} {p : Planned} {cond : V}
  {cases : List C} {locs : Nat → Nat} {bs : List Nat}

lemma mem_edgePlan {c : Call} :
    p ∈ edgePlan f b i n c ↔ hasInsertionPt f b i = true ∧ p = ⟨(b, i), n, c⟩ := by
  unfold edgePlan
  split
  · rename_i h
    rw [List.mem_singleton]
    exact ⟨fun hp => ⟨h, hp⟩, fun hp => hp.2⟩
  rename_i h
  exact ⟨fun hp => absurd hp List.not_mem_nil, fun hp => absurd hp.1 h⟩

lemma mem_branchPlan (hp : p ∈ branchPlan f loc n b) :
    (∃ cond, (f.block b).kind = .condBr cond) ∧ p.edge.1 = b ∧
      p.call.edge = locAt loc p.number := by
  unfold branchPlan at hp
  split at hp
  · rename_i cond hkind
    rcases List.mem_append.mp hp with hp | hp
    all_goals
      obtain ⟨_, rfl⟩ := mem_edgePlan.mp hp
      exact ⟨⟨cond, hkind⟩, rfl, rfl⟩
  · cases hp

lemma mem_switchCases (hkind : (f.block b).kind = .switch cond cases) :
    i ∈ switchCases f b ↔ i < cases.length ∧ hasInsertionPt f b i = true := by
  simp only [switchCases, hkind, List.mem_filter, List.mem_range'_1, Nat.zero_le, Nat.zero_add,
    true_and]

lemma mem_switchPlan :
    p ∈ switchPlan f loc n b ↔ ∃ k i, (switchCases f b)[k]? = some i ∧
      p = ⟨(b, i), n + k, .covSwitch (locAt loc (n + k)) (switchEdges f loc n b)⟩ := by
  unfold switchPlan
  rw [List.mem_map]
  constructor
  · rintro ⟨⟨i, k⟩, hmem, rfl⟩
    exact ⟨k, i, List.mk_mem_zipIdx_iff_getElem?.mp hmem, rfl⟩
  rintro ⟨k, i, hget, rfl⟩
  exact ⟨(i, k), List.mk_mem_zipIdx_iff_getElem?.mpr hget, rfl⟩

lemma planFrom_mem {plan : Nat → Nat → List Planned} (hplan : ∀ n b, ∀ p ∈ plan n b, p.edge.1 = b)
    (hp : p ∈ planFrom plan locs n bs) : p.edge.1 ∈ bs := by
  induction bs generalizing n with
  | nil => cases hp
  | cons b bs ih =>
  rcases List.mem_append.mp hp with hp | hp
  · rw [hplan n b p hp]
    exact (.head _)
  · exact List.mem_cons_of_mem _ (ih hp)

lemma planFrom_increasing {plan : Nat → Nat → List Planned}
    (hplan : ∀ n b, (plan n b).Pairwise (·.number < ·.number) ∧ ∀ p ∈ plan n b, n ≤ p.number ∧
      p.number < n + locs b) (bs : List Nat) (n : Nat) :
    (planFrom plan locs n bs).Pairwise (·.number < ·.number) ∧
      ∀ p ∈ planFrom plan locs n bs, n ≤ p.number ∧ p.number < n + (bs.map locs).sum := by
  induction bs generalizing n with
  | nil => exact ⟨.nil, nofun⟩
  | cons b bs ih =>
  obtain ⟨hfirst, hfirst_lt⟩ := hplan n b
  obtain ⟨hrest, hrest_lt⟩ := ih (n + locs b)
  rw [planFrom, List.map_cons, List.sum_cons]
  refine ⟨List.pairwise_append.mpr ⟨hfirst, hrest, fun p hp p' hp' => ?_⟩, fun p hp => ?_⟩
  · have hlt := (hfirst_lt p hp).2
    have hle := (hrest_lt p' hp').1
    omega
  rcases List.mem_append.mp hp with hp | hp
  · have hlt := hfirst_lt p hp
    omega
  have hlt := hrest_lt p hp
  omega

lemma planFrom_block (plan : Nat → Nat → List Planned) (locs : Nat → Nat)
    (hplan : ∀ n b, ∀ p ∈ plan n b, p.edge.1 = b) (hnodup : bs.Nodup) (n : Nat) (hb : b ∈ bs) :
    ∃ m, ∀ p, (p ∈ planFrom plan locs n bs ∧ p.edge.1 = b) ↔ p ∈ plan m b := by
  induction bs generalizing n with
  | nil => cases hb
  | cons b' bs ih =>
  obtain ⟨hnot, hnodup⟩ := List.nodup_cons.mp hnodup
  rcases List.mem_cons.mp hb with rfl | hb
  · refine ⟨n, fun p => ⟨fun ⟨hp, hpb⟩ => ?_, fun hp => ?_⟩⟩
    · rcases List.mem_append.mp hp with hp | hp
      · exact hp
      have hin := planFrom_mem hplan hp
      rw [hpb] at hin
      exact absurd hin hnot
    · exact ⟨List.mem_append_left _ hp, hplan n b p hp⟩
  obtain ⟨m, hm⟩ := ih hnodup (n + locs b') hb
  refine ⟨m, fun p => ⟨fun ⟨hp, hpb⟩ => ?_, fun hp => ?_⟩⟩
  · rcases List.mem_append.mp hp with hp | hp
    · rw [hplan n b' p hp] at hpb
      exact absurd (hpb ▸ hb) hnot
    · exact (hm p).mp ⟨hp, hpb⟩
  · exact ⟨List.mem_append_right _ ((hm p).mpr hp).1, hplan m b p hp⟩

lemma plan_numbers (f : Function J V C O) (loc loc' : Location) :
    (plan f loc).map (fun p => (p.edge, p.number)) =
      (plan f loc').map fun p => (p.edge, p.number) := by
  have hfrom : ∀ {plan plan' : Nat → Nat → List Planned} {locs : Nat → Nat},
      (∀ n b, (plan n b).map (fun p => (p.edge, p.number)) =
        (plan' n b).map fun p => (p.edge, p.number)) →
      ∀ (bs : List Nat) (n : Nat), (planFrom plan locs n bs).map (fun p => (p.edge, p.number)) =
        (planFrom plan' locs n bs).map fun p => (p.edge, p.number) := by
    intro plan plan' locs heq bs
    induction bs with
    | nil => exact fun _ => rfl
    | cons b bs ih =>
    intro n
    rw [planFrom, planFrom, List.map_append, List.map_append, heq, ih]
  have hedge : ∀ b i n c c', (edgePlan f b i n c).map (fun p => (p.edge, p.number)) =
      (edgePlan f b i n c').map fun p => (p.edge, p.number) := by
    intro b i n c c'
    unfold edgePlan
    split <;> rfl
  unfold plan
  rw [List.map_append, List.map_append]
  refine congrArg₂ _ (hfrom (fun n b => ?_) _ _) (hfrom (fun n b => ?_) _ _)
  · unfold branchPlan
    split
    · rw [List.map_append, List.map_append]
      exact congrArg₂ _ (hedge _ _ _ _ _) (hedge _ _ _ _ _)
    · rfl
  simp only [switchPlan, List.map_map]
  rfl

/-- No two edges of the plan get one number. -/
lemma plan_increasing (f : Function J V C O) (loc : Location) :
    (plan f loc).Pairwise (·.number < ·.number) ∧ ∀ p ∈ plan f loc, p.number < locsTaken f := by
  have hbranch : ∀ n b, (branchPlan f loc n b).Pairwise (·.number < ·.number) ∧
      ∀ p ∈ branchPlan f loc n b, n ≤ p.number ∧ p.number < n + branchLocs f b := by
    intro n b
    unfold branchPlan branchLocs
    split
    · refine ⟨List.pairwise_append.mpr ⟨?_, ?_, fun p hp p' hp' => ?_⟩, fun p hp => ?_⟩
      · unfold edgePlan
        split <;> simp
      · unfold edgePlan
        split <;> simp
      · rw [(mem_edgePlan.mp hp).2, (mem_edgePlan.mp hp').2]
        exact Nat.lt_succ_self n
      rcases List.mem_append.mp hp with hp | hp
      · rw [(mem_edgePlan.mp hp).2]
        exact ⟨Nat.le_refl n, by simp⟩
      rw [(mem_edgePlan.mp hp).2]
      exact ⟨Nat.le_succ n, by simp⟩
    · exact ⟨.nil, nofun⟩
  have hswitch : ∀ n b, (switchPlan f loc n b).Pairwise (·.number < ·.number) ∧
      ∀ p ∈ switchPlan f loc n b, n ≤ p.number ∧ p.number < n + (switchCases f b).length := by
    intro n b
    constructor
    · rw [switchPlan, List.pairwise_map]
      have hidx : ((switchCases f b).zipIdx.map Prod.snd).Pairwise (· < ·) := by
        rw [List.zipIdx_map_snd]
        exact List.pairwise_lt_range'
      exact (List.pairwise_map.mp hidx).imp fun hlt => Nat.add_lt_add_left hlt n
    intro p hp
    obtain ⟨k, i, hget, rfl⟩ := mem_switchPlan.mp hp
    have hlt := (List.getElem?_eq_some_iff.mp hget).1
    exact ⟨Nat.le_add_right n k, Nat.add_lt_add_left hlt n⟩
  obtain ⟨hbranches, hbranches_lt⟩ := planFrom_increasing hbranch (branchBlocks f) 0
  obtain ⟨hswitches, hswitches_lt⟩ := planFrom_increasing hswitch (switchBlocks f) (branchTotal f)
  refine ⟨List.pairwise_append.mpr ⟨hbranches, hswitches, fun p hp p' hp' => ?_⟩, fun p hp => ?_⟩
  · have hlt := (hbranches_lt p hp).2
    have hle := (hswitches_lt p' hp').1
    unfold branchTotal at hle
    omega
  unfold locsTaken
  rcases List.mem_append.mp hp with hp | hp
  · have hlt := (hbranches_lt p hp).2
    unfold branchTotal
    omega
  · exact (hswitches_lt p hp).2

lemma branchPlan_block (n b : Nat) : ∀ p ∈ branchPlan f loc n b, p.edge.1 = b :=
  fun _ hp => (mem_branchPlan hp).2.1

lemma switchPlan_block (n b : Nat) : ∀ p ∈ switchPlan f loc n b, p.edge.1 = b := by
  intro p hp
  obtain ⟨_, _, _, rfl⟩ := mem_switchPlan.mp hp
  rfl

lemma isBranch_of_condBr (hkind : (f.block b).kind = .condBr cond) : isBranch f b = true := by
  simp only [isBranch, hkind]

lemma isSwitch_of_switch (hkind : (f.block b).kind = .switch cond cases) :
    isSwitch f b = true := by
  simp only [isSwitch, hkind]

lemma not_isSwitch_of_isBranch (hbranch : isBranch f b = true) : isSwitch f b = false := by
  unfold isBranch at hbranch
  unfold isSwitch
  cases hkind : (f.block b).kind <;> simp_all

lemma mem_order (hf : f.Verified) : b ∈ f.order ↔ b < f.next := by
  rw [hf.wf.order.mem_iff, List.mem_range]

lemma nodup_order (hf : f.Verified) : f.order.Nodup :=
  hf.wf.order.nodup_iff.mpr List.nodup_range

lemma plan_lt (hf : f.Verified) (hp : p ∈ plan f loc) : p.edge.1 < f.next := by
  rcases List.mem_append.mp hp with hp | hp
  · exact (mem_order hf).mp (List.mem_filter.mp (planFrom_mem branchPlan_block hp)).1
  · exact (mem_order hf).mp (List.mem_filter.mp (planFrom_mem switchPlan_block hp)).1

lemma plan_branch (hf : f.Verified) (loc : Location) (hb : b < f.next)
    (hkind : (f.block b).kind = .condBr cond) :
    ∃ m, ∀ p, (p ∈ plan f loc ∧ p.edge.1 = b) ↔ p ∈ branchPlan f loc m b := by
  have hbranch := isBranch_of_condBr hkind
  obtain ⟨m, hm⟩ := planFrom_block (branchPlan f loc) (branchLocs f) branchPlan_block
    ((nodup_order hf).filter (isBranch f)) 0 (List.mem_filter.mpr ⟨(mem_order hf).mpr hb, hbranch⟩)
  refine ⟨m, fun p => ?_⟩
  rw [← hm p]
  refine ⟨fun ⟨hp, hpb⟩ => ⟨?_, hpb⟩, fun ⟨hp, hpb⟩ => ⟨List.mem_append_left _ hp, hpb⟩⟩
  rcases List.mem_append.mp hp with hp | hp
  · exact hp
  have hin := List.mem_filter.mp (planFrom_mem switchPlan_block hp)
  rw [hpb, not_isSwitch_of_isBranch hbranch] at hin
  exact absurd hin.2 Bool.false_ne_true

lemma plan_switch (hf : f.Verified) (loc : Location) (hb : b < f.next)
    (hkind : (f.block b).kind = .switch cond cases) :
    ∃ m, ∀ p, (p ∈ plan f loc ∧ p.edge.1 = b) ↔ p ∈ switchPlan f loc m b := by
  have hswitch := isSwitch_of_switch hkind
  obtain ⟨m, hm⟩ := planFrom_block (switchPlan f loc) (fun b => (switchCases f b).length)
    switchPlan_block ((nodup_order hf).filter (isSwitch f)) (branchTotal f)
    (List.mem_filter.mpr ⟨(mem_order hf).mpr hb, hswitch⟩)
  refine ⟨m, fun p => ?_⟩
  rw [← hm p]
  refine ⟨fun ⟨hp, hpb⟩ => ⟨?_, hpb⟩, fun ⟨hp, hpb⟩ => ⟨List.mem_append_right _ hp, hpb⟩⟩
  rcases List.mem_append.mp hp with hp | hp
  · have hin := List.mem_filter.mp (planFrom_mem branchPlan_block hp)
    rw [hpb] at hin
    have hno := not_isSwitch_of_isBranch hin.2
    rw [hswitch] at hno
    exact absurd hno.symm Bool.false_ne_true
  · exact hp

lemma plan_cases (hp : p ∈ plan f loc) :
    ((∃ cond, (f.block p.edge.1).kind = .condBr cond) ∨
      ∃ cond cases, (f.block p.edge.1).kind = .switch cond cases) ∧
      p.call.edge = locAt loc p.number := by
  have hfrom : ∀ {plan : Nat → Nat → List Planned} {locs : Nat → Nat} {bs : List Nat} {n : Nat},
      p ∈ planFrom plan locs n bs → ∃ m b, p ∈ plan m b := by
    intro plan locs bs
    induction bs with
    | nil => exact fun hp => absurd hp List.not_mem_nil
    | cons b bs ih =>
    intro n hp
    rcases List.mem_append.mp hp with hp | hp
    · exact ⟨n, b, hp⟩
    · exact ih hp
  rcases List.mem_append.mp hp with hp | hp
  · obtain ⟨m, b, hmem⟩ := hfrom hp
    obtain ⟨hkind, rfl, hedge⟩ := mem_branchPlan hmem
    exact ⟨.inl hkind, hedge⟩
  have hin := (List.mem_filter.mp (planFrom_mem switchPlan_block hp)).2
  obtain ⟨m, b, hmem⟩ := hfrom hp
  obtain ⟨k, i, _, rfl⟩ := mem_switchPlan.mp hmem
  refine ⟨.inr ?_, rfl⟩
  unfold isSwitch at hin
  split at hin
  · rename_i cond cases hkind
    exact ⟨cond, cases, hkind⟩
  · cases hin

end Plan

/-- `InstrumentTrace` does exactly what was planned. -/
lemma instrumentTrace_progress {f : Function J V C O} (hf : f.Verified) (hnaked : f.naked = false)
    (loc : Location) :
    ∃ g, instrumentTrace f loc = (g, locAt loc (locsTaken f)) ∧
      Progress f g ((plan f loc).map Planned.entry) := by
  have hnodup := nodup_order hf
  have hlt : ∀ (keep : Nat → Bool), ∀ b ∈ f.order.filter keep, b < f.next :=
    fun keep b hb => (mem_order hf).mp (List.mem_filter.mp hb).1
  obtain ⟨g1, hbranches, h1⟩ := Progress.fold
    (fun x b => instrumentBranch x.1 x.2 b) (branchPlan f loc) (branchLocs f)
    (fun g done n b h hb hnew => h.instrumentBranch hf loc n hb hnew)
    branchPlan_block (hnodup.filter (isBranch f)) (hlt _) 0 (Progress.refl hf)
    (fun b _ i => List.not_mem_nil)
  obtain ⟨g2, hswitches, h2⟩ := Progress.fold
    (fun x b => instrumentSwitch x.1 x.2 b) (switchPlan f loc)
    (fun b => (switchCases f b).length)
    (fun g done n b h hb hnew => h.instrumentSwitch hf loc n hb hnew)
    switchPlan_block (hnodup.filter (isSwitch f)) (hlt _) (branchTotal f) h1 (by
      intro b hb i hmem
      obtain ⟨entry, hentry, heq⟩ := List.mem_map.mp hmem
      obtain ⟨p, hp, rfl⟩ := List.mem_map.mp hentry
      have hin := (List.mem_filter.mp (planFrom_mem branchPlan_block hp)).2
      have hpe : p.edge = (b, i) := heq
      rw [hpe] at hin
      have hswitch := (List.mem_filter.mp hb).2
      rw [not_isSwitch_of_isBranch hin] at hswitch
      exact absurd hswitch Bool.false_ne_true)
  refine ⟨g2, ?_, ?_⟩
  · rw [locAt_zero, Nat.zero_add] at hbranches
    have hnot : ¬ f.naked = true := by rw [hnaked]; exact Bool.false_ne_true
    simp only [instrumentTrace, if_neg hnot]
    rwa [hbranches]
  · rwa [plan, List.map_append]

end BranchCoverage

end Vmill
