import Mathlib.Data.List.Count
import Mathlib.Data.List.Forall2
import Mathlib.Logic.Function.Basic
import Vmill.Base.Simulation

/-!
# Control-flow graphs with PHI nodes

A block starts with its PHI nodes, which take their values all at once. It may be a successor of
another block more than once.
-/

namespace Vmill.Base.Ssa

/-- A PHI node: its incoming blocks, each with a value. -/
structure Phi (V : Type) where
  dest : V
  incoming : List (Nat × V)
deriving DecidableEq, Repr

/-- A block. What its terminator decides by is kept apart from the successors it decides between. -/
structure Block (I V K : Type) where
  phis : List (Phi V)
  insts : List I
  kind : K
  succs : List Nat
deriving DecidableEq, Repr

/-- A function. Its blocks are those below `next`; they are listed in `order`, the entry first. -/
structure Func (I V K : Type) where
  order : List Nat
  block : Nat → Block I V K
  next : Nat

variable {I V K W M : Type}

/-- A PHI node of the block `t` has one entry for each edge to `t`; the entries for one block have
one value. -/
@[mk_iff]
structure Phi.Matches (f : Func I V K) (t : Nat) (phi : Phi V) : Prop where
  edges : ∀ b < f.next, (phi.incoming.map Prod.fst).count b = (f.block b).succs.count t
  known : ∀ e ∈ phi.incoming, e.1 < f.next
  same : ∀ e ∈ phi.incoming, ∀ e' ∈ phi.incoming, e.1 = e'.1 → e.2 = e'.2

@[mk_iff]
structure Func.WF (f : Func I V K) : Prop where
  order : f.order.Perm (List.range f.next)
  succs : ∀ b < f.next, ∀ t ∈ (f.block b).succs, t < f.next
  entry : ∀ b < f.next, ∀ t ∈ (f.block b).succs, f.order.head? ≠ some t
  phis : ∀ t < f.next, ∀ phi ∈ (f.block t).phis, phi.Matches f t

instance [DecidableEq V] (f : Func I V K) (t : Nat) (phi : Phi V) : Decidable (phi.Matches f t) :=
  decidable_of_iff' _ (phi.matches_iff f t)

instance [DecidableEq V] (f : Func I V K) : Decidable f.WF :=
  decidable_of_iff' _ f.wF_iff

lemma Phi.Matches.mem {f : Func I V K} {t : Nat} {phi : Phi V} (h : phi.Matches f t) {b : Nat}
    (hb : b < f.next) (ht : t ∈ (f.block b).succs) : b ∈ phi.incoming.map Prod.fst := by
  rw [← List.count_pos_iff, h.edges b hb]
  exact List.count_pos_iff.mpr ht

/-- The meaning of instructions and terminators: what an instruction does to the values and to the
rest of the state, and which successors a terminator may take. -/
structure Semantics (I V K W M : Type) where
  exec : I → (V → W) × M → (V → W) × M
  takes : K → (V → W) × M → Nat → Prop

/-- The instructions of a block. -/
def Semantics.run (sem : Semantics I V K W M) (insts : List I) (st : (V → W) × M) : (V → W) × M :=
  insts.foldl (fun st inst => sem.exec inst st) st

@[simp] lemma Semantics.run_cons (sem : Semantics I V K W M) (inst : I) (insts : List I)
    (st : (V → W) × M) : sem.run (inst :: insts) st = sem.run insts (sem.exec inst st) := rfl

/-- The PHI nodes of a block that is entered from `pred`. All of them read the values from before.
`none`: there is no entry for `pred`. -/
def enter [DecidableEq V] (pred : Nat) (env : V → W) : List (Phi V) → Option (V → W)
  | [] => some env
  | phi :: phis =>
    match phi.incoming.lookup pred, enter pred env phis with
    | some v, some env' => some (Function.update env' phi.dest (env v))
    | _, _ => none

lemma exists_of_rel {α β : Type} {R : α → β → Prop} {a : Option α} {b : Option β}
    (h : Option.Rel R a b) :
    (∀ x, a = some x → ∃ y, b = some y ∧ R x y) ∧ ∀ y, b = some y → ∃ x, a = some x ∧ R x y := by
  cases h with
  | none => exact ⟨fun x hx => absurd hx.symm (Option.some_ne_none _),
      fun y hy => absurd hy.symm (Option.some_ne_none _)⟩
  | some hxy =>
  constructor
  · rintro x hx
    cases hx
    exact ⟨_, rfl, hxy⟩
  rintro y hy
  cases hy
  exact ⟨_, rfl, hxy⟩

/-- PHI nodes that find the same values give them to the same destinations. -/
lemma enter_rel [DecidableEq V] {R : (V → W) → (V → W) → Prop} {pred pred' : Nat}
    {env env' : V → W} {phis phis' : List (Phi V)} (hbase : R env env')
    (hphis : List.Forall₂ (fun phi phi' => phi.dest = phi'.dest ∧ Option.Rel (fun v v' => env v =
      env' v') (phi.incoming.lookup pred) (phi'.incoming.lookup pred') ∧ ∀ e e' w, R e e' → R
      (Function.update e phi.dest w) (Function.update e' phi.dest w)) phis phis') :
    Option.Rel R (enter pred env phis) (enter pred' env' phis') := by
  induction hphis with
  | nil => exact .some hbase
  | @cons phi phi' phis phis' hphi _ ih =>
  obtain ⟨hdest, hrel, hupdate⟩ := hphi
  rw [enter, enter]
  revert ih hrel
  generalize phi.incoming.lookup pred = v
  generalize phi'.incoming.lookup pred' = v'
  generalize enter pred env phis = e
  generalize enter pred' env' phis' = e'
  intro ih hrel
  cases hrel with
  | none => exact .none
  | some hv =>
  cases ih with
  | none => exact .none
  | some he =>
  simp only [← hdest, ← hv]
  exact .some (hupdate _ _ _ he)

/-- One step: the block runs, and a successor is entered. -/
def Func.Step [DecidableEq V] (sem : Semantics I V K W M) (f : Func I V K)
    (s t : Nat × (V → W) × M) : Prop :=
  s.1 < f.next ∧ ∃ i, sem.takes (f.block s.1).kind (sem.run (f.block s.1).insts s.2) i ∧
    (f.block s.1).succs[i]? = some t.1 ∧
    enter s.1 (sem.run (f.block s.1).insts s.2).1 (f.block t.1).phis = some t.2.1 ∧
    t.2.2 = (sem.run (f.block s.1).insts s.2).2

/-- A function as a system. What is shown is the state in which a block is entered, its PHI nodes
included, for the blocks below `shown`. -/
def Func.system [DecidableEq V] {Obs : Type} (sem : Semantics I V K W M) (f : Func I V K)
    (shown : Nat) (view : (V → W) × M → Obs) : System (Nat × (V → W) × M) (Nat × Obs) where
  step := f.Step sem
  shows s := if s.1 < shown then some (s.1, view s.2) else none

end Vmill.Base.Ssa
