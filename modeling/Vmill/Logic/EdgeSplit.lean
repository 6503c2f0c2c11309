import Vmill.Tools.BranchCoverage

/-!
# Splitting edges

`BlockForEdge` puts a block on one edge (`Split`). In each PHI node of the target it rewrites the
first entry for the source; other edges between the two blocks keep the other entries, of the same
value.
-/

namespace Vmill

open Base Ssa

namespace BranchCoverage

variable {J V C O W M : Type} {n n' src mid tmp i dest : Nat} {phis phis' : List (Phi (Operand V))}
  {insts : List (Inst J V)} {f : Function J V C O} {order : List Nat}

/-- A temporary is one of the first `n`. -/
def Operand.Below (n : Nat) : Operand V → Prop
  | .value _ => True
  | .load tmp => tmp < n

/-- The temporaries of an instruction are among the first `n`. -/
def Inst.Below (n : Nat) : Inst J V → Prop
  | .inst _ => True
  | .alloca tmp => tmp < n
  | .store val tmp => val.Below n ∧ tmp < n
  | .load tmp => tmp < n
  | .call _ => True

/-- How many successors a terminator has. -/
def Kind.Arity : Kind V C O → Nat → Prop
  | .br, n => n = 1
  | .condBr _, n => n = 2
  | .switch _ cases, n => n = cases.length + 1
  | .catchSwitch _, _ => True
  | .other _, _ => True

instance (val : Operand V) (n : Nat) : Decidable (val.Below n) := by
  cases val <;> unfold Operand.Below <;> infer_instance

instance (inst : Inst J V) (n : Nat) : Decidable (inst.Below n) := by
  cases inst <;> unfold Inst.Below <;> infer_instance

instance (kind : Kind V C O) (n : Nat) : Decidable (kind.Arity n) := by
  cases kind <;> unfold Kind.Arity <;> infer_instance

instance : (val : Operand V) → Decidable (∃ v, val = .value v)
  | .value v => isTrue ⟨v, rfl⟩
  | .load _ => isFalse (by rintro ⟨_, ⟨⟩⟩)

lemma Operand.Below.mono {val : Operand V} (h : val.Below n) (hle : n ≤ n') : val.Below n' := by
  cases val with
  | value v => trivial
  | load tmp => exact Nat.lt_of_lt_of_le h hle

lemma Inst.Below.mono {inst : Inst J V} (h : inst.Below n) (hle : n ≤ n') : inst.Below n' := by
  cases inst with
  | inst j => trivial
  | alloca tmp => exact Nat.lt_of_lt_of_le h hle
  | store val tmp => exact ⟨h.1.mono hle, Nat.lt_of_lt_of_le h.2 hle⟩
  | load tmp => exact Nat.lt_of_lt_of_le h hle
  | call c => trivial

/-- The part of LLVM's verifier that the proofs use: PHI nodes match the edges, and terminators have
their numbers of successors. Where a `catchswitch` may stand is not checked. -/
@[mk_iff]
structure Function.Verified (f : Function J V C O) : Prop where
  wf : f.toFunc.WF
  arity : ∀ b < f.next, (f.block b).kind.Arity (f.block b).succs.length
  dests : ∀ b < f.next, ∀ phi ∈ (f.block b).phis, ∃ v, phi.dest = .value v
  incoming : ∀ b < f.next, ∀ phi ∈ (f.block b).phis, ∀ e ∈ phi.incoming, e.2.Below f.nextTmp
  insts : ∀ b < f.next, ∀ inst ∈ (f.block b).insts, inst.Below f.nextTmp

instance [DecidableEq V] (f : Function J V C O) : Decidable f.Verified :=
  decidable_of_iff' _ f.verified_iff

lemma findIdx_first {l : List (Nat × Operand V)} (h : src ∈ l.map Prod.fst) :
    ∃ front val back, l = front ++ (src, val) :: back ∧ (∀ e ∈ front, e.1 ≠ src) ∧
      l.findIdx? (·.1 == src) = some front.length := by
  induction l with
  | nil => cases h
  | cons e l ih =>
  by_cases he : e.1 = src
  · refine ⟨[], e.2, l, by rw [← he]; rfl, nofun, ?_⟩
    rw [List.findIdx?_cons, if_pos (by simp [he])]
    rfl
  have htail : src ∈ l.map Prod.fst :=
    (List.mem_cons.mp h).resolve_left fun heq => he heq.symm
  obtain ⟨front, val, back, rfl, hfront, hidx⟩ := ih htail
  refine ⟨e :: front, val, back, rfl, ?_, ?_⟩
  · exact List.forall_mem_cons.mpr ⟨he, hfront⟩
  rw [List.findIdx?_cons, if_neg (by simpa using he), hidx]
  rfl

/-- The first entry of `phi` for `src` comes from `mid` in `phi'`, through a temporary. -/
def Forwards (src mid tmp : Nat) (val : Operand V) (phi phi' : Phi (Operand V)) : Prop :=
  ∃ front back, phi.incoming = front ++ (src, val) :: back ∧ (∀ e ∈ front, e.1 ≠ src) ∧
    phi' = { phi with incoming := front ++ (mid, .load tmp) :: back }

/-- All PHI nodes of a block, with the instructions that carry their values. -/
inductive ForwardsAll (src mid : Nat) :
    Nat → List (Phi (Operand V)) → List (Phi (Operand V)) → List (Inst J V) → Prop
  | nil (tmp : Nat) : ForwardsAll src mid tmp [] [] []
  | cons {tmp : Nat} {val : Operand V} {phi phi' : Phi (Operand V)}
      {phis phis' : List (Phi (Operand V))} {insts : List (Inst J V)} :
      Forwards src mid tmp val phi phi' → ForwardsAll src mid (tmp + 1) phis phis' insts →
      ForwardsAll src mid tmp (phi :: phis) (phi' :: phis')
        (.alloca tmp :: .store val tmp :: .load tmp :: insts)

lemma forwardPhi_spec (mid tmp : Nat) {phi : Phi (Operand V)}
    (h : src ∈ phi.incoming.map Prod.fst) : ∃ val phi', forwardPhi (J := J) src mid tmp phi =
        (phi', [.alloca tmp, .store val tmp, .load tmp], tmp + 1) ∧
      Forwards src mid tmp val phi phi' := by
  obtain ⟨front, val, back, heq, hfront, hidx⟩ := findIdx_first h
  refine ⟨val, { phi with incoming := front ++ (mid, .load tmp) :: back }, ?_, front, back, heq,
    hfront, rfl⟩
  have hget : phi.incoming[front.length]? = some (src, val) := by
    rw [heq, List.getElem?_append_right (Nat.le_refl _), Nat.sub_self]
    rfl
  have hset : phi.incoming.set front.length (mid, .load tmp) =
      front ++ (mid, .load tmp) :: back := by
    rw [heq, List.set_append_right _ _ (Nat.le_refl _), Nat.sub_self]
    rfl
  unfold forwardPhi
  rw [hidx]
  simp only [hget, hset]

lemma forwardPhis_spec (mid tmp : Nat) (h : ∀ phi ∈ phis, src ∈ phi.incoming.map Prod.fst) :
    ForwardsAll (J := J) src mid tmp phis (forwardPhis (J := J) src mid tmp phis).1
        (forwardPhis src mid tmp phis).2.1 ∧
      (forwardPhis (J := J) src mid tmp phis).2.2 = tmp + phis.length := by
  induction phis generalizing tmp with
  | nil => exact ⟨.nil tmp, rfl⟩
  | cons phi phis ih =>
  obtain ⟨val, phi', hphi, hfwd⟩ := forwardPhi_spec (J := J) mid tmp (h phi (.head _))
  obtain ⟨hall, hlen⟩ := ih (tmp + 1) fun p hp => h p (.tail _ hp)
  simp only [forwardPhis, hphi, List.length_cons]
  exact ⟨.cons hfwd hall, hlen.trans (by omega)⟩

namespace Forwards

variable {val : Operand V} {phi phi' : Phi (Operand V)} (h : Forwards src mid tmp val phi phi')

include h

lemma dest_eq : phi'.dest = phi.dest := by
  obtain ⟨front, back, _, _, rfl⟩ := h
  rfl

lemma mem : (src, val) ∈ phi.incoming := by
  obtain ⟨front, back, heq, _, _⟩ := h
  rw [heq]
  simp

lemma mem_cases {e : Nat × Operand V} (he : e ∈ phi'.incoming) :
    e = (mid, .load tmp) ∨ e ∈ phi.incoming := by
  obtain ⟨front, back, heq, _, rfl⟩ := h
  rw [heq]
  simp only [List.mem_append, List.mem_cons] at he ⊢
  tauto

lemma count (b : Nat) :
    (phi'.incoming.map Prod.fst).count b + (if src = b then 1 else 0) =
      (phi.incoming.map Prod.fst).count b + (if mid = b then 1 else 0) := by
  obtain ⟨front, back, heq, _, rfl⟩ := h
  rw [heq]
  simp only [List.map_append, List.map_cons, List.count_append, List.count_cons, beq_iff_eq]
  omega

lemma lookup_src : phi.incoming.lookup src = some val := by
  obtain ⟨front, back, heq, hfront, _⟩ := h
  exact List.lookup_eq_some_iff.mpr ⟨front, back, heq, fun e he => by
    simpa using fun hc => hfront e he hc.symm⟩

lemma lookup_mid (hfresh : ∀ e ∈ phi.incoming, e.1 ≠ mid) :
    phi'.incoming.lookup mid = some (.load tmp) := by
  obtain ⟨front, back, heq, _, rfl⟩ := h
  refine List.lookup_eq_some_iff.mpr ⟨front, back, rfl, fun e he => ?_⟩
  have hne := hfresh e (by rw [heq]; exact List.mem_append_left _ he)
  simpa using fun hc => hne hc.symm

lemma lookup_other {b : Nat} (hsrc : b ≠ src) (hmid : b ≠ mid) :
    phi'.incoming.lookup b = phi.incoming.lookup b := by
  obtain ⟨front, back, heq, _, rfl⟩ := h
  rw [heq]
  simp only [List.lookup_append, List.lookup_cons, beq_eq_false_iff_ne.mpr hmid,
    beq_eq_false_iff_ne.mpr hsrc]

lemma lookup_again (hne : src ≠ mid) (hcount : 2 ≤ (phi.incoming.map Prod.fst).count src)
    (hsame : ∀ e ∈ phi.incoming, ∀ e' ∈ phi.incoming, e.1 = e'.1 → e.2 = e'.2) :
    phi'.incoming.lookup src = some val := by
  have hmem : src ∈ phi'.incoming.map Prod.fst := by
    have hsum := h.count src
    rw [if_pos rfl, if_neg hne.symm] at hsum
    exact List.count_pos_iff.mp (by omega)
  obtain ⟨front, val', back, heq', hfront, _⟩ := findIdx_first hmem
  have hentry : (src, val') ∈ phi.incoming := by
    refine (h.mem_cases (e := (src, val')) (by rw [heq']; simp)).resolve_left fun hc => ?_
    exact hne (Prod.mk.inj hc).1
  obtain rfl : val = val' := hsame _ h.mem _ hentry rfl
  exact List.lookup_eq_some_iff.mpr ⟨front, back, heq', fun e he => by
    simpa using fun hc => hfront e he hc.symm⟩

end Forwards

lemma ForwardsAll.forall₂ (h : ForwardsAll src mid tmp phis phis' insts) :
    List.Forall₂ (fun phi phi' => phi ∈ phis ∧ ∃ t val, t < tmp + phis.length ∧
      Forwards src mid t val phi phi') phis phis' := by
  induction h with
  | nil tmp => exact .nil
  | @cons tmp val phi phi' phis phis' insts hfwd _ ih =>
  refine .cons ⟨(.head _), tmp, val, by simp, hfwd⟩ (ih.imp ?_)
  rintro p p' ⟨hmem, t, v, ht, hf⟩
  exact ⟨List.mem_cons_of_mem _ hmem, t, v, by simp only [List.length_cons]; omega, hf⟩

lemma ForwardsAll.origin (h : ForwardsAll src mid tmp phis phis' insts) {phi' : Phi (Operand V)}
    (hmem : phi' ∈ phis') :
    ∃ phi ∈ phis, ∃ t val, t < tmp + phis.length ∧ Forwards src mid t val phi phi' := by
  obtain ⟨k, hk, rfl⟩ := List.getElem_of_mem hmem
  have hk' : k < phis.length := by rw [h.forall₂.length_eq]; exact hk
  have hpair := h.forall₂.get hk' hk
  exact ⟨phis[k], hpair.1, hpair.2⟩

lemma ForwardsAll.insts_below (h : ForwardsAll src mid tmp phis phis' insts) (hn : n ≤ tmp)
    (hbelow : ∀ phi ∈ phis, ∀ e ∈ phi.incoming, e.2.Below n) :
    ∀ inst ∈ insts, inst.Below (tmp + phis.length) := by
  induction h with
  | nil tmp => exact nofun
  | @cons tmp val phi phi' phis phis' insts hfwd _ ih =>
  have hval : val.Below (tmp + (phis.length + 1)) :=
    (hbelow phi (.head _) _ hfwd.mem).mono (by omega)
  have htmp : tmp < tmp + (phis.length + 1) := by omega
  have hrest := ih (by omega) fun p hp => hbelow p (.tail _ hp)
  intro inst hinst
  rw [List.length_cons]
  rcases List.mem_cons.mp hinst with rfl | hinst
  · exact htmp
  rcases List.mem_cons.mp hinst with rfl | hinst
  · exact ⟨hval, htmp⟩
  rcases List.mem_cons.mp hinst with rfl | hinst
  · exact htmp
  · exact (hrest inst hinst).mono (by omega)

/-- Put a new block on the edge. -/
def splitEdge (f : Function J V C O) (src i dest : Nat) : Function J V C O :=
  setSuccessor (blockForEdge f src dest) src i f.next

/-- What splitting edge `i` of `src` has made of `f`. -/
structure Split (f f' : Function J V C O) (src i dest : Nat) (phis' : List (Phi (Operand V)))
    (insts : List (Inst J V)) : Prop where
  src_lt : src < f.next
  succ : (f.block src).succs[i]? = some dest
  forwards : ForwardsAll src f.next f.nextTmp (f.block dest).phis phis' insts
  next : f'.next = f.next + 1
  nextTmp : f'.nextTmp = f.nextTmp + (f.block dest).phis.length
  order : f'.order = insertBefore f.next dest f.order
  naked : f'.naked = f.naked
  mid : f'.block f.next = ⟨[], insts, .br, [dest]⟩
  insts : ∀ b < f.next, (f'.block b).insts = (f.block b).insts
  kind : ∀ b < f.next, (f'.block b).kind = (f.block b).kind
  succs : ∀ b < f.next, (f'.block b).succs =
    if b = src then (f.block b).succs.set i f.next else (f.block b).succs
  phis : ∀ b < f.next, (f'.block b).phis = if b = dest then phis' else (f.block b).phis

lemma Function.Verified.dest_lt (hf : f.Verified) (hsrc : src < f.next)
    (hsucc : (f.block src).succs[i]? = some dest) : dest < f.next :=
  hf.wf.succs src hsrc dest (List.mem_of_getElem? hsucc)

lemma splitEdge_split (hf : f.Verified) (hsrc : src < f.next)
    (hsucc : (f.block src).succs[i]? = some dest) :
    ∃ phis' insts, Split f (splitEdge f src i dest) src i dest phis' insts := by
  have hdest := hf.dest_lt hsrc hsucc
  obtain ⟨hall, hlen⟩ := forwardPhis_spec (J := J) f.next f.nextTmp
    fun phi hphi => (hf.wf.phis dest hdest phi hphi).mem hsrc (List.mem_of_getElem? hsucc)
  -- what becomes of an old block
  have hold : ∀ b < f.next, (splitEdge f src i dest).block b =
      { f.block b with
        phis := if b = dest then (forwardPhis (J := J) src f.next f.nextTmp (f.block dest).phis).1
          else (f.block b).phis
        succs := if b = src then (f.block b).succs.set i f.next else (f.block b).succs } := by
    intro b hb
    have hne : b ≠ f.next := Nat.ne_of_lt hb
    have hsrc' : src ≠ f.next := Nat.ne_of_lt hsrc
    have hblock : (blockForEdge f src dest).block b =
        { f.block b with
          phis := if b = dest then (forwardPhis (J := J) src f.next f.nextTmp (f.block dest).phis).1
            else (f.block b).phis } := by
      simp only [blockForEdge, Function.update_of_ne hne]
      by_cases hd : b = dest
      · subst hd
        rw [Function.update_self, if_pos rfl]
      · rw [Function.update_of_ne hd, if_neg hd]
    simp only [splitEdge, setSuccessor]
    by_cases hs : b = src
    · subst hs
      rw [Function.update_self, if_pos rfl, hblock]
    · rw [Function.update_of_ne hs, if_neg hs, hblock]
  refine ⟨_, _, hsrc, hsucc, hall, rfl, hlen, rfl, rfl, ?_, ?_, ?_, ?_, ?_⟩
  · simp only [splitEdge, setSuccessor]
    rw [Function.update_of_ne (Nat.ne_of_gt hsrc)]
    simp only [blockForEdge, Function.update_self]
  all_goals
    intro b hb
    rw [hold b hb]

lemma insertBefore_perm (h : dest ∈ order) :
    (insertBefore mid dest order).Perm (mid :: order) := by
  induction order with
  | nil => cases h
  | cons b order ih =>
  rw [insertBefore]
  split
  · exact .refl _
  rename_i hne
  have htail := (List.mem_cons.mp h).resolve_left fun heq => hne heq.symm
  exact ((ih htail).cons b).trans (.swap mid b order)

lemma insertBefore_head (h : order.head? ≠ some dest) :
    (insertBefore mid dest order).head? = order.head? := by
  cases order with
  | nil => rfl
  | cons b order =>
  rw [insertBefore, if_neg fun heq => h (by rw [heq]; rfl)]
  rfl

namespace Split

variable {f' : Function J V C O} {b t : Nat} {phi phi' : Phi (Operand V)}
  (h : Split f f' src i dest phis' insts)

include h

lemma dest_lt (hf : f.Verified) : dest < f.next :=
  hf.dest_lt h.src_lt h.succ

lemma head (hf : f.Verified) : f'.order.head? = f.order.head? := by
  rw [h.order]
  exact insertBefore_head (hf.wf.entry src h.src_lt dest (List.mem_of_getElem? h.succ))

lemma succs_other {j : Nat} (hb : b < f.next)
    (hother : ¬ (b = src ∧ j = i)) : (f'.block b).succs[j]? = (f.block b).succs[j]? := by
  rw [h.succs b hb]
  split
  · rename_i hs
    exact List.getElem?_set_ne fun hc => hother ⟨hs, hc.symm⟩
  · rfl

lemma succs_split : (f'.block src).succs[i]? = some f.next := by
  rw [h.succs src h.src_lt, if_pos rfl, List.getElem?_set_self]
  exact (List.getElem?_eq_some_iff.mp h.succ).1

lemma count_succs (hb : b < f.next) (ht : t < f.next) :
    (f'.block b).succs.count t + (if src = b ∧ dest = t then 1 else 0) =
      (f.block b).succs.count t := by
  rw [h.succs b hb]
  by_cases hs : b = src
  · subst hs
    obtain ⟨hi, hget⟩ := List.getElem?_eq_some_iff.mp h.succ
    have hpos : dest = t → 0 < (f.block b).succs.count t := by
      rintro rfl
      exact List.count_pos_iff.mpr (List.mem_of_getElem? h.succ)
    have hne : ¬ f.next = t := by omega
    rw [if_pos rfl, List.count_set hi, hget]
    simp only [beq_iff_eq, hne, if_false, true_and]
    split
    · rename_i heq
      have := hpos heq
      omega
    · omega
  · rw [if_neg hs, if_neg fun hc => hs hc.1.symm, Nat.add_zero]

lemma phi_matches
    (hold : ∀ b < f.next, (phi.incoming.map Prod.fst).count b = (f'.block b).succs.count t)
    (hmid : (phi.incoming.map Prod.fst).count f.next = [dest].count t)
    (hknown : ∀ e ∈ phi.incoming, e.1 ≤ f.next)
    (hsame : ∀ e ∈ phi.incoming, ∀ e' ∈ phi.incoming, e.1 = e'.1 → e.2 = e'.2) :
    phi.Matches f'.toFunc t where
  edges b hb := by
    rcases Nat.lt_succ_iff_lt_or_eq.mp (h.next ▸ hb) with hb | rfl
    · exact hold b hb
    · rwa [h.mid]
  known e he := by
    rw [h.next]
    exact Nat.lt_succ_of_le (hknown e he)
  same := hsame

omit h in
lemma count_fresh (hm : phi.Matches f.toFunc t) :
    (phi.incoming.map Prod.fst).count f.next = 0 := by
  refine List.count_eq_zero.mpr fun hmem => ?_
  obtain ⟨e, he, heq⟩ := List.mem_map.mp hmem
  exact absurd heq (Nat.ne_of_lt (hm.known e he))

lemma matches_dest (hf : f.Verified) {tmp : Nat} {val : Operand V}
    (hphi : phi ∈ (f.block dest).phis)
    (hfwd : Forwards src f.next tmp val phi phi') : phi'.Matches f'.toFunc dest := by
  have hdest := h.dest_lt hf
  have hsrc := h.src_lt
  have hm := hf.wf.phis dest hdest phi hphi
  refine h.phi_matches (fun b hb => ?_) ?_ (fun e he => ?_) fun e he e' he' heq => ?_
  · have hcount := hfwd.count b
    have hsuccs := h.count_succs hb hdest
    have hedges := hm.edges b hb
    rw [if_neg (show ¬ f.next = b by omega)] at hcount
    by_cases hs : src = b
    · rw [if_pos hs] at hcount
      rw [if_pos ⟨hs, rfl⟩] at hsuccs
      omega
    rw [if_neg hs] at hcount
    rw [if_neg fun hc => hs hc.1] at hsuccs
    omega
  · have hcount := hfwd.count f.next
    rw [if_neg (Nat.ne_of_lt hsrc), if_pos rfl, count_fresh hm] at hcount
    rw [List.count_singleton_self]
    omega
  · rcases hfwd.mem_cases he with rfl | he
    · exact Nat.le_refl _
    · exact Nat.le_of_lt (hm.known e he)
  -- the new block has one entry only
  rcases hfwd.mem_cases he with rfl | hold <;> rcases hfwd.mem_cases he' with rfl | hold'
  · rfl
  · exact absurd heq.symm (Nat.ne_of_lt (hm.known e' hold'))
  · exact absurd heq (Nat.ne_of_lt (hm.known e hold))
  · exact hm.same e hold e' hold' heq

lemma matches_other (hf : f.Verified) (ht : t < f.next)
    (hne : t ≠ dest) (hphi : phi ∈ (f.block t).phis) : phi.Matches f'.toFunc t := by
  have hm := hf.wf.phis t ht phi hphi
  refine h.phi_matches (fun b hb => ?_) ?_ (fun e he => Nat.le_of_lt (hm.known e he)) hm.same
  · have hsuccs := h.count_succs hb ht
    rw [if_neg fun hc => hne hc.2.symm] at hsuccs
    rw [hm.edges b hb]
    omega
  have hmid : [dest].count t = 0 := List.count_eq_zero.mpr (by simpa using hne)
  rw [hmid, count_fresh hm]

lemma phi_cases (ht : t < f'.next) (hphi : phi' ∈ (f'.block t).phis) :
    t < f.next ∧ ((t ≠ dest ∧ phi' ∈ (f.block t).phis) ∨
      t = dest ∧ ∃ phi ∈ (f.block dest).phis, ∃ tmp val, tmp < f'.nextTmp ∧
        Forwards src f.next tmp val phi phi') := by
  rw [h.next] at ht
  rcases Nat.lt_succ_iff_lt_or_eq.mp ht with ht | rfl
  · refine ⟨ht, ?_⟩
    rw [h.phis t ht] at hphi
    by_cases hd : t = dest
    · rw [if_pos hd] at hphi
      obtain ⟨phi, hmem, t', val, hlt, hfwd⟩ := h.forwards.origin hphi
      exact .inr ⟨hd, phi, hmem, t', val, by rw [h.nextTmp]; exact hlt, hfwd⟩
    rw [if_neg hd] at hphi
    exact .inl ⟨hd, hphi⟩
  rw [h.mid] at hphi
  cases hphi

lemma nextTmp_le : f.nextTmp ≤ f'.nextTmp := by
  rw [h.nextTmp]
  exact Nat.le_add_right _ _

lemma wf (hf : f.Verified) : f'.toFunc.WF := by
  have hdest := h.dest_lt hf
  have hold : ∀ b < f.next, ∀ t ∈ (f'.block b).succs, t = f.next ∨ t ∈ (f.block b).succs := by
    intro b hb t ht
    rw [h.succs b hb] at ht
    split at ht
    · exact (List.mem_or_eq_of_mem_set ht).symm
    · exact .inr ht
  have hmem : ∀ b, b ∈ f.order ↔ b < f.next := by
    intro b
    rw [hf.wf.order.mem_iff, List.mem_range]
  refine ⟨?_, ?_, ?_, ?_⟩
  · rw [h.order, h.next, List.range_succ]
    refine (insertBefore_perm ((hmem dest).mpr hdest)).trans ?_
    exact (hf.wf.order.cons f.next).trans (List.perm_append_singleton _ _).symm
  · intro b hb t ht
    rw [h.next] at hb ⊢
    rcases Nat.lt_succ_iff_lt_or_eq.mp hb with hb | rfl
    · rcases hold b hb t ht with rfl | ht
      · exact Nat.lt_succ_self _
      · exact Nat.lt_succ_of_lt (hf.wf.succs b hb t ht)
    rw [h.mid, List.mem_singleton] at ht
    subst ht
    exact Nat.lt_succ_of_lt hdest
  · intro b hb t ht
    rw [h.head hf]
    rw [h.next] at hb
    rcases Nat.lt_succ_iff_lt_or_eq.mp hb with hb | rfl
    · rcases hold b hb t ht with rfl | ht
      · intro hhead
        exact Nat.lt_irrefl _ ((hmem _).mp (List.mem_of_mem_head? hhead))
      · exact hf.wf.entry b hb t ht
    rw [h.mid, List.mem_singleton] at ht
    subst ht
    exact hf.wf.entry src h.src_lt t (List.mem_of_getElem? h.succ)
  intro t ht phi' hphi'
  obtain ⟨ht, ⟨hne, hphi⟩ | ⟨rfl, phi, hphi, tmp, val, _, hfwd⟩⟩ := h.phi_cases ht hphi'
  · exact h.matches_other hf ht hne hphi
  · exact h.matches_dest hf hphi hfwd

/-- The verifier accepts the function after the split. -/
lemma verified (hf : f.Verified) : f'.Verified where
  wf := h.wf hf
  arity b hb := by
    rw [h.next] at hb
    rcases Nat.lt_succ_iff_lt_or_eq.mp hb with hb | rfl
    · have hlength : (f'.block b).succs.length = (f.block b).succs.length := by
        rw [h.succs b hb]
        split
        · exact List.length_set
        · rfl
      rw [h.kind b hb, hlength]
      exact hf.arity b hb
    rw [h.mid]
    rfl
  dests b hb phi' hphi' := by
    obtain ⟨hb, ⟨_, hphi⟩ | ⟨rfl, phi, hphi, tmp, val, _, hfwd⟩⟩ := h.phi_cases hb hphi'
    · exact hf.dests b hb phi' hphi
    rw [hfwd.dest_eq]
    exact hf.dests b hb phi hphi
  incoming b hb phi' hphi' e he := by
    obtain ⟨hb, ⟨_, hphi⟩ | ⟨rfl, phi, hphi, tmp, val, htmp, hfwd⟩⟩ := h.phi_cases hb hphi'
    · exact (hf.incoming b hb phi' hphi e he).mono h.nextTmp_le
    rcases hfwd.mem_cases he with rfl | he
    · exact htmp
    · exact (hf.incoming b hb phi hphi e he).mono h.nextTmp_le
  insts b hb inst hinst := by
    rw [h.next] at hb
    rcases Nat.lt_succ_iff_lt_or_eq.mp hb with hb | rfl
    · rw [h.insts b hb] at hinst
      exact (hf.insts b hb inst hinst).mono h.nextTmp_le
    rw [h.mid] at hinst
    rw [h.nextTmp]
    exact h.forwards.insts_below (Nat.le_refl _) (hf.incoming dest (h.dest_lt hf)) inst hinst

end Split

end BranchCoverage

end Vmill
