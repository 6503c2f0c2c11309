import Vmill.Logic.RangeWrite

/-!
# Copying and cloning a range

A cloned array gives its data to a fresh parent and becomes a copy-on-write view of it (`Cloned`).
-/

namespace Vmill

namespace Heap

variable {h h' : Heap} {r : MappedRange} {q p : MemoryMapPtr} {b l : Nat} {data : Nat → UInt8}

/-- Cells were added, and none was changed. -/
structure Extends (h h' : Heap) : Prop where
  next : h.next ≤ h'.next
  obj : ∀ q, q < h.next → h'.obj q = h.obj q

namespace Extends

variable {h'' : Heap}

lemma refl (h : Heap) : Extends h h := ⟨le_rfl, fun _ _ => rfl⟩

lemma trans (h1 : Extends h h') (h2 : Extends h' h'') : Extends h h'' :=
  ⟨h1.next.trans h2.next, fun q hq =>
    (h2.obj q (hq.trans_le h1.next)).trans (h1.obj q hq)⟩

lemma byte (he : Extends h h') (hwf : h.WF) (hwf' : h'.WF) (hp : p < h.next) (a : Nat) :
    h'.byte p a = h.byte p a := by
  have hobj := he.obj p hp
  cases hk : (h.obj p).kind with
  | copyOnWrite q =>
    obtain ⟨data, hq⟩ := hwf.parent p q hk
    have hobjq := he.obj q (hwf.parent_lt hk)
    rw [byte_of_cow hwf' (by rwa [hobj]), byte_of_cow hwf hk,
      byte_of_array (by rwa [hobjq]), byte_of_array hq, hobjq]
  | array data => rw [byte_of_array (by rwa [hobj]), byte_of_array hk, hobj]
  | empty => rw [byte_of_empty (by rwa [hobj]), byte_of_empty hk]
  | invalid => rw [byte_of_invalid (by rwa [hobj]), byte_of_invalid hk]

end Extends

lemma WF.alloc (hwf : h.WF) (hr : ∀ q, r.kind ≠ .copyOnWrite q) : (h.alloc r).1.WF := by
  -- a parent link of the new heap is one of the old heap
  have hlink : ∀ p q, ((h.alloc r).1.obj p).kind = .copyOnWrite q →
      p ≠ h.next ∧ q ≠ h.next ∧ (h.obj p).kind = .copyOnWrite q := by
    intro p q hk
    have hp : p ≠ h.next := by
      rintro rfl
      rw [alloc_obj_self] at hk
      exact hr q hk
    rw [alloc_obj_of_ne h r hp] at hk
    exact ⟨hp, Nat.ne_of_lt (hwf.parent_lt hk), hk⟩
  constructor
  · intro p hp
    rw [alloc_obj_of_ne h r (Nat.ne_of_gt hp)]
    exact hwf.unused p (Nat.le_of_lt hp)
  all_goals
    intro p q hk
    obtain ⟨hp, hq, hk'⟩ := hlink p q hk
    simp only [alloc_obj_of_ne h r hp, alloc_obj_of_ne h r hq]
  · exact hwf.parent p q hk'
  · exact hwf.base p q hk'
  · exact hwf.limit p q hk'
  · exact hwf.offset p q hk'

lemma WF.alloc_cow (hwf : h.WF) (hr : r.kind = .copyOnWrite q) (hq : (h.obj q).IsArray)
    (hb : (h.obj q).baseAddress = r.baseAddress) (hl : (h.obj q).limitAddress = r.limitAddress)
    (ho : (h.obj q).offset = r.offset) : (h.alloc r).1.WF := by
  have hqlt : q < h.next := by
    by_contra hge
    obtain ⟨data, hd⟩ := hq
    rw [hwf.unused q (Nat.not_lt.mp hge)] at hd
    simp at hd
  -- every parent link, the new one included, points to an old cell
  have hlink : ∀ p q', ((h.alloc r).1.obj p).kind = .copyOnWrite q' →
      q' ≠ h.next ∧ ((p = h.next ∧ q' = q) ∨ (p ≠ h.next ∧ (h.obj p).kind = .copyOnWrite q')) := by
    intro p q' hk
    by_cases hp : p = h.next
    · rw [hp, alloc_obj_self, hr] at hk
      injection hk with hk
      exact ⟨hk ▸ hqlt.ne, .inl ⟨hp, hk.symm⟩⟩
    rw [alloc_obj_of_ne h r hp] at hk
    exact ⟨Nat.ne_of_lt (hwf.parent_lt hk), .inr ⟨hp, hk⟩⟩
  constructor
  · intro p hp
    rw [alloc_obj_of_ne h r (Nat.ne_of_gt hp)]
    exact hwf.unused p (Nat.le_of_lt hp)
  all_goals
    intro p q' hk
    obtain ⟨hq', hcase⟩ := hlink p q' hk
    rw [alloc_obj_of_ne h r hq']
    rcases hcase with ⟨rfl, rfl⟩ | ⟨hp, hk'⟩
  · exact hq
  · exact hwf.parent p q' hk'
  · rw [alloc_obj_self]; exact hb
  · rw [alloc_obj_of_ne h r hp]; exact hwf.base p q' hk'
  · rw [alloc_obj_self]; exact hl
  · rw [alloc_obj_of_ne h r hp]; exact hwf.limit p q' hk'
  · rw [alloc_obj_self]; exact ho
  · rw [alloc_obj_of_ne h r hp]; exact hwf.offset p q' hk'

lemma extends_alloc (h : Heap) (r : MappedRange) : Extends h (h.alloc r).1 :=
  ⟨Nat.le_succ _, fun _ hq => alloc_obj_of_ne h r hq.ne⟩

/-- What `Copy` of `[b, l)` has done. -/
structure Copied (h h' : Heap) (p p' : MemoryMapPtr) (b l : Nat) : Prop where
  wf : h'.WF
  ext : Extends h h'
  next : h'.next = h.next + 1
  ptr : p' = h.next
  base : (h'.obj p').baseAddress = b
  limit : (h'.obj p').limitAddress = l
  offset : (h'.obj p').offset = wrap64 ((h.obj p).offset + sub64 b (h.obj p).baseAddress)
  invalid : (h'.obj p').kind = .invalid ↔ (h.obj p).kind = .invalid
  empty : (h'.obj p').kind = .empty ↔ (h.obj p).kind = .empty
  notCow : ∀ q, (h'.obj p').kind ≠ .copyOnWrite q
  uncached : (h'.obj p').codeVersionIsValid = false
  held : ∀ a, (h.obj p).contains a = true → b ≤ a → a < l → h'.byte p' a = h.byte p a

lemma copied_alloc (hwf : h.WF) {name : List UInt8} {kind : MapKind}
    (hkind : ∀ q, kind ≠ .copyOnWrite q) (hinv : kind = .invalid ↔ (h.obj p).kind = .invalid)
    (hempty : kind = .empty ↔ (h.obj p).kind = .empty)
    (hheld : ∀ h' : Heap, h'.WF → (h'.obj h.next).kind = kind → (h'.obj h.next).baseAddress = b → ∀
      a, (h.obj p).contains a = true → b ≤ a → a < l → h'.byte h.next a = h.byte p a) :
    Copied h (h.alloc (newRange b l (some name)
      (wrap64 ((h.obj p).offset + sub64 b (h.obj p).baseAddress)) kind)).1 p h.next b l := by
  have hwf' := hwf.alloc (r := newRange b l (some name)
    (wrap64 ((h.obj p).offset + sub64 b (h.obj p).baseAddress)) kind) hkind
  exact
    { wf := hwf'
      ext := extends_alloc h _
      next := rfl
      ptr := rfl
      base := by rw [alloc_obj_self]; rfl
      limit := by rw [alloc_obj_self]; rfl
      offset := by rw [alloc_obj_self]; rfl
      invalid := by rw [alloc_obj_self]; exact hinv
      empty := by rw [alloc_obj_self]; exact hempty
      notCow := by rw [alloc_obj_self]; exact hkind
      uncached := by rw [alloc_obj_self]; rfl
      held := hheld _ hwf' (by rw [alloc_obj_self]; rfl) (by rw [alloc_obj_self]; rfl) }

lemma copy_spec (hwf : h.WF) {p' : MemoryMapPtr} (hlt : (h.obj p).limitAddress < 2 ^ 64)
    (hc : h.copy p b l = some (h', p')) : Copied h h' p p' b l := by
  unfold copy at hc
  cases hk : (h.obj p).kind with
  | invalid =>
    simp only [hk, Option.some.injEq] at hc
    obtain ⟨rfl, rfl⟩ := Prod.mk.inj hc
    refine copied_alloc hwf (by simp) (by simp [hk]) (by simp [hk]) ?_
    intro h' _ hkind _ a _ _ _
    rw [byte_of_invalid hkind, byte_of_invalid hk]
  | empty =>
    simp only [hk, Option.some.injEq] at hc
    obtain ⟨rfl, rfl⟩ := Prod.mk.inj hc
    refine copied_alloc hwf (by simp) (by simp [hk]) (by simp [hk]) ?_
    intro h' _ hkind _ a _ _ _
    rw [byte_of_empty hkind, byte_of_empty hk]
  | array data =>
    simp only [hk, Option.map_eq_some_iff] at hc
    obtain ⟨r, hr, hc⟩ := hc
    unfold newArray at hr
    simp only at hr
    split at hr
    · split at hr
      · simp only [Option.some.injEq] at hr
        subst hr
        obtain ⟨rfl, rfl⟩ := Prod.mk.inj hc
        refine copied_alloc hwf (by simp) (by simp [hk]) (by simp [hk]) ?_
        intro h' _ hkind hbase a hin hba hal
        have halt : a < 2 ^ 64 := by
          have := (contains_iff.mp hin).2
          omega
        rw [byte_of_array hkind, hbase, sub64_of_le hba halt]
        have hback : b + (a - b) = a := by omega
        rw [hback, if_pos ⟨hal, hin⟩, byte_of_array hk]
      · simp at hr
    · simp at hr
  | copyOnWrite q =>
  simp only [hk] at hc
  simp at hc

lemma copy_isSome (hk : ∀ q, (h.obj p).kind ≠ .copyOnWrite q)
    (hpg : (h.obj p).IsArray → b % 4096 = 0 ∧ l % 4096 = 0 ∧ l < 2 ^ 64 ∧ b ≤ l) :
    ∃ h' p', h.copy p b l = some (h', p') := by
  unfold copy
  cases hkind : (h.obj p).kind with
  | invalid => simp only [hkind]; exact ⟨_, _, rfl⟩
  | empty => simp only [hkind]; exact ⟨_, _, rfl⟩
  | array data =>
    obtain ⟨hb, hl, hlt, hle⟩ := hpg ⟨data, hkind⟩
    simp only [hkind]
    rw [newArray_eq_some hb hl hlt hle]
    exact ⟨_, _, rfl⟩
  | copyOnWrite q => exact absurd hkind (hk q)

lemma copy_of_cow (hk : (h.obj p).kind = .copyOnWrite q) (b l : Nat) : h.copy p b l = none := by
  unfold copy
  simp only [hk]

/-- Range `p'` is now what `p` was: it has the same extent and holds the same bytes. -/
structure Alike (h h' : Heap) (p p' : MemoryMapPtr) : Prop where
  base : (h'.obj p').baseAddress = (h.obj p).baseAddress
  limit : (h'.obj p').limitAddress = (h.obj p).limitAddress
  offset : (h'.obj p').offset = (h.obj p).offset
  invalid : (h'.obj p').kind = .invalid ↔ (h.obj p).kind = .invalid
  empty : (h'.obj p').kind = .empty ↔ (h.obj p).kind = .empty
  held : ∀ a, h'.byte p' a = h.byte p a

/-- The range is where it was and holds what it held. -/
abbrev Kept (h h' : Heap) (p : MemoryMapPtr) : Prop := Alike h h' p p

lemma Kept.refl (h : Heap) (p : MemoryMapPtr) : Kept h h p :=
  ⟨rfl, rfl, rfl, Iff.rfl, Iff.rfl, fun _ => rfl⟩

lemma Alike.trans {h'' : Heap} {p' p'' : MemoryMapPtr} (h1 : Alike h h' p p')
    (h2 : Alike h' h'' p' p'') : Alike h h'' p p'' :=
  ⟨h2.base.trans h1.base, h2.limit.trans h1.limit, h2.offset.trans h1.offset,
    h2.invalid.trans h1.invalid, h2.empty.trans h1.empty,
    fun a => (h2.held a).trans (h1.held a)⟩

lemma Extends.kept (he : Extends h h') (hwf : h.WF) (hwf' : h'.WF) (hp : p < h.next) :
    Kept h h' p := by
  have hobj := he.obj p hp
  exact ⟨by rw [hobj], by rw [hobj], by rw [hobj], by rw [hobj], by rw [hobj],
    he.byte hwf hwf' hp⟩

/-- What `Clone` does: `p'` is a fresh range with the extent and the bytes of `p`, and only `p`
itself can have changed class. -/
structure Cloned (h h' : Heap) (p p' : MemoryMapPtr) : Prop extends Alike h h' p p' where
  wf : h'.WF
  next : h.next ≤ h'.next
  frame : ∀ q, q < h.next → q ≠ p → h'.obj q = h.obj q
  self : h'.obj p = h.obj p ∨ ((h.obj p).IsArray ∧ ¬ (h'.obj p).IsArray)
  kept : Kept h h' p
  fresh : h.next ≤ p'
  lt : p' < h'.next
  uncached : ∀ q, h.next ≤ q → q < h'.next → (h'.obj q).codeVersionIsValid = false
  -- a parent of the new heap was one before, or is fresh and not the clone
  parents : ∀ q q', (h'.obj q).kind = .copyOnWrite q' →
    (∃ r, (h.obj r).kind = .copyOnWrite q') ∨ (h.next ≤ q' ∧ q' ≠ p')

lemma cloned_alloc (hp : p < h.next) (hwf : h.WF) (hwf' : (h.alloc r).1.WF)
    (hb : r.baseAddress = (h.obj p).baseAddress) (hl : r.limitAddress = (h.obj p).limitAddress)
    (ho : r.offset = (h.obj p).offset) (hk : r.kind = (h.obj p).kind)
    (hcode : r.codeVersionIsValid = false) (hna : ¬ (h.obj p).IsArray) :
    Cloned h (h.alloc r).1 p h.next := by
  have hext := extends_alloc h r
  have hself := alloc_obj_self h r
  refine
    { wf := hwf'
      next := Nat.le_succ _
      frame := fun q hq _ => hext.obj q hq
      self := .inl (hext.obj p hp)
      kept := hext.kept hwf hwf' hp
      fresh := le_rfl
      lt := Nat.lt_succ_self _
      base := by rw [hself]; exact hb
      limit := by rw [hself]; exact hl
      offset := by rw [hself]; exact ho
      invalid := by rw [hself, hk]
      empty := by rw [hself, hk]
      held := ?_
      uncached := ?_
      parents := ?_ }
  · intro a
    have hkind : ((h.alloc r).1.obj h.next).kind = (h.obj p).kind := by rw [hself]; exact hk
    cases hkp : (h.obj p).kind with
    | invalid => rw [byte_of_invalid (hkind.trans hkp), byte_of_invalid hkp]
    | empty => rw [byte_of_empty (hkind.trans hkp), byte_of_empty hkp]
    | array data => exact absurd ⟨data, hkp⟩ hna
    | copyOnWrite q =>
    rw [byte_of_cow hwf' (hkind.trans hkp), byte_of_cow hwf hkp,
      hext.byte hwf hwf' (hwf.parent_lt hkp)]
  · intro q hq hlt
    have hqn : q = h.next := Nat.le_antisymm (Nat.lt_succ_iff.mp hlt) hq
    rwa [hqn, hself]
  · intro q q' hq
    left
    by_cases hqn : q = h.next
    · rw [hqn, hself, hk] at hq
      exact ⟨p, hq⟩
    rw [alloc_obj_of_ne h r hqn] at hq
    exact ⟨q, hq⟩

/-- A copy-on-write range over `parent`. -/
def viewOf (r : MappedRange) (parent : MemoryMapPtr) : MappedRange :=
  newRange r.baseAddress r.limitAddress (some (copyName (some r.name))) r.offset
    (.copyOnWrite parent)

/-- The heap after cloning an array: the data went to the cell `h.next`, and the original and the
clone are views of it. -/
lemma clone_array (hp : p < h.next) (hk : (h.obj p).kind = .array data) :
    (h.clone p).2 = h.next + 1 ∧ (h.clone p).1.next = h.next + 2 ∧
      ∀ q, (h.clone p).1.obj q =
        if q = p ∨ q = h.next + 1 then viewOf (h.obj p) h.next
        else if q = h.next then
          newRange (h.obj p).baseAddress (h.obj p).limitAddress (some (h.obj p).name)
            (h.obj p).offset (.array data)
        else h.obj q := by
  have hne : h.next ≠ p := hp.ne'
  -- a view of the moved array, in whatever heap it is built
  have hview : ∀ g : Heap, g.obj h.next = newRange (h.obj p).baseAddress (h.obj p).limitAddress
      (some (h.obj p).name) (h.obj p).offset (.array data) →
      g.copyOnWriteOf h.next = viewOf (h.obj p) h.next := by
    intro g hg
    unfold copyOnWriteOf
    rw [root_of_array (d := data) (by rw [hg]; rfl), hg]
    rfl
  simp only [clone, hk, alloc_ptr]
  rw [hview _ (alloc_obj_self h _)]
  rw [hview _ (by rw [set_obj_of_ne _ _ hne, alloc_obj_self])]
  refine ⟨rfl, rfl, fun q => ?_⟩
  by_cases hq : q = h.next + 1
  · rw [if_pos (.inr hq), hq]
    exact alloc_obj_self _ _
  rw [alloc_obj_of_ne _ _ hq]
  by_cases hqp : q = p
  · rw [if_pos (.inl hqp), hqp, set_obj_self]
  rw [set_obj_of_ne _ _ hqp, if_neg (by tauto)]
  by_cases hqn : q = h.next
  · rw [if_pos hqn, hqn, alloc_obj_self]
  · rw [if_neg hqn, alloc_obj_of_ne _ _ hqn]

lemma cloned_array (hwf : h.WF) (hp : p < h.next) (hnp : h.NotParent p)
    (hk : (h.obj p).kind = .array data) : Cloned h (h.clone p).1 p (h.clone p).2 := by
  obtain ⟨hptr, hnext, hobj⟩ := clone_array hp hk
  generalize (h.clone p).1 = h' at hnext hobj ⊢
  rw [hptr]
  have hne : p ≠ h.next := hp.ne
  have hself : h'.obj p = viewOf (h.obj p) h.next := by rw [hobj, if_pos (.inl rfl)]
  have hfresh : h'.obj (h.next + 1) = viewOf (h.obj p) h.next := by rw [hobj, if_pos (.inr rfl)]
  have hmoved : h'.obj h.next = newRange (h.obj p).baseAddress (h.obj p).limitAddress
      (some (h.obj p).name) (h.obj p).offset (.array data) := by
    have hout : ¬ (h.next = p ∨ h.next = h.next + 1) := by
      rintro (heq | heq)
      · exact hne heq.symm
      · exact Nat.succ_ne_self _ heq.symm
    rw [hobj, if_neg hout, if_pos rfl]
  have hframe : ∀ q, q < h.next → q ≠ p → h'.obj q = h.obj q := by
    intro q hq hqp
    have hout : ¬ (q = p ∨ q = h.next + 1) := by
      rintro (heq | heq)
      · exact hqp heq
      · exact absurd hq (by rw [heq]; exact Nat.not_succ_lt_self)
    rw [hobj, if_neg hout, if_neg hq.ne]
  -- the parent links of the new heap
  have hlink : ∀ q q', (h'.obj q).kind = .copyOnWrite q' →
      (h'.obj q = viewOf (h.obj p) h.next ∧ q' = h.next) ∨
      (h'.obj q = h.obj q ∧ (h.obj q).kind = .copyOnWrite q' ∧ h'.obj q' = h.obj q') := by
    intro q q' hq
    by_cases hqv : q = p ∨ q = h.next + 1
    · have hview : h'.obj q = viewOf (h.obj p) h.next := by rw [hobj, if_pos hqv]
      rw [hview] at hq
      injection hq with hq
      exact .inl ⟨hview, hq.symm⟩
    by_cases hqn : q = h.next
    · rw [hqn, hmoved] at hq
      exact absurd hq (by simp [newRange])
    have hsame : h'.obj q = h.obj q := by rw [hobj, if_neg hqv, if_neg hqn]
    rw [hsame] at hq
    refine .inr ⟨hsame, hq, hframe q' (hwf.parent_lt hq) ?_⟩
    rintro rfl
    exact hnp q hq
  have hwf' : h'.WF := by
    constructor
    · intro q hq
      rw [hnext] at hq
      have hq1 : q ≠ p := Nat.ne_of_gt (by exact Nat.lt_of_lt_of_le hp (by omega))
      have hq2 : q ≠ h.next + 1 := Nat.ne_of_gt (by omega)
      have hq3 : q ≠ h.next := Nat.ne_of_gt (by omega)
      rw [hobj, if_neg (by tauto), if_neg hq3]
      exact hwf.unused q (Nat.le_trans (by omega) hq)
    all_goals
      intro q q' hq
      rcases hlink q q' hq with ⟨hview, rfl⟩ | ⟨hsame, hq', hsame'⟩
    · exact ⟨data, by rw [hmoved]; rfl⟩
    · rw [hsame']; exact hwf.parent q q' hq'
    · rw [hmoved, hview]; rfl
    · rw [hsame, hsame']; exact hwf.base q q' hq'
    · rw [hmoved, hview]; rfl
    · rw [hsame, hsame']; exact hwf.limit q q' hq'
    · rw [hmoved, hview]; rfl
    · rw [hsame, hsame']; exact hwf.offset q q' hq'
  have hcow : (viewOf (h.obj p) h.next).kind = .copyOnWrite h.next := rfl
  -- both views read the moved array, which holds what the original held
  have halike : ∀ q, h'.obj q = viewOf (h.obj p) h.next → Alike h h' p q := by
    intro q hq
    refine ⟨by rw [hq]; rfl, by rw [hq]; rfl, by rw [hq]; rfl, by rw [hq, hcow, hk]; simp,
      by rw [hq, hcow, hk]; simp, fun a => ?_⟩
    rw [byte_of_cow hwf' (q := h.next) (by rw [hq]; rfl),
      byte_of_array (d := data) (by rw [hmoved]; rfl), byte_of_array hk, hmoved]
    rfl
  exact
    { wf := hwf'
      next := by rw [hnext]; omega
      frame := hframe
      self := .inr ⟨⟨data, hk⟩, by rintro ⟨d, hd⟩; rw [hself, hcow] at hd; cases hd⟩
      kept := halike p hself
      toAlike := halike _ hfresh
      fresh := Nat.le_succ _
      lt := by rw [hnext]; exact Nat.lt_succ_self _
      uncached := by
        intro q hq hlt
        rw [hnext] at hlt
        rcases Nat.lt_succ_iff_lt_or_eq.mp hlt with hlt | heq
        · have hqn : q = h.next := Nat.le_antisymm (Nat.lt_succ_iff.mp hlt) hq
          rw [hqn, hmoved]
          rfl
        rw [heq, hfresh]
        rfl
      parents := by
        intro q q' hq
        rcases hlink q q' hq with ⟨_, rfl⟩ | ⟨_, hq', _⟩
        · exact .inr ⟨le_rfl, (Nat.succ_ne_self _).symm⟩
        · exact .inl ⟨q, hq'⟩ }

lemma clone_spec (hwf : h.WF) (hp : p < h.next) (hnp : h.NotParent p) :
    Cloned h (h.clone p).1 p (h.clone p).2 := by
  cases hk : (h.obj p).kind with
  | array data => exact cloned_array hwf hp hnp hk
  | invalid | empty =>
    simp only [clone, hk]
    exact cloned_alloc hp hwf (hwf.alloc (by simp [newRange])) rfl rfl rfl hk.symm rfl
      (by rintro ⟨d, hd⟩; rw [hk] at hd; cases hd)
  | copyOnWrite q =>
  obtain ⟨data, hq⟩ := hwf.parent p q hk
  have hkind : (h.copyOnWriteOf q).kind = .copyOnWrite q := by
    unfold copyOnWriteOf
    rw [root_of_array hq]
    rfl
  simp only [clone, hk]
  exact cloned_alloc hp hwf (hwf.alloc_cow hkind ⟨data, hq⟩ rfl rfl rfl)
    (hwf.base p q hk) (hwf.limit p q hk) (hwf.offset p q hk) (hkind.trans hk.symm) rfl
    (by rintro ⟨d, hd⟩; rw [hk] at hd; cases hd)

end Heap

end Vmill
