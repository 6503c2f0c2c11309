import Vmill.Program.MappedRange
import Vmill.Base.Overwrite

/-!
# The heap of range objects

The byte a range holds at an address (`Heap.byte`), and one specification lemma for each operation
on ranges. The parent of a copy-on-write range is an array, so every `parent` chain has length one.
-/

namespace Vmill

open Base

/-- A well-formed heap: cells from `next` on are unused, and the parent of a
copy-on-write range is an array of the same extent. -/
structure Heap.WF (h : Heap) : Prop where
  unused : ∀ p, h.next ≤ p → (h.obj p).kind = .invalid
  parent : ∀ p q, (h.obj p).kind = .copyOnWrite q → ∃ data, (h.obj q).kind = .array data
  base : ∀ p q, (h.obj p).kind = .copyOnWrite q → (h.obj q).baseAddress = (h.obj p).baseAddress
  limit : ∀ p q, (h.obj p).kind = .copyOnWrite q →
    (h.obj q).limitAddress = (h.obj p).limitAddress
  offset : ∀ p q, (h.obj p).kind = .copyOnWrite q → (h.obj q).offset = (h.obj p).offset

namespace Heap

variable {a : Nat} {p q : MemoryMapPtr} {h : Heap} {d : Nat → UInt8}

/-- The byte that a range holds at an address. -/
def byte (h : Heap) (p : MemoryMapPtr) (address : Nat) : UInt8 := (h.read p address).2

lemma contains_iff {r : MappedRange} :
    r.contains a = true ↔ r.baseAddress ≤ a ∧ a < r.limitAddress := by
  simp [MappedRange.contains]

@[simp] lemma set_next (h : Heap) (p : MemoryMapPtr) (r : MappedRange) :
    (h.set p r).next = h.next := rfl

@[simp] lemma set_obj_self (h : Heap) (p : MemoryMapPtr) (r : MappedRange) :
    (h.set p r).obj p = r := by simp [set]

lemma set_obj_of_ne (h : Heap) (r : MappedRange) (hne : q ≠ p) :
    (h.set p r).obj q = h.obj q := by simp [set, hne]

@[simp] lemma alloc_next (h : Heap) (r : MappedRange) : (h.alloc r).1.next = h.next + 1 := rfl

@[simp] lemma alloc_ptr (h : Heap) (r : MappedRange) : (h.alloc r).2 = h.next := rfl

@[simp] lemma alloc_obj_self (h : Heap) (r : MappedRange) : (h.alloc r).1.obj h.next = r := by
  simp [alloc]

lemma alloc_obj_of_ne (h : Heap) (r : MappedRange) (hne : q ≠ h.next) :
    (h.alloc r).1.obj q = h.obj q := by simp [alloc, hne]

lemma root_of_not_cow (hk : ∀ q, (h.obj p).kind ≠ .copyOnWrite q) : h.root p = p := by
  unfold root
  cases h.next with
  | zero => rfl
  | succ n =>
  unfold rootFrom
  split
  · rename_i q hq
    exact absurd hq (hk q)
  · rfl

lemma root_of_cow (hwf : h.WF) (hk : (h.obj p).kind = .copyOnWrite q) : h.root p = q := by
  obtain ⟨data, hq⟩ := hwf.parent p q hk
  unfold root
  cases hn : h.next with
  | zero =>
    have := hwf.unused q (by omega)
    rw [hq] at this
    simp at this
  | succ n =>
  unfold rootFrom
  rw [hk]
  cases n with
  | zero => rfl
  | succ m =>
  simp only [rootFrom]
  rw [hq]

lemma WF.parent_lt (hwf : h.WF) (hk : (h.obj p).kind = .copyOnWrite q) : q < h.next := by
  obtain ⟨data, hq⟩ := hwf.parent p q hk
  by_contra hge
  rw [hwf.unused q (Nat.not_lt.mp hge)] at hq
  simp at hq

lemma root_of_array (hk : (h.obj p).kind = .array d) : h.root p = p :=
  root_of_not_cow (by simp [hk])

lemma isValid_iff (hwf : h.WF) : h.isValid p = true ↔ (h.obj p).kind ≠ .invalid := by
  unfold isValid
  cases hk : (h.obj p).kind with
  | copyOnWrite q =>
    obtain ⟨data, hq⟩ := hwf.parent p q hk
    rw [root_of_cow hwf hk, hq]
    simp
  | _ =>
  rw [root_of_not_cow (by simp [hk]), hk]
  simp

lemma isValid_eq_false_iff (hwf : h.WF) : h.isValid p = false ↔ (h.obj p).kind = .invalid := by
  rw [← Bool.not_eq_true, isValid_iff hwf, not_not]

lemma read_eq (h : Heap) (hwf : h.WF) (p : MemoryMapPtr) (a : Nat) :
    h.read p a = (h.isValid p, h.byte p a) := by
  unfold byte
  refine Prod.ext ?_ rfl
  unfold read isValid
  cases hk : (h.obj (h.root p)).kind with
  | copyOnWrite q =>
    exfalso
    cases hp : (h.obj p).kind with
    | copyOnWrite q' =>
      obtain ⟨data, hq⟩ := hwf.parent p q' hp
      rw [root_of_cow hwf hp, hq] at hk
      simp at hk
    | _ =>
    rw [root_of_not_cow (by simp [hp]), hp] at hk
    simp at hk
  | _ => simp [hk]

lemma read_of_invalid (hk : (h.obj p).kind = .invalid) (a : Nat) : h.read p a = (false, 0) := by
  unfold read
  rw [root_of_not_cow (by simp [hk])]
  simp only [hk]

lemma byte_of_invalid (hk : (h.obj p).kind = .invalid) (a : Nat) : h.byte p a = 0 := by
  unfold byte
  rw [read_of_invalid hk]

lemma byte_of_array (hk : (h.obj p).kind = .array d) (a : Nat) :
    h.byte p a = d (sub64 a (h.obj p).baseAddress) := by
  unfold byte read
  rw [root_of_array hk]
  simp only [hk]

lemma byte_of_empty (hk : (h.obj p).kind = .empty) (a : Nat) : h.byte p a = 0 := by
  unfold byte read
  rw [root_of_not_cow (by simp [hk])]
  simp only [hk]

lemma byte_of_cow (hwf : h.WF) (hk : (h.obj p).kind = .copyOnWrite q) (a : Nat) :
    h.byte p a = h.byte q a := by
  obtain ⟨data, hq⟩ := hwf.parent p q hk
  unfold byte read
  rw [root_of_cow hwf hk, root_of_array hq]

lemma toReadOnlyVirtualAddress_isSome (h : Heap) (p : MemoryMapPtr) (a : Nat) :
    (h.toReadOnlyVirtualAddress p a).isSome = (h.read p a).1 := by
  unfold toReadOnlyVirtualAddress read
  dsimp only
  cases (h.obj (h.root p)).kind <;> rfl

/-- The parent of a copy-on-write range is an object in use that starts where the range does. -/
def Rooted (h : Heap) : Prop :=
  ∀ p q, (h.obj p).kind = .copyOnWrite q →
    q < h.next ∧ (h.obj q).baseAddress = (h.obj p).baseAddress

lemma WF.rooted {h : Heap} (hwf : h.WF) : h.Rooted :=
  fun p q hk => ⟨hwf.parent_lt hk, hwf.base p q hk⟩

lemma Rooted.rootFrom (hr : h.Rooted) (fuel : Nat) (p : MemoryMapPtr) :
    (h.obj (h.rootFrom fuel p)).baseAddress = (h.obj p).baseAddress ∧
      (p < h.next → h.rootFrom fuel p < h.next) := by
  induction fuel generalizing p with
  | zero => exact ⟨rfl, id⟩
  | succ fuel ih =>
  unfold Heap.rootFrom
  split
  · rename_i q hk
    obtain ⟨hlt, hbase⟩ := hr p q hk
    exact ⟨(ih q).1.trans hbase, fun _ => (ih q).2 hlt⟩
  · exact ⟨rfl, id⟩

/-- The pointer and the byte reads of a range come from one object. -/
lemma Rooted.read_eq (hr : h.Rooted) {ptr : Nat → UInt8}
    (hptr : h.toReadOnlyVirtualAddress p a = some ptr) (hle : (h.obj p).baseAddress ≤ a) {i : Nat}
    (hi : a + i < 2 ^ 64) : h.read p (a + i) = (true, ptr i) := by
  have hbase : (h.obj (h.root p)).baseAddress = (h.obj p).baseAddress := (hr.rootFrom _ p).1
  unfold toReadOnlyVirtualAddress at hptr
  unfold read
  dsimp only at hptr ⊢
  cases hk : (h.obj (h.root p)).kind with
  | array data =>
    obtain rfl := Option.some.inj (hk ▸ hptr)
    simp only [hbase, sub64_of_le hle (show a < 2 ^ 64 by omega),
      sub64_of_le (show (h.obj p).baseAddress ≤ a + i by omega) hi, Nat.sub_add_comm hle]
  | empty =>
    obtain rfl := Option.some.inj (hk ▸ hptr)
    rfl
  | _ =>
  rw [hk] at hptr
  cases hptr

end Heap

/-! ## In-place changes

`Touched P h h'`: no cell was added, every object kept its extent, and only the
objects in `P` may have changed class, to an array. Code versions are free. -/

namespace Heap

/-- Nothing but code versions and the objects in `P` changed, and those only
by becoming arrays or by having array data stored. -/
structure Touched (P : MemoryMapPtr → Prop) (h h' : Heap) : Prop where
  next : h'.next = h.next
  base : ∀ q, (h'.obj q).baseAddress = (h.obj q).baseAddress
  limit : ∀ q, (h'.obj q).limitAddress = (h.obj q).limitAddress
  offset : ∀ q, (h'.obj q).offset = (h.obj q).offset
  kind : ∀ q, (h'.obj q).kind = (h.obj q).kind ∨
    (P q ∧ (h.obj q).kind ≠ .invalid ∧ ∃ data, (h'.obj q).kind = .array data)

/-- No copy-on-write range has `p` as its parent. -/
def NotParent (h : Heap) (p : MemoryMapPtr) : Prop :=
  ∀ q, (h.obj q).kind ≠ .copyOnWrite p

namespace Touched

variable {P Q : MemoryMapPtr → Prop} {h h' h'' : Heap} {p : MemoryMapPtr}

lemma valid (ht : Touched P h h') : Touched (fun q => P q ∧ (h.obj q).kind ≠ .invalid) h h' :=
  { ht with
    kind := fun q => by
      rcases ht.kind q with heq | ⟨hP, hv, harr⟩
      · exact .inl heq
      · exact .inr ⟨⟨hP, hv⟩, hv, harr⟩ }

lemma refl (P : MemoryMapPtr → Prop) (h : Heap) : Touched P h h :=
  ⟨rfl, fun _ => rfl, fun _ => rfl, fun _ => rfl, fun _ => .inl rfl⟩

lemma trans (h1 : Touched P h h') (h2 : Touched P h' h'') : Touched P h h'' := by
  refine ⟨h2.next.trans h1.next, fun q => (h2.base q).trans (h1.base q),
    fun q => (h2.limit q).trans (h1.limit q), fun q => (h2.offset q).trans (h1.offset q), ?_⟩
  intro q
  rcases h2.kind q with heq | ⟨hP, hk, hdata⟩
  · rw [heq]
    exact h1.kind q
  rcases h1.kind q with heq | ⟨_, hk', _⟩
  · exact .inr ⟨hP, heq ▸ hk, hdata⟩
  · exact .inr ⟨hP, hk', hdata⟩

lemma mono (ht : Touched P h h') (hPQ : ∀ q, P q → Q q) : Touched Q h h' := by
  refine ⟨ht.next, ht.base, ht.limit, ht.offset, fun q => ?_⟩
  rcases ht.kind q with heq | ⟨hP, hk, hdata⟩
  · exact .inl heq
  · exact .inr ⟨hPQ q hP, hk, hdata⟩

lemma cow_of_cow (ht : Touched P h h') {q : MemoryMapPtr}
    (hk : (h'.obj p).kind = .copyOnWrite q) : (h.obj p).kind = .copyOnWrite q := by
  rcases ht.kind p with heq | ⟨_, _, data, hdata⟩
  · rwa [← heq]
  rw [hdata] at hk
  simp at hk

lemma invalid_iff (ht : Touched P h h') (p : MemoryMapPtr) :
    (h'.obj p).kind = .invalid ↔ (h.obj p).kind = .invalid := by
  rcases ht.kind p with heq | ⟨_, hk, data, hdata⟩
  · rw [heq]
  rw [hdata]
  exact ⟨fun h => absurd h (by simp), fun h => absurd h hk⟩

lemma notParent (ht : Touched P h h') (hp : h.NotParent p) :
    h'.NotParent p := fun q hq => hp q (ht.cow_of_cow hq)

lemma wf (ht : Touched P h h') (hwf : h.WF) : h'.WF := by
  constructor
  · intro p hp
    exact (ht.invalid_iff p).mpr (hwf.unused p (by rwa [← ht.next]))
  · intro p q hk
    obtain ⟨data, hq⟩ := hwf.parent p q (ht.cow_of_cow hk)
    rcases ht.kind q with heq | ⟨_, _, hdata⟩
    · exact ⟨data, heq ▸ hq⟩
    · exact hdata
  · intro p q hk
    rw [ht.base, ht.base]
    exact hwf.base p q (ht.cow_of_cow hk)
  · intro p q hk
    rw [ht.limit, ht.limit]
    exact hwf.limit p q (ht.cow_of_cow hk)
  intro p q hk
  rw [ht.offset, ht.offset]
  exact hwf.offset p q (ht.cow_of_cow hk)

lemma contains (ht : Touched P h h') (p : MemoryMapPtr) (a : Nat) :
    (h'.obj p).contains a = (h.obj p).contains a := by
  unfold MappedRange.contains
  rw [ht.base, ht.limit]

lemma isValid (ht : Touched P h h') (hwf : h.WF) (p : MemoryMapPtr) :
    h'.isValid p = h.isValid p := by
  have hiff : h'.isValid p = true ↔ h.isValid p = true := by
    rw [isValid_iff (ht.wf hwf), isValid_iff hwf, not_iff_not]
    exact ht.invalid_iff p
  exact Bool.eq_iff_iff.mpr hiff

lemma byte (ht : Touched P h h') (hwf : h.WF) (hP : ∀ q, P q → h.NotParent q) (hp : ¬ P p)
    (a : Nat) : h'.byte p a = h.byte p a := by
  have hkeep : ∀ q, ¬ P q → (h'.obj q).kind = (h.obj q).kind := by
    intro q hq
    rcases ht.kind q with heq | ⟨hPq, _, _⟩
    · exact heq
    · exact absurd hPq hq
  cases hk : (h.obj p).kind with
  | copyOnWrite q =>
    obtain ⟨data, hq⟩ := hwf.parent p q hk
    have hPq : ¬ P q := fun hPq => hP q hPq p hk
    rw [byte_of_cow (ht.wf hwf) ((hkeep p hp).trans hk), byte_of_cow hwf hk,
      byte_of_array ((hkeep q hPq).trans hq), byte_of_array hq, ht.base]
  | array data =>
    rw [byte_of_array ((hkeep p hp).trans hk), byte_of_array hk, ht.base]
  | empty => rw [byte_of_empty ((hkeep p hp).trans hk), byte_of_empty hk]
  | invalid => rw [byte_of_invalid ((hkeep p hp).trans hk), byte_of_invalid hk]

end Touched

end Heap

end Vmill
