import Vmill.Runtime.Memory
import Mathlib.Tactic.Common

/-!
# Faults of the current task

From the memory alone one can tell what a handler returns, the memory afterwards, and whether it
faults (`Uniform`).
-/

namespace Vmill

variable {r r' : Task → Task}

/-- `r` records a fault, unless there is one. -/
structure Records (r : Task → Task) : Prop where
  first : ∀ t, t.memAccessFault.kind = .noFault → (r t).memAccessFault.kind ≠ .noFault
  later : ∀ t, t.memAccessFault.kind ≠ .noFault → r t = t

/-- `r` records a fault or does nothing. -/
def Marks (r : Task → Task) : Prop := r = id ∨ Records r

lemma recordFault_records {kind : MemoryAccessFaultKind} (hkind : kind ≠ .noFault)
    (valueType : MemoryValueType) (size addr : Nat) :
    Records (fun t => t.recordFault kind valueType size addr) where
  first t ht := by
    unfold Task.recordFault
    rwa [if_pos ht]
  later t ht := by
    unfold Task.recordFault
    rw [if_neg ht]

lemma Marks.id : Marks id := .inl rfl

lemma Records.comp (h : Records r) (h' : Marks r') : Records (r' ∘ r) where
  first t ht := by
    have hr := h.first t ht
    rcases h' with rfl | h'
    · exact hr
    · rwa [Function.comp_apply, h'.later _ hr]
  later t ht := by
    rw [Function.comp_apply, h.later t ht]
    rcases h' with rfl | h'
    · rfl
    · exact h'.later t ht

lemma Marks.comp (h : Marks r) (h' : Marks r') : Marks (r' ∘ r) := by
  rcases h with rfl | h
  · exact h'
  · exact .inr (h.comp h')

lemma Marks.apply_eq_iff (h : Marks r) {fresh : Task}
    (hfresh : fresh.memAccessFault.kind = .noFault) (t : Task) :
    r t = t ↔ t.memAccessFault.kind ≠ .noFault ∨ r fresh = fresh := by
  rcases h with rfl | h
  · exact ⟨fun _ => .inr rfl, fun _ => rfl⟩
  constructor
  · intro heq
    refine .inl fun hnone => h.first t hnone ?_
    rwa [heq]
  rintro (ht | heq)
  · exact h.later t ht
  refine absurd ?_ (h.first fresh hfresh)
  rwa [heq]

namespace Guest

variable {α β : Type} {f : Guest → Option (α × Guest)} {g g' : Guest} {a : α}

/-- The function does the same whatever the current task is, and at most records a fault in
it. -/
def Uniform (f : Guest → Option (α × Guest)) : Prop :=
  ∀ s h, (∀ t, f ⟨t, s, h⟩ = none) ∨
    ∃ a s' h' r, Marks r ∧ ∀ t, f ⟨t, s, h⟩ = some (a, ⟨t.map r, s', h'⟩)

lemma Uniform.value (f : Guest → α) (hf : ∀ t t' s h, f ⟨t, s, h⟩ = f ⟨t', s, h⟩) :
    Uniform (fun g => some (f g, g)) := by
  intro s h
  refine .inr ⟨f ⟨none, s, h⟩, s, h, id, Marks.id, fun t => ?_⟩
  show some (f ⟨t, s, h⟩, _) = _
  rw [Option.map_id, id, hf t none]

lemma Uniform.pure (a : α) : Uniform (fun g => some (a, g)) := .value _ fun _ _ _ _ => rfl

lemma Uniform.task_some (hf : Uniform f) {t : Task} (ht : g.task = some t)
    (h : f g = some (a, g')) : ∃ t', g'.task = some t' := by
  obtain ⟨task, s, hp⟩ := g
  rcases hf s hp with hnone | ⟨b, s', h', r, _, hsome⟩
  · exact absurd ((hnone task).symm.trans h) nofun
  obtain ⟨_, rfl⟩ := Prod.mk.inj (Option.mem_unique (hsome task) h)
  obtain rfl : task = some t := ht
  exact ⟨r t, rfl⟩

lemma Uniform.bind {k : α → Guest → Option (β × Guest)} (hf : Uniform f)
    (hk : ∀ a, Uniform (k a)) : Uniform (fun g => (f g).bind fun r => k r.1 r.2) := by
  intro s h
  rcases hf s h with hnone | ⟨a, s1, h1, r1, hr1, hsome⟩
  · left
    intro t
    show (f ⟨t, s, h⟩).bind _ = none
    rw [hnone t]
    rfl
  rcases hk a s1 h1 with hnone | ⟨b, s2, h2, r2, hr2, hsome2⟩
  · left
    intro t
    show (f ⟨t, s, h⟩).bind _ = none
    rw [hsome t]
    exact hnone _
  right
  refine ⟨b, s2, h2, r2 ∘ r1, hr1.comp hr2, fun t => ?_⟩
  show (f ⟨t, s, h⟩).bind _ = _
  rw [hsome t]
  show k a ⟨t.map r1, s1, h1⟩ = _
  rw [hsome2, Option.map_map]

lemma Uniform.cases {f : Guest → Option (β × Guest)} (test : Guest → Option α)
    (k : α → Guest → Option (β × Guest)) (htest : ∀ t t' s h, test ⟨t, s, h⟩ = test ⟨t', s, h⟩)
    (hk : ∀ a, Uniform (k a)) (heq : ∀ g, f g = (test g).bind fun a => k a g) : Uniform f := by
  intro s h
  rcases hfirst : test ⟨none, s, h⟩ with _ | a
  · left
    intro t
    rw [heq, htest t none, hfirst]
    rfl
  have hsame : ∀ t, f ⟨t, s, h⟩ = k a ⟨t, s, h⟩ := by
    intro t
    rw [heq, htest t none, hfirst]
    rfl
  rcases hk a s h with hnone | ⟨b, s', h', r, hr, hsome⟩
  · exact .inl fun t => (hsame t).trans (hnone t)
  · exact .inr ⟨b, s', h', r, hr, fun t => (hsame t).trans (hsome t)⟩

lemma numBytesLoop_congr (g g' : Guest) (heq : g.space.addrMask = g'.space.addrMask)
    {can : Nat → Bool} {addr size fuel i : Nat} :
    g.numBytesLoop can addr size fuel i = g'.numBytesLoop can addr size fuel i := by
  have haddr : ∀ n, g.addrT n = g'.addrT n := by
    intro n
    unfold addrT
    rw [heq]
  induction fuel generalizing i with
  | zero => rfl
  | succ fuel ih => simp only [numBytesLoop, haddr, ih]

lemma readMemory8_uniform (addr : Nat) : Uniform (fun g => some (g.readMemory8 addr)) := by
  intro s h
  right
  rcases hread : s.tryReadByte h addr with ⟨ok, val, s'⟩
  cases ok with
  | true =>
    refine ⟨val, s', h, id, Marks.id, fun t => ?_⟩
    simp only [readMemory8, hread, if_true, Option.map_id, id]
  | false =>
  refine ⟨val, s', h, (·.recordReadFault8 addr),
    .inr (recordFault_records (by decide) _ _ _), fun t => ?_⟩
  simp only [readMemory8, hread, Bool.false_eq_true, if_false]

lemma writeMemory8_uniform (cfg : Config) (addr : Nat) (val : UInt8) :
    Uniform (fun g => (g.writeMemory8 cfg addr val).map ((), ·)) := by
  intro s h
  rcases hwrite : s.tryWriteByte cfg h addr val with _ | ⟨ok, s', h'⟩
  · left
    intro t
    simp only [writeMemory8, hwrite, Option.map_none]
  right
  cases ok with
  | true =>
    refine ⟨(), s', h', id, Marks.id, fun t => ?_⟩
    simp only [writeMemory8, hwrite, Option.map_some, Option.map_id, id]
  | false =>
  refine ⟨(), s', h', (·.recordWriteFault8 addr),
    .inr (recordFault_records (by decide) _ _ _), fun t => ?_⟩
  simp only [writeMemory8, hwrite, Option.map_some]

lemma copyFromLoop_uniform (addr count i : Nat) :
    Uniform (fun g => some (copyFromLoop addr count i g)) := by
  induction count generalizing i with
  | zero => exact Uniform.pure []
  | succ count ih =>
  intro s h
  have hstep := Uniform.bind (readMemory8_uniform ((addr + i) &&& s.addrMask))
    fun val => Uniform.bind (ih (i + 1)) fun vals => Uniform.pure (val :: vals)
  exact hstep s h

lemma copyToLoop_uniform (cfg : Config) (addr : Nat) (vals : List UInt8) (i : Nat) :
    Uniform (fun g => (copyToLoop cfg addr vals i g).map ((), ·)) := by
  induction vals generalizing i with
  | nil => exact Uniform.pure ()
  | cons val vals ih =>
  intro s h
  have hstep := Uniform.bind (writeMemory8_uniform cfg ((addr + i) &&& s.addrMask) val)
    fun _ => ih (i + 1)
  have heq : ∀ t, (copyToLoop cfg addr (val :: vals) i ⟨t, s, h⟩).map ((), ·) =
      ((writeMemory8 cfg ⟨t, s, h⟩ ((addr + i) &&& s.addrMask) val).map ((), ·)).bind
        fun r => (copyToLoop cfg addr vals (i + 1) r.2).map ((), ·) := by
    intro t
    simp only [copyToLoop, addrT]
    rcases writeMemory8 cfg ⟨t, s, h⟩ ((addr + i) &&& s.addrMask) val with _ | g
    · rfl
    · rfl
  rcases hstep s h with hnone | ⟨a, s', h', r, hr, hsome⟩
  · exact .inl fun t => (heq t).trans (hnone t)
  · exact .inr ⟨a, s', h', r, hr, fun t => (heq t).trans (hsome t)⟩

lemma tryReadMemory_uniform (addr size : Nat) : Uniform (fun g => g.tryReadMemory addr size) := by
  refine Uniform.cases (fun g => g.canReadMemory addr size)
    (fun ok g => if ok then some (some (g.copyFromMemory addr size).1,
      (g.copyFromMemory addr size).2) else some (none, g)) ?_ ?_ ?_
  · intro t t' s h
    unfold canReadMemory numReadableBytes
    rw [numBytesLoop_congr ⟨t, s, h⟩ ⟨t', s, h⟩ rfl]
  · rintro (_ | _)
    · exact Uniform.pure none
    · exact Uniform.bind (copyFromLoop_uniform addr size 0) fun bytes => Uniform.pure (some bytes)
  · intro g
    unfold tryReadMemory
    rcases g.canReadMemory addr size with _ | _ | _ <;> rfl

lemma tryWriteMemory_uniform (cfg : Config) (addr : Nat) (data : List UInt8) :
    Uniform (fun g => g.tryWriteMemory cfg addr data) := by
  refine Uniform.cases (fun g => g.canWriteMemory addr data.length)
    (fun ok g => if ok then ((g.copyToMemory cfg addr data).map ((), ·)).bind fun r =>
      some (true, r.2) else some (false, g)) ?_ ?_ ?_
  · intro t t' s h
    unfold canWriteMemory numWritableBytes
    rw [numBytesLoop_congr ⟨t, s, h⟩ ⟨t', s, h⟩ rfl]
  · rintro (_ | _)
    · exact Uniform.pure false
    · exact Uniform.bind (copyToLoop_uniform cfg addr data 0) fun _ => Uniform.pure true
  · intro g
    unfold tryWriteMemory
    rcases g.canWriteMemory addr data.length with _ | _ | _
    · rfl
    · rfl
    show (g.copyToMemory cfg addr data).map (true, ·) = ((g.copyToMemory cfg addr data).map _).bind _
    rcases g.copyToMemory cfg addr data with _ | g' <;> rfl

end Guest

end Vmill
