import Vmill.Executor.CacheIndex
import Vmill.Theorems.Areas

/-!
# What the code cache answers

`Lookup` is determined by the history of all index sections (`firstSeen`). The error message tells
whether all entries of a module are valid (`finalizeMemory_message`); the result of `finalizeMemory`
does not.
-/

namespace Vmill

open Base

/-- The entry is empty, or its function is in the code area. -/
def CacheIndexEntry.Valid (entry : CacheIndexEntry) (code : AreaAllocator) : Prop :=
  entry.traceId.pc = 0 ∨ code.contains entry.liftedFunction = true
deriving Decidable

/-- The entry gives a function for the trace: its `pc` is not zero, and the function was inside
the code area. -/
def SeenEntry.implements (s : SeenEntry) (traceId : TraceId) : Bool :=
  decide (s.entry.traceId = traceId) && decide (traceId.pc ≠ 0) &&
    decide (s.base ≤ s.entry.liftedFunction) && decide (s.entry.liftedFunction < s.bump)

/-- The function of the first entry for the trace. -/
def firstSeen (seen : List SeenEntry) (traceId : TraceId) : Option Nat :=
  (seen.find? (·.implements traceId)).map (·.entry.liftedFunction)

lemma firstSeen_append (seen more : List SeenEntry) (traceId : TraceId) :
    firstSeen (seen ++ more) traceId = (firstSeen seen traceId).or (firstSeen more traceId) := by
  unfold firstSeen
  rw [List.find?_append]
  cases seen.find? (·.implements traceId) <;> rfl

lemma firstSeen_eq_none {seen : List SeenEntry} {traceId : TraceId} :
    firstSeen seen traceId = none ↔ ∀ s ∈ seen, s.implements traceId = false := by
  simp [firstSeen]

lemma AreaAllocator.WF.ne_zero_of_contains {a : AreaAllocator} {maps : List (Nat × Nat)}
    (hwf : a.WF maps) {f : Nat} (hf : a.contains f = true) : f ≠ 0 := by
  simp only [contains, Bool.and_eq_true, decide_eq_true_eq] at hf
  rintro rfl
  have hbump := (hwf.unmapped (Nat.le_zero.mp hf.1)).1
  omega

lemma AreaAllocator.Allocated.contains {a a' : AreaAllocator} {h h' : Host}
    {size align ret f : Nat} (hal : Allocated a h size align ret a' h') (hwf : a.WF h.maps)
    (hf : a.contains f = true) : a'.contains f = true := by
  simp only [AreaAllocator.contains, Bool.and_eq_true, decide_eq_true_eq] at hf ⊢
  have hbehind := hal.behind
  have hends := hal.ends
  rcases hal.base with hzero | hsame
  · have hbump := (hwf.unmapped hzero).1
    omega
  · omega

namespace LoadedCache

/-- An entry, with the code area at that time. -/
def sees (c : LoadedCache) (entry : CacheIndexEntry) : SeenEntry :=
  ⟨entry, (c.allocator .code).base, (c.allocator .code).bump⟩

/-- The entries that finalizing a range reads. -/
def meetsRange (c : LoadedCache) (range : MemoryMap) : List SeenEntry :=
  if !range.isCtors && range.isIndex then (range.indexEntries c.bytes).map c.sees else []

/-- The map has what the entries seen so far say. -/
structure Indexed (c : LoadedCache) (seen : List SeenEntry) : Prop where
  wf : (c.allocator .code).WF (c.maps .code)
  functions : c.liftedFunctions = firstSeen seen
  inside : ∀ traceId f, firstSeen seen traceId = some f → (c.allocator .code).contains f = true

variable {c c' : LoadedCache} {seen : List SeenEntry}

lemma indexed_new (bytes : ByteMem) : (new bytes).Indexed [] where
  wf := AreaAllocator.new_wf (k := 21) _ _ (by decide)
  functions := rfl
  inside _ _ hf := nomatch hf

lemma implements_sees (entry : CacheIndexEntry) (traceId : TraceId) :
    (c.sees entry).implements traceId = true ↔ entry.traceId = traceId ∧ entry.traceId.pc ≠ 0 ∧
      (c.allocator .code).contains entry.liftedFunction = true := by
  simp only [SeenEntry.implements, AreaAllocator.contains, Bool.and_eq_true, decide_eq_true_eq]
  constructor
  · rintro ⟨⟨⟨rfl, hpc⟩, hlo⟩, hhi⟩
    exact ⟨rfl, hpc, hlo, hhi⟩
  rintro ⟨rfl, hpc, hlo, hhi⟩
  exact ⟨⟨⟨rfl, hpc⟩, hlo⟩, hhi⟩

lemma firstSeen_sees (entry : CacheIndexEntry) (traceId : TraceId) :
    firstSeen [c.sees entry] traceId =
      if (c.sees entry).implements traceId then some entry.liftedFunction else none := by
  unfold firstSeen
  cases himp : (c.sees entry).implements traceId with
  | false => simp [himp]
  | true =>
  simp only [List.find?_cons, himp]
  rfl

@[simp] lemma loadEntry_toCodeCache (entry : CacheIndexEntry) (error : ErrorMessage) :
    (c.loadEntry entry error).2.2.toCodeCache = c.toCodeCache := by
  unfold loadEntry
  split
  · rfl
  split
  · rfl
  · rfl

lemma loadEntries_toCodeCache (allGood : Bool) (error : ErrorMessage)
    (entries : List CacheIndexEntry) :
    (c.loadEntries allGood error entries).2.2.toCodeCache = c.toCodeCache := by
  induction entries generalizing c allGood error with
  | nil => rfl
  | cons entry entries ih => exact (ih _ _).trans (loadEntry_toCodeCache entry error)

lemma finalizeRange_toCodeCache (allGood : Bool) (error : ErrorMessage) (range : MemoryMap) :
    (c.finalizeRange allGood error range).2.2.toCodeCache = c.toCodeCache := by
  unfold finalizeRange
  split
  · rfl
  split
  · exact loadEntries_toCodeCache _ _ _
  · rfl

lemma Indexed.inside_append (h : c.Indexed seen) (entry : CacheIndexEntry) {traceId : TraceId}
    {f : Nat} (hf : firstSeen (seen ++ [c.sees entry]) traceId = some f) :
    (c.allocator .code).contains f = true := by
  rw [firstSeen_append, Option.or_eq_some_iff] at hf
  rcases hf with hold | ⟨_, hnew⟩
  · exact h.inside _ _ hold
  rw [firstSeen_sees] at hnew
  split at hnew
  · rename_i himp
    cases hnew
    exact ((implements_sees entry traceId).mp himp).2.2
  · exact nomatch hnew

lemma firstSeen_append_of_not {entry : CacheIndexEntry}
    (hno : ∀ traceId, (c.sees entry).implements traceId = false) :
    firstSeen (seen ++ [c.sees entry]) = firstSeen seen := by
  funext traceId
  rw [firstSeen_append, firstSeen_sees, hno traceId]
  simp

lemma Indexed.loadEntry (h : c.Indexed seen) (entry : CacheIndexEntry) (error : ErrorMessage) :
    (c.loadEntry entry error).2.2.Indexed (seen ++ [c.sees entry]) := by
  refine ⟨by simpa using h.wf, ?_, fun traceId f hf => by simpa using h.inside_append entry hf⟩
  unfold LoadedCache.loadEntry
  split
  case isTrue hpc =>
    rw [firstSeen_append_of_not fun traceId => ?_]
    · exact h.functions
    · exact Bool.eq_false_iff.mpr fun himp => ((implements_sees entry traceId).mp himp).2.1 hpc
  case isFalse hpc =>
    split
    case isTrue hout =>
      rw [firstSeen_append_of_not fun traceId => ?_]
      · exact h.functions
      refine Bool.eq_false_iff.mpr fun himp => ?_
      rw [((implements_sees entry traceId).mp himp).2.2] at hout
      exact nomatch hout
    case isFalse hin =>
      simp only [Bool.not_eq_true', Bool.not_eq_false] at hin
      funext traceId
      simp only [h.functions]
      by_cases hsame : traceId = entry.traceId
      · subst hsame
        have himp := (implements_sees entry entry.traceId).mpr ⟨rfl, hpc, hin⟩
        rw [Function.update_self, firstSeen_append, firstSeen_sees, if_pos himp]
        cases hold : firstSeen seen entry.traceId with
        | none => simp
        | some f =>
        have hne := h.wf.ne_zero_of_contains (h.inside _ _ hold)
        simp [hne]
      have himp : (c.sees entry).implements traceId = false := Bool.eq_false_iff.mpr fun himp =>
        hsame ((implements_sees entry traceId).mp himp).1.symm
      rw [Function.update_of_ne hsame, firstSeen_append, firstSeen_sees, himp]
      simp

lemma Indexed.loadEntries (h : c.Indexed seen) (allGood : Bool) (error : ErrorMessage)
    (entries : List CacheIndexEntry) :
    (c.loadEntries allGood error entries).2.2.Indexed (seen ++ entries.map c.sees) := by
  induction entries generalizing c seen allGood error with
  | nil =>
    rwa [List.map_nil, List.append_nil]
  | cons entry entries ih =>
  have hsees : (c.loadEntry entry error).2.2.sees = c.sees := by
    funext entry'
    unfold sees
    rw [loadEntry_toCodeCache]
  have hindexed := ih (h.loadEntry entry error)
    (allGood && (c.loadEntry entry error).1) (c.loadEntry entry error).2.1
  rwa [hsees, List.append_assoc] at hindexed

lemma Indexed.finalizeRange (h : c.Indexed seen) (allGood : Bool) (error : ErrorMessage)
    (range : MemoryMap) :
    (c.finalizeRange allGood error range).2.2.Indexed (seen ++ c.meetsRange range) := by
  have hmoved : Indexed { c with
      jitRanges := Function.update c.jitRanges range.base (some range) } seen :=
    ⟨h.wf, h.functions, h.inside⟩
  unfold LoadedCache.finalizeRange meetsRange
  cases hctors : range.isCtors with
  | true =>
    simp only [if_true, Bool.not_true, Bool.false_and, Bool.false_eq_true, if_false,
      List.append_nil]
    exact ⟨h.wf, h.functions, h.inside⟩
  | false =>
  cases hindex : range.isIndex with
  | false =>
    simp only [Bool.false_eq_true, if_false, Bool.and_false, List.append_nil]
    exact hmoved
  | true =>
  simp only [Bool.false_eq_true, if_false, Bool.not_false, Bool.and_self, if_true]
  exact hmoved.loadEntries true error _

lemma Indexed.finalizeRanges (h : c.Indexed seen) (allGood : Bool) (error : ErrorMessage)
    (ranges : List MemoryMap) :
    (c.finalizeRanges allGood error ranges).2.2.Indexed
      (seen ++ ranges.flatMap c.meetsRange) := by
  induction ranges generalizing c seen allGood error with
  | nil =>
    rwa [List.flatMap_nil, List.append_nil]
  | cons range ranges ih =>
  have hmeets : (c.finalizeRange allGood error range).2.2.meetsRange = c.meetsRange := by
    funext range'
    unfold meetsRange sees
    rw [finalizeRange_toCodeCache]
  have hindexed := ih (h.finalizeRange allGood error range)
    (c.finalizeRange allGood error range).1 (c.finalizeRange allGood error range).2.1
  rwa [hmeets, List.append_assoc] at hindexed

lemma Indexed.finalizeMemory (h : c.Indexed seen) (order : List Nat) (error : ErrorMessage) :
    (c.finalizeMemory order error).2.2.Indexed (seen ++ c.meets order) := by
  have hindexed := h.finalizeRanges true error (order.filterMap c.pendingJitRanges)
  exact ⟨hindexed.wf, hindexed.functions, hindexed.inside⟩

/-- No address computation of an allocation for code exceeds 64 bits, and the first mapping is
not at null. -/
def CodeFits (c : LoadedCache) : LoadOp → Prop
  | .place op => op.area = .code →
      (c.allocator .code).Fits op.size op.align op.answers.first
  | .link _ _ | .finalize _ _ => True

instance (c : LoadedCache) (op : LoadOp) : Decidable (c.CodeFits op) := by
  cases op <;> unfold CodeFits <;> infer_instance

lemma Indexed.place (h : c.Indexed seen) {op : SectionOp} {base : Nat} {cache : CodeCache}
    (hfits : c.CodeFits (.place op)) (hs : codeCache.step op c.toCodeCache = some (base, cache)) :
    Indexed { c with toCodeCache := cache } seen := by
  obtain ⟨a, host, hal, hallocator, hmaps, _⟩ := CodeCache.step_allocate hs
  by_cases harea : op.area = .code
  · rw [harea] at hal hallocator hmaps
    have hspec := AreaAllocator.allocate_spec (h := ⟨c.maps .code, c.bytes⟩) h.wf (hfits harea) hal
    refine ⟨?_, h.functions, fun traceId f hf => ?_⟩
    · simp only [hallocator, hmaps, Function.update_self]
      exact hspec.wf
    have hin := h.inside traceId f hf
    simp only [hallocator, Function.update_self]
    exact hspec.contains h.wf hin
  have hne : CacheArea.code ≠ op.area := Ne.symm harea
  refine ⟨?_, h.functions, fun traceId f hf => ?_⟩
  · simp only [hallocator, hmaps, Function.update_of_ne hne]
    exact h.wf
  simp only [hallocator, Function.update_of_ne hne]
  exact h.inside traceId f hf

lemma Indexed.step (h : c.Indexed seen) {op : LoadOp} {o : List SeenEntry} (hfits : c.CodeFits op)
    (hs : loadedCache.step op c = some (o, c')) : c'.Indexed (seen ++ o) := by
  cases op with
  | place op =>
    simp only [loadedCache] at hs
    split at hs
    · exact nomatch hs
    rename_i base cache hplace
    cases hs
    rw [List.append_nil]
    exact h.place hfits hplace
  | link addr vals =>
    cases hs
    rw [List.append_nil]
    exact ⟨h.wf, h.functions, h.inside⟩
  | finalize order error =>
  cases hs
  exact h.finalizeMemory order error

lemma known_flatten (os : List (List SeenEntry)) (seen : List SeenEntry) :
    known (fun o seen => seen ++ o) os seen = seen ++ os.flatten := by
  induction os generalizing seen with
  | nil => exact (List.append_nil seen).symm
  | cons o os ih =>
  rw [List.flatten_cons, ← List.append_assoc]
  exact ih (seen ++ o)

lemma indexed_of_run {bytes : ByteMem} {ops : List LoadOp} {os : List (List SeenEntry)}
    (hfits : loadedCache.RunMeets CodeFits ops (new bytes))
    (hrun : loadedCache.run ops (new bytes) = some (os, c)) : c.Indexed os.flatten := by
  have hend := (Machine.run_monitored (I := Indexed) (Q := fun _ _ => True)
    (fun _ _ _ _ _ h hf hs => ⟨trivial, h.step hf hs⟩) (indexed_new bytes) hfits hrun).2
  rwa [known_flatten, List.nil_append] at hend

lemma Indexed.lookup_eq (h : c.Indexed seen) (traceId : TraceId) :
    c.lookup traceId = (firstSeen seen traceId).getD 0 := by
  unfold lookup
  rw [h.functions]
  cases firstSeen seen traceId <;> rfl

lemma Indexed.lookup_eq_zero (h : c.Indexed seen) (traceId : TraceId) :
    c.lookup traceId = 0 ↔ firstSeen seen traceId = none := by
  rw [h.lookup_eq]
  cases hfirst : firstSeen seen traceId with
  | none => simp
  | some f => simp [h.wf.ne_zero_of_contains (h.inside _ _ hfirst)]

end LoadedCache

/-- **Lookup.** After every history of sections placed, linked and finalized, as long as the code
area grows within 64 bits: `Lookup` returns the function of the first entry for the trace with a
`pc` other than zero and an address inside the code area, and null if there was none. A function
stays. -/
theorem lookup_first {bytes : ByteMem} {ops : List LoadOp} {os : List (List SeenEntry)}
    {c : LoadedCache} (hfits : loadedCache.RunMeets LoadedCache.CodeFits ops (.new bytes))
    (hrun : loadedCache.run ops (.new bytes) = some (os, c)) (traceId : TraceId) :
    c.lookup traceId = (firstSeen os.flatten traceId).getD 0 ∧
    (c.lookup traceId = 0 ↔ ∀ s ∈ os.flatten, s.implements traceId = false) ∧
    (c.lookup traceId ≠ 0 → (c.allocator .code).base ≤ c.lookup traceId ∧
      c.lookup traceId < (c.allocator .code).bump) ∧
    ∀ op o c', c.CodeFits op → loadedCache.step op c = some (o, c') →
      (c.lookup traceId ≠ 0 ∨ ∀ s ∈ o, s.implements traceId = false) →
      c'.lookup traceId = c.lookup traceId := by
  have h := LoadedCache.indexed_of_run hfits hrun
  refine ⟨h.lookup_eq traceId, ?_, fun hne => ?_, fun op o c' hop hs hor => ?_⟩
  · rw [h.lookup_eq_zero, firstSeen_eq_none]
  · cases hfirst : firstSeen os.flatten traceId with
    | none => exact absurd ((h.lookup_eq_zero traceId).mpr hfirst) hne
    | some f =>
      have hin := h.inside traceId f hfirst
      simp only [AreaAllocator.contains, Bool.and_eq_true, decide_eq_true_eq] at hin
      rwa [h.lookup_eq, hfirst]
  · rw [(h.step hop hs).lookup_eq, h.lookup_eq, firstSeen_append]
    cases hfirst : firstSeen os.flatten traceId with
    | some f => rfl
    | none =>
      have hnone := hor.resolve_left fun hne => hne ((h.lookup_eq_zero traceId).mpr hfirst)
      rw [firstSeen_eq_none.mpr hnone]
      rfl

def indexBytes (entries : List (Nat × Nat × Nat)) : List UInt8 :=
  entries.flatMap fun (pc, hash, function) =>
    ([pc, hash, function].flatMap fun val => (List.range 8).map fun i => UInt8.ofNat (val / 256 ^ i))

/-- Code, and an index with padding, two entries for one trace and one that is out of the area. -/
def indexedOps : List LoadOp :=
  [.place (.code 100 16 1 (mapsAt 0x80000000 0)),
    .place (.data 96 8 2 ".vindex" false (mapsAt 0x10000000000 0)),
    .link 0x10000000000 (indexBytes [(0, 0, 0), (5, 7, 0x80000010), (5, 7, 0x80000020),
      (6, 7, 0x90000000)]),
    .finalize [1, 2] none]

theorem lookup_first_duplicates :
    ∃ os c, loadedCache.run indexedOps (.new fun _ => 7) = some (os, c) ∧
      c.lookup ⟨5, 7⟩ = 0x80000010 ∧ c.lookup ⟨6, 7⟩ = 0 ∧
      c.lookup ⟨5, 7⟩ = (firstSeen os.flatten ⟨5, 7⟩).getD 0 := by
  have heval : (loadedCache.run indexedOps (.new fun _ => 7)).any (fun r =>
      decide (r.2.lookup ⟨5, 7⟩ = 0x80000010 ∧ r.2.lookup ⟨6, 7⟩ = 0)) = true := by
    decide +kernel
  obtain ⟨⟨os, c⟩, hrun, hfacts⟩ := (Option.any_eq_true _ _).mp heval
  obtain ⟨hfound, hnone⟩ := of_decide_eq_true hfacts
  exact ⟨os, c, hrun, hfound, hnone, (lookup_first (by decide +kernel) hrun ⟨5, 7⟩).1⟩

namespace LoadedCache

variable {c : LoadedCache}

/-- The message after reading entries, `good` ones or not. -/
def messageAfter (error : ErrorMessage) (good : Bool) : ErrorMessage :=
  if good then error else error.map fun _ => notManaged

@[simp] lemma messageAfter_messageAfter (error : ErrorMessage) (good good' : Bool) :
    messageAfter (messageAfter error good) good' = messageAfter error (good && good') := by
  cases error <;> cases good <;> cases good' <;> rfl

lemma loadEntry_result (entry : CacheIndexEntry) (error : ErrorMessage) :
    (c.loadEntry entry error).1 = decide (entry.Valid (c.allocator .code)) ∧
      (c.loadEntry entry error).2.1 =
        messageAfter error (decide (entry.Valid (c.allocator .code))) := by
  unfold loadEntry CacheIndexEntry.Valid
  by_cases hpc : entry.traceId.pc = 0
  · simp [hpc, messageAfter]
  by_cases hin : (c.allocator .code).contains entry.liftedFunction = true
  · simp [hpc, hin, messageAfter]
  · simp [hpc, hin, messageAfter]

/-- All entries are valid. -/
def allValid (c : LoadedCache) (entries : List CacheIndexEntry) : Bool :=
  entries.all fun entry => decide (entry.Valid (c.allocator .code))

lemma loadEntries_result (allGood : Bool) (error : ErrorMessage)
    (entries : List CacheIndexEntry) :
    (c.loadEntries allGood error entries).1 = (allGood && c.allValid entries) ∧
      (c.loadEntries allGood error entries).2.1 = messageAfter error (c.allValid entries) := by
  induction entries generalizing c allGood error with
  | nil => exact ⟨(Bool.and_true allGood).symm, rfl⟩
  | cons entry entries ih =>
  obtain ⟨hgood, hmessage⟩ := c.loadEntry_result entry error
  have hvalid : (c.loadEntry entry error).2.2.allValid = c.allValid := by
    unfold allValid
    rw [loadEntry_toCodeCache]
  obtain ⟨hrest, hlast⟩ := ih (c := (c.loadEntry entry error).2.2)
    (allGood && (c.loadEntry entry error).1) (c.loadEntry entry error).2.1
  refine ⟨hrest.trans ?_, hlast.trans ?_⟩
  · rw [hvalid, hgood, Bool.and_assoc]
    rfl
  rw [hvalid, hmessage, messageAfter_messageAfter]
  rfl

/-- All entries in the range are valid. -/
def validRange (c : LoadedCache) (range : MemoryMap) : Bool :=
  range.isCtors || !range.isIndex || c.allValid (range.indexEntries c.bytes)

lemma finalizeRange_result (error : ErrorMessage) (range : MemoryMap) :
    (c.finalizeRange true error range).1 = true ∧
      (c.finalizeRange true error range).2.1 = messageAfter error (c.validRange range) := by
  unfold finalizeRange validRange
  cases hctors : range.isCtors with
  | true => exact ⟨rfl, rfl⟩
  | false =>
  cases hindex : range.isIndex with
  | false => exact ⟨rfl, rfl⟩
  | true =>
  obtain ⟨_, hmessage⟩ := loadEntries_result
    (c := { c with jitRanges := Function.update c.jitRanges range.base (some range) })
    true error (range.indexEntries c.bytes)
  exact ⟨Bool.or_true _, hmessage⟩

lemma finalizeRanges_result (error : ErrorMessage) (ranges : List MemoryMap) :
    (c.finalizeRanges true error ranges).1 = true ∧
      (c.finalizeRanges true error ranges).2.1 =
        messageAfter error (ranges.all c.validRange) := by
  induction ranges generalizing c error with
  | nil => exact ⟨rfl, rfl⟩
  | cons range ranges ih =>
  obtain ⟨hgood, hmessage⟩ := c.finalizeRange_result error range
  have hvalid : (c.finalizeRange true error range).2.2.validRange = c.validRange := by
    funext range'
    unfold validRange allValid
    rw [finalizeRange_toCodeCache]
  obtain ⟨hrest, hlast⟩ := ih (c := (c.finalizeRange true error range).2.2)
    (c.finalizeRange true error range).2.1
  unfold finalizeRanges
  simp only [hgood]
  refine ⟨hrest, hlast.trans ?_⟩
  rw [hvalid, hmessage, messageAfter_messageAfter]
  rfl

/-- All entries in the pending ranges are valid. -/
def PendingValid (c : LoadedCache) : Prop :=
  ∀ sectionId range, c.pendingJitRanges sectionId = some range →
    range.isCtors = false → range.isIndex = true →
    ∀ entry ∈ range.indexEntries c.bytes, entry.Valid (c.allocator .code)

/-- The order has all pending sections. -/
def Enumerates (c : LoadedCache) (order : List Nat) : Prop :=
  ∀ sectionId, sectionId ∈ order ↔ (c.pendingJitRanges sectionId).isSome = true

lemma Enumerates.valid_iff {order : List Nat} (h : c.Enumerates order) :
    (order.filterMap c.pendingJitRanges).all c.validRange = true ↔ c.PendingValid := by
  rw [List.all_eq_true]
  constructor
  · intro hall sectionId range hpending hctors hindex entry hentry
    have hmem : sectionId ∈ order := (h sectionId).mpr (by rw [hpending]; rfl)
    have hvalid := hall range (List.mem_filterMap.mpr ⟨sectionId, hmem, hpending⟩)
    rw [validRange, hctors, hindex, Bool.not_true, Bool.or_self, Bool.false_or, allValid,
      List.all_eq_true] at hvalid
    exact of_decide_eq_true (hvalid entry hentry)
  intro hall range hrange
  obtain ⟨sectionId, _, hpending⟩ := List.mem_filterMap.mp hrange
  unfold validRange
  cases hctors : range.isCtors with
  | true => rfl
  | false =>
  cases hindex : range.isIndex with
  | false => rfl
  | true => exact List.all_eq_true.mpr fun entry hentry =>
    decide_eq_true (hall sectionId range hpending hctors hindex entry hentry)

end LoadedCache

/-- **The message.** `finalizeMemory` leaves the text of the caller alone if and only if all entries
of all pending index sections are valid, in whatever order the sections come. -/
theorem finalizeMemory_message {c : LoadedCache} {order : List Nat} (horder : c.Enumerates order)
    (text : String) (hne : text ≠ notManaged) :
    (c.finalizeMemory order (some text)).2.1 = some text ↔ c.PendingValid := by
  have hmessage : (c.finalizeMemory order (some text)).2.1 = _ :=
    (c.finalizeRanges_result (some text) (order.filterMap c.pendingJitRanges)).2
  rw [hmessage, ← horder.valid_iff, LoadedCache.messageAfter]
  cases (order.filterMap c.pendingJitRanges).all c.validRange with
  | true => simp
  | false => simpa using hne.symm

theorem finalizeMemory_message_stray : ∃ c : LoadedCache, c.Enumerates [2] ∧ ¬ c.PendingValid := by
  let c : LoadedCache := { LoadedCache.new fun _ => 7 with
    pendingJitRanges := Function.update (fun _ => none) 2
      (some ⟨0x10000000000, 24, 2, true, true, false, true, false⟩) }
  have henum : c.Enumerates [2] := by
    intro sectionId
    by_cases h2 : sectionId = 2 <;> simp [c, h2]
  refine ⟨c, henum, fun hvalid => ?_⟩
  have hkept := (finalizeMemory_message henum "" (by decide)).mpr hvalid
  exact absurd hkept (by decide +kernel)

/-- **`finalizeMemory`.** For every set of pending ranges, in whatever order: the result tells
whether all index sections are valid if and only if they are. It is always true. -/
theorem finalizeMemory_tells (c : LoadedCache) (order : List Nat) (error : ErrorMessage) :
    ((c.finalizeMemory order error).1 = true ↔ c.PendingValid) ↔ c.PendingValid := by
  have hresult : (c.finalizeMemory order error).1 = true :=
    (c.finalizeRanges_result error (order.filterMap c.pendingJitRanges)).1
  rw [hresult, eq_self, true_iff]

def strayOps : List LoadOp :=
  [.place (.code 100 16 1 (mapsAt 0x80000000 0)),
    .place (.data 24 8 2 ".vindex" false (mapsAt 0x10000000000 0)),
    .link 0x10000000000 (indexBytes [(6, 7, 0x90000000)])]

theorem finalizeMemory_hides_stray :
    ∃ os c, loadedCache.run strayOps (.new fun _ => 7) = some (os, c) ∧
      c.pendingJitRanges 2 = some
        ⟨0x10000000000, 24, 2, true, true, false, true, false⟩ ∧
      ¬ (CacheIndexEntry.read c.bytes 0x10000000000).Valid (c.allocator .code) ∧
      ¬ c.PendingValid ∧ (c.finalizeMemory [1, 2] none).1 = true := by
  have heval : (loadedCache.run strayOps (.new fun _ => 7)).any (fun r =>
      decide (r.2.pendingJitRanges 2 = some
          ⟨0x10000000000, 24, 2, true, true, false, true, false⟩ ∧
        ¬ (CacheIndexEntry.read r.2.bytes 0x10000000000).Valid (r.2.allocator .code) ∧
        (r.2.finalizeMemory [1, 2] none).1 = true)) = true := by
    decide +kernel
  obtain ⟨⟨os, c⟩, hrun, hfacts⟩ := (Option.any_eq_true _ _).mp heval
  obtain ⟨hpending, hstray, htrue⟩ := of_decide_eq_true hfacts
  refine ⟨os, c, hrun, hpending, hstray, fun hall => hstray ?_, htrue⟩
  exact hall 2 _ hpending rfl rfl _ (List.mem_map.mpr ⟨0, by decide, rfl⟩)

end Vmill
