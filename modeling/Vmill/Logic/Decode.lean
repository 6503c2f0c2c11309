import Vmill.Logic.Version
import Vmill.Spec.Traces

/-!
# The decoder and its address space

What `TryReadExecutable` reads does not depend on the range cache, so an address space is `Code`
(`codeAt`), and the inner loop of the decoder is `explore` over it.
-/

namespace Vmill

open Base

namespace AddressSpace

variable {s s' : AddressSpace} {h h' : Heap} {pc startPc : PC} {v : Nat → Option UInt8}
  {cfg : Config} {st : DecoderState} {arch : Arch} {traces : List DecodedTrace}

/-- The byte at `pc`, if its page is executable. -/
def fetchByte (h : Heap) (s : AddressSpace) (pc : Nat) : Option UInt8 :=
  if s.canExecute pc then view h s (pc &&& s.addrMask) else none

lemma accessible_of_canExecute {pc : Nat} (hx : s.canExecute pc = true) :
    s.accessible (alignDownToPage (pc &&& s.addrMask)) = true := by
  unfold canExecute at hx
  unfold accessible
  rw [hx, Bool.or_true]

lemma tryReadExecutable_fetch (hwf : h.WF) (hs : s.WF h) (pc : Nat) :
    (s.tryReadExecutable h pc).1 = (fetchByte h s pc).isSome ∧
      ∀ b, fetchByte h s pc = some b → (s.tryReadExecutable h pc).2.1 = b := by
  unfold fetchByte
  by_cases hx : s.canExecute pc = true
  · have hacc := accessible_of_canExecute hx
    obtain ⟨hok, hval⟩ := tryReadExecutable_eq hwf hs
      (lookupExact_of_accessible hwf hs (alignDownToPage_mod _) hacc)
    unfold readable at hok hval
    rw [if_pos hacc] at hok hval
    rw [if_pos hx, hok, hval, hx, Bool.and_true]
    refine ⟨rfl, fun b hb => ?_⟩
    rw [hb]
    rfl
  rw [if_neg hx]
  refine ⟨?_, fun b hb => nomatch hb⟩
  have hperm : (s.findRangeAligned h (alignDownToPage (pc &&& s.addrMask))).1.canExecuteAligned =
    s.canExecuteAligned := rfl
  simp only [tryReadExecutable, hperm]
  unfold canExecute at hx
  simp [hx]

lemma Updates.fetchByte (hu : Updates h s h' s' (AddressSpace.view h s)) :
    AddressSpace.fetchByte h' s' = AddressSpace.fetchByte h s := by
  funext pc
  unfold AddressSpace.fetchByte canExecute canExecuteAligned
  rw [hu.accessed.canExecute, hu.accessed.addrMask, hu.view]

/-- The bytes from `pc + i` on, up to the first that cannot be fetched. -/
def fetchBytes (fetch : Nat → Option UInt8) (pc : PC) : Nat → Nat → List UInt8
  | _, 0 => []
  | i, count + 1 =>
    match fetch (pc + Fin.ofNat (2 ^ 64) i).val with
    | none => []
    | some byte => byte :: fetchBytes fetch pc (i + 1) count

/-- What decodes at each program counter. -/
def codeAt (arch : Arch) (h : Heap) (s : AddressSpace) : Traces.Code := fun pc =>
  arch.lazyDecodeInstruction pc (fetchBytes (fetchByte h s) pc 0 arch.maxInstructionSize)

lemma Updates.codeAt (arch : Arch) (hu : Updates h s h' s' (AddressSpace.view h s)) :
    AddressSpace.codeAt arch h' s' = AddressSpace.codeAt arch h s := by
  unfold AddressSpace.codeAt
  rw [hu.fetchByte]

/-- Lookups were made, and no trace head was marked. -/
structure Looked (s s' : AddressSpace) : Prop where
  accessed : Accessed s s'
  heads : s'.traceHeads = s.traceHeads

lemma Looked.refl (s : AddressSpace) : Looked s s := ⟨Accessed.refl s, rfl⟩

lemma Looked.trans {s'' : AddressSpace} (h1 : Looked s s') (h2 : Looked s' s'') : Looked s s'' :=
  ⟨h1.accessed.trans h2.accessed, h2.heads.trans h1.heads⟩

lemma Looked.codeAt (hl : Looked s s') (arch : Arch) :
    AddressSpace.codeAt arch h s' = AddressSpace.codeAt arch h s :=
  (Updates.lookup h hl.accessed).codeAt arch

lemma readInstructionBytesFrom_eq (hwf : h.WF) (hs : s.WF h) (pc : PC) (i count : Nat) :
    (readInstructionBytesFrom h pc s i count).1 = fetchBytes (fetchByte h s) pc i count ∧
      Looked s (readInstructionBytesFrom h pc s i count).2 := by
  induction count generalizing s i with
  | zero => exact ⟨rfl, Looked.refl s⟩
  | succ count ih =>
  have hacc := tryReadExecutable_accessed h s (pc + Fin.ofNat (2 ^ 64) i).val
  obtain ⟨hok, hval⟩ := tryReadExecutable_fetch hwf hs (pc + Fin.ofNat (2 ^ 64) i).val
  have hl : Looked s (s.tryReadExecutable h (pc + Fin.ofNat (2 ^ 64) i).val).2.2 :=
    ⟨hacc, rfl⟩
  simp only [readInstructionBytesFrom, fetchBytes]
  cases hf : fetchByte h s (pc + Fin.ofNat (2 ^ 64) i).val with
  | none =>
    rw [hf, Option.isSome_none] at hok
    rw [hok, if_neg (by simp)]
    exact ⟨rfl, hl⟩
  | some b =>
  rw [hf, Option.isSome_some] at hok
  obtain ⟨hbytes, hrest⟩ := ih (hs.accessed hacc) (i + 1)
  rw [hok, if_pos rfl, hval b hf, hbytes, (Updates.lookup h hacc).fetchByte]
  exact ⟨rfl, hl.trans hrest⟩

/-- The decoder's state and that of the exploration hold the same. -/
def SameTrace (s : AddressSpace) (t : Traces.Explored) (st : TraceState) : Prop :=
  Looked s st.space ∧ st.instructions = t.instructions ∧ st.traceList = t.traceList

lemma decodeInstruction_follows (hwf : h.WF) (hs : s.WF h) (arch : Arch) {t : Traces.Explored}
    {st : TraceState} {f : Flow Traces.Explored PC} (hsame : SameTrace s t st)
    (hvisit : Traces.visit (codeAt arch h s) pc t = some f) :
    ∃ g, decodeInstruction arch h pc st = some g ∧ f.Rel (SameTrace s) g := by
  obtain ⟨hl, hinsts, hcalls⟩ := hsame
  obtain ⟨hbytes, hread⟩ := readInstructionBytesFrom_eq hwf (hs.accessed hl.accessed) pc 0
    arch.maxInstructionSize
  have hcode : arch.lazyDecodeInstruction pc (readInstructionBytes arch st.space h pc).1 =
      codeAt arch h s pc := by
    rw [← hl.codeAt arch, readInstructionBytes, hbytes]
    rfl
  have hspace : Looked s (readInstructionBytes arch st.space h pc).2 := hl.trans hread
  unfold Traces.visit at hvisit
  simp only [decodeInstruction, hinsts, hcalls, hcode]
  split at hvisit
  · rename_i hmem
    cases hvisit
    rw [if_pos hmem]
    exact ⟨_, rfl, ⟨hl, hinsts, hcalls⟩, rfl⟩
  rename_i hnew
  rw [if_neg hnew]
  split at hvisit
  · rename_i hfail
    cases hvisit
    rw [if_pos hfail]
    exact ⟨_, rfl, hspace, rfl, rfl⟩
  rename_i hok
  cases hvisit
  rw [if_neg hok]
  exact ⟨_, rfl, ⟨hspace, rfl, rfl⟩, rfl⟩

lemma decodeInstructions_eq (hwf : h.WF) (hs : s.WF h) (arch : Arch) (work : SortedSet PC) :
    ∃ left t space, Traces.explore (codeAt arch h s) work = some (left, t) ∧
      drain (decodeInstruction arch h) kWorkListSteps work
        { space := s, instructions := .empty, traceList := [] } =
          some (left, { space := space, instructions := t.instructions,
                        traceList := t.traceList }) ∧
      Looked s space := by
  obtain ⟨⟨left, t⟩, hexp⟩ := Traces.explore_isSome (codeAt arch h s) work
  have hbody : ∀ pc t st f, SameTrace s t st → Traces.visit (codeAt arch h s) pc t = some f →
      ∃ g, decodeInstruction arch h pc st = some g ∧ f.Rel (SameTrace s) g :=
    fun _ _ _ _ hsame hvisit => decodeInstruction_follows hwf hs arch hsame hvisit
  obtain ⟨⟨space, insts, calls⟩, hrun, hl, hinsts, hcalls⟩ :=
    drain_refines hbody (show SameTrace s { instructions := .empty, traceList := [] }
      { space := s, instructions := .empty, traceList := [] } from ⟨Looked.refl s, rfl, rfl⟩) hexp
  simp only at hinsts hcalls
  exact ⟨left, t, space, hexp, hinsts ▸ hcalls ▸ hrun, hl⟩

/-- The code version of the page of `pc`. -/
def versionAt (cfg : Config) (h : Heap) (s : AddressSpace) (pc : Nat) : Nat :=
  if cfg.versionCode then
    (h.computeCodeVersion cfg.hash
      ((rangeAt h s (alignDownToPage (pc &&& s.addrMask))).getD s.invalid)).2
  else 0

lemma computeCodeVersion_eq (cfg : Config) (hwf : h.WF) (hs : s.WF h) {pc : Nat}
    (hacc : cfg.versionCode = false ∨ s.accessible (alignDownToPage (pc &&& s.addrMask)) = true) :
    (computeCodeVersion cfg s h pc).1 = versionAt cfg h s pc := by
  unfold computeCodeVersion versionAt
  by_cases hon : cfg.versionCode = true
  · have hacc' := hacc.resolve_left (by simp [hon])
    have hfind := lookupExact_of_accessible hwf hs (alignDownToPage_mod _) hacc' s
      (Accessed.refl s)
    rw [if_pos hacc'] at hfind
    rw [if_pos hon, if_pos hon, ← hfind]
    rfl
  · rw [if_neg hon, if_neg hon]

lemma computeCodeVersion_cached (cfg : Config) (h : Heap) (s : AddressSpace) (pc : Nat) :
    Heap.Cached cfg.hash h (computeCodeVersion cfg s h pc).2.2 := by
  unfold computeCodeVersion
  split
  · exact Heap.computeCodeVersion_cached cfg.hash h _
  · exact Heap.Cached.refl cfg.hash h

lemma computeCodeVersion_looked (cfg : Config) (hs : s.WF h) (pc : Nat) :
    Looked s (computeCodeVersion cfg s h pc).2.1 := by
  unfold computeCodeVersion
  split
  · exact ⟨(findRangeAligned_spec hs _).1, rfl⟩
  · exact Looked.refl s

lemma Updates.rangeAt (hwf : h.WF) (hu : Updates h s h' s' v) (a : Nat) :
    AddressSpace.rangeAt h' s' a = AddressSpace.rangeAt h s a := by
  unfold AddressSpace.rangeAt
  rw [hu.accessed.maps]
  congr 1
  funext p
  rw [hu.touched.isValid hwf, hu.touched.contains]

lemma versionAt_cached (hwf : h.WF) (hu : Updates h s h' s' v) (hc : Heap.Cached cfg.hash h h')
    (pc : Nat) : versionAt cfg h' s' pc = versionAt cfg h s pc := by
  unfold versionAt
  rw [hu.rangeAt hwf, hu.accessed.addrMask, hu.accessed.invalid, hc.version]

/-- What decoding keeps of memory and of the marks. -/
structure Decoding (cfg : Config) (h : Heap) (s : AddressSpace) (st : DecoderState) : Prop where
  updates : Updates h s st.heap st.space (view h s)
  cached : Heap.Cached cfg.hash h st.heap
  heads : ∀ pc, st.space.traceHeads pc = true ↔
    s.traceHeads pc = true ∨ ∃ t ∈ st.traces, t.pc.val = pc
  fresh : ∀ t ∈ st.traces, s.traceHeads t.pc.val = false
  nodup : (st.traces.map DecodedTrace.pc).Nodup
  ids : ∀ t ∈ st.traces, t.id.pc = t.pc
  version : ∀ t ∈ st.traces, cfg.versionCode = false ∨
    s.accessible (alignDownToPage (t.pc.val &&& s.addrMask)) = true →
      t.codeVersion = versionAt cfg h s t.pc.val

lemma Decoding.init (cfg : Config) (h : Heap) (s : AddressSpace) :
    Decoding cfg h s { space := s, heap := h, workList := .empty, traces := [] } where
  updates := Updates.refl h s
  cached := Heap.Cached.refl cfg.hash h
  heads pc := by simp
  fresh t ht := absurd ht (by simp)
  nodup := List.nodup_nil
  ids t ht := absurd ht (by simp)
  version t ht := absurd ht (by simp)

lemma Decoding.append {heap : Heap} {space : AddressSpace} (hd : Decoding cfg h s st)
    (hm : st.space.traceHeads pc = false) (hu : Updates h s heap space (view h s))
    (hc : Heap.Cached cfg.hash h heap)
    (hheads : space.traceHeads = Function.update st.space.traceHeads pc.val true)
    (left : SortedSet PC) {trace : DecodedTrace} (hpc : trace.pc = pc) (hid : trace.id.pc = pc)
    (hversion : cfg.versionCode = false ∨ s.accessible (alignDownToPage (pc.val &&& s.addrMask)) =
      true → trace.codeVersion = versionAt cfg h s pc.val) :
    Decoding cfg h s ⟨space, heap, left, st.traces ++ [trace]⟩ := by
  have hm0 : s.traceHeads pc.val = false ∧ ∀ t ∈ st.traces, t.pc.val ≠ pc.val := by
    have hno := (hd.heads pc.val).not.mp (by simp [hm])
    rw [not_or] at hno
    exact ⟨by simpa using hno.1, fun t ht heq => hno.2 ⟨t, ht, heq⟩⟩
  refine ⟨hu, hc, fun x => ?_, fun t ht => ?_, ?_, fun t ht => ?_, fun t ht hacc => ?_⟩
  · rw [hheads]
    by_cases hx : x = pc.val
    · subst hx
      rw [Function.update_self]
      exact iff_of_true rfl (.inr ⟨trace, by simp, by rw [hpc]⟩)
    rw [Function.update_of_ne hx, hd.heads x]
    simp only [List.mem_append, List.mem_singleton, or_and_right, exists_or, exists_eq_left,
      hpc, Ne.symm hx, or_false]
  · rcases List.mem_append.mp ht with ht | ht
    · exact hd.fresh t ht
    rw [List.mem_singleton.mp ht, hpc]
    exact hm0.1
  · rw [List.map_append, List.map_singleton, hpc]
    refine List.nodup_append.mpr ⟨hd.nodup, List.nodup_singleton _, fun x hx y hy => ?_⟩
    obtain ⟨t, ht, rfl⟩ := List.mem_map.mp hx
    rw [List.mem_singleton.mp hy]
    exact fun heq => hm0.2 t ht (congrArg Fin.val heq)
  · rcases List.mem_append.mp ht with ht | ht
    · exact hd.ids t ht
    · rw [List.mem_singleton.mp ht, hid, hpc]
  rcases List.mem_append.mp ht with ht | ht
  · exact hd.version t ht hacc
  rw [List.mem_singleton.mp ht] at hacc ⊢
  rw [hpc] at hacc ⊢
  exact hversion hacc

lemma decodeTrace_marked (cfg : Config) (arch : Arch) (hm : st.space.traceHeads pc = true) :
    decodeTrace cfg arch pc st = some (.next st []) := by
  unfold decodeTrace
  rw [if_pos (show st.space.isMarkedTraceHead pc = true from hm)]

/-- One trace decoded is the code explored from its head. -/
lemma decodeTrace_eq (arch : Arch) (hwf : h.WF) (hs : s.WF h) (hd : Decoding cfg h s st)
    (hm : st.space.traceHeads pc = false) :
    ∃ left t st' trace,
      Traces.explore (codeAt arch h s) (st.workList.insert pc ()) = some (left, t) ∧
      decodeTrace cfg arch pc st = some (.next st' t.traceList) ∧ Decoding cfg h s st' ∧
      st'.space.traceHeads = Function.update st.space.traceHeads pc.val true ∧
      st'.workList = left ∧ st'.traces = st.traces ++ [trace] ∧ trace.pc = pc ∧
      trace.instructions = t.instructions := by
  have hwf1 := hd.updates.heapWF hwf
  have hmark := markAsTraceHead_updates st.heap st.space pc
  have hs1 := hmark.wf (hd.updates.wf hs)
  rw [hd.updates.view] at hmark
  have hu1 := hd.updates.trans hmark
  -- the code version of the entry
  have hcomp := computeCodeVersion_updates cfg hwf1 hs1 pc.val
  have hlook := computeCodeVersion_looked cfg hs1 pc.val
  have hcache := computeCodeVersion_cached cfg st.heap (st.space.markAsTraceHead pc) pc.val
  have hversion : cfg.versionCode = false ∨
      s.accessible (alignDownToPage (pc.val &&& s.addrMask)) = true →
      (computeCodeVersion cfg (st.space.markAsTraceHead pc) st.heap pc.val).1 =
        versionAt cfg h s pc.val := by
    rw [← versionAt_cached hwf hu1 hd.cached, ← hu1.accessed.accessible, ← hu1.accessed.addrMask]
    exact computeCodeVersion_eq cfg hwf1 hs1
  rw [hmark.view] at hcomp
  have hu2 := hu1.trans hcomp
  -- the instructions
  obtain ⟨left, t, space, hexp, hrun, hl⟩ := decodeInstructions_eq (hu2.heapWF hwf) (hu2.wf hs)
    arch (st.workList.insert pc ())
  rw [hu2.codeAt arch] at hexp
  have hfinal := Updates.lookup (computeCodeVersion cfg (st.space.markAsTraceHead pc) st.heap
    pc.val).2.2 hl.accessed
  rw [hu2.view] at hfinal
  have hheads : space.traceHeads = Function.update st.space.traceHeads pc.val true :=
    hl.heads.trans hlook.heads
  generalize hcc : computeCodeVersion cfg (st.space.markAsTraceHead pc) st.heap pc.val = r
    at hcomp hlook hcache hversion hu2 hrun hl hfinal
  obtain ⟨codeVersion, space1, heap⟩ := r
  obtain ⟨trace, htrace⟩ : ∃ trace : DecodedTrace, trace =
      { pc := pc
        codeVersion := codeVersion
        id := hashTraceInstructions arch pc t.instructions
        instructions := t.instructions } := ⟨_, rfl⟩
  refine ⟨left, t, ⟨space, heap, left, st.traces ++ [trace]⟩, trace, hexp, ?_,
    hd.append hm (hu2.trans hfinal) (hd.cached.trans hcache) hheads left (by rw [htrace])
      (by rw [htrace]; rfl) (by rwa [htrace]), hheads, rfl, rfl,
      by rw [htrace], by rw [htrace]⟩
  unfold decodeTrace
  rw [if_neg (show ¬ st.space.isMarkedTraceHead pc = true by simp [isMarkedTraceHead, hm])]
  simp only [hcc, hrun, htrace]

lemma decodeTrace_next (arch : Arch) (hwf : h.WF) (hs : s.WF h) (pc : PC)
    (hd : Decoding cfg h s st) :
    ∃ st' new, decodeTrace cfg arch pc st = some (.next st' new) ∧ Decoding cfg h s st' ∧
      st'.space.traceHeads pc.val = true ∧
      (∀ x, st.space.traceHeads x = true → st'.space.traceHeads x = true) ∧
      (st'.traces.length = st.traces.length + 1 ∨ st'.traces = st.traces ∧ new = []) := by
  cases hm : st.space.traceHeads pc.val with
  | true =>
    exact ⟨st, [], decodeTrace_marked cfg arch hm, hd, hm, fun _ hx => hx, .inr ⟨rfl, rfl⟩⟩
  | false =>
  obtain ⟨left, t, st', trace, _, hrun, hd', hheads, _, htraces, _, _⟩ :=
    decodeTrace_eq arch hwf hs hd hm
  refine ⟨st', _, hrun, hd', ?_, fun x hx => ?_, .inl ?_⟩
  · rw [hheads, Function.update_self]
  · by_cases hxp : x = pc.val
    · rw [hheads, hxp, Function.update_self]
    · rw [hheads, Function.update_of_ne hxp, hx]
  · rw [htraces, List.length_append, List.length_singleton]

/-- `DecodeTraces` returns, with the trace it was called for marked. -/
lemma decodeTraces_spec (cfg : Config) (arch : Arch) (hwf : h.WF) (hs : s.WF h) (startPc : PC) :
    ∃ st, decodeTraces cfg arch s h startPc = some (st.traces, st.space, st.heap) ∧
      Decoding cfg h s st ∧ st.space.traceHeads startPc.val = true := by
  have hbody : ∀ pc st, Decoding cfg h s st → ∃ f, decodeTrace cfg arch pc st = some f ∧
      ∀ st' new, f = .next st' new → Decoding cfg h s st' ∧
        (2 ^ 64 - st'.traces.length < 2 ^ 64 - st.traces.length ∨
          2 ^ 64 - st'.traces.length ≤ 2 ^ 64 - st.traces.length ∧ new = []) := by
    intro pc st hd
    obtain ⟨st1, new1, hrun, hd1, _, _, hmeasure⟩ := decodeTrace_next arch hwf hs pc hd
    refine ⟨_, hrun, fun st' new hflow => ?_⟩
    obtain ⟨rfl, rfl⟩ := Flow.next.inj hflow
    -- the entries are different program counters
    have hle := hd1.nodup.length_le_card
    rw [Traces.card_pc, List.length_map] at hle
    refine ⟨hd1, hmeasure.imp (fun hlen => ?_) fun ⟨htraces, hnew⟩ => ⟨?_, hnew⟩⟩
    · omega
    · rw [htraces]
  obtain ⟨⟨left, st⟩, hrun⟩ := Traces.drain_pc_isSome hbody (SortedMap.empty.insert startPc ())
    (Decoding.init cfg h s) (Nat.sub_le _ _)
  refine ⟨st, by unfold decodeTraces; rw [hrun]; rfl, ?_⟩
  refine drain_rule (I := fun work st => Decoding cfg h s st ∧
      (st.space.traceHeads startPc.val = true ∨ work.keys = [startPc]))
    (J := fun _ st => Decoding cfg h s st ∧ st.space.traceHeads startPc.val = true)
    ?_ ?_ ?_ ⟨Decoding.init cfg h s, .inr rfl⟩ hrun
  · intro work x rest st st' new hpop ⟨hd, hstart⟩ hb
    obtain ⟨st1, new1, hrun, hd1, hmarked, hkept, _⟩ := decodeTrace_next arch hwf hs x hd
    obtain ⟨rfl, rfl⟩ := Flow.next.inj (Option.mem_unique hrun hb)
    refine ⟨hd1, .inl ?_⟩
    rcases hstart with hstart | hone
    · exact hkept _ hstart
    rw [SortedMap.keys_of_pop hpop] at hone
    exact (List.cons.inj hone).1 ▸ hmarked
  · intro work x rest st st' _ ⟨hd, _⟩ hb
    obtain ⟨_, _, hrun, _⟩ := decodeTrace_next arch hwf hs x hd
    exact nomatch Option.mem_unique hrun hb
  · intro work st hempty ⟨hd, hstart⟩
    exact ⟨hd, hstart.resolve_right (by simp [hempty])⟩

/-- If all of a trace decodes, what its code leads to is in it. -/
lemma decodeTraces_complete (hwf : h.WF) (hs : s.WF h)
    (hrun : decodeTraces cfg arch s h startPc = some (traces, s', h')) :
    ∀ t ∈ traces, Traces.Complete (codeAt arch h s) t.pc t.instructions := by
  have hnext : ∀ pc st f, Decoding cfg h s st →
      (∀ t ∈ st.traces, Traces.Complete (codeAt arch h s) t.pc t.instructions) →
      decodeTrace cfg arch pc st = some f → ∃ st' new, f = .next st' new ∧ Decoding cfg h s st' ∧
        ∀ t ∈ st'.traces, Traces.Complete (codeAt arch h s) t.pc t.instructions := by
    intro pc st f hd hall hbody
    cases hm : st.space.traceHeads pc.val with
    | true =>
      rw [decodeTrace_marked cfg arch hm] at hbody
      exact ⟨st, [], (Option.some.inj hbody).symm, hd, hall⟩
    | false =>
    obtain ⟨left, t, st', trace, hexp, hstep, hd', _, _, htraces, hpc, hinsts⟩ :=
      decodeTrace_eq arch hwf hs hd hm
    rw [hstep] at hbody
    refine ⟨st', _, (Option.some.inj hbody).symm, hd', fun t' ht' => ?_⟩
    rw [htraces] at ht'
    rcases List.mem_append.mp ht' with ht' | ht'
    · exact hall t' ht'
    rw [List.mem_singleton.mp ht', hpc, hinsts]
    exact Traces.explore_complete (SortedMap.mem_keys_insert.mpr (.inl rfl)) hexp
  unfold decodeTraces at hrun
  obtain ⟨⟨left, st⟩, hdrain, hend⟩ := Option.map_eq_some_iff.mp hrun
  obtain ⟨rfl, _⟩ := Prod.mk.inj hend
  refine drain_rule (I := fun _ st => Decoding cfg h s st ∧
      ∀ t ∈ st.traces, Traces.Complete (codeAt arch h s) t.pc t.instructions)
    (J := fun _ st => ∀ t ∈ st.traces, Traces.Complete (codeAt arch h s) t.pc t.instructions)
    ?_ ?_ (fun _ _ _ hI => hI.2) ⟨Decoding.init cfg h s, fun t ht => (nomatch ht)⟩ hdrain
  · intro work x rest st st' new _ ⟨hd, hall⟩ hbody
    obtain ⟨st1, new1, hflow, hd1, hall1⟩ := hnext x st _ hd hall hbody
    obtain ⟨rfl, rfl⟩ := Flow.next.inj hflow
    exact ⟨hd1, hall1⟩
  · intro work x rest st st' _ ⟨hd, hall⟩ hbody
    obtain ⟨_, _, hflow, _⟩ := hnext x st _ hd hall hbody
    exact nomatch hflow

/-- The traces so far are those of separate procedures. -/
structure OneByOne (cfg : Config) (arch : Arch) (h : Heap) (s : AddressSpace)
    (sep : Traces.Separated) (st : DecoderState) : Prop where
  decoding : Decoding cfg h s st
  marked : ∀ pc : PC, sep.marked pc = st.space.traceHeads pc.val
  left : st.workList = sep.left
  traces : ∀ t ∈ st.traces, Traces.IsTrace (codeAt arch h s) t.pc t.instructions

lemma eq_empty_of_keys {work : SortedSet PC} (hk : work.keys = []) : work = .empty := by
  obtain ⟨entries, hs⟩ := work
  obtain rfl : entries = [] := List.map_eq_nil_iff.mp hk
  rfl

lemma decodeTrace_follows (hwf : h.WF) (hs : s.WF h) {sep : Traces.Separated}
    {f : Flow Traces.Separated PC} (ho : OneByOne cfg arch h s sep st)
    (hsep : Traces.separateTrace (codeAt arch h s) pc sep = some f) :
    ∃ g, decodeTrace cfg arch pc st = some g ∧ f.Rel (OneByOne cfg arch h s) g := by
  unfold Traces.separateTrace at hsep
  rw [ho.marked pc] at hsep
  cases hm : st.space.traceHeads pc.val with
  | true =>
    rw [hm, if_pos rfl] at hsep
    cases hsep
    exact ⟨_, decodeTrace_marked cfg arch hm, ho, rfl⟩
  | false =>
  rw [hm, if_neg (by simp)] at hsep
  split at hsep
  · simp at hsep
  rename_i hleft
  obtain ⟨left, t, st', trace, hexp, hrun, hd, hheads, hwork, htraces, hpc, hinsts⟩ :=
    decodeTrace_eq arch hwf hs ho.decoding hm
  rw [ho.left, eq_empty_of_keys (not_not.mp hleft)] at hexp
  simp only [hexp, Option.some.injEq] at hsep
  subst hsep
  refine ⟨_, hrun, ⟨hd, fun x => ?_, hwork, fun t' ht' => ?_⟩, rfl⟩
  · show Function.update sep.marked pc true x = st'.space.traceHeads x.val
    rw [hheads]
    by_cases hx : x = pc
    · rw [hx, Function.update_self, Function.update_self]
    rw [Function.update_of_ne hx, Function.update_of_ne fun heq => hx (Fin.ext heq)]
    exact ho.marked x
  rw [htraces] at ht'
  rcases List.mem_append.mp ht' with ht' | ht'
  · exact ho.traces t' ht'
  rw [List.mem_singleton.mp ht', hpc, hinsts]
  exact Traces.explore_isTrace hexp

lemma decodeTraces_isTrace (hwf : h.WF) (hs : s.WF h)
    (hsep : (Traces.separate (codeAt arch h s) (fun pc => s.traceHeads pc.val) startPc).isSome)
    (hrun : decodeTraces cfg arch s h startPc = some (traces, s', h')) :
    ∀ t ∈ traces, Traces.IsTrace (codeAt arch h s) t.pc t.instructions := by
  unfold Traces.separate at hsep
  rw [Option.isSome_map] at hsep
  obtain ⟨⟨left, sep⟩, hsep⟩ := Option.isSome_iff_exists.mp hsep
  have hbody : ∀ pc sep st f, OneByOne cfg arch h s sep st →
      Traces.separateTrace (codeAt arch h s) pc sep = some f →
      ∃ g, decodeTrace cfg arch pc st = some g ∧ f.Rel (OneByOne cfg arch h s) g :=
    fun _ _ _ _ ho hsep => decodeTrace_follows hwf hs ho hsep
  have hinit : OneByOne cfg arch h s
      { marked := fun pc => s.traceHeads pc.val, left := .empty, traces := [] }
      { space := s, heap := h, workList := .empty, traces := [] } :=
    ⟨Decoding.init cfg h s, fun _ => rfl, rfl, fun t ht => absurd ht (by simp)⟩
  obtain ⟨st, hst, ho⟩ := drain_refines hbody hinit hsep
  unfold decodeTraces at hrun
  rw [hst] at hrun
  cases hrun
  exact ho.traces

end AddressSpace

end Vmill
