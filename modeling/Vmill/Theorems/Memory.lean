import Vmill.Logic.Access
import Vmill.Logic.World
import Vmill.Spec.Copies

/-!
# Address spaces as memories

An address space and its copies behave like independent memories. What makes this so is `World.WF`.
-/

namespace Vmill

open Base AddressSpace

/-- **Read-over-write.** A write to writable pages below the last page, once it has returned `true`,
is read back by a read of any form of the same number of bytes, and every other byte is unchanged.
-/
theorem read_over_write {cfg : Config} {w : World} (hw : World.Reachable cfg w) {i : Nat}
    {s : AddressSpace} (hi : w.spaces[i]? = some s) {v : Value} {addr : Nat}
    (hend : (addr &&& s.addrMask) + v.bytes.length + 4096 ≤ s.addrMask + 1)
    (hwritable : ∀ x, (addr &&& s.addrMask) ≤ x → x < (addr &&& s.addrMask) + v.bytes.length →
      s.canWriteAligned (alignDownToPage x) = true)
    {s' : AddressSpace} {h' : Heap} (hrun : v.tryWrite cfg s w.heap addr = some (true, s', h')) :
    (∀ u : Value, u.bytes.length = v.bytes.length →
      u.tryRead s' h' addr = some (true, v.bytes)) ∧
    ∀ x, x < (addr &&& s.addrMask) ∨ (addr &&& s.addrMask) + v.bytes.length ≤ x →
      view h' s' x = view w.heap s x := by
  have hwf := hw.wf.heap
  have hs := hw.wf.space i s hi
  have hend64 : (addr &&& s.addrMask) + v.bytes.length + 4096 ≤ 2 ^ 64 := by
    rcases hs.mask with hm | hm <;> rw [hm] at hend ⊢ <;> omega
  have hag := tryWriteValue_agrees v cfg hwf hs addr fun hne _ =>
    hwritable _ le_rfl (Nat.lt_add_of_pos_right (List.length_pos_iff.mpr hne))
  rw [hrun] at hag
  rcases hag with ⟨hnone, _⟩ | ⟨ok, s2, h2, m, hsome, hflat, hu⟩
  · simp at hnone
  · obtain ⟨rfl, rfl, rfl⟩ : true = ok ∧ s' = s2 ∧ h' = h2 := by simpa using hsome
    obtain ⟨rfl, _⟩ := Flat.tryWrite_true (by omega) hflat
    have hmask : addr &&& s'.addrMask = addr &&& s.addrMask := by rw [hu.accessed.addrMask]
    constructor
    · intro u hlen
      refine tryReadValue_eq u (hu.heapWF hwf) (hu.wf hs) hlen (by rwa [hmask]) ?_ ?_
      · rw [hmask]
        intro x hlo hhi
        have hwx := hwritable x hlo hhi
        rw [hu.accessed.accessible]
        unfold accessible
        rw [hwx]
        simp
      · intro k hk
        rw [hmask, hu.view, overwrite_of_mem (by rwa [List.length_map]),
          List.getElem_map]
    · intro x hx
      rw [hu.view]
      exact overwrite_of_not_mem (by rwa [List.length_map])

/-- A 16-bit value written across the boundary of two pages. -/
theorem read_over_write_across_pages :
    ∃ w s s' h', World.Reachable (amd64 false) w ∧ w.spaces[0]? = some s ∧
      (Value.typed .uint16 ⟨[1, 2], rfl⟩).tryWrite (amd64 false) s w.heap 0x1fff =
        some (true, s', h') ∧
      (Value.sized [0, 0]).tryRead s' h' 0x1fff = some (true, [1, 2]) ∧
      view h' s' 0x2001 = view w.heap s 0x2001 := by
  obtain ⟨w, s, hw, hi, hmask, hpages, hany⟩ := World.reachable_eval (amd64 false)
    [.new, .addMap 0 0x1000 0x2000 none 0]
    (fun w s => s.addrMask = 2 ^ 64 - 1 ∧
      (s.canWriteAligned 0x1000 = true ∧ s.canWriteAligned 0x2000 = true) ∧
      ((Value.typed .uint16 ⟨[1, 2], rfl⟩).tryWrite (amd64 false) s w.heap 0x1fff).any
        (fun r => r.1) = true)
    (by decide +kernel)
  obtain ⟨⟨ok, s', h'⟩, hcall, hok⟩ := (Option.any_eq_true _ _).mp hany
  obtain rfl : ok = true := hok
  have haddr : 0x1fff &&& s.addrMask = 0x1fff := by rw [hmask]; decide
  have hlen : (Value.typed .uint16 ⟨[1, 2], rfl⟩).bytes.length = 2 := rfl
  obtain ⟨hread, hframe⟩ := read_over_write hw hi (by rw [haddr, hlen, hmask]; decide) (by
      rw [haddr, hlen]
      intro x hlo hhi
      rcases (show x = 0x1fff ∨ x = 0x2000 by omega) with rfl | rfl
      · exact hpages.1
      · exact hpages.2) hcall
  exact ⟨w, s, s', h', hw, hi, hcall, hread (.sized [0, 0]) rfl,
    hframe _ (.inr (by rw [haddr, hlen]))⟩

/-- A mapping call whose end wraps around leaves two ranges on top of each other, at `0x20000`. -/
def wrappedMap : List Op :=
  [.new, .addMap 0 0x10000 0x30000 none 0, .addMap 0 0x30000 (2 ^ 64 - 0x10000) none 0]

/-- The write goes to the range that the last write has left in the cache, the read to the one in
the index: two bytes that have been written are read as zeros. -/
theorem overlap_loses_write :
    ∃ os w s s' h',
      (memory (amd64 false)).run (wrappedMap ++ [.tryWriteByte 0 0x10000 1]) World.init =
        some (os, w) ∧
      w.spaces[0]? = some s ∧ s.addrMask = 2 ^ 64 - 1 ∧ s.canWriteAligned 0x20000 = true ∧
      (Value.typed .uint16 ⟨[5, 6], rfl⟩).tryWrite (amd64 false) s w.heap 0x20000 =
        some (true, s', h') ∧
      (Value.sized [0, 0]).tryRead s' h' 0x20000 = some (true, [0, 0]) := by
  obtain ⟨os, w, s, hrun, hi, hmask, hpage, hany⟩ := World.run_eval (amd64 false)
    (wrappedMap ++ [.tryWriteByte 0 0x10000 1])
    (fun w s => s.addrMask = 2 ^ 64 - 1 ∧ s.canWriteAligned 0x20000 = true ∧
      ((Value.typed .uint16 ⟨[5, 6], rfl⟩).tryWrite (amd64 false) s w.heap 0x20000).any (fun r =>
        r.1 && decide ((Value.sized [0, 0]).tryRead r.2.1 r.2.2 0x20000 = some (true, [0, 0])))
          = true)
    (by decide +kernel)
  obtain ⟨⟨ok, s', h'⟩, hcall, hread⟩ := (Option.any_eq_true _ _).mp hany
  obtain ⟨hok, hread⟩ := (Bool.and_eq_true _ _).mp hread
  obtain rfl : ok = true := hok
  exact ⟨os, w, s, s', h', hrun, hi, hmask, hpage, hcall, of_decide_eq_true hread⟩

namespace AddressSpace

variable {h h' : Heap} {s s' : AddressSpace} {v : Nat → Option UInt8}

/-- Every mapped page has the permissions of a fresh mapping. -/
def Plain (h : Heap) (s : AddressSpace) : Prop :=
  ∀ a, (view h s a).isSome = true → s.pageIsReadable (alignDownToPage a) = true ∧
    s.pageIsWritable (alignDownToPage a) = true ∧ s.pageIsExecutable (alignDownToPage a) = false

lemma Plain.of_eq (hp : Plain h s)
    (hview : ∀ a, (view h' s' a).isSome = true → (view h s a).isSome = true)
    (hread : s'.pageIsReadable = s.pageIsReadable) (hwrite : s'.pageIsWritable = s.pageIsWritable)
    (hexec : s'.pageIsExecutable = s.pageIsExecutable) : Plain h' s' := by
  intro a ha
  rw [hread, hwrite, hexec]
  exact hp a (hview a ha)

lemma Plain.accessible (hp : Plain h s) {a : Nat} (ha : (view h s a).isSome = true) :
    s.accessible (alignDownToPage a) = true ∧
      s.writableNotExecutable (alignDownToPage a) = true := by
  obtain ⟨hr, hw, hx⟩ := hp a ha
  unfold AddressSpace.accessible writableNotExecutable canReadAligned canWriteAligned
    canExecuteAligned
  rw [hr, hw, hx]
  exact ⟨rfl, rfl⟩

lemma Plain.uniform (hwf : h.WF) (hs : s.WF h) (hp : Plain h s) : Uniform h s := by
  have hpage : ∀ q a, Owns h s q a → a % 4096 = 0 →
      s.accessible a = true ∧ s.writableNotExecutable a = true := by
    intro q a ho hmod
    have halt : a < 2 ^ 64 := ho.inside.2.trans (hs.limit_lt q ho.mem)
    have hacc := hp.accessible (a := a) (by rw [ho.view_eq hwf hs]; rfl)
    rwa [alignDownToPage_of_aligned halt hmod] at hacc
  intro q a b hoa hob hamod hbmod
  obtain ⟨h1, h2⟩ := hpage q a hoa hamod
  obtain ⟨h3, h4⟩ := hpage q b hob hbmod
  exact ⟨h1.trans h3.symm, h2.trans h4.symm⟩

lemma Plain.readable_eq (hp : Plain h s) : readable h s = view h s := by
  funext a
  unfold readable
  cases hv : view h s a with
  | none => exact ite_self _
  | some b => rw [if_pos (hp.accessible (by rw [hv]; rfl)).1]

lemma Replaced.plain (hwf : h.WF) (hs : s.WF h) {new : MemoryMapPtr} {base limit : Nat}
    (hi : Interval s base limit) (hr : Replaced h s h' s' new base limit)
    (hperm : Protected s s' base limit true true false) (hp : Plain h s) : Plain h' s' := by
  intro a ha
  obtain ⟨y, hy⟩ := exists_owner hr.grows.wf hr.wf ha
  have halt : a < 2 ^ 64 := hy.inside.2.trans (hr.wf.limit_lt y hy.mem)
  have hmod := alignDownToPage_mod a
  have hle := alignDownToPage_le a
  have hlt := lt_alignDownToPage_add halt
  have hbm := hi.baseMod
  have hlm := hi.limitMod
  rw [hperm.readable, hperm.writable, hperm.executable]
  rcases hr.owns hy with ⟨_, hlo, hhi⟩ | ⟨x, hx, _, hout, _⟩
  · have hin : alignDownToPage a % 4096 = 0 ∧ base ≤ alignDownToPage a ∧
        alignDownToPage a < limit := by omega
    rw [if_pos hin, if_pos hin, if_pos hin]
    exact ⟨rfl, rfl, rfl⟩
  have hnot : ¬ (alignDownToPage a % 4096 = 0 ∧ base ≤ alignDownToPage a ∧
      alignDownToPage a < limit) := by omega
  rw [if_neg hnot, if_neg hnot, if_neg hnot]
  exact hp a (by rw [hx.view_eq hwf hs]; rfl)

lemma Updates.plain (hwf : h.WF) (hs : s.WF h) (hu : Updates h s h' s' v) (hp : Plain h s) :
    Plain h' s' :=
  hp.of_eq (fun a ha => (hu.isSome_view hwf hs a).symm.trans ha) hu.accessed.canRead hu.accessed.canWrite hu.accessed.canExecute

/-- What can be seen of an address space. -/
def flatten (h : Heap) (s : AddressSpace) : Flat.Space where
  mem := view h s
  writable := s.pageIsWritable
  executable := s.pageIsExecutable
  addrMask := s.addrMask

lemma Updates.flatten (hu : Updates h s h' s' v) :
    flatten h' s' = ⟨v, s.pageIsWritable, s.pageIsExecutable, s.addrMask⟩ := by
  unfold AddressSpace.flatten
  rw [hu.view, hu.accessed.canWrite, hu.accessed.canExecute, hu.accessed.addrMask]

end AddressSpace

namespace World

variable {w : World} {i : Nat} {s s' : AddressSpace} {h' : Heap} {v : Nat → Option UInt8}
  {σ : List Flat.Space} {op : Op}

/-- What can be seen of all of them. -/
def flatten (w : World) : List Flat.Space := w.spaces.map (AddressSpace.flatten w.heap)

lemma flatten_getElem (hi : w.spaces[i]? = some s) :
    w.flatten[i]? = some (AddressSpace.flatten w.heap s) := by
  unfold flatten
  rw [List.getElem?_map, hi]
  rfl

lemma WF.flatten_put (hw : w.WF) (hi : w.spaces[i]? = some s) (hu : Updates w.heap s h' s' v) :
    (w.put i s' h').flatten =
      w.flatten.set i ⟨v, s.pageIsWritable, s.pageIsExecutable, s.addrMask⟩ := by
  have hheap : (w.put i s' h').heap = h' := rfl
  obtain ⟨hlt, _⟩ := List.getElem?_eq_some_iff.mp (flatten_getElem hi)
  refine List.ext_getElem? fun j => ?_
  by_cases hji : j = i
  · rw [hji, flatten_getElem (put_self hi), List.getElem?_set_self hlt, hheap, hu.flatten]
  rw [List.getElem?_set_ne (Ne.symm hji)]
  cases hj : w.spaces[j]? with
  | none =>
    unfold flatten
    rw [List.getElem?_map, List.getElem?_map, put_of_ne hji, hj, Option.map_none,
      Option.map_none]
  | some t =>
  have hview := hw.view_of_ne hi hj hji hu
  rw [flatten_getElem ((put_of_ne hji).trans hj), flatten_getElem hj, hheap]
  unfold AddressSpace.flatten
  rw [hview]

lemma WF.view_forked (hw : w.WF) (hc : AddressSpace.Copied w.heap s h' s') {j : Nat}
    {t : AddressSpace} (hj : w.spaces[j]? = some t) : view h' t = view w.heap t := by
  obtain ⟨maps', hf, _⟩ := hc.forked
  have ht := hw.space j t hj
  exact view_kept hw.heap hf.wf ht (ht.evolves hf.evolves) fun p hp => hf.kept p (ht.live p hp)

lemma WF.view_grows (hw : w.WF) (hg : Heap.Grows w.heap h') (hi : w.spaces[i]? = some s) :
    view h' s = view w.heap s := by
  have hs := hw.space i s hi
  exact view_kept hw.heap hg.wf hs (hs.evolves (hg.evolves hw.heap))
    fun p hp => hg.kept hw.heap (hs.live p hp)

lemma WF.flatten_push (hw : w.WF) (hc : AddressSpace.Copied w.heap s h' s') :
    (w.push s' h').flatten = w.flatten ++ [AddressSpace.flatten w.heap s] := by
  show (w.spaces ++ [s']).map (AddressSpace.flatten h') = _
  rw [List.map_append, List.map_singleton]
  congr 1
  · refine List.map_congr_left fun t ht => ?_
    obtain ⟨j, hlt, hj⟩ := List.mem_iff_getElem.mp ht
    unfold AddressSpace.flatten
    rw [hw.view_forked hc (List.getElem?_eq_some_iff.mpr ⟨hlt, hj⟩)]
  unfold AddressSpace.flatten
  rw [hc.copyView, hc.canWrite, hc.canExecute, hc.addrMask]

/-- The flat spaces show what the world holds. -/
structure Mirrors (w : World) (σ : List Flat.Space) : Prop where
  wf : w.WF
  plain : ∀ (i : Nat) (s : AddressSpace), w.spaces[i]? = some s → Plain w.heap s
  eq : σ = w.flatten

lemma Mirrors.put (hm : Mirrors w σ) (hi : w.spaces[i]? = some s)
    (hu : Updates w.heap s h' s' v) :
    Mirrors (w.put i s' h') (σ.set i ⟨v, s.pageIsWritable, s.pageIsExecutable, s.addrMask⟩) := by
  refine ⟨hm.wf.updates hi hu, ?_, by rw [hm.eq, hm.wf.flatten_put hi hu]⟩
  intro j t hj
  by_cases hji : j = i
  · subst hji
    rw [put_self hi] at hj
    cases hj
    exact hu.plain hm.wf.heap (hm.wf.space j s hi) (hm.plain j s hi)
  rw [put_of_ne hji] at hj
  have hview := hm.wf.view_of_ne hi hj hji hu
  exact (hm.plain j t hj).of_eq (fun a ha => by rw [← hview]; exact ha) rfl rfl rfl

lemma Mirrors.push (hm : Mirrors w σ) (hi : w.spaces[i]? = some s)
    (hc : AddressSpace.Copied w.heap s h' s') :
    Mirrors (w.push s' h') (σ ++ [AddressSpace.flatten w.heap s]) := by
  obtain ⟨maps', hf, _⟩ := hc.forked
  refine ⟨hm.wf.push hf.evolves hc.copy (copied_maps hc), ?_,
    by rw [hm.eq, hm.wf.flatten_push hc]⟩
  intro j t hj
  rcases push_cases hj with hj | ⟨_, rfl⟩
  · have hview := hm.wf.view_forked hc hj
    exact (hm.plain j t hj).of_eq (fun a ha => by rw [← hview]; exact ha) rfl rfl rfl
  exact (hm.plain i s hi).of_eq (fun a ha => by rw [← hc.copyView]; exact ha)
    hc.canRead hc.canWrite hc.canExecute

/-- Both give the same answer, and mirror each other again. -/
def AnswerAlike (r : Option (Out × World)) (f : Option (Out × List Flat.Space)) : Prop :=
  (r = none ∧ f = none) ∨ ∃ o w' σ', r = some (o, w') ∧ f = some (o, σ') ∧ Mirrors w' σ'

lemma Mirrors.onSpace (hm : Mirrors w σ)
    {call : AddressSpace → Heap → Option (Out × AddressSpace × Heap)}
    {fcall : Flat.Space → Option (Out × Flat.Space)}
    (hcall : ∀ s, w.spaces[i]? = some s → s.WF w.heap → Plain w.heap s → (call s w.heap = none ∧
      fcall (AddressSpace.flatten w.heap s) = none) ∨ ∃ o s' h' v, call s w.heap = some (o, s', h')
      ∧ fcall (AddressSpace.flatten w.heap s) = some (o, ⟨v, s.pageIsWritable, s.pageIsExecutable,
      s.addrMask⟩) ∧ Updates w.heap s h' s' v) :
    AnswerAlike (w.onSpace i call) (Flat.onSpace σ i fcall) := by
  unfold World.onSpace Flat.onSpace
  cases hi : w.spaces[i]? with
  | none =>
    have hnone : σ[i]? = none := by
      rw [hm.eq, flatten, List.getElem?_map, hi, Option.map_none]
    rw [hnone]
    exact .inl ⟨rfl, rfl⟩
  | some s =>
  rw [hm.eq, flatten_getElem hi, ← hm.eq]
  simp only
  rcases hcall s hi (hm.wf.space i s hi) (hm.plain i s hi) with
    ⟨hr, hf⟩ | ⟨o, s', h', v, hr, hf, hu⟩
  · rw [hr, hf]
    exact .inl ⟨rfl, rfl⟩
  · rw [hr, hf]
    exact .inr ⟨o, _, _, rfl, rfl, hm.put hi hu⟩

lemma Mirrors.read (hm : Mirrors w σ) (i : Nat)
    (call : AddressSpace → Heap → Option (Bool × List UInt8 × AddressSpace))
    (fcall : Flat.Space → Option (Bool × List UInt8))
    (hcall : ∀ s, s.WF w.heap → Plain w.heap s → (call s w.heap).map (fun r => (r.1, r.2.1)) =
      fcall (AddressSpace.flatten w.heap s) ∧ ∀ ok vals s', call s w.heap = some (ok, vals, s') →
      Accessed s s') :
    AnswerAlike
      (w.onSpace i (fun s h => (call s h).map (fun (ok, vals, s') => (.read ok vals, s', h))))
      (Flat.onSpace σ i (fun s => (fcall s).map (fun (ok, vals) => (.read ok vals, s)))) := by
  refine hm.onSpace fun s _ hs hp => ?_
  obtain ⟨heq, hacc⟩ := hcall s hs hp
  cases hc : call s w.heap with
  | none =>
    rw [hc, Option.map_none] at heq
    exact .inl ⟨by simp, by simp [← heq]⟩
  | some r =>
  obtain ⟨ok, vals, s'⟩ := r
  rw [hc, Option.map_some] at heq
  refine .inr ⟨.read ok vals, s', w.heap, view w.heap s, by simp, by simp [← heq]; rfl, ?_⟩
  exact Updates.lookup w.heap (hacc ok vals s' hc)

lemma Mirrors.write (cfg : Config) (hm : Mirrors w σ) (i addr : Nat) (v : Value) :
    AnswerAlike
      (w.onSpace i (fun s h => (v.tryWrite cfg s h addr).map (fun (ok, r) => (.wrote ok, r))))
      (Flat.write σ i addr v.bytes) := by
  refine hm.onSpace fun s _ hs hp => ?_
  have hag := tryWriteValue_agrees v cfg hm.wf.heap hs addr fun _ ho =>
    (hp.uniform hm.wf.heap hs).writable_of_fast hs ho
  rcases hag with ⟨hr, hf⟩ | ⟨ok, s', h', m, hr, hf, hu⟩
  · left
    rw [hr]
    refine ⟨rfl, ?_⟩
    show (Flat.tryWrite s.pageIsWritable (view w.heap s) (addr &&& s.addrMask) v.bytes).map _ = none
    rw [hf, Option.map_none]
  right
  rw [hr]
  refine ⟨.wrote ok, s', h', m, rfl, ?_, hu⟩
  show (Flat.tryWrite s.pageIsWritable (view w.heap s) (addr &&& s.addrMask) v.bytes).map _ =
    some (Out.wrote ok, _)
  rw [hf]
  rfl

/-- An access or a copy is answered as the flat memories answer it. -/
lemma Mirrors.step (cfg : Config) (hm : Mirrors w σ)
    (hop : op.isAccess = true ∨ ∃ i, op = .copy i) :
    AnswerAlike (World.step cfg op w) (Flat.step op σ) := by
  have hwf := hm.wf.heap
  have hlookup : ∀ s, s.WF w.heap → Plain w.heap s → ∀ a,
      LookupExact w.heap s (alignDownToPage a) := fun s hs hp a =>
    (hp.uniform hwf hs).lookupExact hwf hs (alignDownToPage_mod a)
  cases op with
  | tryRead i addr size =>
    refine hm.read i (fun s h => s.tryRead h addr size)
      (fun s => Flat.tryRead s.mem (addr &&& s.addrMask) size) fun s hs hp => ⟨?_, ?_⟩
    · show (s.tryRead w.heap addr size).map _ = _
      rw [tryRead_eq hwf hs ((hp.uniform hwf hs).accessExact hwf hs _ _), hp.readable_eq]
      rfl
    · exact fun ok vals s' hr => (tryRead_accessed hr).1
  | tryReadByte i addr =>
    refine hm.read i
      (fun s h => some ((s.tryReadByte h addr).1, [(s.tryReadByte h addr).2.1],
        (s.tryReadByte h addr).2.2))
      (fun s => some ((s.mem (addr &&& s.addrMask)).isSome,
        [(s.mem (addr &&& s.addrMask)).getD 0])) fun s hs hp => ⟨?_, ?_⟩
    · obtain ⟨h1, h2⟩ := tryReadByte_eq hwf hs addr (hlookup s hs hp _)
      rw [hp.readable_eq] at h1 h2
      rw [Option.map_some, h1, h2]
      rfl
    · intro ok vals s' hr
      rw [← (Prod.mk.inj (Prod.mk.inj (Option.some.inj hr)).2).2]
      exact tryReadByte_accessed _ _ addr
  | tryReadTyped i type addr =>
    refine hm.read i (fun s h => tryReadTyped type s h addr)
      (fun s => Flat.tryReadTyped s.mem (addr &&& s.addrMask) type.size)
      fun s hs hp => ⟨?_, ?_⟩
    · show (tryReadTyped type s w.heap addr).map _ = _
      rw [tryReadTyped_eq hwf hs type ((hp.uniform hwf hs).accessExact hwf hs _ _),
        hp.readable_eq]
      rfl
    · exact fun ok vals s' hr => (tryReadTyped_accessed hr).1
  | tryReadExecutable i pc =>
    refine hm.read i
      (fun s h => some ((s.tryReadExecutable h pc).1, [(s.tryReadExecutable h pc).2.1],
        (s.tryReadExecutable h pc).2.2))
      (fun s => some ((s.mem (pc &&& s.addrMask)).isSome &&
          s.executable (alignDownToPage (pc &&& s.addrMask)),
        [(s.mem (pc &&& s.addrMask)).getD 0])) fun s hs hp => ⟨?_, ?_⟩
    · obtain ⟨h1, h2⟩ := tryReadExecutable_eq hwf hs (hlookup s hs hp _)
      rw [hp.readable_eq] at h1 h2
      rw [Option.map_some, h1, h2]
      rfl
    · intro ok vals s' hr
      rw [← (Prod.mk.inj (Prod.mk.inj (Option.some.inj hr)).2).2]
      exact tryReadExecutable_accessed _ _ pc
  | tryWrite i addr vals => exact hm.write cfg i addr (.sized vals)
  | tryWriteByte i addr val => exact hm.write cfg i addr (.byte val)
  | tryWriteTyped i type addr val => exact hm.write cfg i addr (.typed type val)
  | copy i =>
    simp only [World.step, Flat.step]
    cases hi : w.spaces[i]? with
    | none =>
      have hnone : σ[i]? = none := by
        rw [hm.eq, flatten, List.getElem?_map, hi, Option.map_none]
      rw [hnone]
      exact .inl ⟨rfl, rfl⟩
    | some s =>
    have hcp := AddressSpace.clone_spec hwf (hm.wf.space i s hi)
    rw [hm.eq, flatten_getElem hi, ← hm.eq]
    exact .inr ⟨.done, _, _, rfl, rfl, hm.push hi hcp⟩
  | _ => rcases hop with hop | ⟨i, hop⟩ <;> simp_all [Op.isAccess, Op.isRead, Op.stores]

lemma WF.plain_grows (hw : w.WF) (hg : Heap.Grows w.heap h') (hi : w.spaces[i]? = some s)
    (hp : Plain w.heap s) : Plain h' s := by
  have hview := hw.view_grows hg hi
  exact hp.of_eq (fun a ha => by rw [← hview]; exact ha) rfl rfl rfl

lemma Effect.plain {cfg : Config} {w' : World} (hw : w.WF) (hop : op.builds = true)
    (he : Effect cfg w op w')
    (hp : ∀ (i : Nat) (s : AddressSpace), w.spaces[i]? = some s → Plain w.heap s) :
    ∀ (i : Nat) (s : AddressSpace), w'.spaces[i]? = some s → Plain w'.heap s := by
  by_cases hacc : op.isAccess = true
  · obtain ⟨j, t, t', h', v, _, hj, hu, rfl⟩ := he.access hw hacc
    exact (Mirrors.put ⟨hw, hp, rfl⟩ hj hu).plain
  intro i s hi
  cases he with
  | read _ _ _ hread => exact absurd (by simp [Op.isAccess, hread]) hacc
  | write _ _ _ _ _ _ _ hstores => exact absurd (by simp [Op.isAccess, hstores]) hacc
  | replace j base size m t t' h' hremaps _ hj hb hrep _ hperm =>
    obtain rfl : m = true := by
      cases op <;> simp_all [Op.builds, Op.remaps]
    by_cases hij : i = j
    · subst hij
      rw [put_self hj] at hi
      cases hi
      exact hrep.plain hw.heap (hw.space i t hj)
        (hb.interval (hw.space i t hj).toLaidOut) hperm (hp i t hj)
    rw [put_of_ne hij] at hi
    exact hw.plain_grows hrep.grows hi (hp i s hi)
  | create _ =>
    obtain ⟨hg, hs', hmaps, _⟩ := new_spec cfg hw.heap
    rcases push_cases hi with hi | ⟨_, rfl⟩
    · exact hw.plain_grows hg hi (hp i s hi)
    intro a ha
    have hnone := (view_eq_none (a := a) hg.wf hs').mpr fun p ho =>
      ho.valid (hmaps p ho.mem).2
    exact absurd (hnone ▸ ha) (by simp)
  | version _ _ _ heq | mark _ _ _ heq | protect _ _ _ _ _ _ _ heq | fork _ _ _ _ heq =>
    rw [heq] at hop
    exact absurd hop Bool.false_ne_true

/-- A write to address space `i`, or a remap in it. -/
def changes (i : Nat) (op : Op) : Prop :=
  op.target = some i ∧ (op.stores.isSome ∨ op.remaps.isSome)
deriving Decidable

/-- Address space `i` has the memory `m`. -/
def Holds (w : World) (i : Nat) (m : Nat → Option UInt8) : Prop :=
  ∃ s, w.spaces[i]? = some s ∧ view w.heap s = m

variable {j : Nat} {t t' : AddressSpace} {m : Nat → Option UInt8}

lemma Holds.push (hm : w.Holds i m)
    (hview : ∀ s, w.spaces[i]? = some s → view h' s = view w.heap s) : (w.push t h').Holds i m := by
  obtain ⟨s, hi, rfl⟩ := hm
  obtain ⟨hlt, _⟩ := List.getElem?_eq_some_iff.mp hi
  exact ⟨s, (List.getElem?_append_left hlt).trans hi, hview s hi⟩

lemma Holds.put (hm : w.Holds i m) (hj : w.spaces[j]? = some t)
    (hself : i = j → view h' t' = view w.heap t)
    (hother : ∀ s, w.spaces[i]? = some s → i ≠ j → view h' s = view w.heap s) :
    (w.put j t' h').Holds i m := by
  obtain ⟨s, hi, rfl⟩ := hm
  by_cases hij : i = j
  · subst hij
    obtain rfl := Option.mem_unique hj hi
    exact ⟨t', put_self hj, hself rfl⟩
  · exact ⟨s, (put_of_ne hij).trans hi, hother s hi hij⟩

lemma Effect.holds {cfg : Config} {w' : World} {op : Op} (hw : w.WF) (he : Effect cfg w op w')
    (hop : ¬ changes i op) (hm : w.Holds i m) : w'.Holds i m := by
  have hheap := hw.heap
  cases he with
  | read j t t' _ _ hj hacc _ =>
    exact hm.put hj (fun _ => hacc.view w.heap) fun _ _ _ => rfl
  | write j t t' h' addr vals ok hstores htarget hj hcs =>
    have ht := hw.space j t hj
    obtain ⟨v, hu⟩ := hcs.updates hheap ht (mask_lt ht addr) rfl
    refine hm.put hj (fun hij => absurd ⟨hij ▸ htarget, .inl ?_⟩ hop)
      fun s hi hij => hw.view_of_ne hj hi hij hu
    rw [hstores]
    rfl
  | version j pc t _ hj =>
    have hu := computeCodeVersion_updates cfg hheap (hw.space j t hj) pc
    exact hm.put hj (fun _ => hu.view) fun s hi hij => hw.view_of_ne hj hi hij hu
  | mark j pc t _ hj =>
    exact hm.put hj (fun _ => (markAsTraceHead_updates w.heap t pc).view) fun _ _ _ => rfl
  | replace j base size mapped t t' h' hremaps htarget hj _ hrep _ _ =>
    refine hm.put hj (fun hij => absurd ⟨hij ▸ htarget, .inr ?_⟩ hop)
      fun s hi _ => hw.view_grows hrep.grows hi
    rw [hremaps]
    rfl
  | protect j base size r wr x t _ hj =>
    exact hm.put hj (fun _ => setPermissions_view hheap (hw.space j t hj) base size r wr x)
      fun _ _ _ => rfl
  | fork j t t' h' _ hj hcp => exact hm.push fun s hi => hw.view_forked hcp hi
  | create _ => exact hm.push fun s hi => hw.view_grows (new_spec cfg hheap).1 hi

/-- **Contents.** From every reachable world, whatever is called in whatever order (remaps in other
address spaces, copies, new permissions, code versions): what an address space holds is changed by
writes to it and by remaps in it only. -/
theorem contents_kept {cfg : Config} {w' : World} (hr : Reachable cfg w) {ops : List Op}
    {os : List Out} (hguard : (memory cfg).RunMeets Guarded ops w)
    (hops : ∀ op ∈ ops, ¬ changes i op) (hrun : (memory cfg).run ops w = some (os, w'))
    (hm : w.Holds i m) : w'.Holds i m := by
  refine (Machine.run_preserves (M := memory cfg) (I := fun w => w.WF ∧ w.Holds i m)
    (P := fun w op => Guarded w op ∧ ¬ changes i op) ?_ ⟨hr.wf, hm⟩
    (hguard.and (Machine.runMeets_of_forall (fun _ => hops) _)) hrun).2
  intro w op o w' hI hP hs
  have he := step_effect hI.1 hP.1 hs
  exact ⟨he.wf hI.1, he.holds hI.1 hP.2 hI.2⟩

abbrev copyAndUnmap : List Op :=
  [.copy 0, .tryWriteByte 1 0x1000 9, .removeMap 1 0x1000 0x1000]

theorem contents_kept_copy : ∃ w os w' m, Reachable (amd64 false) w ∧ w.Holds 0 m ∧
    (memory (amd64 false)).run copyAndUnmap w = some (os, w') ∧ m 0x1000 = some 7 ∧
      w'.Holds 0 m := by
  obtain ⟨w, s, hr, hi, hguard, hsome, hbyte⟩ := reachable_eval (amd64 false)
    [.new, .addMap 0 0x1000 0x1000 none 0, .tryWriteByte 0 0x1000 7]
    (fun w s => (memory (amd64 false)).RunMeets Guarded copyAndUnmap w ∧
      ((memory (amd64 false)).run copyAndUnmap w).isSome = true ∧ view w.heap s 0x1000 = some 7)
    (by decide +kernel)
  obtain ⟨⟨os, w'⟩, hrun⟩ := Option.isSome_iff_exists.mp hsome
  exact ⟨w, os, w', _, hr, ⟨s, hi, rfl⟩, hrun, hbyte,
    contents_kept hr hguard (by decide) hrun ⟨s, hi, rfl⟩⟩

end World

/-- **Isolation.** From address spaces built by `AddMap` and `TryWrite`, the process answers every
sequence of reads, writes and copies as independent memories do of which each copy is a duplicate.
-/
theorem copies_isolated {cfg : Config} {build : List Op} (hbuild : ∀ op ∈ build, op.builds = true)
    (hguard : (memory cfg).RunMeets World.Guarded build World.init) {os : List Out} {w : World}
    (hrun : (memory cfg).run build World.init = some (os, w)) {ops : List Op}
    (hops : ∀ op ∈ ops, op.isAccess = true ∨ ∃ i, op = .copy i) :
    ((memory cfg).run ops w).map Prod.fst = (Flat.copies.run ops w.flatten).map Prod.fst := by
  have hbuilt := World.run_invariant
    (I := fun w => ∀ (i : Nat) (s : AddressSpace), w.spaces[i]? = some s → Plain w.heap s)
    (P := fun w op => World.Guarded w op ∧ op.builds = true)
    (fun w op hP => hP.1) (fun w w' op hw hI hP he => he.plain hw hP.2 hI)
    (fun i s hi => absurd hi (by simp [World.init]))
    (hguard.and (Machine.runMeets_of_forall (fun _ => hbuild) _)) hrun
  exact Machine.run_outputs_eq (M := memory cfg) (N := Flat.copies) (R := World.Mirrors)
    (P := fun op => op.isAccess = true ∨ ∃ i, op = .copy i)
    (fun w σ op hm hop => hm.step cfg hop) hops ⟨hbuilt.1, hbuilt.2, rfl⟩

/-- A page with one byte written, its copy, and the copy of the copy. -/
theorem copies_isolated_two_copies :
    ∃ os w, (memory (amd64 false)).run
        [.new, .addMap 0 0x1000 0x1000 none 0, .tryWriteByte 0 0x1000 7] World.init =
          some (os, w) ∧
      (Flat.copies.run [.copy 0, .tryWriteByte 1 0x1000 9, .tryReadByte 0 0x1000, .copy 1,
        .tryReadByte 2 0x1000] w.flatten).map Prod.fst =
          some [.done, .wrote true, .read true [7], .done, .read true [9]] := by
  obtain ⟨os, w, s, hrun, _, hout⟩ := World.run_eval (amd64 false)
    [.new, .addMap 0 0x1000 0x1000 none 0, .tryWriteByte 0 0x1000 7]
    (fun w _ => ((memory (amd64 false)).run [.copy 0, .tryWriteByte 1 0x1000 9,
      .tryReadByte 0 0x1000, .copy 1, .tryReadByte 2 0x1000] w).map Prod.fst =
        some [.done, .wrote true, .read true [7], .done, .read true [9]])
    (by decide +kernel)
  refine ⟨os, w, hrun, ?_⟩
  rwa [← copies_isolated (by decide) (by decide +kernel) hrun (by
    simp [Op.isAccess, Op.isRead, Op.stores])]

/-- With two ranges on top of each other, a copy does not read what it has written itself. -/
theorem copy_loses_own_write :
    ∃ os w, (∀ op ∈ wrappedMap, op.builds = true) ∧
      (memory (amd64 false)).run wrappedMap World.init = some (os, w) ∧
      ((memory (amd64 false)).run [.copy 0, .tryWriteByte 1 0x10000 1, .tryWriteByte 1 0x20000 5,
        .tryReadByte 1 0x20000] w).map Prod.fst =
          some [.done, .wrote true, .wrote true, .read true [0]] ∧
      (Flat.copies.run [.copy 0, .tryWriteByte 1 0x10000 1, .tryWriteByte 1 0x20000 5,
        .tryReadByte 1 0x20000] w.flatten).map Prod.fst =
          some [.done, .wrote true, .wrote true, .read true [5]] := by
  obtain ⟨os, w, _, hrun, _, hout⟩ := World.run_eval (amd64 false) wrappedMap
    (fun w _ =>
      ((memory (amd64 false)).run [.copy 0, .tryWriteByte 1 0x10000 1, .tryWriteByte 1 0x20000 5,
        .tryReadByte 1 0x20000] w).map Prod.fst =
          some [.done, .wrote true, .wrote true, .read true [0]] ∧
      (Flat.copies.run [.copy 0, .tryWriteByte 1 0x10000 1, .tryWriteByte 1 0x20000 5,
        .tryReadByte 1 0x20000] w.flatten).map Prod.fst =
          some [.done, .wrote true, .wrote true, .read true [5]])
    (by decide +kernel)
  exact ⟨os, w, by decide, hrun, hout⟩

end Vmill
