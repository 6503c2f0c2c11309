import Vmill.Logic.Fork
import Vmill.Logic.Write
import Vmill.Program.World

/-!
# The invariant of the process

`World.WF`: the heap and every address space are well-formed, and a valid range belongs to one
address space only.
-/

namespace Vmill

open Base

namespace Heap

variable {h h' : Heap}

/-- The ranges in use stay where they are, and get no children. -/
structure Evolves (h h' : Heap) : Prop where
  wf : h'.WF
  next : h.next ≤ h'.next
  shape : ∀ p, p < h.next → SameShape h h' p
  notParent : ∀ p, p < h.next → h.NotParent p → h'.NotParent p

lemma Touched.evolves {P : MemoryMapPtr → Prop} (ht : Touched P h h') (hwf : h.WF) :
    Evolves h h' :=
  ⟨ht.wf hwf, Nat.le_of_eq ht.next.symm, fun p _ => ht.sameShape p, fun _ _ hp => ht.notParent hp⟩

lemma Grows.evolves (hg : Grows h h') (hwf : h.WF) : Evolves h h' :=
  ⟨hg.wf, hg.ext.next, fun _ hp => (hg.kept hwf hp).sameShape, fun _ _ hp => hg.notParent hp⟩

lemma computeCodeVersion_touched (hash : List UInt8 → Nat) (h : Heap) (p : MemoryMapPtr) :
    Touched (fun _ => False) h (h.computeCodeVersion hash p).1 := by
  unfold computeCodeVersion
  simp only
  split
  · split
    · exact Touched.refl _ _
    refine ⟨rfl, fun q => ?_, fun q => ?_, fun q => ?_, fun q => .inl ?_⟩
    all_goals by_cases hq : q = h.root p
    all_goals first
      | rw [hq, set_obj_self]
      | rw [set_obj_of_ne _ _ hq]
  · exact Touched.refl _ _

end Heap

namespace AddressSpace

variable {h h' : Heap} {s : AddressSpace}

lemma Forked.evolves {maps maps' : List MemoryMapPtr} (hf : Forked h h' maps maps') :
    Heap.Evolves h h' :=
  ⟨hf.wf, hf.next, fun p hp => (hf.kept p hp).sameShape, fun _ hp hnp => hf.notParent hp hnp⟩

lemma WF.evolves (hs : s.WF h) (he : Heap.Evolves h h') : s.WF h' :=
  hs.sameShape he.next (fun p hp => he.shape p (hs.live p hp))
    ((he.shape _ hs.invalidLive).invalid.mpr hs.invalid)
    (fun p hp => he.notParent p (hs.live p hp) (hs.notParent p hp))

lemma computeCodeVersion_updates (cfg : Config) (hwf : h.WF) (hs : s.WF h) (pc : Nat) :
    Updates h s (computeCodeVersion cfg s h pc).2.2 (computeCodeVersion cfg s h pc).2.1
      (view h s) := by
  unfold computeCodeVersion
  split
  · exact updates_of_untouched hwf hs (Heap.computeCodeVersion_touched cfg.hash h _)
      (findRangeAligned_spec hs _).1
  · exact Updates.refl h s

lemma markAsTraceHead_updates (h : Heap) (s : AddressSpace) (pc : Nat) :
    Updates h s h (s.markAsTraceHead pc) (view h s) :=
  Updates.lookup h { Accessed.refl s with }

end AddressSpace

namespace World

open AddressSpace

variable {w w' : World} {i j base size : Nat} {o : Out} {s s' t : AddressSpace} {h' h : Heap}
  {op : Op} {Q : AddressSpace → Nat → Nat → Prop} {m : Bool} {cfg : Config} {v : Nat → Option UInt8}

/-- The heap and all address spaces are well-formed, and no valid range is in two of them. -/
structure WF (w : World) : Prop where
  heap : w.heap.WF
  space : ∀ (i : Nat) (s : AddressSpace), w.spaces[i]? = some s → s.WF w.heap
  owned : ∀ (i j : Nat) (s t : AddressSpace) (p : MemoryMapPtr),
    w.spaces[i]? = some s → w.spaces[j]? = some t → i ≠ j →
    p ∈ s.maps → p ∈ t.maps → (w.heap.obj p).kind = .invalid

lemma init_wf : init.WF := by
  have hkind : ∀ p q, (init.heap.obj p).kind ≠ .copyOnWrite q := by simp [init, newRange]
  have hnone : ∀ (i : Nat) (s : AddressSpace), init.spaces[i]? ≠ some s := by simp [init]
  exact
    { heap :=
        { unused := fun _ _ => rfl
          parent := fun p q hk => absurd hk (hkind p q)
          base := fun p q hk => absurd hk (hkind p q)
          limit := fun p q hk => absurd hk (hkind p q)
          offset := fun p q hk => absurd hk (hkind p q) }
      space := fun i s hi => absurd hi (hnone i s)
      owned := fun i _ s _ _ hi => absurd hi (hnone i s) }

lemma onSpace_eq_some {call : AddressSpace → Heap → Option (Out × AddressSpace × Heap)}
    (hr : w.onSpace i call = some (o, w')) :
    ∃ s s' h', w.spaces[i]? = some s ∧ call s w.heap = some (o, s', h') ∧ w' = w.put i s' h' := by
  unfold onSpace at hr
  cases hs : w.spaces[i]? with
  | none => rw [hs] at hr; simp at hr
  | some s =>
  rw [hs] at hr
  simp only at hr
  cases hc : call s w.heap with
  | none => rw [hc] at hr; simp at hr
  | some r =>
  obtain ⟨o', s', h'⟩ := r
  rw [hc] at hr
  cases hr
  exact ⟨s, s', h', rfl, hc, rfl⟩

lemma onSpace_map_eq_some {α : Type} {call : AddressSpace → Heap → Option α}
    {f : AddressSpace → Heap → α → Out × AddressSpace × Heap}
    (hr : w.onSpace i (fun s h => (call s h).map (f s h)) = some (o, w')) :
    ∃ s r, w.spaces[i]? = some s ∧ call s w.heap = some r ∧
      w' = w.put i (f s w.heap r).2.1 (f s w.heap r).2.2 := by
  obtain ⟨s, s', h', hi, hcall, rfl⟩ := onSpace_eq_some hr
  obtain ⟨r, hrun, heq⟩ := Option.map_eq_some_iff.mp hcall
  exact ⟨s, r, hi, hrun, by rw [heq]⟩

lemma put_self (hi : w.spaces[i]? = some s) : (w.put i s' h').spaces[i]? = some s' := by
  obtain ⟨hlt, _⟩ := List.getElem?_eq_some_iff.mp hi
  unfold put
  simp [hlt]

lemma put_of_ne (hne : j ≠ i) : (w.put i s' h').spaces[j]? = w.spaces[j]? := by
  unfold put
  exact List.getElem?_set_ne (Ne.symm hne)

lemma WF.put (hw : w.WF) (hi : w.spaces[i]? = some s) (he : Heap.Evolves w.heap h')
    (hs' : s'.WF h') (hmaps : ∀ p ∈ s'.maps, p ∈ s.maps ∨ w.heap.next ≤ p) :
    (w.put i s' h').WF := by
  have hother : ∀ j t, j ≠ i → (w.put i s' h').spaces[j]? = some t → w.spaces[j]? = some t := by
    intro j t hne hj
    rwa [put_of_ne hne] at hj
  have hself : ∀ t, (w.put i s' h').spaces[i]? = some t → t = s' := by
    intro t ht
    rw [put_self hi] at ht
    exact (Option.some.inj ht).symm
  -- a range of the changed address space and of another one
  have hshared : ∀ (j : Nat) (t : AddressSpace) (p : MemoryMapPtr), j ≠ i →
      w.spaces[j]? = some t → p ∈ s'.maps → p ∈ t.maps →
      (h'.obj p).kind = .invalid := by
    intro j t p hne hj hps hpt
    have hlive := (hw.space j t hj).live p hpt
    rcases hmaps p hps with hps | hfresh
    · exact (he.shape p hlive).invalid.mpr (hw.owned i j s t p hi hj (Ne.symm hne) hps hpt)
    · exact absurd hlive (Nat.not_lt.mpr hfresh)
  refine ⟨he.wf, ?_, ?_⟩
  · intro j t hj
    by_cases hji : j = i
    · subst hji
      rwa [hself t hj]
    · exact (hw.space j t (hother j t hji hj)).evolves he
  intro j k t u p hj hk hjk hpt hpu
  by_cases hji : j = i
  · subst hji
    rw [hself t hj] at hpt
    have hkj : k ≠ j := Ne.symm hjk
    exact hshared k u p hkj (hother k u hkj hk) hpt hpu
  by_cases hki : k = i
  · subst hki
    rw [hself u hk] at hpu
    exact hshared j t p hji (hother j t hji hj) hpu hpt
  have hj' := hother j t hji hj
  have hinv := hw.owned j k t u p hj' (hother k u hki hk) hjk hpt hpu
  exact (he.shape p ((hw.space j t hj').live p hpt)).invalid.mpr hinv

lemma push_cases (hj : (w.push s' h').spaces[j]? = some t) :
    w.spaces[j]? = some t ∨ (j = w.spaces.length ∧ t = s') := by
  have hj' : (w.spaces ++ [s'])[j]? = some t := hj
  rcases Nat.lt_trichotomy j w.spaces.length with hlt | heq | hgt
  · rw [List.getElem?_append_left hlt] at hj'
    exact .inl hj'
  · rw [heq, List.getElem?_concat_length] at hj'
    exact .inr ⟨heq, (Option.some.inj hj').symm⟩
  rw [List.getElem?_eq_none (by simp; omega)] at hj'
  simp at hj'

lemma WF.push (hw : w.WF) (he : Heap.Evolves w.heap h') (hs' : s'.WF h')
    (hmaps : ∀ p ∈ s'.maps, w.heap.next ≤ p ∨ (h'.obj p).kind = .invalid) : (w.push s' h').WF := by
  have hshared : ∀ (j : Nat) (t : AddressSpace) (p : MemoryMapPtr), w.spaces[j]? = some t →
      p ∈ s'.maps → p ∈ t.maps →
      (h'.obj p).kind = .invalid := by
    intro j t p hj hps hpt
    rcases hmaps p hps with hfresh | hinv
    · exact absurd ((hw.space j t hj).live p hpt) (Nat.not_lt.mpr hfresh)
    · exact hinv
  refine ⟨he.wf, ?_, ?_⟩
  · intro j t hj
    rcases push_cases hj with hj | ⟨_, rfl⟩
    · exact (hw.space j t hj).evolves he
    · exact hs'
  intro j k t u p hj hk hjk hpt hpu
  rcases push_cases hj with hj' | ⟨hjl, ht⟩
  · rcases push_cases hk with hk' | ⟨_, hu⟩
    · have hinv := hw.owned j k t u p hj' hk' hjk hpt hpu
      exact (he.shape p ((hw.space j t hj').live p hpt)).invalid.mpr hinv
    · exact hshared j t p hj' (hu ▸ hpu) hpt
  rcases push_cases hk with hk' | ⟨hkl, _⟩
  · exact hshared k u p hk' (ht ▸ hpt) hpu
  · exact absurd (hjl.trans hkl.symm) hjk

/-- `Q` holds of the address space, base and size of a mapping call. -/
def OnRemap (w : World) (op : Op) (Q : AddressSpace → Nat → Nat → Prop) : Prop :=
  ∀ i ∈ op.target, ∀ r ∈ op.remaps, ∀ s ∈ w.spaces[i]?, Q s r.1 r.2.1

instance (w : World) (op : Op) (Q : AddressSpace → Nat → Nat → Prop)
    [∀ s base size, Decidable (Q s base size)] : Decidable (w.OnRemap op Q) :=
  inferInstanceAs (Decidable (∀ i ∈ _, _))

lemma OnRemap.elim (hq : w.OnRemap op Q) (htarget : op.target = some i)
    (hremaps : op.remaps = some (base, size, m)) (hi : w.spaces[i]? = some s) : Q s base size :=
  hq i htarget _ hremaps s hi

lemma OnRemap.mono {R : AddressSpace → Nat → Nat → Prop} (hq : w.OnRemap op Q)
    (himp : ∀ s base size, Q s base size → R s base size) : w.OnRemap op R :=
  fun i htarget r hremaps s hi => himp s _ _ (hq i htarget r hremaps s hi)

/-- A mapping call has a positive size and does not wrap around (`InBounds`). -/
def Guarded (w : World) (op : Op) : Prop := w.OnRemap op InBounds
deriving Decidable

/-- What one call does to a well-formed world. -/
inductive Effect (cfg : Config) (w : World) (op : Op) : World → Prop
  | read (i : Nat) (s s' : AddressSpace) (isRead : op.isRead = true)
      (target : op.target = some i) (found : w.spaces[i]? = some s) (accessed : Accessed s s')
      (heads : s'.traceHeads = s.traceHeads) : Effect cfg w op (w.put i s' w.heap)
  | write (i : Nat) (s s' : AddressSpace) (h' : Heap) (addr : Nat) (vals : List UInt8) (ok : Bool)
      (stores : op.stores = some (addr, vals)) (target : op.target = some i)
      (found : w.spaces[i]? = some s)
      (cases : WriteCases cfg w.heap s (addr &&& s.addrMask) vals op.isQuick (some (ok, s', h'))) :
      Effect cfg w op (w.put i s' h')
  | version (i pc : Nat) (s : AddressSpace) (eq : op = .computeCodeVersion i pc)
      (found : w.spaces[i]? = some s) :
      Effect cfg w op (w.put i (computeCodeVersion cfg s w.heap pc).2.1
        (computeCodeVersion cfg s w.heap pc).2.2)
  | mark (i pc : Nat) (s : AddressSpace) (eq : op = .markAsTraceHead i pc)
      (found : w.spaces[i]? = some s) : Effect cfg w op (w.put i (s.markAsTraceHead pc) w.heap)
  | replace (i base size : Nat) (m : Bool) (s s' : AddressSpace) (h' : Heap)
      (remaps : op.remaps = some (base, size, m)) (target : op.target = some i)
      (found : w.spaces[i]? = some s) (bounds : InBounds s base size)
      (replaced : Replaced w.heap s h' s' w.heap.next (alignDownToPage base)
        (alignDownToPage base + roundUpToPage size))
      (kind : (h'.obj w.heap.next).kind = if m then .empty else .invalid)
      (perms : Protected s s' (alignDownToPage base)
        (alignDownToPage base + roundUpToPage size) m m false) :
      Effect cfg w op (w.put i s' h')
  | protect (i base size : Nat) (r wr x : Bool) (s : AddressSpace)
      (eq : op = .setPermissions i base size r wr x) (found : w.spaces[i]? = some s) :
      Effect cfg w op (w.put i (setPermissions w.heap s base size r wr x) w.heap)
  | fork (i : Nat) (s s' : AddressSpace) (h' : Heap) (eq : op = .copy i)
      (found : w.spaces[i]? = some s) (copied : AddressSpace.Copied w.heap s h' s') :
      Effect cfg w op (w.push s' h')
  | create (eq : op = .new) : Effect cfg w op (w.push (new cfg w.heap).1 (new cfg w.heap).2)

/-- Every call inside the guard has one of the effects. -/
lemma step_effect (hw : w.WF) (hg : Guarded w op) (hstep : step cfg op w = some (o, w')) :
    Effect cfg w op w' := by
  have hheap := hw.heap
  cases op with simp only [step] at hstep
  | new =>
    cases hstep
    exact .create rfl
  | copy i =>
    split at hstep
    · simp at hstep
    rename_i s hi
    cases hstep
    exact .fork i s _ _ rfl hi (clone_spec hheap (hw.space i s hi))
  | addMap i base size name offset =>
    obtain ⟨s, ⟨s1, h1⟩, hi, hrun, rfl⟩ := onSpace_map_eq_some hstep
    have hb : InBounds s base size := OnRemap.elim hg rfl rfl hi
    obtain ⟨hrep, hkind, hperm⟩ := addMap_spec hheap (hw.space i s hi).toLaidOut hb hrun
    exact .replace i base size true s s1 h1 rfl rfl hi hb hrep hkind hperm
  | removeMap i base size =>
    obtain ⟨s, ⟨s1, h1⟩, hi, hrun, rfl⟩ := onSpace_map_eq_some hstep
    have hb : InBounds s base size := OnRemap.elim hg rfl rfl hi
    obtain ⟨hrep, hkind, hperm⟩ := removeMap_spec hheap (hw.space i s hi).toLaidOut hb hrun
    exact .replace i base size false s s1 h1 rfl rfl hi hb hrep hkind hperm
  | setPermissions i base size r wr x =>
    obtain ⟨s, s', h', hi, hcall, rfl⟩ := onSpace_eq_some hstep
    cases hcall
    exact .protect i base size r wr x s rfl hi
  | tryRead i addr size =>
    obtain ⟨s, ⟨ok, vals, s1⟩, hi, hrun, rfl⟩ := onSpace_map_eq_some hstep
    obtain ⟨hacc, hheads⟩ := tryRead_accessed hrun
    exact .read i s s1 rfl rfl hi hacc hheads
  | tryReadByte i addr =>
    obtain ⟨s, s', h', hi, hcall, rfl⟩ := onSpace_eq_some hstep
    cases hcall
    exact .read i s _ rfl rfl hi (tryReadByte_accessed _ _ addr) rfl
  | tryReadTyped i type addr =>
    obtain ⟨s, ⟨ok, vals, s1⟩, hi, hrun, rfl⟩ := onSpace_map_eq_some hstep
    obtain ⟨hacc, hheads⟩ := tryReadTyped_accessed hrun
    exact .read i s s1 rfl rfl hi hacc hheads
  | tryReadExecutable i pc =>
    obtain ⟨s, s', h', hi, hcall, rfl⟩ := onSpace_eq_some hstep
    cases hcall
    exact .read i s _ rfl rfl hi (tryReadExecutable_accessed _ _ pc) rfl
  | tryWrite i addr vals =>
    obtain ⟨s, ⟨ok, s1, h1⟩, hi, hrun, rfl⟩ := onSpace_map_eq_some hstep
    have hc := tryWrite_cases cfg w.heap s addr vals
    rw [hrun] at hc
    exact .write i s s1 h1 addr vals ok rfl rfl hi hc
  | tryWriteByte i addr val =>
    obtain ⟨s, ⟨ok, s1, h1⟩, hi, hrun, rfl⟩ := onSpace_map_eq_some hstep
    have hc := tryWriteByte_cases cfg hheap (hw.space i s hi) addr val
    rw [hrun] at hc
    exact .write i s s1 h1 addr [val] ok rfl rfl hi hc
  | tryWriteTyped i type addr val =>
    obtain ⟨s, ⟨ok, s1, h1⟩, hi, hrun, rfl⟩ := onSpace_map_eq_some hstep
    have hc := tryWriteTyped_cases cfg hheap (hw.space i s hi) type addr val
    rw [hrun] at hc
    exact .write i s s1 h1 addr val.toList ok rfl rfl hi hc
  | computeCodeVersion i pc =>
    obtain ⟨s, s', h', hi, hcall, rfl⟩ := onSpace_eq_some hstep
    obtain ⟨_, rfl, rfl⟩ : Out.version _ = o ∧
        (computeCodeVersion cfg s w.heap pc).2.1 = s' ∧
        (computeCodeVersion cfg s w.heap pc).2.2 = h' := by simpa [Prod.ext_iff] using hcall
    exact .version i pc s rfl hi
  | markAsTraceHead i pc =>
  obtain ⟨s, s', h', hi, hcall, rfl⟩ := onSpace_eq_some hstep
  cases hcall
  exact .mark i pc s rfl hi

lemma replaced_maps {new : MemoryMapPtr} {limit : Nat} (hr : Replaced h s h' s' new base limit) :
    ∀ p ∈ s'.maps, p ∈ s.maps ∨ h.next ≤ p := by
  intro p hp
  rcases hr.mem_cases hp with ⟨x, hx, ys, hcut, hys⟩ | hnew
  · rcases (hcut.piece p hys).fresh with rfl | hfresh
    · exact .inl hx
    · exact .inr hfresh
  rw [hnew]
  exact .inr hr.newFresh

lemma copied_maps (hc : AddressSpace.Copied h s h' s') :
    ∀ p ∈ s'.maps, h.next ≤ p ∨ (h'.obj p).kind = .invalid := by
  intro p hp
  obtain ⟨maps', hf, hperm⟩ := hc.forked
  obtain ⟨x, _, ys, ⟨y, rfl, hy⟩, hys⟩ := hf.clones.origin (hperm.mem_iff.mp hp)
  rw [List.mem_singleton.mp hys]
  by_cases hx : (h.obj x).kind = .invalid
  · exact .inr (hy.invalid.mpr hx)
  · exact .inl (hy.fresh hx)

lemma WF.updates (hw : w.WF) (hi : w.spaces[i]? = some s) (hu : Updates w.heap s h' s' v) :
    (w.put i s' h').WF := by
  refine hw.put hi (hu.touched.evolves hw.heap) (hu.wf (hw.space i s hi)) fun p hp => .inl ?_
  rwa [← hu.accessed.maps]

/-- An access of one address space is not seen by another: valid ranges are not shared, and what a
copy-on-write range shares is not written. -/
lemma WF.view_of_ne (hw : w.WF) (hi : w.spaces[i]? = some s) (hj : w.spaces[j]? = some t)
    (hne : j ≠ i) (hu : Updates w.heap s h' s' v) : view h' t = view w.heap t := by
  have hs := hw.space i s hi
  have ht := hw.space j t hj
  refine view_kept hw.heap (hu.heapWF hw.heap) ht (ht.evolves (hu.touched.evolves hw.heap)) ?_
  intro p hpt
  refine hu.touched.valid.kept hw.heap (fun q hq => hs.notParent q hq.1) ?_
  rintro ⟨hps, hv⟩
  exact hv (hw.owned i j s t p hi hj (Ne.symm hne) hps hpt)

lemma Effect.wf (hw : w.WF) (he : Effect cfg w op w') : w'.WF := by
  have hheap := hw.heap
  cases he with
  | read i s s' _ _ hi hacc _ => exact hw.updates hi (Updates.lookup _ hacc)
  | write i s s' h' addr vals ok _ _ hi hc =>
    obtain ⟨v, hu⟩ := hc.updates hheap (hw.space i s hi) (mask_lt (hw.space i s hi) addr) rfl
    exact hw.updates hi hu
  | version i pc s _ hi =>
    exact hw.updates hi (computeCodeVersion_updates cfg hheap (hw.space i s hi) pc)
  | mark i pc s _ hi => exact hw.updates hi (markAsTraceHead_updates w.heap s pc)
  | replace i base size m s s' h' _ _ hi _ hrep _ _ =>
    exact hw.put hi (hrep.grows.evolves hheap) hrep.wf (replaced_maps hrep)
  | protect i base size r wr x s _ hi =>
    refine hw.put hi ((Heap.Grows.refl hheap).evolves hheap)
      ((hw.space i s hi).toLaidOut.setPermissions hheap base size r wr x) fun p hp => .inl ?_
    rw [(setPermissions_fields w.heap s base size r wr x).1] at hp
    exact mem_sortMaps.mp hp
  | fork i s s' h' _ hi hc =>
    obtain ⟨maps', hf, _⟩ := hc.forked
    exact hw.push hf.evolves hc.copy (copied_maps hc)
  | create _ =>
  obtain ⟨hgrow, hwf, hmaps, _⟩ := new_spec cfg hheap
  exact hw.push (hgrow.evolves hheap) hwf fun p hp => .inl (hmaps p hp).1

lemma Effect.access (hw : w.WF) (hop : op.isAccess = true) (he : Effect cfg w op w') :
    ∃ i s s' h' v, op.target = some i ∧ w.spaces[i]? = some s ∧ Updates w.heap s h' s' v ∧
      w' = w.put i s' h' := by
  cases he with
  | read i s s' _ htarget hi hacc _ =>
    exact ⟨i, s, s', w.heap, _, htarget, hi, Updates.lookup _ hacc, rfl⟩
  | write i s s' h' addr vals ok _ htarget hi hcs =>
    have hs := hw.space i s hi
    obtain ⟨v, hup⟩ := hcs.updates hw.heap hs (mask_lt hs addr) rfl
    exact ⟨i, s, s', h', v, htarget, hi, hup, rfl⟩
  | replace _ _ _ _ _ _ _ hremaps _ _ _ _ _ _ =>
    cases op <;> simp [Op.remaps, Op.isAccess, Op.isRead, Op.stores] at hremaps hop
  | version _ _ _ heq _ | mark _ _ _ heq _ | protect _ _ _ _ _ _ _ heq _ | fork _ _ _ _ heq _ _
  | create heq => exact nomatch heq ▸ hop

lemma Effect.remapped (hremaps : op.remaps = some (base, size, m)) (htarget : op.target = some i)
    (hi : w.spaces[i]? = some s) (he : Effect cfg w op w') :
    ∃ s' h', w' = w.put i s' h' ∧
      Replaced w.heap s h' s' w.heap.next (alignDownToPage base)
        (alignDownToPage base + roundUpToPage size) ∧
      (h'.obj w.heap.next).kind = (if m then .empty else .invalid) ∧
      Protected s s' (alignDownToPage base) (alignDownToPage base + roundUpToPage size) m m false := by
  cases he with
  | replace i' base' size' m' s1 s' h' hremaps' htarget' hi' _ hrep hkind hperm =>
    obtain ⟨rfl, rfl, rfl⟩ : base' = base ∧ size' = size ∧ m' = m := by
      simpa using hremaps'.symm.trans hremaps
    obtain rfl := Option.mem_unique htarget' htarget
    obtain rfl := Option.mem_unique hi' hi
    exact ⟨s', h', rfl, hrep, hkind, hperm⟩
  | read _ _ _ hread _ _ _ _ => cases op <;> simp [Op.remaps, Op.isRead] at hremaps hread
  | write _ _ _ _ _ _ _ hstores _ _ _ => cases op <;> simp [Op.remaps, Op.stores] at hremaps hstores
  | version _ _ _ heq _ | mark _ _ _ heq _ | protect _ _ _ _ _ _ _ heq _ | fork _ _ _ _ heq _ _
  | create heq => exact nomatch heq ▸ hremaps

lemma guarded_of_remaps (hno : op.remaps = none) (w : World) : Guarded w op :=
  fun _ _ r hr => absurd (hno ▸ hr) (Option.not_mem_none r)

lemma guarded_of_isAccess (hop : op.isAccess = true) (w : World) : Guarded w op := by
  refine guarded_of_remaps ?_ w
  cases op with
  | addMap => exact nomatch hop
  | removeMap => exact nomatch hop
  | _ => rfl

lemma new_maps (cfg : Config) (h : Heap) : (new cfg h).1.maps = [h.next] ∧
    (new cfg h).2.obj h.next = newRange 0 (getAddressMask cfg) (some []) 0 .invalid := by
  refine ⟨?_, Heap.alloc_obj_self h _⟩
  show (createPageToRangeMap _ _).maps = [h.next]
  rw [createPageToRangeMap_eq]
  rfl

lemma new_perms (cfg : Config) (h : Heap) :
    (new cfg h).1.pageIsReadable = (fun _ => false) ∧
      (new cfg h).1.pageIsWritable = (fun _ => false) ∧
      (new cfg h).1.pageIsExecutable = (fun _ => false) := by
  refine ⟨?_, ?_, ?_⟩
  · show (createPageToRangeMap _ _).pageIsReadable = _
    rw [createPageToRangeMap_eq]
  · show (createPageToRangeMap _ _).pageIsWritable = _
    rw [createPageToRangeMap_eq]
  show (createPageToRangeMap _ _).pageIsExecutable = _
  rw [createPageToRangeMap_eq]

/-- `P` holds of every address space. -/
def Each (w : World) (P : Heap → AddressSpace → Prop) : Prop :=
  ∀ (i : Nat) (s : AddressSpace), w.spaces[i]? = some s → P w.heap s

/-- `P` is kept by all but mapping calls. -/
structure ByAccess (cfg : Config) (P : Heap → AddressSpace → Prop) : Prop where
  shape : ∀ {h h' : Heap} {s : AddressSpace}, P h s →
    (∀ p ∈ s.maps, Heap.SameShape h h' p) → P h' s
  accessed : ∀ {h : Heap} {s s' : AddressSpace}, s.WF h → P h s → Accessed s s' → P h s'
  copied : ∀ {h h' : Heap} {s s' : AddressSpace}, h.WF → s.WF h → AddressSpace.Copied h s h' s' →
    P h s → P h' s'
  new : ∀ {h : Heap}, h.WF → P (new cfg h).2 (new cfg h).1

/-- `P` depends on the bounds of the ranges only. -/
structure ByShape (cfg : Config) (P : Heap → AddressSpace → Prop) : Prop where
  shape : ∀ {h h' : Heap} {s : AddressSpace}, P h s →
    (∀ p ∈ s.maps, Heap.SameShape h h' p) → P h' s
  perm : ∀ {h : Heap} {s s' : AddressSpace}, P h s → s'.WF h → s'.addrMask = s.addrMask →
    s'.maps.Perm s.maps → P h s'
  copied : ∀ {h h' : Heap} {s s' : AddressSpace}, AddressSpace.Copied h s h' s' → P h s → P h' s'
  new : ∀ {h : Heap}, h.WF → P (new cfg h).2 (new cfg h).1

section

variable {P : Heap → AddressSpace → Prop}

lemma ByShape.byAccess (hb : ByShape cfg P) : ByAccess cfg P where
  shape := hb.shape
  accessed hs hp ha := hb.perm hp (hs.accessed ha) ha.addrMask (by rw [ha.maps])
  copied _ _ := hb.copied
  new := hb.new

lemma Each.put (hb : ByAccess cfg P) (hw : w.WF) (hp : w.Each P) (hi : w.spaces[i]? = some s)
    (he : Heap.Evolves w.heap h') (hs' : P h' s') : (w.put i s' h').Each P := by
  intro j t hj
  by_cases hji : j = i
  · subst hji
    rw [put_self hi] at hj
    cases hj
    exact hs'
  rw [put_of_ne hji] at hj
  exact hb.shape (hp j t hj) fun p hpm => he.shape p ((hw.space j t hj).live p hpm)

lemma Each.push (hb : ByAccess cfg P) (hw : w.WF) (hp : w.Each P) (he : Heap.Evolves w.heap h')
    (hs' : P h' s') : (w.push s' h').Each P := by
  intro j t hj
  rcases push_cases hj with hj | ⟨_, rfl⟩
  · exact hb.shape (hp j t hj) fun p hpm => he.shape p ((hw.space j t hj).live p hpm)
  · exact hs'

lemma Each.updates (hb : ByAccess cfg P) (hw : w.WF) (hp : w.Each P) {v : Nat → Option UInt8}
    (hi : w.spaces[i]? = some s) (hu : Updates w.heap s h' s' v) : (w.put i s' h').Each P := by
  refine Each.put hb hw hp hi (hu.touched.evolves hw.heap) ?_
  have hs := hw.space i s hi
  have haccessed := hb.accessed hs (hp i s hi) hu.accessed
  refine hb.shape haccessed fun p _ => hu.touched.sameShape p

lemma Effect.each_access (hb : ByAccess cfg P) (hw : w.WF) (hp : w.Each P)
    (he : Effect cfg w op w')
    (hremap : ∀ (i base size : Nat) (m : Bool) (s s' : AddressSpace) (h' : Heap), op.remaps = some
      (base, size, m) → op.target = some i → w.spaces[i]? = some s → InBounds s base size →
      Replaced w.heap s h' s' w.heap.next (alignDownToPage base) (alignDownToPage base +
      roundUpToPage size) → (h'.obj w.heap.next).kind = (if m then .empty else .invalid) →
      Protected s s' (alignDownToPage base) (alignDownToPage base + roundUpToPage size) m m false →
      P h' s')
    (hprotect : ∀ (i base size : Nat) (r wr x : Bool) (s : AddressSpace), op = .setPermissions i
      base size r wr x → w.spaces[i]? = some s → P w.heap (setPermissions w.heap s base size r wr
      x)) : w'.Each P := by
  have hheap := hw.heap
  cases he with
  | read i s s' _ _ hi hacc _ => exact Each.updates hb hw hp hi (Updates.lookup _ hacc)
  | write i s s' h' addr vals ok _ _ hi hcs =>
    obtain ⟨v, hu⟩ := hcs.updates hheap (hw.space i s hi) (mask_lt (hw.space i s hi) addr) rfl
    exact Each.updates hb hw hp hi hu
  | version i pc s _ hi =>
    exact Each.updates hb hw hp hi (computeCodeVersion_updates cfg hheap (hw.space i s hi) pc)
  | mark i pc s _ hi => exact Each.updates hb hw hp hi (markAsTraceHead_updates w.heap s pc)
  | replace i base size m s s' h' hremaps htarget hi hbounds hrep hkind hperms =>
    exact Each.put hb hw hp hi (hrep.grows.evolves hheap)
      (hremap i base size m s s' h' hremaps htarget hi hbounds hrep hkind hperms)
  | protect i base size r wr x s heq hi =>
    exact Each.put hb hw hp hi ((Heap.Grows.refl hheap).evolves hheap)
      (hprotect i base size r wr x s heq hi)
  | fork i s s' h' _ hi hcp =>
    obtain ⟨maps', hf, _⟩ := hcp.forked
    exact Each.push hb hw hp hf.evolves (hb.copied hheap (hw.space i s hi) hcp (hp i s hi))
  | create _ =>
    exact Each.push hb hw hp ((new_spec cfg hheap).1.evolves hheap) (hb.new hheap)

lemma Effect.each (hb : ByShape cfg P) (hw : w.WF) (hp : w.Each P) (he : Effect cfg w op w')
    (hremap : ∀ (i base size : Nat) (m : Bool) (s s' : AddressSpace) (h' : Heap), op.remaps = some
      (base, size, m) → op.target = some i → w.spaces[i]? = some s → InBounds s base size →
      Replaced w.heap s h' s' w.heap.next (alignDownToPage base) (alignDownToPage base +
      roundUpToPage size) → P h' s') : w'.Each P := by
  refine he.each_access hb.byAccess hw hp ?_ ?_
  · intro i base size m s s' h' hremaps htarget hi hbounds hrep _ _
    exact hremap i base size m s s' h' hremaps htarget hi hbounds hrep
  intro i base size r wr x s _ hi
  obtain ⟨hmaps, hmask, _⟩ := setPermissions_fields w.heap s base size r wr x
  refine hb.perm (hp i s hi)
    ((hw.space i s hi).toLaidOut.setPermissions hw.heap base size r wr x) hmask ?_
  rw [hmaps]
  exact sortMaps_perm _ _

end

lemma run_invariant {I : World → Prop} {P : World → Op → Prop}
    (hguard : ∀ w op, P w op → Guarded w op)
    (hstep : ∀ w w' op, w.WF → I w → P w op → Effect cfg w op w' → I w') (hinit : I init)
    {ops : List Op} {os : List Out} (hmeets : (memory cfg).RunMeets P ops init)
    (hrun : (memory cfg).run ops init = some (os, w)) : w.WF ∧ I w := by
  refine Machine.run_preserves (M := memory cfg) (I := fun w => w.WF ∧ I w) (P := P) ?_
    ⟨init_wf, hinit⟩ hmeets hrun
  intro w op o w' hI hP hs
  have he := step_effect hI.1 (hguard w op hP) hs
  exact ⟨he.wf hI.1, hstep w w' op hI.1 hI.2 hP he⟩

/-- The worlds that guarded calls lead to: mappings of positive size that do not wrap around, and
any other calls. There is no `Kill` among the calls. -/
def Reachable (cfg : Config) (w : World) : Prop :=
  ∃ ops os, (memory cfg).RunMeets Guarded ops init ∧ (memory cfg).run ops init = some (os, w)

lemma Reachable.next (hr : Reachable cfg w) (hguard : Guarded w op)
    (hstep : (memory cfg).step op w = some (o, w')) : Reachable cfg w' := by
  obtain ⟨ops, os, hmeets, hrun⟩ := hr
  refine ⟨ops ++ [op], os ++ [o], hmeets.append hrun ⟨hguard, ?_⟩,
    Machine.run_append hrun (Machine.run_cons hstep rfl)⟩
  rw [hstep]
  trivial

lemma Reachable.wf (hr : Reachable cfg w) : w.WF := by
  obtain ⟨ops, os, hmeets, hrun⟩ := hr
  exact (run_invariant (I := fun _ => True) (fun _ _ hg => hg) (fun _ _ _ _ _ _ _ => trivial)
    trivial hmeets hrun).1

lemma Reachable.each {P : Heap → AddressSpace → Prop} (hb : ByShape cfg P)
    (hremap : ∀ {h h' : Heap} {s s' : AddressSpace} {base size : Nat}, s.WF h → P h s → InBounds s
      base size → Replaced h s h' s' h.next (alignDownToPage base) (alignDownToPage base +
      roundUpToPage size) → P h' s') (hr : Reachable cfg w) : w.Each P := by
  obtain ⟨ops, os, hmeets, hrun⟩ := hr
  refine (run_invariant (I := fun w => w.Each P) (fun _ _ hg => hg) ?_ ?_ hmeets hrun).2
  · intro w w' op hw hp _ he
    exact he.each hb hw hp fun i base size m s s' h' _ _ hi hbounds hrep =>
      hremap (hw.space i s hi) (hp i s hi) hbounds hrep
  · exact fun i s hi => absurd hi (by simp [init])

lemma run_eval (cfg : Config) (ops : List Op) (P : World → AddressSpace → Prop)
    [∀ w s, Decidable (P w s)]
    (heval : ((memory cfg).run ops init).any (fun r => r.2.spaces[0]?.any fun s => decide (P r.2
      s)) = true) :
    ∃ os w s, (memory cfg).run ops init = some (os, w) ∧ w.spaces[0]? = some s ∧ P w s := by
  obtain ⟨⟨os, w⟩, hrun, hany⟩ := (Option.any_eq_true _ _).mp heval
  obtain ⟨s, hi, hP⟩ := (Option.any_eq_true _ _).mp hany
  exact ⟨os, w, s, hrun, hi, of_decide_eq_true hP⟩

lemma reachable_eval (cfg : Config) (ops : List Op) (P : World → AddressSpace → Prop)
    [∀ w s, Decidable (P w s)]
    (heval : (decide ((memory cfg).RunMeets Guarded ops init) && ((memory cfg).run ops init).any
      fun r => r.2.spaces[0]?.any fun s => decide (P r.2 s)) = true) :
    ∃ w s, Reachable cfg w ∧ w.spaces[0]? = some s ∧ P w s := by
  obtain ⟨hmeets, hany⟩ := (Bool.and_eq_true _ _).mp heval
  obtain ⟨os, w, s, hrun, hfacts⟩ := run_eval cfg ops P hany
  exact ⟨w, s, ⟨ops, os, of_decide_eq_true hmeets, hrun⟩, hfacts⟩

end World

end Vmill
