import Vmill.Logic.Pinned

/-!
# Marked code and its version

Marks are by program counter only; versions change with the range. `KeepsMarks` is the side
condition under which a call changes no version below a mark.
-/

namespace Vmill

open Base

namespace AddressSpace

variable {cfg : Config} {h h' : Heap} {s s' : AddressSpace} {new : MemoryMapPtr}
  {base limit pc : Nat} {r w x : Bool} {maps' : List MemoryMapPtr}

/-- No trace head is mapped over, and of the ranges with marked code only empty ones are cut. -/
structure RemapKeepsMarks (h : Heap) (s : AddressSpace) (base limit : Nat) (m : Bool) : Prop where
  below : m = true → ∀ pc, s.traceHeads pc = true →
    ¬ (base ≤ pc &&& s.addrMask ∧ pc &&& s.addrMask < limit)
  cut : ∀ p pc, Marked s pc → Owns h s p (pc &&& s.addrMask) →
    ¬ (base ≤ pc &&& s.addrMask ∧ pc &&& s.addrMask < limit) → Overlaps h base limit p →
      (h.obj p).kind = .empty

lemma Replaced.origin (hr : Replaced h s h' s' new base limit) {y : MemoryMapPtr} {a : Nat}
    (ho : Owns h' s' y a) (hout : ¬ (base ≤ a ∧ a < limit)) :
    ∃ x, Owns h s x a ∧ (y = x ∨ Overlaps h base limit x) ∧
      ((h.obj x).kind = .empty → (h'.obj y).kind = .empty) := by
  rcases hr.owns_cases ho with ⟨x, ys, hx, hc, hys⟩ | ⟨_, hin⟩
  · exact ⟨x, hx, hc.eq_or_overlaps hys, (hc.piece y hys).empty.mpr⟩
  · exact absurd hin hout

lemma Protected.accessible (hp : Protected s s' base limit r w x) (a : Nat) :
    s'.accessible a =
      if a % 4096 = 0 ∧ base ≤ a ∧ a < limit then r || w || x else s.accessible a := by
  unfold AddressSpace.accessible canReadAligned canWriteAligned canExecuteAligned
  rw [hp.readable, hp.writable, hp.executable]
  split <;> rfl

lemma Replaced.marked (hon : cfg.versionCode = true) (hwf : h.WF) (hs : s.WF h) {m : Bool}
    (hi : Interval s base limit) (hr : Replaced h s h' s' new base limit)
    (hp : Protected s s' base limit m m false) (hkeeps : RemapKeepsMarks h s base limit m)
    (hm : Marked s' pc) : Marked s pc ∧ versionAt cfg h' s' pc = versionAt cfg h s pc := by
  obtain ⟨hhead, hacc⟩ := hm
  rw [hr.traceHeads] at hhead
  rw [hr.addrMask, hp.accessible] at hacc
  have hiff := page_mem_interval hi.baseMod hi.limitMod (mask_lt hs pc)
  -- an accessible page of the interval was mapped, and that is not below a mark
  have hout : ¬ (base ≤ pc &&& s.addrMask ∧ pc &&& s.addrMask < limit) := by
    intro hin
    rw [if_pos ⟨alignDownToPage_mod _, hiff.mpr hin⟩, Bool.or_false, Bool.or_self] at hacc
    exact hkeeps.below hacc pc hhead hin
  rw [if_neg fun hin => hout (hiff.mp hin.2)] at hacc
  have hold : Marked s pc := ⟨hhead, hacc⟩
  refine ⟨hold, versionAt_congr hon hwf hr.grows.wf hs hr.wf hr.addrMask (fun y ho => ?_)
    fun x ho => ?_⟩
  · obtain ⟨x, hox, hwhole, hempty⟩ := hr.origin ho hout
    refine ⟨x, hox, ?_⟩
    rcases hwhole with rfl | hover
    · exact (hr.grows.sameCode hwf (hs.live y hox.mem)).versionOf hwf hr.grows.wf
    have he := hkeeps.cut x pc hold hox hout hover
    rw [Heap.versionOf_of_empty he, Heap.versionOf_of_empty (hempty he)]
  · by_cases hcut : CutsHead h base limit x
    · have hover : Overlaps h base limit x := by
        obtain ⟨h1, h2, h3⟩ := hcut
        exact ⟨by omega, h2⟩
      exact .inr (Heap.versionOf_of_empty (hkeeps.cut x pc hold ho hout hover))
    obtain ⟨y, hy, _⟩ := hr.image ho hout hcut
    exact .inl ⟨y, hy⟩

/-- No trace head without permissions gets some. -/
def ProtectKeepsMarks (s : AddressSpace) (base size : Nat) (r w x : Bool) : Prop :=
  (r || w || x) = true → ∀ pc, s.traceHeads pc = true →
    alignDownToPage (pc &&& s.addrMask) ∈ permissionPages base size →
      s.accessible (alignDownToPage (pc &&& s.addrMask)) = true

lemma setPermissions_marked (hon : cfg.versionCode = true) (hwf : h.WF) (hs : s.WF h)
    {size : Nat} (hkeeps : ProtectKeepsMarks s base size r w x)
    (hm : Marked (setPermissions h s base size r w x) pc) : Marked s pc ∧
      versionAt cfg h (setPermissions h s base size r w x) pc = versionAt cfg h s pc := by
  obtain ⟨hmaps, hmask, _, hheads, _⟩ := setPermissions_fields h s base size r w x
  have hmem : ∀ p, p ∈ (setPermissions h s base size r w x).maps ↔ p ∈ s.maps := by
    intro p
    rw [hmaps]
    exact mem_sortMaps
  obtain ⟨hhead, hacc⟩ := hm
  rw [hheads] at hhead
  rw [hmask] at hacc
  have hold : s.accessible (alignDownToPage (pc &&& s.addrMask)) = true := by
    by_cases hpage : alignDownToPage (pc &&& s.addrMask) ∈ permissionPages base size
    · refine hkeeps ?_ pc hhead hpage
      obtain ⟨hr, hw, hx⟩ := setPermissions_perms h s base size r w x
        (alignDownToPage (pc &&& s.addrMask))
      unfold AddressSpace.accessible canReadAligned canWriteAligned canExecuteAligned at hacc
      rwa [hr, hw, hx, if_pos hpage, if_pos hpage, if_pos hpage] at hacc
    obtain ⟨hr, hw, hx⟩ := setPermissions_perms h s base size r w x
      (alignDownToPage (pc &&& s.addrMask))
    unfold AddressSpace.accessible canReadAligned canWriteAligned canExecuteAligned at hacc ⊢
    rwa [hr, hw, hx, if_neg hpage, if_neg hpage, if_neg hpage] at hacc
  exact ⟨⟨hhead, hold⟩, versionAt_of_owns hon hwf hwf hs
    (hs.toLaidOut.setPermissions hwf base size r w x) hmask (fun p => owns_of_mem_iff hmem)
    fun _ _ => rfl⟩

/-- The cached versions of ranges with marked code are right. -/
def CopyKeepsMarks (hash : List UInt8 → Nat) (h : Heap) (s : AddressSpace) : Prop :=
  ∀ p, HoldsMarked h s p → Heap.VersionOk hash h p

lemma Forked.not_hasVersion {maps : List MemoryMapPtr} (hf : Forked h h' maps maps')
    {q : MemoryMapPtr} (hq : h.next ≤ q) : ¬ Heap.HasVersion h' q := by
  rintro ⟨⟨data, hk⟩, hvalid⟩
  by_cases hlt : q < h'.next
  · exact absurd ((hf.uncached q hq hlt).symm.trans hvalid) (by simp)
  rw [hf.wf.unused q (Nat.not_lt.mp hlt)] at hk
  simp at hk

lemma Forked.parentsOk {hash : List UInt8 → Nat} (hwf : h.WF) (hs : s.WF h)
    (hf : Forked h h' s.maps maps') (hpar : Heap.ParentsOk hash h) : Heap.ParentsOk hash h' := by
  refine hpar.congr fun p q hk => ?_
  rcases hf.parents p q hk with ⟨r, hr⟩ | hfresh
  · exact .inl ⟨r, hr, hf.frame q (hwf.parent_lt hr) fun hq =>
      hs.notParent q hq r hr⟩
  · exact .inr (hf.not_hasVersion hfresh)

lemma Copied.marked_parent (hon : cfg.versionCode = true) (hwf : h.WF) (hs : s.WF h)
    (hpar : Heap.ParentsOk cfg.hash h) (hc : Copied h s h' s')
    (hkeeps : CopyKeepsMarks cfg.hash h s) (hm : Marked s pc) :
    versionAt cfg h' s pc = versionAt cfg h s pc := by
  obtain ⟨maps', hf, _⟩ := hc.forked
  refine versionAt_of_owns hon hwf hf.wf hs hc.parent rfl
    (fun p => Owns.sameShape fun q hq => (hf.kept q (hs.live q hq)).sameShape) fun p ho => ?_
  have hok := hkeeps p ⟨pc, hm, ho⟩
  have hin := ho.inside
  have hk := hf.kept p (hs.live p ho.mem)
  have hok' : Heap.VersionOk cfg.hash h' p := by
    rcases hf.self p (hs.live p ho.mem) with heq | ⟨_, hna⟩
    · exact hok.congr heq
    · exact Heap.versionOk_of_not fun hv => hna hv.1
  exact Heap.versionOf_of_kept hwf hf.wf ho.valid (Nat.lt_of_le_of_lt hin.1 hin.2).le
    (hs.limit_lt p ho.mem) hk.base hk.limit hk.invalid hk.empty hk.held (hpar.root hwf hok)
    ((hf.parentsOk hwf hs hpar).root hf.wf hok')

lemma Copied.marked_copy (hon : cfg.versionCode = true) (hwf : h.WF) (hs : s.WF h)
    (hpar : Heap.ParentsOk cfg.hash h) (hc : Copied h s h' s')
    (hkeeps : CopyKeepsMarks cfg.hash h s) (hm : Marked s' pc) :
    Marked s pc ∧ versionAt cfg h' s' pc = versionAt cfg h s pc := by
  obtain ⟨maps', hf, hperm⟩ := hc.forked
  have hold : Marked s pc := by
    obtain ⟨hhead, hacc⟩ := hm
    unfold AddressSpace.accessible canReadAligned canWriteAligned canExecuteAligned at hacc
    rw [hc.canRead, hc.canWrite, hc.canExecute, hc.addrMask] at hacc
    exact ⟨hc.traceHeads ▸ hhead, hacc⟩
  refine ⟨hold, versionAt_congr hon hwf hf.wf hs hc.copy hc.addrMask (fun y ho => ?_)
    fun x ho => .inl ?_⟩
  · obtain ⟨x, hx, ys, ⟨y', rfl, hclone⟩, hys⟩ := hf.clones.origin (hperm.mem_iff.mp ho.mem)
    rw [List.mem_singleton.mp hys] at ho ⊢
    have hvalid : (h.obj x).kind ≠ .invalid := fun he => ho.valid (hclone.invalid.mpr he)
    have hin := Heap.mem_extent.mp ho.inside
    rw [hclone.base, hclone.limit] at hin
    have hox : Owns h s x (pc &&& s.addrMask) := ⟨hx, hvalid, Heap.mem_extent.mpr hin⟩
    refine ⟨x, hox, Heap.versionOf_of_kept hwf hf.wf hvalid (by omega) (hs.limit_lt x hx)
      hclone.base hclone.limit hclone.invalid hclone.empty hclone.held
      (hpar.root hwf (hkeeps x ⟨pc, hold, hox⟩)) ((hf.parentsOk hwf hs hpar).root hf.wf ?_)⟩
    exact Heap.versionOk_of_not (hf.not_hasVersion (hclone.fresh hvalid))
  · obtain ⟨ys, ⟨y, rfl, hclone⟩, hsub⟩ := hf.clones.image ho.mem
    have hin := Heap.mem_extent.mp ho.inside
    refine ⟨y, hperm.mem_iff.mpr (hsub y (List.mem_singleton_self y)),
      fun he => ho.valid (hclone.invalid.mp he), ?_⟩
    rwa [Heap.mem_extent, hclone.base, hclone.limit]

end AddressSpace

namespace World

open AddressSpace

variable {i j : Nat} {s t : AddressSpace} {h' : Heap} {op : Op}

/-- What the call must leave alone. -/
def OpKeepsMarks (cfg : Config) (h : Heap) (s : AddressSpace) : Op → Prop
  | .addMap _ base size _ _ => RemapKeepsMarks h s (alignDownToPage base)
      (alignDownToPage base + roundUpToPage size) true
  | .removeMap _ base size => RemapKeepsMarks h s (alignDownToPage base)
      (alignDownToPage base + roundUpToPage size) false
  | .setPermissions _ base size r w x => ProtectKeepsMarks s base size r w x
  | .copy _ => CopyKeepsMarks cfg.hash h s
  | .tryWrite _ addr vals => WriteKeepsMarks h s (addr &&& s.addrMask) vals.length false
  | .tryWriteByte _ addr _ => WriteKeepsMarks h s (addr &&& s.addrMask) 1 true
  | .tryWriteTyped _ _ addr val =>
    WriteKeepsMarks h s (addr &&& s.addrMask) val.toList.length true
  | .markAsTraceHead _ _ => False
  | _ => True

/-- A call that does not wrap around and leaves marked code alone. -/
def KeepsMarks (cfg : Config) (w : World) (op : Op) : Prop :=
  Guarded w op ∧ ∀ i s, op.target = some i → w.spaces[i]? = some s → OpKeepsMarks cfg w.heap s op

variable {cfg : Config} {w w' : World}

lemma write_versionAt_of_ne (hon : cfg.versionCode = true) (hw : w.WF) {a : Nat}
    {s' : AddressSpace} {vals : List UInt8} {quick ok : Bool} (hi : w.spaces[i]? = some s)
    (hj : w.spaces[j]? = some t) (hne : j ≠ i) (ha : a < 2 ^ 64)
    (hc : WriteCases cfg w.heap s a vals quick (some (ok, s', h'))) (pc : Nat) :
    versionAt cfg h' t pc = versionAt cfg w.heap t pc := by
  have hs := hw.space i s hi
  obtain ⟨v, hu⟩ := hc.updates hw.heap hs ha rfl
  refine versionAt_frame hon hw.heap (hu.touched.evolves hw.heap) (hw.space j t hj) (fun p hp hv =>
    ⟨hc.frame hw.heap hs (fun hps => hv ?_) hv, fun q hk => ?_⟩) pc
  · exact hw.owned i j s t p hi hj (Ne.symm hne) hps hp
  · obtain ⟨data, hq⟩ := hw.heap.parent p q hk
    exact hc.frame hw.heap hs (fun hqs => hs.notParent q hqs p hk) (by rw [hq]; exact nofun)

lemma fork_versionAt_of_ne (hon : cfg.versionCode = true) (hw : w.WF) {maps' : List MemoryMapPtr}
    (hi : w.spaces[i]? = some s) (hj : w.spaces[j]? = some t) (hne : j ≠ i)
    (hf : Forked w.heap h' s.maps maps') (pc : Nat) :
    versionAt cfg h' t pc = versionAt cfg w.heap t pc := by
  have hs := hw.space i s hi
  have ht := hw.space j t hj
  refine versionAt_frame hon hw.heap hf.evolves ht (fun p hp hv =>
    ⟨hf.frame p (ht.live p hp) fun hps => hv ?_, fun q hk => ?_⟩) pc
  · exact hw.owned i j s t p hi hj (Ne.symm hne) hps hp
  · exact hf.frame q (hw.heap.parent_lt hk) fun hqs => hs.notParent q hqs p hk

lemma grows_versionAt (hon : cfg.versionCode = true) (hw : w.WF) (hj : w.spaces[j]? = some t)
    (hg : Heap.Grows w.heap h') (pc : Nat) : versionAt cfg h' t pc = versionAt cfg w.heap t pc :=
  versionAt_frame hon hw.heap (hg.evolves hw.heap) (hw.space j t hj)
    (fun p hp _ => hg.sameCode hw.heap ((hw.space j t hj).live p hp)) pc

lemma cached_versionAt (hw : w.WF) (hc : Heap.Cached cfg.hash w.heap h') (t : AddressSpace)
    (pc : Nat) : versionAt cfg h' t pc = versionAt cfg w.heap t pc :=
  versionAt_cached hw.heap
    (show Updates w.heap t h' t (view h' t) from
      ⟨hc.touched.mono fun _ hf => hf.elim, Accessed.refl t, rfl⟩) hc pc

/-- **Step lemma.** What is marked after a call that keeps the code below the marks was marked
before, with the same version. -/
lemma Effect.marked (hon : cfg.versionCode = true) (hw : w.WF)
    (hpar : Heap.ParentsOk cfg.hash w.heap) (hkeeps : KeepsMarks cfg w op) (he : Effect cfg w op w')
    {pc : Nat} (hj : w'.spaces[j]? = some t) (hm : Marked t pc) :
    ∃ (i : Nat) (s : AddressSpace), w.spaces[i]? = some s ∧ Marked s pc ∧
      versionAt cfg w'.heap t pc = versionAt cfg w.heap s pc := by
  have hheap := hw.heap
  -- a call on one address space
  have hput : ∀ (i : Nat) (s s' : AddressSpace) (h' : Heap), w.spaces[i]? = some s →
      (Marked s' pc → Marked s pc ∧ versionAt cfg h' s' pc = versionAt cfg w.heap s pc) →
      (∀ j t, j ≠ i → w.spaces[j]? = some t →
        versionAt cfg h' t pc = versionAt cfg w.heap t pc) →
      (w.put i s' h').spaces[j]? = some t →
      ∃ (i : Nat) (s : AddressSpace), w.spaces[i]? = some s ∧ Marked s pc ∧
        versionAt cfg h' t pc = versionAt cfg w.heap s pc := by
    intro i s s' h' hi hself hother hj
    rcases put_cases hi hj with ⟨_, rfl⟩ | ⟨hne, hj⟩
    · exact ⟨i, s, hi, hself hm⟩
    · exact ⟨j, t, hj, hm, hother j t hne hj⟩
  cases he with
  | read i s s' _ _ hi hacc hheads =>
    refine hput i s s' _ hi (fun hm => ⟨hacc.marked hheads hm, ?_⟩) (fun _ _ _ _ => rfl) hj
    exact versionAt_cached hheap (Updates.lookup w.heap hacc) (Heap.Cached.refl cfg.hash _) pc
  | write i s s' h' addr vals ok hstores htarget hi hc =>
    have hs := hw.space i s hi
    have hwrite : WriteKeepsMarks w.heap s (addr &&& s.addrMask) vals.length op.isQuick := by
      have hop := hkeeps.2 i s htarget hi
      cases op with
      | tryWrite | tryWriteByte | tryWriteTyped =>
        cases hstores
        exact hop
      | _ => cases hstores
    exact hput i s s' h' hi
      (fun hm => hc.marked hon hheap hs (mask_mask s addr) hwrite hm)
      (fun j t hne hj => write_versionAt_of_ne hon hw hi hj hne (mask_lt hs addr) hc pc) hj
  | version i pc' s _ hi =>
    have hs := hw.space i s hi
    have hl := computeCodeVersion_looked cfg hs pc'
    have hc := computeCodeVersion_cached cfg w.heap s pc'
    refine hput i s _ _ hi (fun hm => ⟨hl.accessed.marked hl.heads hm, ?_⟩)
      (fun j t _ _ => cached_versionAt hw hc t pc) hj
    exact versionAt_cached hheap (computeCodeVersion_updates cfg hheap hs pc') hc pc
  | mark i pc' s heq hi =>
    subst heq
    exact absurd (hkeeps.2 i s rfl hi) id
  | replace i base size m s s' h' hremaps htarget hi hbounds hrep _ hperms =>
    have hs := hw.space i s hi
    have hremap : RemapKeepsMarks w.heap s (alignDownToPage base)
        (alignDownToPage base + roundUpToPage size) m := by
      have hop := hkeeps.2 i s htarget hi
      cases op with
      | addMap | removeMap =>
        obtain ⟨rfl, rfl, rfl⟩ : _ ∧ _ ∧ _ := by simpa [Op.remaps] using hremaps
        exact hop
      | _ => cases hremaps
    exact hput i s s' h' hi
      (fun hm => hrep.marked hon hheap hs (hbounds.interval hs.toLaidOut) hperms hremap hm)
      (fun j t _ hj => grows_versionAt hon hw hj hrep.grows pc) hj
  | protect i base size r wr x s heq hi =>
    subst heq
    exact hput i s _ _ hi
      (fun hm => setPermissions_marked hon hheap (hw.space i s hi) (hkeeps.2 i s rfl hi) hm)
      (fun _ _ _ _ => rfl) hj
  | fork i s s' h' heq hi hc =>
    subst heq
    have hs := hw.space i s hi
    have hcopy := hkeeps.2 i s rfl hi
    rcases push_cases hj with hj | ⟨_, rfl⟩
    · refine ⟨j, t, hj, hm, ?_⟩
      by_cases hne : j = i
      · subst hne
        obtain rfl := Option.mem_unique hi hj
        exact hc.marked_parent hon hheap hs hpar hcopy hm
      obtain ⟨maps', hf, _⟩ := hc.forked
      exact fork_versionAt_of_ne hon hw hi hj hne hf pc
    · exact ⟨i, s, hi, hc.marked_copy hon hheap hs hpar hcopy hm⟩
  | create _ =>
  rcases push_cases hj with hj | ⟨_, rfl⟩
  · exact ⟨j, t, hj, hm, grows_versionAt hon hw hj (new_spec cfg hheap).1 pc⟩
  have hhead := hm.head
  simp only [AddressSpace.new, createPageToRangeMap_eq] at hhead
  simp at hhead

lemma Effect.parentsOk (hw : w.WF) (he : Effect cfg w op w')
    (hpar : Heap.ParentsOk cfg.hash w.heap) : Heap.ParentsOk cfg.hash w'.heap := by
  have hheap := hw.heap
  cases he with
  | read i s s' _ _ hi _ _ => exact hpar
  | write i s s' h' addr vals ok _ _ hi hc =>
    have hs := hw.space i s hi
    obtain ⟨v, hu⟩ := hc.updates hheap hs (mask_lt hs addr) rfl
    refine hpar.congr fun p q hk => .inl ⟨p, hu.touched.cow_of_cow hk, ?_⟩
    have hlink := hu.touched.cow_of_cow hk
    obtain ⟨data, hq⟩ := hheap.parent p q hlink
    exact hc.frame hheap hs (fun hqs => hs.notParent q hqs p hlink) (by rw [hq]; exact nofun)
  | version i pc s _ hi => exact (computeCodeVersion_cached cfg w.heap s pc).parentsOk hpar
  | mark i pc s _ hi => exact hpar
  | replace i base size m s s' h' _ _ hi _ hrep _ _ => exact hrep.grows.parentsOk hheap hpar
  | protect i base size r wr x s _ hi => exact hpar
  | fork i s s' h' _ hi hc =>
    obtain ⟨maps', hf, _⟩ := hc.forked
    exact hf.parentsOk hheap (hw.space i s hi) hpar
  | create _ => exact (new_spec cfg hheap).1.parentsOk hheap hpar

end World

end Vmill
