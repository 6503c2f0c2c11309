import Vmill.Logic.Guest
import Vmill.Logic.World

/-!
# Permissions and mappings

`SetPermissions` does not look at the ranges. If it grants access to mapped pages only, and no
mapping call cuts the head of a valid range, every page that may be read or written is mapped.
-/

namespace Vmill

open Base AddressSpace

namespace AddressSpace

variable {h : Heap} {s : AddressSpace} {base : Nat}

/-- Every readable or writable page is mapped. -/
def PermsMapped (h : Heap) (s : AddressSpace) : Prop :=
  ∀ page, page % 4096 = 0 → (s.pageIsReadable page = true ∨ s.pageIsWritable page = true) →
    ∃ p, Owns h s p page

/-- The one-byte accesses that `CanRead` and `CanWrite` approve of succeed. -/
structure ProbesApprove (cfg : Config) (h : Heap) (s : AddressSpace) : Prop where
  read : ∀ a, s.canRead a = true → ∃ b s', s.tryReadByte h a = (true, b, s')
  write : ∀ a val, s.canWrite a = true → ∃ s' h', s.tryWriteByte cfg h a val = some (true, s', h')

lemma tryReadByte_mask (h : Heap) (s : AddressSpace) (a : Nat) :
    s.tryReadByte h (a &&& s.addrMask) = s.tryReadByte h a := by
  unfold tryReadByte
  rw [mask_mask s]

lemma tryWriteByte_mask (cfg : Config) (h : Heap) (s : AddressSpace) (a : Nat) (val : UInt8) :
    s.tryWriteByte cfg h (a &&& s.addrMask) val = s.tryWriteByte cfg h a val := by
  unfold tryWriteByte
  rw [mask_mask s]

lemma view_of_page (hwf : h.WF) (hs : s.WF h) {a : Nat} (ha : a < 2 ^ 64) {p : MemoryMapPtr}
    (ho : Owns h s p (alignDownToPage a)) : view h s a = some (h.byte p a) := by
  have hpage : Owns h s p a := (owns_alignDown_iff hs ha).mpr ho
  exact hpage.view_eq hwf hs

lemma PermsMapped.approve (cfg : Config) (hwf : h.WF) (hs : s.WF h) (hp : PermsMapped h s) :
    ProbesApprove cfg h s := by
  constructor
  · intro a hcan
    obtain ⟨p, ho⟩ := hp _ (alignDownToPage_mod _) (.inl hcan)
    have hacc : s.accessible (alignDownToPage (a &&& s.addrMask)) = true := by
      unfold accessible
      rw [show s.canReadAligned _ = true from hcan, Bool.true_or, Bool.true_or]
    obtain ⟨s', hread, _⟩ := tryReadByte_of_accessible hwf hs Nat.and_le_right hacc
      (view_of_page hwf hs (mask_lt hs a) ho)
    rw [tryReadByte_mask] at hread
    exact ⟨_, s', hread⟩
  intro a val hcan
  obtain ⟨p, ho⟩ := hp _ (alignDownToPage_mod _) (.inr hcan)
  have hview := view_of_page hwf hs (mask_lt hs a) ho
  obtain ⟨s', h', hwrite, _⟩ := tryWriteByte_of_writable cfg hwf hs Nat.and_le_right hcan
    (by rw [hview]; rfl) val
  rw [tryWriteByte_mask] at hwrite
  exact ⟨s', h', hwrite⟩

lemma permsMapped_byAccess (cfg : Config) : World.ByAccess cfg PermsMapped where
  shape hp hk page hmod hperm := by
    obtain ⟨p, ho⟩ := hp page hmod hperm
    exact ⟨p, (Owns.sameShape hk).mpr ho⟩
  accessed _ hp ha page hmod hperm := by
    rw [ha.canRead, ha.canWrite] at hperm
    obtain ⟨p, ho⟩ := hp page hmod hperm
    exact ⟨p, ha.owns.mpr ho⟩
  copied hwf hs hc hp page hmod hperm := by
    rw [hc.canRead, hc.canWrite] at hperm
    obtain ⟨p, ho⟩ := hp page hmod hperm
    refine exists_owner hc.heapWF hc.copy ?_
    rw [hc.copyView, ho.view_eq hwf hs]
    rfl
  new {h} _ page _ hperm := by
    obtain ⟨hread, hwrite, _⟩ := World.new_perms cfg h
    rw [hread, hwrite] at hperm
    simp at hperm

lemma Replaced.permsMapped {h' : Heap} (hwf : h.WF) (hwf' : h'.WF) {s' : AddressSpace}
    (hs : s.WF h) {new : MemoryMapPtr} {limit : Nat} {m : Bool}
    (hr : Replaced h s h' s' new base limit)
    (hkind : (h'.obj new).kind = if m then .empty else .invalid)
    (hperms : Protected s s' base limit m m false)
    (hhead : ∀ p ∈ s.maps, h.isValid p = true → ¬ CutsHead h base limit p) (hp : PermsMapped h s) :
    PermsMapped h' s' := by
  intro page hmod hperm
  rw [hperms.readable, hperms.writable] at hperm
  apply exists_owner hwf' hr.wf
  by_cases hin : base ≤ page ∧ page < limit
  · rw [if_pos ⟨hmod, hin⟩, if_pos ⟨hmod, hin⟩, or_self] at hperm
    subst hperm
    rw [hr.view_empty hwf' hkind hin.1 hin.2]
    rfl
  have hout : ¬ (page % 4096 = 0 ∧ base ≤ page ∧ page < limit) := fun h => hin h.2
  rw [if_neg hout, if_neg hout] at hperm
  obtain ⟨p, ho⟩ := hp page hmod hperm
  have hview : view h' s' page = view h s page := by
    refine hr.view_outside hwf hwf' hs hin ?_
    intro q hq
    exact hhead q hq.mem ((Heap.isValid_iff hwf).mpr hq.valid)
  rw [hview, ho.view_eq hwf hs]
  rfl

lemma setPermissions_permsMapped {size : Nat} {r w x : Bool}
    (hgrant : r = true ∨ w = true → ∀ a ∈ permissionPages base size, ∃ p, Owns h s p a)
    (hp : PermsMapped h s) : PermsMapped h (setPermissions h s base size r w x) := by
  intro page hmod hperm
  obtain ⟨hmaps, _⟩ := setPermissions_fields h s base size r w x
  obtain ⟨hread, hwrite, _⟩ := setPermissions_perms h s base size r w x page
  rw [hread, hwrite] at hperm
  have howned : ∃ p, Owns h s p page := by
    by_cases hin : page ∈ permissionPages base size
    · rw [if_pos hin, if_pos hin] at hperm
      exact hgrant hperm page hin
    rw [if_neg hin, if_neg hin] at hperm
    exact hp page hmod hperm
  obtain ⟨p, ho⟩ := howned
  refine ⟨p, (owns_of_mem_iff fun q => ?_).mpr ho⟩
  rw [hmaps]
  exact mem_sortMaps

end AddressSpace

namespace World

variable {cfg : Config} {w : World}

/-- Reading or writing is only permitted where something is mapped. -/
def GrantsMapped (w : World) : Op → Prop
  | .setPermissions i base size r wr _ => r = true ∨ wr = true →
      ∀ s ∈ w.spaces[i]?, ∀ a ∈ permissionPages base size, (rangeAt w.heap s a).isSome = true
  | _ => True

instance (w : World) (op : Op) : Decidable (w.GrantsMapped op) := by
  cases op <;> unfold GrantsMapped <;> infer_instance

/-- The mapping calls do not wrap around, and cut the head of no valid range; no permission is
granted on a hole. -/
def KeepsMapped (w : World) (op : Op) : Prop :=
  w.GrantsMapped op ∧ w.OnRemap op fun s base size => InBounds s base size ∧
    ∀ p ∈ s.maps, w.heap.isValid p = true →
      ¬ CutsHead w.heap (alignDownToPage base) (alignDownToPage base + roundUpToPage size) p
deriving Decidable

lemma Effect.permsMapped {w' : World} {op : Op} (hw : w.WF) (hp : w.Each PermsMapped)
    (hk : w.KeepsMapped op) (he : Effect cfg w op w') : w'.Each PermsMapped := by
  obtain ⟨hgrant, hcuts⟩ := hk
  refine he.each_access (permsMapped_byAccess cfg) hw hp ?_ ?_
  · intro i base size m s s' h' hremaps htarget hi hb hrep hkind hperms
    obtain ⟨_, hhead⟩ := OnRemap.elim hcuts htarget hremaps hi
    exact hrep.permsMapped hw.heap hrep.grows.wf (hw.space i s hi) hkind hperms hhead (hp i s hi)
  rintro i base size r wr x s rfl hi
  have hs := hw.space i s hi
  refine setPermissions_permsMapped ?_ (hp i s hi)
  intro hany a ha
  obtain ⟨p, hat⟩ := Option.isSome_iff_exists.mp (hgrant hany s hi a ha)
  exact ⟨p, (rangeAt_eq_some hw.heap hs).mp hat⟩

lemma permsMapped_of_run {ops : List Op} {os : List Out}
    (hkeeps : (memory cfg).RunMeets KeepsMapped ops init)
    (hrun : (memory cfg).run ops init = some (os, w)) : w.WF ∧ w.Each PermsMapped := by
  have hguard : ∀ w op, KeepsMapped w op → Guarded w op := by
    intro w op hk
    exact OnRemap.mono hk.2 fun s base size hq => hq.1
  have hstep : ∀ w w' op, w.WF → w.Each PermsMapped → KeepsMapped w op →
      Effect cfg w op w' → w'.Each PermsMapped :=
    fun w w' op hw hp hk he => he.permsMapped hw hp hk
  have hinit : init.Each PermsMapped := fun i s hi => absurd hi (by simp [init])
  exact run_invariant hguard hstep hinit hkeeps hrun

end World

/-- **Probes.** In every run whose steps meet the condition, a one-byte read that `CanRead` approves
of and a one-byte write that `CanWrite` approves of succeed. -/
theorem probes_approve_mapped {cfg : Config} {ops : List Op} {os : List Out} {w : World}
    (hkeeps : (memory cfg).RunMeets World.KeepsMapped ops World.init)
    (hrun : (memory cfg).run ops World.init = some (os, w)) {i : Nat} {s : AddressSpace}
    (hi : w.spaces[i]? = some s) : ProbesApprove cfg w.heap s := by
  obtain ⟨hw, hp⟩ := World.permsMapped_of_run hkeeps hrun
  exact (hp i s hi).approve cfg hw.heap (hw.space i s hi)

/-- Two pages are mapped, one is made read-only and the other unmapped. -/
theorem probes_approve_mapped_page :
    ∃ (os : List Out) (w : World) (s : AddressSpace),
      (memory (amd64 false)).run [.new, .addMap 0 0x1000 0x2000 none 0,
        .setPermissions 0 0x1000 0x1000 true false false, .removeMap 0 0x2000 0x1000]
          World.init = some (os, w) ∧ w.spaces[0]? = some s ∧ s.canRead 0x1234 = true ∧
      ProbesApprove (amd64 false) w.heap s := by
  obtain ⟨os, w, s, hrun, hi, hcan⟩ := World.run_eval (amd64 false)
    [.new, .addMap 0 0x1000 0x2000 none 0, .setPermissions 0 0x1000 0x1000 true false false,
      .removeMap 0 0x2000 0x1000]
    (fun _ s => s.canRead 0x1234 = true) (by decide +kernel)
  exact ⟨os, w, s, hrun, hi, hcan, probes_approve_mapped (by decide +kernel) hrun hi⟩

/-- `SetPermissions` on a page where nothing is mapped: `CanRead` and `CanWrite` say yes, and
the accesses fail. -/
theorem probes_approve_hole :
    ∃ (os : List Out) (w : World) (s : AddressSpace),
      (memory (amd64 false)).run [.new, .setPermissions 0 0x1000 0x1000 true true false]
          World.init = some (os, w) ∧ w.spaces[0]? = some s ∧
      s.canRead 0x1000 = true ∧ (s.tryReadByte w.heap 0x1000).1 = false ∧
      s.canWrite 0x1000 = true ∧
      (s.tryWriteByte (amd64 false) w.heap 0x1000 7).map (·.1) = some false :=
  World.run_eval (amd64 false) _ _ (by decide +kernel)

end Vmill
