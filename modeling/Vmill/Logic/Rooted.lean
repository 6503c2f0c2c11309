import Vmill.Logic.World

/-!
# The parents of copy-on-write ranges, in every run

A mapping call that wraps around can leave ranges that overlap, and `World.WF` is lost with them.
`Heap.Rooted` is not: no call moves a range, and a copy-on-write range starts where its parent does.
-/

namespace Vmill

open Base

namespace Heap

lemma eq_of_newArray {base limit offset : Nat} {name : List UInt8} {data : Nat → UInt8}
    {r : MappedRange} (hr : newArray base limit name offset data = some r) :
    r = newRange base limit (some name) offset (.array data) := by
  simp only [newArray] at hr
  split at hr
  · split at hr
    · exact (Option.some.inj hr).symm
    · cases hr
  · cases hr

namespace Rooted

variable {h h' : Heap} {p y : MemoryMapPtr} {r : MappedRange} {a b l : Nat}

lemma touched {P : MemoryMapPtr → Prop} (hr : h.Rooted) (ht : Touched P h h') : h'.Rooted := by
  intro p q hk
  rw [ht.next, ht.base, ht.base]
  exact hr p q (ht.cow_of_cow hk)

lemma alloc (hr : h.Rooted) (hk : ∀ q, r.kind = .copyOnWrite q →
    q < h.next ∧ (h.obj q).baseAddress = r.baseAddress) : (h.alloc r).1.Rooted := by
  have hold : ∀ q, q < h.next → (h.alloc r).1.obj q = h.obj q :=
    fun q hq => alloc_obj_of_ne h r hq.ne
  intro x q hx
  by_cases hn : x = h.next
  · rw [hn, alloc_obj_self] at hx ⊢
    obtain ⟨hlt, hbase⟩ := hk q hx
    exact ⟨Nat.lt_succ_of_lt hlt, by rw [hold q hlt, hbase]⟩
  · rw [alloc_obj_of_ne h r hn] at hx ⊢
    obtain ⟨hlt, hbase⟩ := hr x q hx
    exact ⟨Nat.lt_succ_of_lt hlt, by rw [hold q hlt, hbase]⟩

lemma set (hr : h.Rooted) (hb : r.baseAddress = (h.obj p).baseAddress)
    (hk : ∀ q, r.kind = .copyOnWrite q → q < h.next ∧ (h.obj q).baseAddress = r.baseAddress) :
    (h.set p r).Rooted := by
  have hbase : ∀ q, ((h.set p r).obj q).baseAddress = (h.obj q).baseAddress := by
    intro q
    by_cases hq : q = p
    · rw [hq, set_obj_self, hb]
    · rw [set_obj_of_ne h r hq]
  intro x q hx
  rw [hbase, hbase]
  by_cases hxp : x = p
  · rw [hxp, set_obj_self] at hx
    rw [hxp, ← hb]
    exact hk q hx
  · rw [set_obj_of_ne h r hxp] at hx
    exact hr x q hx

/-! ## Operations on one range -/

lemma materialise (hr : h.Rooted) (hm : h.materialise p = some h') : h'.Rooted := by
  unfold Heap.materialise at hm
  dsimp only at hm
  split at hm
  · obtain ⟨r, hnew, rfl⟩ := Option.map_eq_some_iff.mp hm
    rw [eq_of_newArray hnew]
    exact hr.set rfl (by simp [newRange])
  · obtain ⟨r, hnew, rfl⟩ := Option.map_eq_some_iff.mp hm
    rw [eq_of_newArray hnew]
    exact hr.set rfl (by simp [newRange])
  · cases hm
    exact hr

lemma store (hr : h.Rooted) (p : MemoryMapPtr) (index : Nat) (val : UInt8) :
    (h.store p index val).Rooted := by
  unfold Heap.store
  split
  · exact hr.set rfl (by simp)
  · exact hr

lemma storeBytes (hr : h.Rooted) (p : MemoryMapPtr) (index : Nat) (vals : List UInt8) :
    (h.storeBytes p index vals).Rooted := by
  induction vals generalizing h index with
  | nil => exact hr
  | cons val vals ih => exact ih (hr.store p index val) _

lemma toReadWriteVirtualAddress (hr : h.Rooted) {index : Option Nat}
    (hrw : h.toReadWriteVirtualAddress p a = some (h', index)) : h'.Rooted := by
  unfold Heap.toReadWriteVirtualAddress at hrw
  split at hrw
  · cases hrw
    exact hr
  · obtain ⟨h1, hmat, heq⟩ := Option.map_eq_some_iff.mp hrw
    cases heq
    exact hr.materialise hmat

lemma write (hr : h.Rooted) {val : UInt8} {ok : Bool} (hw : h.write p a val = some (ok, h')) :
    h'.Rooted := by
  unfold Heap.write at hw
  split at hw
  · cases hw
  · rename_i hrw
    cases hw
    exact hr.toReadWriteVirtualAddress hrw
  · rename_i hrw
    cases hw
    exact (hr.toReadWriteVirtualAddress hrw).store p _ val

lemma copy (hr : h.Rooted) (hc : h.copy p b l = some (h', y)) : h'.Rooted := by
  unfold Heap.copy at hc
  dsimp only at hc
  split at hc
  · cases hc
    exact hr.alloc (by simp [newRange])
  · cases hc
    exact hr.alloc (by simp [newRange])
  · obtain ⟨r, hnew, heq⟩ := Option.map_eq_some_iff.mp hc
    cases heq
    rw [eq_of_newArray hnew]
    exact hr.alloc (by simp [newRange])
  · cases hc

lemma copyOnWriteOf (hr : h.Rooted) (hp : p < h.next) (q : MemoryMapPtr)
    (hq : (h.copyOnWriteOf p).kind = .copyOnWrite q) :
    q < h.next ∧ (h.obj q).baseAddress = (h.copyOnWriteOf p).baseAddress := by
  obtain rfl : h.root p = q := MapKind.copyOnWrite.inj hq
  exact ⟨(hr.rootFrom _ p).2 hp, (hr.rootFrom _ p).1⟩

lemma clone (hr : h.Rooted) (p : MemoryMapPtr) : (h.clone p).1.Rooted := by
  unfold Heap.clone
  dsimp only
  split
  · exact hr.alloc (by simp [newRange])
  · exact hr.alloc (by simp [newRange])
  · rename_i data hk
    generalize hparent : newRange _ _ _ _ _ = parent
    have h1 : (h.alloc parent).1.Rooted := hr.alloc (by simp [← hparent, newRange])
    have hobj : (h.alloc parent).1.obj h.next = parent := alloc_obj_self h parent
    have hbase : parent.baseAddress = ((h.alloc parent).1.obj p).baseAddress := by
      by_cases hp : p = h.next
      · rw [hp, hobj]
      · rw [alloc_obj_of_ne h parent hp, ← hparent]
        rfl
    have hcow : ((h.alloc parent).1.copyOnWriteOf h.next).baseAddress =
        ((h.alloc parent).1.obj p).baseAddress :=
      (congrArg MappedRange.baseAddress hobj).trans hbase
    have h2 := h1.set hcow (h1.copyOnWriteOf (Nat.lt_succ_self h.next))
    exact h2.alloc (h2.copyOnWriteOf (Nat.lt_succ_self h.next))
  · rename_i q hk
    exact hr.alloc (hr.copyOnWriteOf (hr p q hk).1)

end Rooted

end Heap

/-! ## Calls on an address space -/

namespace AddressSpace

variable {h h' : Heap} {s s' : AddressSpace} {addr base limit size : Nat} {vals : List UInt8}
  {ok : Bool} {cfg : Config} {maps kept : List MemoryMapPtr}

lemma writeBytes_rooted {p : MemoryMapPtr} {count : Nat} {rest : List UInt8} (hr : h.Rooted)
    (hw : writeBytes p h addr count vals = some (ok, h', rest)) : h'.Rooted := by
  induction count generalizing h addr vals with
  | zero =>
    cases hw
    exact hr
  | succ count ih =>
  cases vals with
  | nil => cases hw
  | cons val vals =>
  unfold writeBytes at hw
  split at hw
  · cases hw
  · rename_i hfail
    cases hw
    exact hr.write hfail
  · rename_i hstore
    exact ih (hr.write hstore) hw

lemma tryWriteLoop_rooted {fuel page endAddr : Nat} (hr : h.Rooted)
    (hw : tryWriteLoop cfg fuel s h page addr endAddr vals = some (ok, s', h')) : h'.Rooted := by
  induction fuel generalizing s h page addr vals with
  | zero => cases hw
  | succ fuel ih =>
  simp only [tryWriteLoop] at hw
  split at hw
  · split at hw
    · have hnote := hr.touched (noteCodeWrite_touched cfg (s.findRangeAligned h page).1 h page
        (s.findRangeAligned h page).2)
      split at hw
      · cases hw
      · rename_i hfail
        cases hw
        exact writeBytes_rooted hnote hfail
      · rename_i hbytes
        exact ih (writeBytes_rooted hnote hbytes) hw
    · cases hw
      exact hr
  · cases hw
    exact hr

lemma tryWrite_rooted (hr : h.Rooted) (hw : s.tryWrite cfg h addr vals = some (ok, s', h')) :
    h'.Rooted := tryWriteLoop_rooted hr hw

lemma tryWriteByte_rooted {val : UInt8} (hr : h.Rooted)
    (hw : s.tryWriteByte cfg h addr val = some (ok, s', h')) : h'.Rooted := by
  simp only [tryWriteByte] at hw
  split at hw
  · cases hw
  · rename_i hstore
    cases hw
    exact hr.write hstore
  · rename_i hfail
    exact tryWrite_rooted (hr.write hfail) hw

lemma tryWriteTyped_rooted {type : ValueType} {val : List.Vector UInt8 type.size} (hr : h.Rooted)
    (hw : tryWriteTyped cfg type s h addr val = some (ok, s', h')) : h'.Rooted := by
  simp only [tryWriteTyped] at hw
  split at hw
  · cases hw
  · rename_i hnull
    exact tryWrite_rooted (hr.toReadWriteVirtualAddress hnull) hw
  · rename_i hptr
    have hr1 := hr.toReadWriteVirtualAddress hptr
    split at hw
    · cases hw
      exact hr1.storeBytes _ _ _
    · exact tryWrite_rooted hr1 hw

lemma removeFromRange_rooted {x : MemoryMapPtr} (hr : h.Rooted)
    (hc : removeFromRange h x base limit = some (h', kept)) : h'.Rooted := by
  unfold removeFromRange at hc
  dsimp only at hc
  split at hc
  · cases hc
    exact hr
  split at hc
  · cases hc
    exact hr
  split at hc
  · split at hc
    · cases hc
    rename_i hlow
    split at hc
    · cases hc
    rename_i hhigh
    cases hc
    exact (hr.copy hlow).copy hhigh
  split at hc
  all_goals
    split at hc
    · cases hc
    rename_i hpart
    cases hc
    exact hr.copy hpart

lemma removeRange_rooted (hr : h.Rooted) (hc : removeRange h maps base limit = some (h', kept)) :
    h'.Rooted := by
  induction maps generalizing h kept with
  | nil =>
    cases hc
    exact hr
  | cons x rest ih =>
  simp only [removeRange] at hc
  split at hc
  · cases hc
  rename_i hfirst
  split at hc
  · cases hc
  rename_i hrest
  cases hc
  exact ih (removeFromRange_rooted hr hfirst) hrest

lemma replaceRange_rooted {new : MemoryMapPtr} {r w x : Bool} (hr : h.Rooted)
    (hc : replaceRange h s new base limit r w x = some (s', h')) : h'.Rooted := by
  unfold replaceRange at hc
  split at hc
  · cases hc
  split at hc
  · cases hc
  rename_i hkept
  cases hc
  exact removeRange_rooted hr hkept

lemma addMap_rooted {name : Option (List UInt8)} {offset : Nat} (hr : h.Rooted)
    (hc : s.addMap h base size name offset = some (s', h')) : h'.Rooted := by
  simp only [addMap] at hc
  split at hc
  · cases hc
    exact hr
  split at hc
  · cases hc
  exact replaceRange_rooted (hr.alloc (by simp [newRange])) hc

lemma removeMap_rooted (hr : h.Rooted) (hc : s.removeMap h base size = some (s', h')) :
    h'.Rooted := by
  simp only [removeMap] at hc
  split at hc
  · cases hc
    exact hr
  split at hc
  · cases hc
  exact replaceRange_rooted (hr.alloc (by simp [newRange])) hc

lemma cloneMaps_rooted (hr : h.Rooted) (maps : List MemoryMapPtr) :
    (cloneMaps h maps).1.Rooted := by
  induction maps generalizing h with
  | nil => exact hr
  | cons x rest ih =>
  simp only [cloneMaps]
  split
  · exact ih (hr.clone x)
  · exact ih hr

end AddressSpace

namespace World

open AddressSpace

variable {cfg : Config} {w w' : World} {op : Op} {o : Out}

/-- Every call keeps the ranges rooted, guarded or not. -/
lemma step_rooted (hr : w.heap.Rooted) (hstep : step cfg op w = some (o, w')) :
    w'.heap.Rooted := by
  cases op <;> simp only [step] at hstep
  case new =>
    cases hstep
    exact hr.alloc (by simp [newRange])
  case copy i =>
    split at hstep
    · cases hstep
    rename_i s hi
    cases hstep
    exact cloneMaps_rooted hr s.maps
  case addMap =>
    obtain ⟨_, _, _, hrun, rfl⟩ := onSpace_map_eq_some hstep
    exact addMap_rooted hr hrun
  case removeMap =>
    obtain ⟨_, _, _, hrun, rfl⟩ := onSpace_map_eq_some hstep
    exact removeMap_rooted hr hrun
  case tryRead | tryReadTyped =>
    obtain ⟨_, _, _, _, rfl⟩ := onSpace_map_eq_some hstep
    exact hr
  case setPermissions | tryReadByte | tryReadExecutable | markAsTraceHead =>
    obtain ⟨_, _, _, _, hcall, rfl⟩ := onSpace_eq_some hstep
    cases hcall
    exact hr
  case tryWrite =>
    obtain ⟨_, _, _, hrun, rfl⟩ := onSpace_map_eq_some hstep
    exact tryWrite_rooted hr hrun
  case tryWriteByte =>
    obtain ⟨_, _, _, hrun, rfl⟩ := onSpace_map_eq_some hstep
    exact tryWriteByte_rooted hr hrun
  case tryWriteTyped =>
    obtain ⟨_, _, _, hrun, rfl⟩ := onSpace_map_eq_some hstep
    exact tryWriteTyped_rooted hr hrun
  case computeCodeVersion i pc =>
    obtain ⟨s, s', h', _, hcall, rfl⟩ := onSpace_eq_some hstep
    obtain rfl : (computeCodeVersion cfg s w.heap pc).2.2 = h' :=
      congrArg (fun r => r.2.2) (Option.some.inj hcall)
    show (computeCodeVersion cfg s w.heap pc).2.2.Rooted
    unfold computeCodeVersion
    split
    · exact hr.touched (Heap.computeCodeVersion_touched cfg.hash w.heap _)
    · exact hr

lemma rooted_of_run {ops : List Op} {os : List Out}
    (hrun : (memory cfg).run ops init = some (os, w)) : w.heap.Rooted :=
  Machine.run_preserves (M := memory cfg) (I := fun w => w.heap.Rooted) (P := fun _ _ => True)
    (fun _ _ _ _ hr _ hs => step_rooted hr hs) init_wf.heap.rooted
    (Machine.runMeets_of_forall (fun _ _ _ => trivial) _) hrun

end World

end Vmill
