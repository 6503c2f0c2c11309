import Vmill.Logic.Buffer
import Vmill.Logic.Faults
import Vmill.Logic.World
import Vmill.Runtime.Linux.Thread
import Vmill.Theorems.Ring

/-!
# What `clone` does to the parent and to the child

The child can be otherwise than a copy in four ways (`CloneKeeps`):

* `DoSetThreadArea` writes the slots of the current task, the parent;
* the slots of the parent are not copied;
* a write of the task id faults, which is recorded in the parent;
* the first task closes the ring, so its link changes.
-/

namespace Vmill.Linux

open Base Guest

variable {Rest : Type} {cur addr tid child i retAddr : Nat} {p : LinuxTask} {cfg : Config}
  {σ σ' σ1 : Threads Rest} {abi : SystemCallABI} {a : CloneArgs} {d : ThreadData Rest}

lemma scanReturnAddress_uniform (addr count i : Nat) :
    Uniform (SystemCallABI.scanReturnAddress addr count i) := by
  induction count generalizing i with
  | zero => exact Uniform.pure addr
  | succ count ih =>
  intro s h
  have hread := tryReadMemory_uniform ((addr + i) &&& s.addrMask) 1
  have hvalue : ∀ n, Uniform (fun g => some (g.addrT n, g)) := fun n =>
    Uniform.value _ fun _ _ _ _ => rfl
  let next : Option (List UInt8) → Guest → Option (Nat × Guest)
    | none, g => SystemCallABI.scanReturnAddress addr count (i + 1) g
    | some bytes, g =>
      if bytes.headD 0 = 0x90 then SystemCallABI.scanReturnAddress addr count (i + 1) g
      else if bytes.headD 0 = 0xcd then some (g.addrT (addr + i + 2), g)
      else some (g.addrT (addr + i), g)
  have hnext : ∀ o, Uniform (next o) := by
    rintro (_ | bytes)
    · exact ih (i + 1)
    by_cases hnop : bytes.headD 0 = 0x90
    · simp only [next, hnop, if_true]
      exact ih (i + 1)
    by_cases hint : bytes.headD 0 = 0xcd
    · simp only [next, hint, if_true]
      exact hvalue _
    simp only [next, hnop, hint, if_false]
    exact hvalue _
  have heq : ∀ t, SystemCallABI.scanReturnAddress addr (count + 1) i ⟨t, s, h⟩ =
      (tryReadMemory ⟨t, s, h⟩ ((addr + i) &&& s.addrMask) 1).bind fun r => next r.1 r.2 := by
    intro t
    simp only [SystemCallABI.scanReturnAddress, addrT]
    rcases tryReadMemory ⟨t, s, h⟩ ((addr + i) &&& s.addrMask) 1 with _ | ⟨_ | bytes, g⟩ <;> rfl
  rcases hread.bind hnext s h with hnone | ⟨a, s', h', r, hr, hsome⟩
  · exact .inl fun t => (heq t).trans (hnone t)
  · exact .inr ⟨a, s', h', r, hr, fun t => (heq t).trans (hsome t)⟩

lemma getReturnAddress_uniform (abi : SystemCallABI) (retAddr : Nat) :
    Uniform (abi.getReturnAddress retAddr) := by
  cases abi with
  | x86SysEnter32 => exact scanReturnAddress_uniform retAddr 15 0
  | x86Int0x80 => exact Uniform.pure retAddr
  | amd64Syscall => exact Uniform.pure retAddr
  | aarch64Supervisor => exact Uniform.pure retAddr

lemma tryWriteTid_uniform (cfg : Config) (asked : Bool) (addr tid : Nat) :
    Uniform (tryWriteTid cfg asked addr tid) := by
  cases asked with
  | false => exact Uniform.pure ()
  | true =>
  have heq : tryWriteTid cfg true addr tid = fun g =>
      (g.tryWriteMemory cfg addr (wordBytes tid)).bind fun r => some ((), r.2) := by
    funext g
    simp only [tryWriteTid, if_true]
    rcases g.tryWriteMemory cfg addr (wordBytes tid) with _ | r <;> rfl
  rw [heq]
  exact Uniform.bind (tryWriteMemory_uniform cfg addr _) fun _ => Uniform.pure ()

/-- The accesses to guest memory that `DoClone` makes, on top of its checks: those to find the
return address, and the writes of the new task id. -/
def cloneAccesses (cfg : Config) (abi : SystemCallABI) (pc tid : Nat) (a : CloneArgs) (g : Guest) :
    Option (Nat × Guest) :=
  (abi.getReturnAddress pc g).bind fun r =>
    (tryWriteTid cfg (a.has clonePARENT_SETTID) a.ptid tid r.2).bind fun r1 =>
      (tryWriteTid cfg (a.has cloneCHILD_SETTID) a.ctid tid r1.2).bind fun r2 => some (r.1, r2.2)

lemma cloneAccesses_uniform (cfg : Config) (abi : SystemCallABI) (pc tid : Nat) (a : CloneArgs) :
    Uniform (cloneAccesses cfg abi pc tid a) :=
  (getReturnAddress_uniform abi pc).bind fun ret =>
    (tryWriteTid_uniform cfg _ a.ptid tid).bind fun _ =>
      (tryWriteTid_uniform cfg _ a.ctid tid).bind fun _ => Uniform.pure ret

/-- None of these accesses faults: in a task that has no fault they record none. -/
def NoFault (cfg : Config) (abi : SystemCallABI) (pc tid : Nat) (a : CloneArgs) (s : AddressSpace)
    (h : Heap) : Prop :=
  ∀ r, cloneAccesses cfg abi pc tid a ⟨some (Task.init 0), s, h⟩ = some r →
    r.2.task = some (Task.init 0)

/-- What these accesses are for is mapped, and may be read or written. -/
structure CloneMapped (abi : SystemCallABI) (pc : Nat) (a : CloneArgs) (g : Guest) : Prop where
  scan : abi = .x86SysEnter32 → g.MayRead pc 15
  ptid : a.has clonePARENT_SETTID = true → g.MayWrite a.ptid 4
  ctid : a.has cloneCHILD_SETTID = true → g.MayWrite a.ctid 4

section

variable {g : Guest}

lemma scanReturnAddress_becomes {count : Nat} (hg : g.WF) (hscan : g.MayRead addr (i + count)) :
    ∃ ret g', SystemCallABI.scanReturnAddress addr count i g = some (ret, g') ∧
      g.Becomes g' g.mem := by
  induction count generalizing g i with
  | zero => exact ⟨addr, g, rfl, Becomes.refl g⟩
  | succ count ih =>
  have hbyte : g.MayRead (g.addrT (addr + i)) 1 := by
    rw [addrT_of_le hg.space (hscan.fits i (Nat.zero_le _) (by omega))]
    exact Copyable.shift (Copyable.mono hscan (Nat.zero_le _) (by omega))
  obtain ⟨g1, hread, hb⟩ := hbyte.tryReadMemory hg
  obtain ⟨ret, g2, hnext, hb'⟩ := ih (i := i + 1) (hb.wf hg)
    (hb.mayRead hg (by rwa [Nat.add_right_comm]))
  rw [hb.mem] at hb'
  simp only [SystemCallABI.scanReturnAddress, hread]
  split
  · exact ⟨ret, g2, hnext, hb.trans hb'⟩
  split
  · exact ⟨_, g1, rfl, hb⟩
  · exact ⟨_, g1, rfl, hb⟩

lemma tryWriteTid_becomes (cfg : Config) (hg : g.WF) {asked : Bool}
    (hword : asked = true → g.MayWrite addr 4) (tid : Nat) :
    ∃ g' m, tryWriteTid cfg asked addr tid g = some ((), g') ∧ g.Becomes g' m := by
  cases asked with
  | false => exact ⟨g, _, rfl, Becomes.refl g⟩
  | true =>
  obtain ⟨g', hwrite, hb⟩ := MayWrite.tryWriteMemory cfg hg (show g.MayWrite addr
    (wordBytes tid).length from hword rfl)
  exact ⟨g', _, by rw [tryWriteTid, if_pos rfl, hwrite]; rfl, hb⟩

lemma cloneAccesses_becomes (cfg : Config) {pc : Nat} (hg : g.WF) (hm : CloneMapped abi pc a g)
    (tid : Nat) : ∃ ret g' m, cloneAccesses cfg abi pc tid a g = some (ret, g') ∧ g.Becomes g' m := by
  obtain ⟨ret, g1, hret, hb⟩ : ∃ ret g', abi.getReturnAddress pc g = some (ret, g') ∧
      g.Becomes g' g.mem := by
    cases abi with
    | x86SysEnter32 => exact scanReturnAddress_becomes hg (hm.scan rfl)
    | x86Int0x80 | amd64Syscall | aarch64Supervisor => exact ⟨pc, g, rfl, Becomes.refl g⟩
  obtain ⟨g2, m2, hptid, hb2⟩ := tryWriteTid_becomes cfg (hb.wf hg)
    (fun h => hb.mayWrite hg (hm.ptid h)) tid
  have hb2 := hb.trans hb2
  obtain ⟨g3, m3, hctid, hb3⟩ := tryWriteTid_becomes cfg (hb2.wf hg)
    (fun h => hb2.mayWrite hg (hm.ctid h)) tid
  refine ⟨ret, g3, m3, ?_, hb2.trans hb3⟩
  simp only [cloneAccesses, hret, Option.bind_some, hptid, hctid]

end

lemma CloneMapped.noFault {pc : Nat} {s : AddressSpace} {h : Heap}
    (hm : CloneMapped abi pc a ⟨some (Task.init 0), s, h⟩)
    (hg : Guest.WF ⟨some (Task.init 0), s, h⟩) (tid : Nat) : NoFault cfg abi pc tid a s h := by
  intro r hr
  obtain ⟨ret, g', m, hacc, hb⟩ := cloneAccesses_becomes cfg hg hm tid
  rw [← Option.mem_unique hacc hr]
  exact hb.task

/-- With `CLONE_SETTLS` the child gets its own TLS setting: on x86 the base of the segments that
use some entry, on AMD64 the base of `fs`, on AArch64 `tpidr_el0`. -/
def TlsSetting (abi : SystemCallABI) (newtls : Nat) (p c : Registers Rest) : Prop :=
  match abi with
  | .x86Int0x80 | .x86SysEnter32 => c.tpidrEl0 = p.tpidrEl0 ∧ ∃ index base, ∀ seg,
      c.segBase seg = if p.segIndex seg = index then base else p.segBase seg
  | .amd64Syscall => c.tpidrEl0 = p.tpidrEl0 ∧ c.segBase = Function.update p.segBase .fs newtls
  | .aarch64Supervisor => c.tpidrEl0 = newtls ∧ c.segBase = p.segBase

/-- The registers of the child are those of the parent, except for the program counter, the
stack pointer, a return value of zero and the TLS setting. -/
structure ChildRegs (abi : SystemCallABI) (a : CloneArgs) (p c : Registers Rest) : Prop where
  ret : c.ret = 0
  segIndex : c.segIndex = p.segIndex
  rest : c.rest = p.rest
  tls : if a.has cloneSETTLS then TlsSetting abi a.newtls p c
    else c.segBase = p.segBase ∧ c.tpidrEl0 = p.tpidrEl0

/-- The TLS slots of a child: those of the parent, or one of them set. -/
def ChildSlots (abi : SystemCallABI) (a : CloneArgs) (p c : Fin kNumTLSSlots → UserDesc) : Prop :=
  if abi.isX86 ∧ a.has cloneSETTLS then
    ∃ (slot : Fin kNumTLSSlots) (desc : UserDesc),
      desc.entryNumber = kLinuxMinIndexForTLSInGDT + slot ∧ c = Function.update p slot desc
  else c = p

/-- Only the return value of the parent changes, and the child is a copy. -/
structure ClonesCleanly (abi : SystemCallABI) (a : CloneArgs) (cur child : Nat)
    (σ σ' : Threads Rest) : Prop where
  task : σ'.kernel.tasks[cur]? = σ.kernel.tasks[cur]?
  data : ∃ d ret, σ.data[cur]? = some d ∧
    σ'.data[cur]? = some { d with regs := { d.regs with ret := ret } }
  child : ∃ d c, σ.data[cur]? = some d ∧ σ'.data[child]? = some c ∧
    ChildRegs abi a d.regs c.regs ∧ ChildSlots abi a d.tlsSlots c.tlsSlots

/-- The condition for it, on the state before the call. -/
structure CloneKeeps (cfg : Config) (abi : SystemCallABI) (a : CloneArgs) (cur : Nat)
    (σ : Threads Rest) : Prop where
  noDescriptor : ¬ (abi.isX86 ∧ a.has cloneSETTLS)
  noSlots : ∀ d, σ.data[cur]? = some d → d.tlsSlots = fun _ => UserDesc.zero
  noFault : ∀ p d, σ.kernel.tasks[cur]? = some p → σ.data[cur]? = some d →
    p.memAccessFault.kind ≠ .noFault ∨
      NoFault cfg abi d.regs.pc σ.kernel.nextTid a σ.space σ.heap
  notFirst : σ.kernel.lastTask ≠ some cur

namespace Threads

variable {g : Guest} {t : Task}

lemma change_self (hp : σ.kernel.tasks[cur]? = some p) (f : Task → Task) :
    (σ.change cur f).kernel.tasks[cur]? = some { p with toTask := f p.toTask } :=
  Kernel.onTask_self hp _

lemma onData_self (hd : σ.data[i]? = some d) (f : ThreadData Rest → ThreadData Rest) :
    (σ.onData i f).data[i]? = some (f d) := by
  simp only [onData]
  rw [List.getElem?_modify_eq, hd]
  rfl

lemma onData_of_ne {j : Nat} (hne : j ≠ i) (f : ThreadData Rest → ThreadData Rest) :
    (σ.onData i f).data[j]? = σ.data[j]? := by
  simp only [onData]
  exact List.getElem?_modify_ne _ _ (Ne.symm hne)

lemma guest_eq (hp : σ.kernel.tasks[cur]? = some p) :
    σ.guest cur = ⟨some p.toTask, σ.space, σ.heap⟩ := by
  unfold guest
  rw [hp]
  rfl

lemma setGuest_self (hp : σ.kernel.tasks[cur]? = some p) (ht : g.task = some t) :
    (σ.setGuest cur g).kernel.tasks[cur]? = some { p with toTask := t } := by
  have hchange := change_self hp fun t => g.task.getD t
  rw [ht] at hchange
  simp only [setGuest, ht]
  exact hchange

lemma guest_setGuest (hp : σ.kernel.tasks[cur]? = some p) (ht : g.task = some t) :
    (σ.setGuest cur g).guest cur = g := by
  rw [guest_eq (setGuest_self hp ht), ← ht]
  rfl

end Threads

lemma cloneTask_parent {σ : Kernel} (h : Linked σ) {q : LinuxTask} (hp : σ.tasks[cur]? = some p)
    (pc ctid : Nat) :
    (σ.cloneTask q pc ctid).tasks[cur]? = some { p with
      nextCircular := if σ.lastTask = some cur then σ.tasks.length else p.nextCircular } := by
  obtain ⟨hlt, _⟩ := List.getElem?_eq_some_iff.mp hp
  unfold Kernel.cloneTask
  rw [Kernel.onTask_of_ne hlt.ne]
  have hnonempty : σ.tasks.length ≠ 0 := by omega
  have hlist := h.taskList
  have hlast := h.lastTask
  rw [if_neg hnonempty] at hlist hlast
  simp only [Kernel.createTask, Kernel.linkTask, hlist, hlast]
  rw [List.getElem?_append_left (by rwa [Kernel.onTask_length])]
  by_cases hcur : cur = 0
  · subst hcur
    rw [Kernel.onTask_self hp, if_pos rfl]
  · rw [Kernel.onTask_of_ne hcur, hp, if_neg (fun heq => hcur (Option.some.inj heq).symm)]

lemma writeTid_spec {asked : Bool} (hp : σ.kernel.tasks[cur]? = some p)
    (h : σ.writeTid cfg cur asked addr tid = some σ') :
    ∃ g t, tryWriteTid cfg asked addr tid (σ.guest cur) = some ((), g) ∧ g.task = some t ∧
      σ' = σ.setGuest cur g := by
  obtain ⟨⟨_, g⟩, hwrite, rfl⟩ := Option.map_eq_some_iff.mp h
  have htask : (σ.guest cur).task = some p.toTask := by rw [Threads.guest_eq hp]
  obtain ⟨t, ht⟩ := (tryWriteTid_uniform cfg asked addr tid).task_some htask hwrite
  exact ⟨g, t, hwrite, ht, rfl⟩

/-- What the call has made of parent and child. -/
structure Spawned (cfg : Config) (abi : SystemCallABI) (a : CloneArgs) (cur : Nat)
    (σ σ1 : Threads Rest) (p : LinuxTask) (d : ThreadData Rest) : Prop where
  task : ∃ retAddr g t,
    cloneAccesses cfg abi d.regs.pc σ.kernel.nextTid a (σ.guest cur) = some (retAddr, g) ∧
    g.task = some t ∧
    σ1.kernel.tasks[cur]? = some { p with
      toTask := t
      nextCircular := if σ.kernel.lastTask = some cur then σ.kernel.tasks.length
        else p.nextCircular }
  data : σ1.data[cur]? = some { d with regs := abi.setReturn σ.kernel.nextTid d.regs }
  child : ∃ retAddr, σ1.data[σ.kernel.tasks.length]? = some {
    regs := Threads.childRegs abi retAddr a.childStack d.regs
    tlsSlots := fun _ => UserDesc.zero
    wakeCount := 0
    setChildTid := if a.has cloneCHILD_SETTID then a.ctid else 0 }

lemma cloneChild_spec (hlinked : Linked σ.kernel) (hp : σ.kernel.tasks[cur]? = some p)
    (hd : σ.data[cur]? = some d) (h : σ.cloneChild cfg abi cur a = some σ') :
    ∃ σ1, Spawned cfg abi a cur σ σ1 p d ∧
      (if a.has cloneSETTLS then σ1.setTls cfg abi cur σ.kernel.tasks.length a.newtls
        else some σ1) = some σ' := by
  unfold Threads.cloneChild at h
  rw [hp, hd] at h
  dsimp only at h
  have htask : (σ.guest cur).task = some p.toTask := by rw [Threads.guest_eq hp]
  rcases hret : abi.getReturnAddress d.regs.pc (σ.guest cur) with _ | ⟨retAddr, g⟩
  · rw [hret] at h
    exact nomatch h
  rw [hret] at h
  dsimp only at h
  obtain ⟨t, ht⟩ := (getReturnAddress_uniform abi _).task_some htask hret
  generalize hchild : ThreadData.mk _ _ _ _ = child at h
  generalize hmade : (σ.setGuest cur g).addChild p retAddr _ child = σ2 at h
  have hp1 := Threads.setGuest_self hp ht
  have hp2 : σ2.kernel.tasks[cur]? = some { p with
      toTask := t
      nextCircular := if σ.kernel.lastTask = some cur then σ.kernel.tasks.length
        else p.nextCircular } := by
    rw [← hmade]
    have hsame : SameLinks σ.kernel (σ.setGuest cur g).kernel := SameLinks.change cur _
    have hparent := cloneTask_parent (q := p) (hlinked.sameLinks hsame) hp1 retAddr
      (if a.has cloneCHILD_CLEARTID then a.ctid else 0)
    rwa [hsame.lastTask, hsame.length] at hparent
  have hg2 : σ2.guest cur = g := by
    rw [Threads.guest_eq hp2, ← hmade, ← ht]
    rfl
  have hdata2 : σ2.data = σ.data ++ [child] := by
    rw [← hmade]
    rfl
  rcases hfirst : σ2.writeTid cfg cur (a.has clonePARENT_SETTID) a.ptid σ.kernel.nextTid
    with _ | σ3
  · rw [hfirst] at h
    exact nomatch h
  rw [hfirst] at h
  dsimp only at h
  obtain ⟨g3, t3, hwrite3, ht3, rfl⟩ := writeTid_spec hp2 hfirst
  rw [hg2] at hwrite3
  have hp3 := Threads.setGuest_self hp2 ht3
  rcases hsecond : (σ2.setGuest cur g3).writeTid cfg cur (a.has cloneCHILD_SETTID) a.ctid
    σ.kernel.nextTid with _ | σ4
  · rw [hsecond] at h
    exact nomatch h
  rw [hsecond] at h
  dsimp only at h
  obtain ⟨g4, t4, hwrite4, ht4, rfl⟩ := writeTid_spec hp3 hsecond
  rw [Threads.guest_setGuest hp2 ht3] at hwrite4
  have hp4 := Threads.setGuest_self hp3 ht4
  obtain ⟨hlt, _⟩ := List.getElem?_eq_some_iff.mp hp
  refine ⟨((σ2.setGuest cur g3).setGuest cur g4).onRegs cur (abi.setReturn σ.kernel.nextTid),
    ⟨⟨retAddr, g4, t4, ?_, ht4, hp4⟩, ?_, retAddr, ?_⟩, h⟩
  · simp only [cloneAccesses, hret, hwrite3, hwrite4, Option.bind_some]
  · refine Threads.onData_self (σ := (σ2.setGuest cur g3).setGuest cur g4) (d := d) ?_ _
    show σ2.data[cur]? = some d
    rw [hdata2, List.getElem?_append_left (by rwa [σ.same]), hd]
  · rw [Threads.onRegs, Threads.onData_of_ne hlt.ne']
    show σ2.data[σ.kernel.tasks.length]? = _
    rw [hdata2, List.getElem?_append_right (by rw [σ.same]), σ.same, Nat.sub_self, ← hchild]
    rfl

lemma doClone_cloned {newCgroup : Nat}
    (h : σ.doClone cfg abi newCgroup cur a = some (.cloned child, σ')) :
    child = σ.kernel.tasks.length ∧ σ.cloneChild cfg abi cur a = some σ' := by
  unfold Threads.doClone at h
  split at h
  · simp at h
  split at h
  · simp at h
  split at h
  · simp at h
  split at h
  · exact nomatch h
  · simp at h
  split at h
  · exact nomatch h
  · simp at h
  obtain ⟨σ1, hchild, heq⟩ := Option.map_eq_some_iff.mp h
  obtain ⟨hresult, rfl⟩ := Prod.mk.inj heq
  exact ⟨(CloneResult.cloned.inj hresult).symm, hchild⟩

/-- The TLS slots of thread `i` are as they were. -/
def SlotsKept (i : Nat) (σ σ' : Threads Rest) : Prop :=
  ∀ c, σ.data[i]? = some c → ∃ c', σ'.data[i]? = some c' ∧ c'.tlsSlots = c.tlsSlots

lemma SlotsKept.trans {σ'' : Threads Rest} (h : SlotsKept i σ σ') (h' : SlotsKept i σ' σ'') :
    SlotsKept i σ σ'' := by
  intro c hc
  obtain ⟨c', hc', heq⟩ := h c hc
  obtain ⟨c'', hc'', heq'⟩ := h' c' hc'
  exact ⟨c'', hc'', heq'.trans heq⟩

lemma SlotsKept.setGuest (i cur : Nat) (σ : Threads Rest) (g : Guest) :
    SlotsKept i σ (σ.setGuest cur g) := fun c hc => ⟨c, hc, rfl⟩

lemma SlotsKept.onRegs (i : Nat) (σ : Threads Rest) (f : Registers Rest → Registers Rest) :
    SlotsKept i σ (σ.onRegs i f) := fun _ hc => ⟨_, Threads.onData_self hc _, rfl⟩

lemma SlotsKept.setEntry (hne : i ≠ cur) (σ : Threads Rest) (abi : SystemCallABI)
    (info : UserDesc) : SlotsKept i σ (σ.setEntry abi cur i info) := by
  have hcur : ∀ (σ : Threads Rest) f, SlotsKept i σ (σ.onData cur f) := fun σ f c hc =>
    ⟨c, (Threads.onData_of_ne hne f).trans hc, rfl⟩
  exact ((SlotsKept.onRegs i σ _).trans (hcur _ _)).trans (SlotsKept.onRegs i _ _)

lemma doSetThreadArea_slots (hne : i ≠ cur) (h : σ.doSetThreadArea cfg abi cur i addr = some σ') :
    SlotsKept i σ σ' := by
  have hfails : ∀ g code, SlotsKept i σ ((σ.setGuest cur g).onRegs i (abi.setReturn code)) :=
    fun g code => (SlotsKept.setGuest i cur σ g).trans (SlotsKept.onRegs i _ _)
  unfold Threads.doSetThreadArea at h
  split at h
  · exact nomatch h
  · cases h
    exact hfails _ _
  rename_i bytes g hread
  dsimp only at h
  split at h
  · cases h
    exact hfails _ _
  split at h
  · split at h
    · cases h
      exact hfails _ _
    cases h
    exact (SlotsKept.setGuest i cur σ g).trans (SlotsKept.setEntry hne _ _ _)
  split at h
  · cases h
    exact hfails _ _
  split at h
  · exact nomatch h
  · cases h
    exact ((SlotsKept.setGuest i cur σ g).trans (SlotsKept.setGuest i cur _ _)).trans
      (SlotsKept.onRegs i _ _)
  cases h
  exact ((SlotsKept.setGuest i cur σ g).trans (SlotsKept.setGuest i cur _ _)).trans
    (SlotsKept.setEntry hne _ _ _)

lemma setTls_spec {c : ThreadData Rest} (hne : cur ≠ child)
    (hnot : ¬ (abi.isX86 ∧ a.has cloneSETTLS)) (hc : σ1.data[child]? = some c)
    (hregs : c.regs = Threads.childRegs abi retAddr a.childStack d.regs)
    (h : (if a.has cloneSETTLS then σ1.setTls cfg abi cur child a.newtls else some σ1) = some σ') :
    σ'.kernel = σ1.kernel ∧ σ'.data[cur]? = σ1.data[cur]? ∧
      ∃ c', σ'.data[child]? = some c' ∧ c'.tlsSlots = c.tlsSlots ∧
        ChildRegs abi a d.regs c'.regs := by
  have hchild : c.regs.ret = 0 ∧ c.regs.segIndex = d.regs.segIndex ∧ c.regs.rest = d.regs.rest ∧
      c.regs.segBase = d.regs.segBase ∧ c.regs.tpidrEl0 = d.regs.tpidrEl0 := by
    rw [hregs]
    unfold Threads.childRegs SystemCallABI.setReturn
    split <;> exact ⟨by simp, rfl, rfl, rfl, rfl⟩
  obtain ⟨hret, hindex, hrest, hbase, htpidr⟩ := hchild
  by_cases hasked : a.has cloneSETTLS = true
  · rw [if_pos hasked] at h
    have hx86 : abi.isX86 ≠ true := fun hx => hnot ⟨hx, hasked⟩
    cases abi with
    | x86Int0x80 => exact absurd rfl hx86
    | x86SysEnter32 => exact absurd rfl hx86
    | amd64Syscall =>
      cases h
      refine ⟨rfl, Threads.onData_of_ne hne _, _, Threads.onData_self hc _, rfl, ?_⟩
      refine ⟨hret, hindex, hrest, ?_⟩
      rw [if_pos hasked]
      exact ⟨htpidr, congrArg (Function.update · _ _) hbase⟩
    | aarch64Supervisor =>
    cases h
    refine ⟨rfl, Threads.onData_of_ne hne _, _, Threads.onData_self hc _, rfl, ?_⟩
    refine ⟨hret, hindex, hrest, ?_⟩
    rw [if_pos hasked]
    exact ⟨rfl, hbase⟩
  rw [if_neg hasked] at h
  cases h
  refine ⟨rfl, rfl, c, hc, rfl, hret, hindex, hrest, ?_⟩
  rw [if_neg hasked]
  exact ⟨hbase, htpidr⟩

lemma noFault_iff {pc : Nat} {s : AddressSpace} {h : Heap} {p t : Task} {g : Guest}
    (haccess : cloneAccesses cfg abi pc tid a ⟨some p, s, h⟩ = some (retAddr, g))
    (ht : g.task = some t) :
    t = p ↔ p.memAccessFault.kind ≠ .noFault ∨ NoFault cfg abi pc tid a s h := by
  rcases cloneAccesses_uniform cfg abi pc tid a s h with hnone | ⟨ret, s', h', r, hr, hsome⟩
  · exact absurd ((hnone _).symm.trans haccess) nofun
  obtain ⟨_, rfl⟩ := Prod.mk.inj (Option.mem_unique (hsome _) haccess)
  obtain rfl : r p = t := Option.some.inj ht
  rw [hr.apply_eq_iff (rfl : (Task.init 0).memAccessFault.kind = .noFault) p]
  refine or_congr Iff.rfl ⟨fun heq => ?_, fun hno => ?_⟩
  · intro res hres
    obtain rfl := Option.mem_unique (hsome _) hres
    exact congrArg some heq
  · exact Option.some.inj (hno _ (hsome _))

lemma not_clonesCleanly_of_descriptor (hx : abi.isX86 ∧ a.has cloneSETTLS)
    (hlt : cur < σ.kernel.tasks.length) (hspawned : Spawned cfg abi a cur σ σ1 p d)
    (h : (if a.has cloneSETTLS then σ1.setTls cfg abi cur σ.kernel.tasks.length a.newtls else some
      σ1) = some σ') : ¬ ClonesCleanly abi a cur σ.kernel.tasks.length σ σ' := by
  intro hclean
  rw [if_pos hx.2] at h
  have hset : σ1.doSetThreadArea cfg abi cur σ.kernel.tasks.length a.newtls = some σ' := by
    cases abi with
    | x86Int0x80 => exact h
    | x86SysEnter32 => exact h
    | amd64Syscall => exact absurd hx.1 (by decide)
    | aarch64Supervisor => exact absurd hx.1 (by decide)
  obtain ⟨_, hc1⟩ := hspawned.child
  obtain ⟨c, hc, hzero⟩ := doSetThreadArea_slots hlt.ne' hset _ hc1
  obtain ⟨_, c', _, hc', _, hslots⟩ := hclean.child
  obtain rfl := Option.mem_unique hc hc'
  unfold ChildSlots at hslots
  rw [if_pos hx, hzero] at hslots
  obtain ⟨slot, desc, hentry, heq⟩ := hslots
  have hslot := congrFun heq slot
  rw [Function.update_self] at hslot
  rw [← hslot] at hentry
  exact absurd hentry (by show 0 ≠ 12 + slot.val; omega)

lemma parent_same_iff (hlinked : Linked σ.kernel) (hp : σ.kernel.tasks[cur]? = some p)
    (hspawned : Spawned cfg abi a cur σ σ1 p d) :
    σ1.kernel.tasks[cur]? = σ.kernel.tasks[cur]? ↔
      (p.memAccessFault.kind ≠ .noFault ∨
        NoFault cfg abi d.regs.pc σ.kernel.nextTid a σ.space σ.heap) ∧
      σ.kernel.lastTask ≠ some cur := by
  obtain ⟨retAddr, g, t, haccess, ht, htask⟩ := hspawned.task
  rw [Threads.guest_eq hp] at haccess
  rw [← noFault_iff haccess ht, htask, hp]
  obtain ⟨hlt, _⟩ := List.getElem?_eq_some_iff.mp hp
  have hlink : p.nextCircular < σ.kernel.tasks.length := by
    have hcircular := hlinked.circular cur hlt
    simp only [circularLink, hp, Option.map_some] at hcircular
    rw [Option.some.inj hcircular]
    split <;> omega
  constructor
  · intro heq
    have heq := Option.some.inj heq
    refine ⟨congrArg LinuxTask.toTask heq, fun hlast => ?_⟩
    have hnext := congrArg LinuxTask.nextCircular heq
    simp only [hlast, if_true] at hnext
    omega
  rintro ⟨rfl, hlast⟩
  rw [if_neg hlast]

/-- **Clone.** A call of `DoClone` that makes a task changes nothing of the parent but its return
value, and makes the child a copy, exactly if the condition holds. Its accesses do not fault if what
they are for is mapped. -/
theorem clones_cleanly_iff (cfg : Config) (abi : SystemCallABI) (newCgroup : Nat)
    {cur child : Nat} {a : CloneArgs} {σ σ' : Threads Rest} (hlinked : Linked σ.kernel)
    (h : σ.doClone cfg abi newCgroup cur a = some (.cloned child, σ')) :
    (ClonesCleanly abi a cur child σ σ' ↔ CloneKeeps cfg abi a cur σ) ∧
      ∀ pc tid, Guest.WF ⟨some (Task.init 0), σ.space, σ.heap⟩ →
        CloneMapped abi pc a ⟨some (Task.init 0), σ.space, σ.heap⟩ →
          NoFault cfg abi pc tid a σ.space σ.heap := by
  refine ⟨?_, fun pc tid hg hm => hm.noFault hg tid⟩
  obtain ⟨rfl, hchild⟩ := doClone_cloned h
  obtain ⟨p, d, hp, hd⟩ : ∃ p d, σ.kernel.tasks[cur]? = some p ∧ σ.data[cur]? = some d := by
    rcases hp : σ.kernel.tasks[cur]? with _ | p
    · simp only [Threads.cloneChild, hp] at hchild
      exact nomatch hchild
    · obtain ⟨hlt, _⟩ := List.getElem?_eq_some_iff.mp hp
      exact ⟨p, _, rfl, List.getElem?_eq_getElem (by rwa [σ.same])⟩
  obtain ⟨hlt, _⟩ := List.getElem?_eq_some_iff.mp hp
  obtain ⟨σ1, hspawned, hend⟩ := cloneChild_spec hlinked hp hd hchild
  by_cases hx : abi.isX86 ∧ a.has cloneSETTLS
  · exact ⟨fun hclean => absurd hclean (not_clonesCleanly_of_descriptor hx hlt hspawned hend),
      fun hkeeps => absurd hx hkeeps.noDescriptor⟩
  obtain ⟨_, hc1⟩ := hspawned.child
  obtain ⟨hkernel, hdata, c, hc, hslots, hregs⟩ :=
    setTls_spec hlt.ne hx hc1 rfl hend
  have hsame := parent_same_iff hlinked hp hspawned
  rw [← hkernel] at hsame
  constructor
  · intro hclean
    obtain ⟨hfault, hlast⟩ := hsame.mp hclean.task
    refine ⟨hx, ?_, ?_, hlast⟩
    · intro d' hd'
      obtain ⟨d'', c', hd'', hc', _, hcopied⟩ := hclean.child
      obtain rfl := Option.mem_unique hd' hd''
      obtain rfl := Option.mem_unique hc hc'
      unfold ChildSlots at hcopied
      rw [if_neg hx, hslots] at hcopied
      exact hcopied.symm
    · intro p' d' hp' hd'
      obtain rfl := Option.mem_unique hp hp'
      obtain rfl := Option.mem_unique hd hd'
      exact hfault
  · intro hkeeps
    refine ⟨hsame.mpr ⟨hkeeps.noFault p d hp hd, hkeeps.notFirst⟩, ?_, d, c, hd, hc, hregs, ?_⟩
    · exact ⟨d, _, hd, hdata.trans hspawned.data⟩
    · unfold ChildSlots
      rw [if_neg hx, hslots]
      exact (hkeeps.noSlots d hd).symm

abbrev startedThread : ThreadData Unit where
  regs := ⟨0x400000, 0x7000, 0, fun _ => 0, fun _ => 0, 0, ()⟩
  tlsSlots := fun _ => UserDesc.zero
  wakeCount := 0
  setChildTid := 0

abbrev twoThreads (s : AddressSpace) (h : Heap) : Threads Unit where
  kernel := { (Kernel.init.createTask 0x400000 0).createTask 0x400000 0 with current := some 1 }
  data := [startedThread, startedThread]
  space := s
  heap := h
  same := rfl

lemma twoThreads_linked (s : AddressSpace) (h : Heap) : Linked (twoThreads s h).kernel :=
  ((linked_init.createTask 0x400000 0).createTask 0x400000 0).sameLinks
    ((SameLinks.refl _).current (some 1))

abbrev withTls : CloneArgs := ⟨0x8000, 0x180100, 0x1100, 0x1000, 0⟩

/-- On AMD64 the second thread starts a third one, with a TLS setting. -/
theorem clones_cleanly_amd64 : ∃ (w : World) (s : AddressSpace) (σ' : Threads Unit),
    World.Reachable (amd64 false) w ∧ w.spaces[0]? = some s ∧
    (twoThreads s w.heap).doClone (amd64 false) .amd64Syscall 0 1 withTls =
      some (.cloned 2, σ') ∧
    ClonesCleanly .amd64Syscall withTls 1 2 (twoThreads s w.heap) σ' := by
  obtain ⟨w, s, hw, hi, hclone, hptid⟩ :=
    World.reachable_eval (amd64 false) [.new, .addMap 0 0x1000 0x1000 none 0]
      (fun w s =>
        ((twoThreads s w.heap).doClone (amd64 false) .amd64Syscall 0 1 withTls).any
          (fun r => decide (r.1 = .cloned 2)) = true ∧
        Guest.MayWrite ⟨some (Task.init 0), s, w.heap⟩ withTls.ptid 4)
      (by decide +kernel)
  obtain ⟨⟨result, σ'⟩, hclone, hresult⟩ := (Option.any_eq_true _ _).mp hclone
  obtain rfl : result = .cloned 2 := of_decide_eq_true hresult
  refine ⟨w, s, σ', hw, hi, hclone, ?_⟩
  obtain ⟨hiff, hclean⟩ := clones_cleanly_iff (amd64 false) .amd64Syscall 0
    (twoThreads_linked s w.heap) hclone
  refine hiff.mpr ⟨by decide, ?_, ?_, nofun⟩
  · intro d hd
    cases hd
    rfl
  · intro p d hp hd
    exact .inr (hclean _ _ ⟨hw.wf.heap, hw.wf.space 0 s hi⟩ ⟨nofun, fun _ => hptid, nofun⟩)

abbrev x86 : Config := ⟨32, false, fun _ => 0⟩

abbrev tlsDesc : UserDesc := ⟨12, 0x5000, 0xfffff, true, .data, false, true, false, true, 0⟩

def firstSlot (σ : Threads Rest) (i : Nat) : Option UserDesc :=
  σ.data[i]?.map fun d => d.tlsSlots ⟨0, by decide⟩

/-- On x86 the descriptor ends up in the slots of the thread that called `clone`. -/
theorem descriptor_in_parent : ∃ (w : World) (s : AddressSpace) (σ' : Threads Unit),
    World.Reachable x86 w ∧ w.spaces[0]? = some s ∧ Linked (twoThreads s w.heap).kernel ∧
    (twoThreads s w.heap).doClone x86 .x86Int0x80 0 1 withTls = some (.cloned 2, σ') ∧
    firstSlot σ' 1 = some tlsDesc ∧ firstSlot σ' 2 = some UserDesc.zero ∧
    ¬ ClonesCleanly .x86Int0x80 withTls 1 2 (twoThreads s w.heap) σ' := by
  obtain ⟨w, s, hw, hi, hclone⟩ :=
    World.reachable_eval x86 [.new, .addMap 0 0x1000 0x1000 none 0,
        .tryWrite 0 0x1000 [12, 0, 0, 0, 0, 0x50, 0, 0, 0xff, 0xff, 0xf, 0, 0x51, 0, 0, 0]]
      (fun w s => ((twoThreads s w.heap).doClone x86 .x86Int0x80 0 1 withTls).any
        (fun r => decide (r.1 = .cloned 2 ∧ firstSlot r.2 1 = some tlsDesc ∧
          firstSlot r.2 2 = some UserDesc.zero)) = true)
      (by decide +kernel)
  obtain ⟨⟨result, σ'⟩, hclone, hresult⟩ := (Option.any_eq_true _ _).mp hclone
  obtain ⟨rfl, hparent, hchild⟩ : result = .cloned 2 ∧ firstSlot σ' 1 = some tlsDesc ∧
      firstSlot σ' 2 = some UserDesc.zero := of_decide_eq_true hresult
  refine ⟨w, s, σ', hw, hi, twoThreads_linked s w.heap, hclone,
    hparent, hchild, fun hclean => ?_⟩
  obtain ⟨d, ret, hd, hd'⟩ := hclean.data
  cases hd
  unfold firstSlot at hparent
  rw [hd'] at hparent
  have hzero : UserDesc.zero = tlsDesc := Option.some.inj hparent
  exact absurd hzero (by decide)

end Vmill.Linux
