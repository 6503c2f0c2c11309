import Vmill.Logic.MmapStep
import Vmill.Logic.Outside

/-!
# A single `mmap` call in progress

The invariant of its steps with nothing else going on, and what the step that ends it has to do.
-/

namespace Vmill

open Base AddressSpace

/-- A step of a call that has begun. -/
def MmapOp.continues : MmapOp → Bool
  | .call .. => false
  | _ => true

/-- How many bytes the step delivers. -/
def MmapOp.delivered : MmapOp → Nat
  | .deliver _ bytes => bytes.length
  | _ => 0

/-- What resetting the file offset returns. -/
def MmapOp.reset : MmapOp → Option Nat
  | .poll _ reset => reset
  | _ => none

/-- The call is over. -/
def MmapOut.returns : MmapOut → Bool
  | .failed _ _ | .mapped .. => true
  | _ => false

/-- `[lo, hi)` is mapped with the permissions of `prot`. -/
structure MappedWith (h : Heap) (s : AddressSpace) (lo hi prot : Nat) : Prop where
  mapped : ∀ a, lo ≤ a → a < hi → (view h s a).isSome = true
  readable : ∀ a, a % 4096 = 0 → lo ≤ a → a < hi → s.pageIsReadable a = hasFlag prot protRead
  writable : ∀ a, a % 4096 = 0 → lo ≤ a → a < hi → s.pageIsWritable a = hasFlag prot protWrite
  executable : ∀ a, a % 4096 = 0 → lo ≤ a → a < hi → s.pageIsExecutable a = hasFlag prot protExec

namespace Mmap

variable {task' : MmapTask} {op : MmapOp} {w w' : World} {s s' : AddressSpace} {bytes : Nat → UInt8}
  {c' : MmapCall} {φ' : Known} {ops : List MmapOp} {os : List MmapOut}

/-- What a call has begun with. -/
structure Begun where
  heap : Heap
  before : AddressSpace
  offsets : Offsets
  space : Nat
  prot : Nat
  fd : Int
  place : MmapPlace

/-- The end of its mapping. -/
abbrev Begun.hi (b : Begun) : Nat := b.place.addr + b.place.size

/-- Every page of `[lo, hi)` may be read and written, and not executed. -/
def ReadWrite (s : AddressSpace) (lo hi : Nat) : Prop :=
  ∀ a, a % 4096 = 0 → lo ≤ a → a < hi →
    s.pageIsReadable a = true ∧ s.pageIsWritable a = true ∧ s.pageIsExecutable a = false

/-- The mapping was made, and all else left alone if nothing was mapped there. -/
def Begun.Made (b : Begun) (w : World) : Prop :=
  ∃ s, w.spaces[b.space]? = some s ∧ ReadWrite s b.place.addr b.hi ∧
    (Hollow b.heap b.before b.place.addr b.hi →
      SameOutside b.heap b.before w.heap s b.place.addr b.hi)

/-- The call in progress is the one that has begun. -/
structure Begun.Serving (b : Begun) (n : Nat) (σ : MmapState) (c : MmapCall) : Prop where
  addr : c.addr = b.place.addr
  size : c.size = b.place.size
  prot : c.prot = b.prot
  fd : c.fd = b.fd
  file : 0 ≤ b.fd
  oldOffset : c.oldOffset = b.offsets b.fd
  offsets : σ.offsets = Function.update b.offsets b.fd (b.place.offset + n)
  made : b.Made σ.world

/-- The only task is in the call. -/
structure Alone (cfg : Config) (b : Begun) (n : Nat) (σ : MmapState) (φ : Known)
    (task : MmapTask) (c : MmapCall) : Prop where
  tracks : Tracks cfg σ φ
  tasks : σ.tasks = [task]
  call : task.call = some c
  space : task.space = b.space
  serving : b.Serving n σ c

/-- No task is in a call. -/
def Idle (σ : MmapState) : Prop := ∀ task ∈ σ.tasks, task.call = none

/-- How a step of the call ends. -/
inductive Outcome (cfg : Config) (b : Begun) (n : Nat) (reset : Option Nat) :
    MmapOut → MmapState → Prop
  | goesOn {o : MmapOut} {σ' : MmapState} {φ' : Known} {task : MmapTask} {c : MmapCall}
      (alone : Alone cfg b n σ' φ' task c) (on : o.returns = false) :
      Outcome cfg b n reset o σ'
  | mapped {σ' : MmapState} {s : AddressSpace} {h : Heap} (idle : Idle σ')
      (asked : MappedWith h s b.place.addr b.hi b.prot) :
      Outcome cfg b n reset (.mapped 0 b.place.addr b.place.size s h) σ'
  | failed {e : Errno} {σ' : MmapState} {s : AddressSpace} (idle : Idle σ') (file : 0 ≤ b.fd)
      (offsets : σ'.offsets = lseek (Function.update b.offsets b.fd (b.place.offset + n)) b.fd
        (b.offsets b.fd) reset)
      (space : σ'.world.spaces[b.space]? = some s)
      (same : Same b.heap b.before σ'.world.heap s ↔ Hollow b.heap b.before b.place.addr b.hi) :
      Outcome cfg b n reset (.failed 0 e) σ'

variable {cfg : Config} {b : Begun} {n : Nat} {σ σ' : MmapState} {φ : Known} {task : MmapTask}
  {c : MmapCall} {o : MmapOut} {reset : Option Nat}

lemma setTask_single {call : Option MmapCall} (htasks : σ.tasks = [task]) :
    (σ.setTask 0 task' call).tasks = [{ task' with call := call }] := by
  unfold MmapState.setTask
  simp only [htasks]
  rfl

lemma idle_setTask (htasks : σ.tasks = [task]) : Idle (σ.setTask 0 task' none) := by
  intro t ht
  rw [setTask_single htasks] at ht
  rw [List.mem_singleton.mp ht]

lemma step_of_idle (hidle : Idle σ) (hop : op.continues = true) :
    MmapState.step cfg op σ = none := by
  have hnone : ∀ t act, σ.inCall t act = none := by
    intro t act
    refine Option.eq_none_iff_forall_not_mem.mpr fun r hr => ?_
    obtain ⟨task, c, ht, hc, _⟩ := inCall_eq_some hr
    exact nomatch (hidle task (List.mem_of_getElem? ht)).symm.trans hc
  cases op with
  | call => exact nomatch hop
  | deliver t bytes => exact hnone _ _
  | readEnds t => exact hnone _ _
  | readFails t errno => exact hnone _ _
  | poll t reset => exact hnone _ _

lemma made_of_addMap {o : Out} {name : Option (List UInt8)} {offset : Nat} (h : Sound cfg w)
    (hs : w.spaces[b.space]? = some b.before) (hheap : b.heap = w.heap)
    (hp : Placed b.before b.place.addr b.place.size)
    (hmap : World.step cfg (.addMap b.space b.place.addr b.place.size name offset) w = some (o, w')) :
    b.Made w' := by
  have hwf := h.wf.space _ _ hs
  obtain ⟨_, s', h', rfl, hrep, _, hperm⟩ := remap_replaced h rfl rfl hs hp hmap
  refine ⟨s', World.put_self hs, fun a hmod hlo hhi => ?_, fun hv => ?_⟩
  · rw [hperm.readable, hperm.writable, hperm.executable, if_pos ⟨hmod, hlo, hhi⟩,
      if_pos ⟨hmod, hlo, hhi⟩, if_pos ⟨hmod, hlo, hhi⟩]
    exact ⟨rfl, rfl, rfl⟩
  rw [hheap] at hv ⊢
  exact hrep.sameOutside h.wf.heap hwf hperm hv.noneReachesOver (Nat.lt_add_of_pos_right hp.pos)

lemma Begun.Made.updates {h' : Heap} {v : Nat → Option UInt8} (hm : b.Made w) (hwf : w.heap.WF)
    (hs : w.spaces[b.space]? = some s) (hu : Updates w.heap s h' s' v)
    (hv : ∀ a, ¬ (b.place.addr ≤ a ∧ a < b.hi) → v a = view w.heap s a) :
    b.Made (w.put b.space s' h') := by
  obtain ⟨s1, hs1, hrw, hout⟩ := hm
  obtain rfl := Option.mem_unique hs1 hs
  refine ⟨s', World.put_self hs, ?_, fun hvac => (hout hvac).updates hwf hu hv⟩
  unfold ReadWrite
  rwa [hu.accessed.canRead, hu.accessed.canWrite, hu.accessed.canExecute]

lemma protect_perms {i addr size prot : Nat} (hwf : s.WF w.heap) (hi : w.spaces[i]? = some s)
    (hp : Placed s addr size) (hrw : ReadWrite s addr (addr + size))
    (hr : MmapState.protect cfg w i addr size prot = some w') (hi' : w'.spaces[i]? = some s')
    (a : Nat) (hmod : a % 4096 = 0) (hlo : addr ≤ a) (hhi : a < addr + size) :
    s'.pageIsReadable a = hasFlag prot protRead ∧ s'.pageIsWritable a = hasFlag prot protWrite ∧
      s'.pageIsExecutable a = hasFlag prot protExec := by
  unfold MmapState.protect at hr
  simp only at hr
  split at hr
  · obtain ⟨⟨o, w1⟩, hs, rfl⟩ := Option.map_eq_some_iff.mp hr
    simp only [World.step] at hs
    obtain ⟨s1, s2, h2, hi1, hcall, rfl⟩ := World.onSpace_eq_some hs
    obtain rfl := Option.mem_unique hi1 hi
    cases hcall
    obtain rfl := Option.mem_unique (World.put_self hi) hi'
    obtain ⟨haddr, hsize⟩ := hp.rounded hwf
    have hmem : a ∈ permissionPages addr size := by
      unfold permissionPages
      rw [haddr, hsize, wrap64_of_lt (hp.lt hwf), mem_pagesIn hp.addrMod]
      exact ⟨hmod, hlo, hhi⟩
    obtain ⟨hread, hwrite, hexec⟩ := setPermissions_perms w.heap s1 addr size
      (hasFlag prot protRead) (hasFlag prot protWrite) (hasFlag prot protExec) a
    rw [hread, hwrite, hexec, if_pos hmem, if_pos hmem, if_pos hmem]
    exact ⟨rfl, rfl, rfl⟩
  -- the default permissions
  case isFalse hdefault =>
      cases hr
      obtain rfl := Option.mem_unique hi hi'
      obtain ⟨hread, hwrite, hexec⟩ := hrw a hmod hlo hhi
      simp only [Bool.or_eq_true, Bool.not_eq_true', not_or, Bool.not_eq_true,
        Bool.not_eq_false] at hdefault
      obtain ⟨⟨hx, hr⟩, hw⟩ := hdefault
      rw [hread, hwrite, hexec, hx, hr, hw]
      exact ⟨rfl, rfl, rfl⟩

lemma region_mapped {h : Heap} {lo hi : Nat} (hreg : Region h s lo hi bytes) (a : Nat)
    (hlo : lo ≤ a) (hhi : a < hi) : (view h s a).isSome = true := by
  rw [hreg.view a hlo hhi]
  rfl

lemma succeed_outcome (h : Sound cfg σ.world) (htasks : ∃ task, σ.tasks = [task])
    (hspace : task.space = b.space) (hs : σ.world.spaces[task.space]? = some s)
    (hp : Placed s b.place.addr b.place.size)
    (hmapped : ∀ a, b.place.addr ≤ a → a < b.hi → (view σ.world.heap s a).isSome = true)
    (hmade : b.Made σ.world)
    (hr : MmapState.succeed cfg σ 0 task b.place.addr b.place.size b.prot = some (o, σ')) :
    Outcome cfg b n reset o σ' := by
  obtain ⟨task0, htasks⟩ := htasks
  rw [hspace] at hs
  obtain ⟨s1, hs1, hrw, _⟩ := hmade
  obtain rfl := Option.mem_unique hs1 hs
  have hwf := h.wf.space _ _ hs
  unfold MmapState.succeed at hr
  rw [hspace] at hr
  split at hr
  · exact nomatch hr
  case h_2 w hprot =>
      obtain ⟨_, _, s', hs', hview⟩ := protect_spec h hs hp hprot
      have hperms := protect_perms hwf hs hp hrw hprot hs'
      simp only [hs'] at hr
      cases hr
      refine .mapped (idle_setTask htasks) ⟨fun a hlo hhi => ?_, ?_, ?_, ?_⟩
      · rw [hview]
        exact hmapped a hlo hhi
      · exact fun a hmod hlo hhi => (hperms a hmod hlo hhi).1
      · exact fun a hmod hlo hhi => (hperms a hmod hlo hhi).2.1
      · exact fun a hmod hlo hhi => (hperms a hmod hlo hhi).2.2

lemma Alone.only {t : Nat} (h : Alone cfg b n σ φ task c) (ht : σ.tasks[t]? = some task')
    (hc : task'.call = some c') : t = 0 ∧ task' = task ∧ c' = c := by
  rw [h.tasks] at ht
  cases t with
  | zero =>
    obtain rfl : task = task' := Option.some.inj ht
    exact ⟨rfl, rfl, Option.mem_unique hc h.call⟩
  | succ t => exact nomatch ht

lemma Alone.orderly (h : Alone cfg b n σ φ task c) (hop : op.continues = true)
    (hr : MmapState.step cfg op σ = some (o, σ')) : σ.Orderly op := by
  cases op with
  | call => exact nomatch hop
  | deliver t bytes =>
    obtain ⟨task', c', ht, hc, _⟩ := inCall_eq_some hr
    obtain ⟨rfl, _⟩ := h.only ht hc
    intro t' hlt hne
    rw [h.tasks, List.length_singleton] at hlt
    omega
  | readEnds t => trivial
  | readFails t errno => trivial
  | poll t reset => trivial

lemma Alone.next {n' : Nat} (h : Alone cfg b n σ φ task c) (htracks : Tracks cfg σ' φ')
    (htasks : σ'.tasks = [task']) (hcall : task'.call = some c') (hspace : task'.space = task.space)
    (hsame : c'.addr = c.addr ∧ c'.size = c.size ∧ c'.prot = c.prot ∧ c'.fd = c.fd ∧ c'.oldOffset =
      c.oldOffset) (hoffsets : σ'.offsets = Function.update b.offsets b.fd (b.place.offset + n'))
    (hmade : b.Made σ'.world) : Alone cfg b n' σ' φ' task' c' := by
  obtain ⟨haddr, hsize, hprot, hfd, hold⟩ := hsame
  have hv := h.serving
  exact ⟨htracks, htasks, hcall, hspace.trans h.space, haddr.trans hv.addr, hsize.trans hv.size,
    hprot.trans hv.prot, hfd.trans hv.fd, hv.file, hold.trans hv.oldOffset, hoffsets, hmade⟩

lemma removed_outcome {o' : Out} {e : Errno} (h : Sound cfg σ.world) (htasks : σ.tasks = [task])
    (hwf0 : b.heap.WF) (hs0 : b.before.WF b.heap) (hs : σ.world.spaces[b.space]? = some s)
    (hp : Placed s b.place.addr b.place.size)
    (hmade : b.Made σ.world) (hfile : 0 ≤ b.fd)
    (hoffsets : σ.offsets = Function.update b.offsets b.fd (b.place.offset + n))
    (hremove : World.step cfg (.removeMap b.space b.place.addr b.place.size) σ.world = some (o',
      w')) :
    Outcome cfg b n reset (.failed 0 e)
      (MmapState.setTask { σ with offsets := lseek σ.offsets b.fd (b.offsets b.fd) reset, world := w' }
        0 task' none) := by
  have hwf := h.wf.space _ _ hs
  obtain ⟨s1, hs1, _, hout⟩ := hmade
  obtain rfl := Option.mem_unique hs1 hs
  obtain ⟨_, s', h', rfl, hrep, hkind, hperm⟩ := remap_replaced h rfl rfl hs hp hremove
  refine .failed (s := s') (idle_setTask htasks) hfile ?_ (World.put_self hs) ?_
  · show lseek σ.offsets b.fd (b.offsets b.fd) reset = _
    rw [hoffsets]
  exact same_iff_hollow hwf0 hs0 h.wf.heap hwf hrep (Nat.lt_add_of_pos_right hp.pos) hkind hperm
    hout

lemma Alone.afterRead {result : Except Errno (List UInt8)} (h : Alone cfg b n σ φ task c)
    (hwf0 : b.heap.WF) (hs0 : b.before.WF b.heap) (hspace : task'.space = task.space)
    (hread : c.read = .ended result)
    (hr : MmapState.afterRead cfg σ 0 task' c result reset = some (o, σ'))
    (htracks : Tracks cfg σ' φ') : Outcome cfg b n reset o σ' := by
  have hv := h.serving
  obtain ⟨hin, hbuf⟩ := h.tracks.call 0 task c (by rw [h.tasks]; rfl) h.call
  obtain ⟨hsplit, s, copied, hs, hp, _, hlen, hreg⟩ := hin
  have hsound := h.tracks.sound
  have hb : task'.space = b.space := hspace.trans h.space
  rw [hv.addr, hv.size] at hp hreg
  unfold MmapState.afterRead at hr
  split at hr
  case h_1 e =>
      simp only [hb, hv.addr, hv.size, hv.fd, hv.oldOffset] at hr
      split at hr
      · exact nomatch hr
      case h_2 o' w hremove =>
          cases hr
          exact removed_outcome hsound h.tasks hwf0 hs0 (h.space ▸ hs) hp hv.made hv.file
            hv.offsets hremove
  case h_2 =>
      rw [hv.addr, hv.size, hv.prot] at hr
      refine succeed_outcome ?_ ?_ ?_ ?_ hp ?_ ?_ hr
      · exact hsound
      · exact ⟨task, h.tasks⟩
      · exact hb
      · exact hspace ▸ hs
      · exact region_mapped hreg
      · exact hv.made
  case h_3 bytes _ =>
      have hpending := (MmapCall.of_ended hread).1
      obtain ⟨hfits, heq⟩ := hbuf
      rw [hpending] at hfits heq
      have hreq : c.requested ≤ c.remaining := Nat.min_le_left _ _
      have hroom : copied.length + bytes.length ≤ b.place.size := by
        rw [← hv.size]
        omega
      simp only [heq] at hr
      split at hr
      · exact nomatch hr
      case h_2 t' w hcopy =>
          rw [hv.addr, ← hlen] at hcopy
          have hs' : σ.world.spaces[task'.space]? = some s := hspace ▸ hs
          obtain ⟨hsound', _, s2, hs2, hmask, hreg'⟩ :=
            copyBlock_spec hsound hs' hp hreg hroom hcopy
          obtain ⟨s', h', rfl, hu⟩ := copyBlock_updates hsound hs' hp hreg hroom hcopy
          have hmade : b.Made (σ.world.put task'.space s' h') := by
            rw [hb] at hs' ⊢
            exact hv.made.updates hsound.wf.heap hs' hu fun a ha => overwrite_outside hroom ha
          split at hr
          · rw [hv.addr, hv.size, hv.prot] at hr
            refine succeed_outcome ?_ ?_ ?_ ?_ (hp.of_mask hmask) ?_ ?_ hr
            · exact hsound'
            · exact ⟨task, h.tasks⟩
            · exact hb
            · exact hs2
            · exact region_mapped hreg'
            · exact hmade
          -- the next block
          · cases hr
            refine .goesOn (h.next htracks (setTask_single h.tasks) rfl hspace
              ⟨rfl, rfl, rfl, rfl, rfl⟩ ?_ ?_) rfl
            · exact hv.offsets
            · exact hmade

lemma Alone.step (h : Alone cfg b n σ φ task c) (hwf0 : b.heap.WF) (hs0 : b.before.WF b.heap)
    (hop : op.continues = true) (hr : MmapState.step cfg op σ = some (o, σ')) :
    Outcome cfg b (n + op.delivered) op.reset o σ' := by
  have htracks := (good_step h.tracks (h.orderly hop hr) hr).2
  have hv := h.serving
  cases op with
  | call => exact nomatch hop
  | deliver t bytes =>
    obtain ⟨task', c', ht, hc, hact⟩ := inCall_eq_some hr
    obtain ⟨rfl, rfl, rfl⟩ := h.only ht hc
    unfold MmapState.deliver at hact
    split at hact
    case h_2 => exact nomatch hact
    case h_1 got hread =>
    simp only at hact
    split at hact
    case isFalse => exact nomatch hact
    case isTrue =>
    cases hact
    refine .goesOn (h.next htracks (setTask_single h.tasks) rfl rfl ⟨rfl, rfl, rfl, rfl, rfl⟩ ?_
      hv.made) rfl
    show Function.update σ.offsets c'.fd (σ.offsets c'.fd + bytes.length) = _
    rw [hv.fd, hv.offsets, Function.update_idem, Function.update_self]
    congr 1
    simp only [MmapOp.delivered]
    push_cast
    omega
  | readEnds t =>
    obtain ⟨task', c', ht, hc, hact⟩ := inCall_eq_some hr
    obtain ⟨rfl, rfl, rfl⟩ := h.only ht hc
    unfold MmapState.readEnds at hact
    split at hact
    case h_2 => exact nomatch hact
    case h_1 got hread =>
    cases hact
    exact .goesOn (h.next htracks (setTask_single h.tasks) rfl rfl ⟨rfl, rfl, rfl, rfl, rfl⟩
      hv.offsets hv.made) rfl
  | readFails t errno =>
    obtain ⟨task', c', ht, hc, hact⟩ := inCall_eq_some hr
    obtain ⟨rfl, rfl, rfl⟩ := h.only ht hc
    unfold MmapState.readFails at hact
    split at hact
    case h_2 => exact nomatch hact
    case h_1 hread =>
    cases hact
    exact .goesOn (h.next htracks (setTask_single h.tasks) rfl rfl ⟨rfl, rfl, rfl, rfl, rfl⟩
      hv.offsets hv.made) rfl
  | poll t reset =>
  obtain ⟨task', c', ht, hc, hact⟩ := inCall_eq_some hr
  obtain ⟨rfl, rfl, rfl⟩ := h.only ht hc
  unfold MmapState.poll at hact
  have hspace : (if c'.paused then { task' with task := task'.task.resume } else task').space =
      task'.space := by
    split <;> rfl
  generalize (if c'.paused then { task' with task := task'.task.resume } else task') = task2
    at hact hspace
  simp only at hact
  split at hact
  case h_1 got hread =>
      cases hact
      exact .goesOn (h.next htracks (setTask_single h.tasks) rfl hspace
        ⟨rfl, rfl, rfl, rfl, rfl⟩ hv.offsets hv.made) rfl
  case h_2 result hread => exact h.afterRead hwf0 hs0 hspace hread hact htracks

lemma run_of_idle (hidle : Idle σ) (hops : ∀ op ∈ ops, op.continues = true)
    (hr : (mmaps cfg).run ops σ = some (os, σ')) : ops = [] ∧ os = [] ∧ σ' = σ := by
  cases ops with
  | nil =>
    cases hr
    exact ⟨rfl, rfl, rfl⟩
  | cons op ops =>
  obtain ⟨_, _, _, hs, _⟩ := Machine.run_cons_eq_some hr
  exact nomatch (step_of_idle hidle (hops op (.head _))).symm.trans hs

/-- A call served without another in between returns its own outcome. -/
lemma Alone.run (h : Alone cfg b n σ φ task c) (hwf0 : b.heap.WF) (hs0 : b.before.WF b.heap)
    (hops : ∀ op ∈ ops, op.continues = true) (hr : (mmaps cfg).run ops σ = some (os, σ'))
    (ho : o ∈ os) (hreturns : o.returns = true) :
    Outcome cfg b (n + (ops.map MmapOp.delivered).sum) (ops.getLast?.bind MmapOp.reset) o σ' := by
  induction ops generalizing σ n φ task c os with
  | nil =>
    cases hr
    cases ho
  | cons op ops ih =>
  obtain ⟨o1, os', σ1, hs, hr', rfl⟩ := Machine.run_cons_eq_some hr
  have hcont := hops op (.head _)
  have hrest : ∀ op' ∈ ops, op'.continues = true := fun op' hop =>
    hops op' (.tail _ hop)
  have hstep := h.step hwf0 hs0 hcont hs
  have hend : Idle σ1 → Outcome cfg b (n + ((op :: ops).map MmapOp.delivered).sum)
      ((op :: ops).getLast?.bind MmapOp.reset) o σ' := by
    intro hidle
    obtain ⟨rfl, rfl, rfl⟩ := run_of_idle hidle hrest hr'
    rwa [List.mem_singleton.mp ho]
  cases hstep with
  | goesOn halone hon =>
    rcases List.mem_cons.mp ho with rfl | ho'
    · exact nomatch hon.symm.trans hreturns
    have hrun := ih halone hrest hr' ho'
    cases ops with
    | nil =>
      cases hr'
      cases ho'
    | cons op' ops' =>
      rwa [List.map_cons, List.sum_cons, ← Nat.add_assoc, List.getLast?_cons_cons]
  | mapped hidle _ => exact hend hidle
  | failed hidle _ _ _ _ => exact hend hidle

end Mmap

end Vmill
