import Vmill.Logic.Guest
import Vmill.Logic.Hole
import Vmill.Logic.Region
import Vmill.Spec.Mmap

/-!
# The state of `mmap` calls in progress

The memory of a call is a region of what has been copied so far, and the buffer starts with what its
read has delivered. A step of one task keeps this for all others (`Frame`).
-/

namespace Vmill

open Base AddressSpace

variable {cfg : Config} {s : AddressSpace} {h : Heap}

/-- The size in whole pages. -/
def MmapArgs.pages (args : MmapArgs) (s : AddressSpace) : Nat :=
  roundUpToPage args.size &&& s.addrMask

/-- The address that `MAP_FIXED` asks for. -/
def MmapArgs.fixedAddr (args : MmapArgs) : Nat := max (alignDownToPage args.addr) kMmapMinAddr

/-- A fixed mapping ends inside the address space. -/
def MmapArgs.Fits (args : MmapArgs) (s : AddressSpace) : Prop :=
  hasFlag args.flags mapFixed = true → args.fixedAddr + args.pages s ≤ s.addrMask
deriving Decidable

/-- How the place of a mapping was chosen. -/
inductive PlaceCases (cfg : Config) (s : AddressSpace) (h : Heap) (args : MmapArgs)
    (place : MmapPlace) : Prop
  | fixed (flag : hasFlag args.flags mapFixed = true) (addr : place.addr = args.fixedAddr)
      (checked : (place.addr + place.size) &&& s.addrMask ≤ maxAddress cfg args.flags)
  | hole (flag : hasFlag args.flags mapFixed = false)
      (found : s.findHole h kMmapMinAddr (maxAddress cfg args.flags) place.size =
        some (some place.addr))

lemma hintedAddress_ok {mask maxAddr flags addr size a : Nat}
    (hr : hintedAddress mask maxAddr flags addr size = .ok a) :
    (hasFlag flags mapFixed = true ∧ alignDownToPage addr ≠ 0 ∧
      a = max (alignDownToPage addr) kMmapMinAddr ∧ (a + size) &&& mask ≤ maxAddr) ∨
      (hasFlag flags mapFixed = false ∧ a = 0) := by
  unfold hintedAddress at hr
  split at hr
  case isTrue hflag =>
      simp only at hr
      split at hr
      · exact nomatch hr
      case isFalse hne =>
          split at hr
          · exact nomatch hr
          case isFalse hchecked =>
              obtain rfl := Except.ok.inj hr
              exact .inl ⟨hflag, hne, rfl, Nat.not_lt.mp hchecked⟩
  case isFalse hflag => exact .inr ⟨by simpa using hflag, (Except.ok.inj hr).symm⟩

lemma mmapPlace_ok {args : MmapArgs} {offsetScale : Nat} {place : MmapPlace}
    (hr : mmapPlace cfg s h args offsetScale = some (.ok place)) :
    place.size = args.pages s ∧ place.size ≠ 0 ∧ PlaceCases cfg s h args place := by
  unfold mmapPlace at hr
  simp only at hr
  split at hr
  · exact nomatch hr
  case isFalse hsize =>
  split at hr
  · exact nomatch hr
  split at hr
  · exact nomatch hr
  split at hr
  · exact nomatch hr
  -- no address was asked for
  case h_2 hhint =>
      have hflag : hasFlag args.flags mapFixed = false := by
        rcases hintedAddress_ok hhint with ⟨_, _, hzero, _⟩ | ⟨hflag, _⟩
        · unfold kMmapMinAddr at hzero
          omega
        · exact hflag
      split at hr
      · exact nomatch hr
      · exact nomatch hr
      · exact nomatch hr
      case h_4 hfound =>
          obtain rfl := Except.ok.inj (Option.some.inj hr)
          exact ⟨rfl, hsize, .hole hflag hfound⟩
  case h_3 addr hne hhint =>
      obtain rfl := Except.ok.inj (Option.some.inj hr)
      rcases hintedAddress_ok hhint with ⟨hflag, hpos, haddr, hchecked⟩ | ⟨_, hzero⟩
      · have hkept : hint cfg args = args.addr := by
          unfold hint at hpos ⊢
          split
          case isTrue hdropped =>
              rw [if_pos hdropped] at hpos
              exact absurd rfl hpos
          case isFalse => rfl
        rw [hkept] at haddr
        exact ⟨rfl, hsize, .fixed hflag haddr hchecked⟩
      · exact absurd hzero hne

lemma MmapArgs.pages_mod (hs : s.WF h) (args : MmapArgs) :
    args.pages s % 4096 = 0 ∧ args.pages s < 2 ^ 64 := by
  have hmod := roundUpToPage_mod args.size
  refine ⟨?_, mask_lt hs _⟩
  unfold pages
  rw [mask_eq_mod hs]
  rcases hs.mask with hm | hm <;> rw [hm] <;> omega

lemma maxAddress_le (hm : s.addrMask = getAddressMask cfg) (flags : Nat) :
    maxAddress cfg flags ≤ s.addrMask := by
  rw [hm]
  unfold maxAddress kAllocMax getAddressMask k4GiB
  split
  · split
    · omega
    · decide
  · split <;> split <;> omega

namespace MmapCall

variable {c : MmapCall} {got : List UInt8}

/-- The bytes of the read that is under way. -/
def pending (c : MmapCall) : List UInt8 :=
  match c.read with
  | .running got | .ended (.ok got) => got
  | .ended (.error _) => []

/-- The bytes of the read that has ended. -/
def returned (c : MmapCall) : List UInt8 :=
  match c.read with
  | .ended (.ok got) => got
  | _ => []

lemma of_running (hread : c.read = .running got) : c.pending = got ∧ c.returned = [] := by
  unfold pending returned
  rw [hread]
  exact ⟨rfl, rfl⟩

lemma of_ended (hread : c.read = .ended (.ok got)) : c.pending = got ∧ c.returned = got := by
  unfold pending returned
  rw [hread]
  exact ⟨rfl, rfl⟩

/-- The call's mapping is outside of `[lo, hi)`. -/
def Outside (c : MmapCall) (lo hi : Nat) : Prop := c.addr + c.size ≤ lo ∨ hi ≤ c.addr
deriving Decidable

end MmapCall

namespace MmapState

/-- Bytes are delivered only when none of another task's wait in the buffer. A request for an
address (`MAP_FIXED`) does not wrap around, and is not for memory of a call in progress; any
other is made in an address space without empty ranges. -/
def Orderly (σ : MmapState) (op : MmapOp) : Prop :=
  match op with
  | .deliver t _ => ∀ t' < σ.tasks.length, t' ≠ t → ∀ task ∈ σ.tasks[t']?, ∀ c ∈ task.call,
      c.pending = []
  | .call t (some args) _ _ _ => ∀ task ∈ σ.tasks[t]?, ∀ s ∈ σ.world.spaces[task.space]?,
      if hasFlag args.flags mapFixed then
        InBounds s args.fixedAddr (args.pages s) ∧ ∀ other ∈ σ.tasks, other.space = task.space →
          ∀ c ∈ other.call, c.Outside args.fixedAddr (args.fixedAddr + args.pages s)
      else NoneEmpty σ.world.heap s
  | _ => True

instance (σ : MmapState) (op : MmapOp) : Decidable (Orderly σ op) := by
  unfold Orderly
  split <;> infer_instance

end MmapState

namespace Mmap

variable {s' : AddressSpace} {addr size i prot : Nat} {w w' : World} {op : Op} {o : Out} {m : Bool}
  {f : Nat → Option UInt8} {copied block : List UInt8} {t' : Task}

/-- Whole pages inside the address space. -/
structure Placed (s : AddressSpace) (addr size : Nat) : Prop where
  addrMod : addr % 4096 = 0
  sizeMod : size % 4096 = 0
  pos : 0 < size
  fits : addr + size ≤ s.addrMask

lemma Placed.of_mask (hp : Placed s addr size) (hmask : s'.addrMask = s.addrMask) :
    Placed s' addr size :=
  ⟨hp.addrMod, hp.sizeMod, hp.pos, by rw [hmask]; exact hp.fits⟩

lemma Placed.lt (hp : Placed s addr size) (hs : s.WF h) : addr + size < 2 ^ 64 := by
  have hfits := hp.fits
  rcases hs.mask with hm | hm <;> rw [hm] at hfits <;> omega

lemma Placed.rounded (hp : Placed s addr size) (hs : s.WF h) :
    alignDownToPage addr = addr ∧ roundUpToPage size = size := by
  have hlt := hp.lt hs
  exact ⟨alignDownToPage_of_aligned (by omega) hp.addrMod,
    roundUpToPage_of_aligned (by omega) hp.sizeMod⟩

lemma Placed.inBounds (hp : Placed s addr size) (hs : s.WF h) : InBounds s addr size := by
  obtain ⟨haddr, hsize⟩ := hp.rounded hs
  exact ⟨hp.pos, by rw [haddr, hsize]; exact hp.fits⟩

/-- Memory holds what the call has copied so far. -/
structure InCall (w : World) (space : Nat) (c : MmapCall) (got : List UInt8) : Prop where
  split : c.i + c.remaining = c.size
  memory : ∃ s copied, w.spaces[space]? = some s ∧ Placed s c.addr c.size ∧
    got = copied ++ c.returned ∧ copied.length = c.i ∧
    Region w.heap s c.addr (c.addr + c.size) (fun a => copied.getD (a - c.addr) 0)

/-- The shared buffer holds the call's pending bytes. -/
structure Buffered (buffer : List UInt8) (c : MmapCall) : Prop where
  fits : c.pending.length ≤ c.requested
  eq : buffer.take c.pending.length = c.pending

lemma InCall.kept {space lo hi : Nat} {c : MmapCall} {got : List UInt8} (h : InCall w space c got)
    (hk : w.RegionsKept w' i lo hi) (hout : space = i → c.Outside lo hi) :
    InCall w' space c got := by
  obtain ⟨s, copied, hs, hp, hgot, hlen, hreg⟩ := h.memory
  obtain ⟨s', hs', hmask, hreg'⟩ := hk space s _ _ _ hs hreg hout
  exact ⟨h.split, s', copied, hs', hp.of_mask hmask, hgot, hlen, hreg'⟩

/-- The process is well-formed, and all masks are those of the architecture. -/
structure Sound (cfg : Config) (w : World) : Prop where
  wf : w.WF
  boundaries : w.Each PageBoundaries
  masks : w.Each (fun _ s => s.addrMask = getAddressMask cfg)

/-- What holds of all tasks but `t`, whose call may write to `[lo, hi)` of its space. -/
structure Frame (cfg : Config) (σ : MmapState) (φ : Mmap.Known) (t space lo hi : Nat) : Prop where
  sound : Sound cfg σ.world
  length : σ.ioBuffer.length = kIOBufferSize + 1
  call : ∀ t' task c, t' ≠ t → σ.tasks[t']? = some task → task.call = some c →
    InCall σ.world task.space c (φ t') ∧ Buffered σ.ioBuffer c
  idle : ∀ t' task, t' ≠ t → σ.tasks[t']? = some task → task.call = none → φ t' = []
  away : ∀ t' task c, t' ≠ t → σ.tasks[t']? = some task → task.call = some c →
    task.space = space → c.Outside lo hi
  apart : ∀ (t1 t2 : Nat) (task1 task2 : MmapTask) (c1 c2 : MmapCall), t1 ≠ t → t2 ≠ t →
    t1 ≠ t2 → σ.tasks[t1]? = some task1 → σ.tasks[t2]? = some task2 → task1.call = some c1 →
    task2.call = some c2 → task1.space = task2.space → c1.Outside c2.addr (c2.addr + c2.size)

/-- The kernel's state is what the observer knows. -/
structure Tracks (cfg : Config) (σ : MmapState) (φ : Mmap.Known) : Prop where
  sound : Sound cfg σ.world
  length : σ.ioBuffer.length = kIOBufferSize + 1
  call : ∀ t task c, σ.tasks[t]? = some task → task.call = some c →
    InCall σ.world task.space c (φ t) ∧ Buffered σ.ioBuffer c
  idle : ∀ t task, σ.tasks[t]? = some task → task.call = none → φ t = []
  apart : ∀ (t1 t2 : Nat) (task1 task2 : MmapTask) (c1 c2 : MmapCall), t1 ≠ t2 →
    σ.tasks[t1]? = some task1 → σ.tasks[t2]? = some task2 → task1.call = some c1 →
    task2.call = some c2 → task1.space = task2.space → c1.Outside c2.addr (c2.addr + c2.size)

variable {σ : MmapState} {φ : Mmap.Known} {t space lo hi : Nat} {task : MmapTask} {c : MmapCall}

lemma Tracks.frame (h : Tracks cfg σ φ)
    (haway : ∀ t' task c, t' ≠ t → σ.tasks[t']? = some task → task.call = some c → task.space =
      space → c.Outside lo hi) : Frame cfg σ φ t space lo hi where
  sound := h.sound
  length := h.length
  call t' task c _ := h.call t' task c
  idle t' task _ := h.idle t' task
  away := haway
  apart t1 t2 task1 task2 c1 c2 _ _ := h.apart t1 t2 task1 task2 c1 c2

lemma Tracks.frame_call (h : Tracks cfg σ φ) (ht : σ.tasks[t]? = some task)
    (hc : task.call = some c) : Frame cfg σ φ t task.space c.addr (c.addr + c.size) :=
  h.frame fun t' task' c' hne ht' hc' hspace => h.apart t' t task' task c' c hne ht' ht hc' hc hspace

namespace Frame

lemma world {w : World} (h : Frame cfg σ φ t space lo hi) (hw : Sound cfg w)
    (hk : σ.world.RegionsKept w space lo hi) : Frame cfg { σ with world := w } φ t space lo hi where
  sound := hw
  length := h.length
  call t' task c hne ht hc := by
    obtain ⟨hin, hbuf⟩ := h.call t' task c hne ht hc
    exact ⟨hin.kept hk (h.away t' task c hne ht hc), hbuf⟩
  idle := h.idle
  away := h.away
  apart := h.apart

lemma offsets (h : Frame cfg σ φ t space lo hi) (offsets : Offsets) :
    Frame cfg { σ with offsets := offsets } φ t space lo hi :=
  ⟨h.sound, h.length, h.call, h.idle, h.away, h.apart⟩

lemma buffer {buffer : List UInt8} (h : Frame cfg σ φ t space lo hi)
    (hlen : buffer.length = kIOBufferSize + 1)
    (hpending : ∀ t' task c, t' ≠ t → σ.tasks[t']? = some task → task.call = some c → c.pending =
      []) : Frame cfg { σ with ioBuffer := buffer } φ t space lo hi where
  sound := h.sound
  length := hlen
  call t' task c hne ht hc := by
    have hnil := hpending t' task c hne ht hc
    refine ⟨(h.call t' task c hne ht hc).1, ?_, ?_⟩
    · rw [hnil]
      exact Nat.zero_le _
    rw [hnil]
    rfl
  idle := h.idle
  away := h.away
  apart := h.apart

lemma setTask (h : Frame cfg σ φ t space lo hi) {call : Option MmapCall} {got : List UInt8}
    (ht : t < σ.tasks.length) (hspace : task.space = space) (hidle : call = none → got = [])
    (hcall : ∀ c, call = some c → InCall σ.world space c got ∧ Buffered σ.ioBuffer c ∧ c.addr = lo
      ∧ c.addr + c.size = hi) : Tracks cfg (σ.setTask t task call) (Function.update φ t got) := by
  have hself : (σ.setTask t task call).tasks[t]? = some { task with call := call } :=
    List.getElem?_set_self ht
  have hother : ∀ t', t' ≠ t → (σ.setTask t task call).tasks[t']? = σ.tasks[t']? := fun t' hne =>
    List.getElem?_set_ne (Ne.symm hne)
  -- the task that stepped, by its call
  have hmine : ∀ task' c, (σ.setTask t task call).tasks[t]? = some task' → task'.call = some c →
      task'.space = space ∧ call = some c := by
    intro task' c ht' hc
    rw [hself] at ht'
    cases ht'
    exact ⟨hspace, hc⟩
  refine ⟨h.sound, h.length, ?_, ?_, ?_⟩
  · intro t' task' c ht' hc
    by_cases hne : t' = t
    · subst hne
      obtain ⟨hsp, hcall'⟩ := hmine task' c ht' hc
      obtain ⟨hin, hbuf, _⟩ := hcall c hcall'
      rw [Function.update_self, hsp]
      exact ⟨hin, hbuf⟩
    rw [hother t' hne] at ht'
    rw [Function.update_of_ne hne]
    exact h.call t' task' c hne ht' hc
  · intro t' task' ht' hc
    by_cases hne : t' = t
    · subst hne
      rw [hself] at ht'
      cases ht'
      rw [Function.update_self]
      exact hidle hc
    rw [hother t' hne] at ht'
    rw [Function.update_of_ne hne]
    exact h.idle t' task' hne ht' hc
  intro t1 t2 task1 task2 c1 c2 hne ht1 ht2 hc1 hc2 hsp
  by_cases h1 : t1 = t
  · subst h1
    rw [hother t2 (Ne.symm hne)] at ht2
    obtain ⟨hsp1, hcall1⟩ := hmine task1 c1 ht1 hc1
    obtain ⟨_, _, hlo, hhi⟩ := hcall c1 hcall1
    have haway := h.away t2 task2 c2 (Ne.symm hne) ht2 hc2 (hsp.symm.trans hsp1)
    unfold MmapCall.Outside at *
    omega
  rw [hother t1 h1] at ht1
  by_cases h2 : t2 = t
  · subst h2
    obtain ⟨hsp2, hcall2⟩ := hmine task2 c2 ht2 hc2
    obtain ⟨_, _, hlo, hhi⟩ := hcall c2 hcall2
    rw [hhi, hlo]
    exact h.away t1 task1 c1 h1 ht1 hc1 (hsp.trans hsp2)
  rw [hother t2 h2] at ht2
  exact h.apart t1 t2 task1 task2 c1 c2 h1 h2 hne ht1 ht2 hc1 hc2 hsp

end Frame

lemma Sound.step (h : Sound cfg w) (hg : World.Guarded w op)
    (hs : World.step cfg op w = some (o, w')) : Sound cfg w' := by
  have he := World.step_effect h.wf hg hs
  refine ⟨he.wf h.wf, ?_, ?_⟩
  · refine he.each (pageBoundaries_byShape cfg) h.wf h.boundaries ?_
    intro i base size m s s' h' _ _ hi hb hrep
    exact hrep.pageBoundaries (h.boundaries i s hi) (hb.interval (h.wf.space i s hi).toLaidOut)
  refine he.each (addrMask_byShape cfg) h.wf h.masks ?_
  intro i base size m s s' h' _ _ hi _ hrep
  exact hrep.addrMask.trans (h.masks i s hi)

lemma Sound.updates {h' : Heap} {v : Nat → Option UInt8} (h : Sound cfg w)
    (hi : w.spaces[i]? = some s) (hu : Updates w.heap s h' s' v) : Sound cfg (w.put i s' h') :=
  ⟨h.wf.updates hi hu, h.boundaries.updates (pageBoundaries_byShape cfg).byAccess h.wf hi hu,
    h.masks.updates (addrMask_byShape cfg).byAccess h.wf hi hu⟩

lemma Sound.of_reachable (hw : World.Reachable cfg w) : Sound cfg w := by
  refine ⟨hw.wf, hw.each (pageBoundaries_byShape cfg) ?_, hw.each (addrMask_byShape cfg) ?_⟩
  · intro h h' s s' base size hs hp hb hrep
    exact hrep.pageBoundaries hp (hb.interval hs.toLaidOut)
  intro h h' s s' base size _ hp _ hrep
  exact hrep.addrMask.trans hp

lemma remap_replaced (h : Sound cfg w) (hremaps : op.remaps = some (addr, size, m))
    (htarget : op.target = some i) (hi : w.spaces[i]? = some s) (hp : Placed s addr size)
    (hs : World.step cfg op w = some (o, w')) :
    Sound cfg w' ∧ ∃ s' h', w' = w.put i s' h' ∧
      Replaced w.heap s h' s' w.heap.next addr (addr + size) ∧
      (h'.obj w.heap.next).kind = (if m then .empty else .invalid) ∧
      Protected s s' addr (addr + size) m m false := by
  have hwf := h.wf.space i s hi
  have hg : World.Guarded w op := by
    intro j hj r hr t ht
    obtain rfl := Option.mem_unique htarget hj
    obtain rfl := Option.mem_unique hremaps hr
    obtain rfl := Option.mem_unique hi ht
    exact hp.inBounds hwf
  obtain ⟨s', h', rfl, hrep, hkind, hperm⟩ :=
    (World.step_effect h.wf hg hs).remapped hremaps htarget hi
  obtain ⟨haddr, hsize⟩ := hp.rounded hwf
  rw [haddr, hsize] at hrep hperm
  exact ⟨h.step hg hs, s', h', rfl, hrep, hkind, hperm⟩

lemma remap_spec (h : Sound cfg w) (hremaps : op.remaps = some (addr, size, m))
    (htarget : op.target = some i) (hi : w.spaces[i]? = some s) (hp : Placed s addr size)
    (hs : World.step cfg op w = some (o, w')) :
    Sound cfg w' ∧ w.RegionsKept w' i addr (addr + size) ∧
      ∃ s', w'.spaces[i]? = some s' ∧ s'.addrMask = s.addrMask ∧
        (m = true → Region w'.heap s' addr (addr + size) (fun _ => 0)) := by
  obtain ⟨hsound, s', h', rfl, hrep, hkind, hperm⟩ := remap_replaced h hremaps htarget hi hp hs
  refine ⟨hsound, World.regionsKept_replaced h.wf hi hrep hperm, s', World.put_self hi,
    hrep.addrMask, ?_⟩
  rintro rfl
  exact hrep.region hrep.grows.wf hkind hperm

lemma protect_spec (h : Sound cfg w) (hi : w.spaces[i]? = some s) (hp : Placed s addr size)
    (hr : MmapState.protect cfg w i addr size prot = some w') :
    Sound cfg w' ∧ w.RegionsKept w' i addr (addr + size) ∧
      ∃ s', w'.spaces[i]? = some s' ∧ view w'.heap s' = view w.heap s := by
  have hwf := h.wf.space i s hi
  unfold MmapState.protect at hr
  simp only at hr
  split at hr
  · obtain ⟨⟨o, w1⟩, hs, rfl⟩ := Option.map_eq_some_iff.mp hr
    have hsound : Sound cfg w1 := h.step (World.guarded_of_remaps rfl w) hs
    simp only [World.step] at hs
    obtain ⟨s1, s', h', hi', hcall, rfl⟩ := World.onSpace_eq_some hs
    obtain rfl := Option.mem_unique hi' hi
    cases hcall
    exact ⟨hsound, World.regionsKept_protect h.wf hi hp.addrMod hp.sizeMod (hp.lt hwf) _ _ _,
      _, World.put_self hi, setPermissions_view h.wf.heap hwf _ _ _ _ _⟩
  cases hr
  exact ⟨h, .refl _ _ _ _, s, hi, rfl⟩

lemma overwrite_region
    (hf : ∀ a, addr ≤ a → a < addr + size → f a = some (copied.getD (a - addr) 0)) (a : Nat)
    (hlo : addr ≤ a) (hhi : a < addr + size) :
    overwrite f (addr + copied.length) (block.map some) a =
      some ((copied ++ block).getD (a - addr) 0) := by
  rcases Nat.lt_or_ge (a - addr) copied.length with hold | hnew
  · rw [overwrite_of_not_mem (by omega), hf a hlo hhi, List.getD_append _ _ _ _ hold]
  have hidx : a - (addr + copied.length) = a - addr - copied.length := by omega
  rw [List.getD_append_right _ _ _ _ hnew]
  unfold overwrite
  rw [if_pos (by omega), hidx, List.getElem?_map]
  cases hget : block[a - addr - copied.length]? with
  | some b => rw [List.getD_eq_getElem?_getD, hget]; rfl
  | none =>
  rw [List.getD_eq_getElem?_getD, hget, Option.map_none, Option.getD_none, Option.getD_none,
    hf a hlo hhi, List.getD_eq_default _ _ hnew]

lemma copyBlock_updates (h : Sound cfg w) (hi : w.spaces[task.space]? = some s)
    (hp : Placed s addr size)
    (hreg : Region w.heap s addr (addr + size) (fun a => copied.getD (a - addr) 0))
    (hfits : copied.length + block.length ≤ size)
    (hr : MmapState.copyBlock cfg w task (addr + copied.length) block = some (t', w')) :
    ∃ s' h', w' = w.put task.space s' h' ∧ Updates w.heap s h' s'
      (overwrite (view w.heap s) (addr + copied.length) (block.map some)) := by
  have hwf := h.wf.space task.space s hi
  have hlt := hp.lt hwf
  have hmask := hp.fits
  have hmod := hp.addrMod
  have hmod' := hp.sizeMod
  let g : Guest := ⟨some task.task, s, w.heap⟩
  have hc : g.Copyable s.canWriteAligned (addr + copied.length) 0 (0 + block.length) := by
    refine ⟨fun k _ hk => ?_, fun k _ hk => ?_, fun k _ hk => ?_⟩
    · show addr + copied.length + k ≤ s.addrMask
      omega
    · have hpage := alignDownToPage_mod (addr + copied.length + k)
      have hle := alignDownToPage_le (addr + copied.length + k)
      have hge := lt_alignDownToPage_add (show addr + copied.length + k < 2 ^ 64 by omega)
      exact hreg.writable _ hpage (by omega) (by omega)
    show (view w.heap s (addr + copied.length + k)).isSome = true
    rw [hreg.view _ (by omega) (by omega)]
    rfl
  obtain ⟨g', hcopy, _, hu⟩ := Guest.copyToLoop_spec cfg (g := g) h.wf.heap hwf hc
  unfold MmapState.copyBlock at hr
  simp only [hi] at hr
  split at hr
  · exact nomatch hr
  case h_2 g'' hcopy' =>
      obtain rfl : g' = g'' := Option.mem_unique hcopy hcopy'
      cases hr
      exact ⟨g'.space, g'.heap, rfl, hu⟩

lemma overwrite_outside (hfits : copied.length + block.length ≤ size) {a : Nat}
    (ha : ¬ (addr ≤ a ∧ a < addr + size)) :
    overwrite f (addr + copied.length) (block.map some) a = f a := by
  refine overwrite_of_not_mem ?_
  rw [List.length_map]
  omega

lemma copyBlock_spec (h : Sound cfg w) (hi : w.spaces[task.space]? = some s)
    (hp : Placed s addr size)
    (hreg : Region w.heap s addr (addr + size) (fun a => copied.getD (a - addr) 0))
    (hfits : copied.length + block.length ≤ size)
    (hr : MmapState.copyBlock cfg w task (addr + copied.length) block = some (t', w')) :
    Sound cfg w' ∧ w.RegionsKept w' task.space addr (addr + size) ∧
      ∃ s', w'.spaces[task.space]? = some s' ∧ s'.addrMask = s.addrMask ∧
        Region w'.heap s' addr (addr + size) (fun a => (copied ++ block).getD (a - addr) 0) := by
  obtain ⟨s', h', rfl, hu⟩ := copyBlock_updates h hi hp hreg hfits hr
  refine ⟨h.updates hi hu, World.regionsKept_updates h.wf hi hu fun a ha => ?_, s',
    World.put_self hi, hu.accessed.addrMask, hreg.updates hu fun a hlo hhi => ?_⟩
  · exact overwrite_outside hfits (by omega)
  · exact overwrite_region hreg.view a hlo hhi

lemma succeed_spec {o : MmapOut} {σ' : MmapState} {bytes : Nat → UInt8}
    (h : Frame cfg σ φ t task.space addr (addr + size)) (ht : t < σ.tasks.length)
    (hi : σ.world.spaces[task.space]? = some s) (hp : Placed s addr size)
    (hreg : Region σ.world.heap s addr (addr + size) bytes)
    (hr : MmapState.succeed cfg σ t task addr size prot = some (o, σ')) :
    ∃ s' h', o = .mapped t addr size s' h' ∧
      (∀ k < size, view h' s' (addr + k) = some (bytes (addr + k))) ∧
      Tracks cfg σ' (Function.update φ t []) := by
  unfold MmapState.succeed at hr
  split at hr
  · exact nomatch hr
  case h_2 w hprot =>
      obtain ⟨hsound, hkept, s', hs', hview⟩ := protect_spec h.sound hi hp hprot
      simp only [hs'] at hr
      cases hr
      refine ⟨s', w.heap, rfl, fun k hk => ?_,
        (h.world hsound hkept).setTask ht rfl (fun _ => rfl) nofun⟩
      rw [hview, hreg.view _ (by omega) (by omega)]

end Mmap

end Vmill
