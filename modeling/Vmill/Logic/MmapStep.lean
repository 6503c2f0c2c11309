import Vmill.Logic.Mmap

/-!
# Steps of `mmap` calls

Every step of the buffer protocol that meets the condition keeps the invariant of all calls
(`good_step`).
-/

namespace Vmill

open Base AddressSpace

namespace Mmap

variable {cfg : Config} {σ σ' : MmapState} {φ : Mmap.Known} {t space lo hi offsetScale : Nat}
  {task task' : MmapTask} {c : MmapCall} {w : World} {s : AddressSpace} {got bytes : List UInt8}
  {args : MmapArgs} {place : MmapPlace} {name : Option (List UInt8)} {answers : SeekAnswers}
  {o : MmapOut} {read : ReadState} {paused : Bool} {reset : Option Nat}

/-- The output is allowed, and the state tracked from there on. -/
def Good (cfg : Config) (φ : Known) (o : MmapOut) (σ' : MmapState) : Prop :=
  Allowed φ o ∧ Tracks cfg σ' (observe o φ)

lemma Tracks.offsets (h : Tracks cfg σ φ) (offsets : Offsets) :
    Tracks cfg { σ with offsets := offsets } φ :=
  ⟨h.sound, h.length, h.call, h.idle, h.apart⟩

lemma Tracks.failed (h : Tracks cfg σ φ) (ht : σ.tasks[t]? = some task) (hc : task.call = none)
    (e : Errno) : Good cfg φ (.failed t e) σ := by
  refine ⟨trivial, ?_⟩
  have hsame : Function.update φ t [] = φ := by
    rw [← h.idle t task ht hc, Function.update_eq_self]
  show Tracks cfg σ (Function.update φ t [])
  rwa [hsame]

lemma outside_of_free (h : Sound cfg w) (hin : InCall w space c got)
    (hs : w.spaces[space]? = some s) (hlt : lo < hi) (hfree : Free w.heap s lo hi) :
    c.Outside lo hi := by
  obtain ⟨s', copied, hs', hp, _, _, hreg⟩ := hin.memory
  obtain rfl := Option.mem_unique hs' hs
  have hpos := hp.pos
  by_contra hover
  unfold MmapCall.Outside at hover
  have hview := hreg.view (max c.addr lo) (by omega) (by omega)
  obtain ⟨p, ho⟩ := exists_owner h.wf.heap (h.wf.space space s' hs') (by rw [hview]; rfl)
  exact hfree p _ ho (by omega)

lemma fixedAddr_spec (args : MmapArgs) : args.fixedAddr % 4096 = 0 ∧ args.fixedAddr < 2 ^ 64 ∧
    kMmapMinAddr ≤ args.fixedAddr := by
  have hdown := alignDownToPage_mod args.addr
  unfold MmapArgs.fixedAddr kMmapMinAddr
  refine ⟨by omega, ?_, by omega⟩
  rw [alignDownToPage_eq]
  omega

lemma place_placed (h : Sound cfg w) (hs : w.spaces[space]? = some s) (hfits : args.Fits s)
    (hplace : mmapPlace cfg s w.heap args offsetScale = some (.ok place)) :
    Placed s place.addr place.size ∧ kMmapMinAddr ≤ place.addr ∧
      place.addr + place.size ≤ maxAddress cfg args.flags := by
  have hwf := h.wf.space _ s hs
  have hmask := maxAddress_le (h.masks _ s hs) args.flags
  obtain ⟨hsize, hne, hcases⟩ := mmapPlace_ok hplace
  obtain ⟨hmod, hlt⟩ := args.pages_mod hwf
  rw [← hsize] at hmod hlt
  cases hcases with
  | fixed hflag haddr hchecked =>
    obtain ⟨haligned, _, hmin⟩ := fixedAddr_spec args
    have hend := hfits hflag
    rw [← haddr, ← hsize] at hend
    rw [mask_of_le hwf hend] at hchecked
    exact ⟨⟨haddr ▸ haligned, hmod, by omega, hend⟩, haddr ▸ hmin, hchecked⟩
  | hole hflag hfound =>
  obtain ⟨haligned, hmin, hmax, _⟩ := findHole_free h.wf.heap hwf (h.boundaries _ s hs) hmask
    hlt hmod hfound
  exact ⟨⟨haligned, hmod, by omega, by omega⟩, hmin, hmax⟩

lemma place_frame (h : Tracks cfg σ φ) (ht : σ.tasks[t]? = some task)
    (hop : σ.Orderly (.call t (some args) offsetScale name answers))
    (hs : σ.world.spaces[task.space]? = some s)
    (hplace : mmapPlace cfg s σ.world.heap args offsetScale = some (.ok place)) :
    Placed s place.addr place.size ∧
      Frame cfg σ φ t task.space place.addr (place.addr + place.size) := by
  have hwf := h.sound.wf.space _ s hs
  have hcond := hop task ht s hs
  obtain ⟨hsize, _, hcases⟩ := mmapPlace_ok hplace
  obtain ⟨hmod, hlt⟩ := args.pages_mod hwf
  have hplaced : args.Fits s → Placed s place.addr place.size := fun hfits =>
    (place_placed h.sound hs hfits hplace).1
  cases hcases with
  | fixed hflag haddr _ =>
    rw [if_pos hflag] at hcond
    obtain ⟨hbounds, hothers⟩ := hcond
    obtain ⟨haligned, hbelow, _⟩ := fixedAddr_spec args
    have hfits := hbounds.fits
    rw [alignDownToPage_of_aligned hbelow haligned, roundUpToPage_of_aligned hlt hmod] at hfits
    refine ⟨hplaced fun _ => hfits, h.frame ?_⟩
    intro t' task' c' _ ht' hc' hspace
    rw [haddr, hsize]
    exact hothers task' (List.mem_of_getElem? ht') hspace c' hc'
  | hole hflag hfound =>
  rw [hflag] at hcond
  have hp := hplaced fun hfixed => absurd (hflag.symm.trans hfixed) (by decide)
  have hpos := hp.pos
  obtain ⟨_, _, _, hfree⟩ := findHole_free h.sound.wf.heap hwf (h.sound.boundaries _ s hs)
    (maxAddress_le (h.sound.masks _ s hs) args.flags) (hsize ▸ hlt) (hsize ▸ hmod) hfound
  refine ⟨hp, h.frame ?_⟩
  intro t' task' c' _ ht' hc' hspace
  exact outside_of_free h.sound (h.call t' task' c' ht' hc').1 (hspace ▸ hs) (by omega)
    (hfree hcond)

lemma mapMemory_step {oldOffset : Int}
    (h : Frame cfg σ φ t task.space place.addr (place.addr + place.size)) (ht : t < σ.tasks.length)
    (hφ : φ t = []) (hi : σ.world.spaces[task.space]? = some s)
    (hp : Placed s place.addr place.size)
    (hr : MmapState.mapMemory cfg σ t task args place name oldOffset = some (o, σ')) :
    Good cfg φ o σ' := by
  have hsame : Function.update φ t [] = φ := by rw [← hφ, Function.update_eq_self]
  unfold MmapState.mapMemory at hr
  simp only at hr
  split at hr
  · exact nomatch hr
  case h_2 o' w hmap =>
      obtain ⟨hsound, hkept, s', hs', hmask, hreg⟩ := remap_spec h.sound rfl rfl hi hp hmap
      have hframe := h.world hsound hkept
      have hp' := hp.of_mask hmask
      split at hr
      · cases hr
        refine ⟨trivial, ?_⟩
        show Tracks cfg _ φ
        rw [← hsame]
        refine hframe.setTask ht rfl nofun ?_
        intro c hc
        cases hc
        refine ⟨⟨Nat.zero_add _, s', [], hs', hp', rfl, rfl, ?_⟩, ⟨Nat.zero_le _, rfl⟩, rfl, rfl⟩
        exact hreg rfl
      obtain ⟨s2, h2, rfl, hview, htracks⟩ := succeed_spec hframe ht hs' hp' (hreg rfl) hr
      refine ⟨⟨?_, fun k hk => ?_⟩, htracks⟩
      · rw [hφ]
        exact Nat.zero_le _
      rw [hview k hk, hφ]
      rfl

lemma call_step {args : Option MmapArgs} (h : Tracks cfg σ φ)
    (hop : σ.Orderly (.call t args offsetScale name answers))
    (hr : MmapState.step cfg (.call t args offsetScale name answers) σ = some (o, σ')) :
    Good cfg φ o σ' := by
  simp only [MmapState.step] at hr
  split at hr
  case h_2 => exact nomatch hr
  case h_1 task space ht =>
  have hφ := h.idle t _ ht rfl
  have hlt := (List.getElem?_eq_some_iff.mp ht).1
  split at hr
  · cases hr
    exact h.failed ht rfl .efault
  case h_2 args =>
  unfold MmapState.mmapCall at hr
  split at hr
  · exact nomatch hr
  case h_2 s hs =>
  split at hr
  · exact nomatch hr
  case h_2 e _ =>
      cases hr
      exact h.failed ht rfl e
  case h_3 place hplace =>
  obtain ⟨hp, hframe⟩ := place_frame h ht hop hs hplace
  split at hr
  · split at hr
    case h_1 e offsets _ =>
        cases hr
        exact (h.offsets offsets).failed ht rfl e
    case h_2 old offsets _ => exact mapMemory_step (hframe.offsets offsets) hlt hφ hs hp hr
  · exact mapMemory_step hframe hlt hφ hs hp hr

lemma inCall_eq_some {act : MmapTask → MmapCall → Option (MmapOut × MmapState)}
    {r : MmapOut × MmapState} (hr : σ.inCall t act = some r) :
    ∃ task c, σ.tasks[t]? = some task ∧ task.call = some c ∧ act task c = some r := by
  unfold MmapState.inCall at hr
  split at hr
  · split at hr
    · exact ⟨_, _, ‹_›, ‹_›, hr⟩
    · exact nomatch hr
  · exact nomatch hr

lemma InCall.reads (h : InCall w space c got) (hnone : c.returned = [])
    (hread : MmapCall.returned { c with read := read, paused := paused } = bytes) : 
    InCall w space { c with read := read, paused := paused } (got ++ bytes) := by
  obtain ⟨s, copied, hs, hp, hgot, hlen, hreg⟩ := h.memory
  refine ⟨h.split, s, copied, hs, hp, ?_, hlen, hreg⟩
  rw [hread, hgot, hnone, List.append_nil]

lemma Frame.reads
    (h : Frame cfg σ φ t task.space c.addr (c.addr + c.size)) (ht : σ.tasks[t]? = some task)
    (hspace : task'.space = task.space) (hin : InCall σ.world task.space c (φ t))
    (hnone : c.returned = [])
    (hread : MmapCall.returned { c with read := read, paused := paused } = got)
    (hbuf : Buffered σ.ioBuffer { c with read := read, paused := paused }) :
    Tracks cfg (σ.setTask t task' (some { c with read := read, paused := paused }))
      (Function.update φ t (φ t ++ got)) := by
  refine h.setTask (List.getElem?_eq_some_iff.mp ht).1 hspace nofun ?_
  intro c' hc'
  cases hc'
  exact ⟨hin.reads hnone hread, hbuf, rfl, rfl⟩

lemma Frame.reads_on
    (h : Frame cfg σ φ t task.space c.addr (c.addr + c.size)) (ht : σ.tasks[t]? = some task)
    (hspace : task'.space = task.space) (hin : InCall σ.world task.space c (φ t))
    (hnone : c.returned = [])
    (hread : MmapCall.returned { c with read := read, paused := paused } = [])
    (hbuf : Buffered σ.ioBuffer { c with read := read, paused := paused }) :
    Tracks cfg (σ.setTask t task' (some { c with read := read, paused := paused })) φ := by
  have htracks := h.reads ht hspace hin hnone hread hbuf
  rwa [List.append_nil, Function.update_eq_self] at htracks

lemma deliver_step (h : Tracks cfg σ φ) (hop : σ.Orderly (.deliver t bytes))
    (ht : σ.tasks[t]? = some task) (hc : task.call = some c)
    (hr : σ.deliver t bytes task c = some (o, σ')) : Good cfg φ o σ' := by
  obtain ⟨hin, hbuf⟩ := h.call t task c ht hc
  unfold MmapState.deliver at hr
  split at hr
  case h_2 => exact nomatch hr
  case h_1 got hread =>
  simp only at hr
  split at hr
  case isFalse => exact nomatch hr
  case isTrue hfits =>
  cases hr
  obtain ⟨hpending, hnone⟩ := MmapCall.of_running hread
  have heq := hbuf.eq
  rw [hpending] at heq
  have hlen := h.length
  have hreq : c.requested ≤ kIOBufferSize := Nat.min_le_right _ _
  let buffer := σ.ioBuffer.take got.length ++ bytes ++ σ.ioBuffer.drop (got.length + bytes.length)
  let offsets := Function.update σ.offsets c.fd (σ.offsets c.fd + bytes.length)
  have hbuffer : buffer.length = kIOBufferSize + 1 := by
    simp only [buffer, List.length_append, List.length_take, List.length_drop]
    omega
  have hframe : Frame cfg { σ with ioBuffer := buffer, offsets := offsets } φ t task.space c.addr
      (c.addr + c.size) := by
    refine ((h.frame_call ht hc).buffer hbuffer ?_).offsets offsets
    intro t' task' c' hne ht' hc'
    exact hop t' (List.getElem?_eq_some_iff.mp ht').1 hne task' ht' c' hc'
  have hnew : Buffered buffer { c with read := .running (got ++ bytes) } := by
    constructor
    · show (got ++ bytes).length ≤ c.requested
      rwa [List.length_append]
    show buffer.take (got ++ bytes).length = got ++ bytes
    simp only [buffer]
    rw [heq]
    exact List.take_left
  exact ⟨trivial, hframe.reads_on ht rfl hin hnone rfl hnew⟩

lemma readEnds_step (h : Tracks cfg σ φ) (ht : σ.tasks[t]? = some task) (hc : task.call = some c)
    (hr : σ.readEnds t task c = some (o, σ')) : Good cfg φ o σ' := by
  obtain ⟨hin, hbuf⟩ := h.call t task c ht hc
  unfold MmapState.readEnds at hr
  split at hr
  case h_2 => exact nomatch hr
  case h_1 got hread =>
  cases hr
  obtain ⟨hpending, hnone⟩ := MmapCall.of_running hread
  refine ⟨trivial, (h.frame_call ht hc).reads ht rfl hin hnone rfl ⟨?_, ?_⟩⟩
  · rw [← hpending]
    exact hbuf.fits
  rw [← hpending]
  exact hbuf.eq

lemma readFails_step {errno : Nat} (h : Tracks cfg σ φ) (ht : σ.tasks[t]? = some task)
    (hc : task.call = some c) (hr : σ.readFails t errno task c = some (o, σ')) :
    Good cfg φ o σ' := by
  obtain ⟨hin, _⟩ := h.call t task c ht hc
  unfold MmapState.readFails at hr
  split at hr
  case h_2 => exact nomatch hr
  case h_1 hread =>
  cases hr
  obtain ⟨_, hnone⟩ := MmapCall.of_running hread
  exact ⟨trivial, (h.frame_call ht hc).reads_on ht rfl hin hnone rfl ⟨Nat.zero_le _, rfl⟩⟩

lemma succeed_step {prot : Nat} {addr size : Nat}
    (h : Frame cfg σ φ t task.space addr (addr + size)) (ht : t < σ.tasks.length)
    (hi : σ.world.spaces[task.space]? = some s) (hp : Placed s addr size)
    (hlen : (φ t).length ≤ size)
    (hreg : Region σ.world.heap s addr (addr + size) (fun a => (φ t).getD (a - addr) 0))
    (hr : MmapState.succeed cfg σ t task addr size prot = some (o, σ')) : Good cfg φ o σ' := by
  obtain ⟨s', h', rfl, hview, htracks⟩ := succeed_spec h ht hi hp hreg hr
  refine ⟨⟨hlen, fun k hk => ?_⟩, htracks⟩
  rw [hview k hk, Nat.add_sub_cancel_left]

lemma afterRead_step {result : Except Errno (List UInt8)}
    (h : Frame cfg σ φ t task.space c.addr (c.addr + c.size)) (ht : t < σ.tasks.length)
    (hin : InCall σ.world task.space c (φ t)) (hbuf : Buffered σ.ioBuffer c)
    (hread : c.read = .ended result)
    (hr : MmapState.afterRead cfg σ t task c result reset = some (o, σ')) : Good cfg φ o σ' := by
  obtain ⟨hsplit, s, copied, hs, hp, hgot, hlen, hreg⟩ := hin
  have hoffsets := h.offsets (lseek σ.offsets c.fd c.oldOffset reset)
  unfold MmapState.afterRead at hr
  split at hr
  case h_1 e =>
      simp only at hr
      split at hr
      · exact nomatch hr
      case h_2 o' w hremove =>
          cases hr
          obtain ⟨hsound, hkept, _⟩ := remap_spec h.sound rfl rfl hs hp hremove
          exact ⟨trivial, (hoffsets.world hsound hkept).setTask ht rfl (fun _ => rfl) nofun⟩
  case h_2 =>
      obtain ⟨_, hreturned⟩ := MmapCall.of_ended hread
      rw [hreturned, List.append_nil] at hgot
      subst hgot
      exact succeed_step hoffsets ht hs hp (by omega) hreg hr
  case h_3 bytes _ =>
      obtain ⟨hpending, hreturned⟩ := MmapCall.of_ended hread
      rw [hreturned] at hgot
      obtain ⟨hfits, heq⟩ := hbuf
      rw [hpending] at hfits heq
      have hreq : c.requested ≤ c.remaining := Nat.min_le_left _ _
      simp only [heq] at hr
      split at hr
      · exact nomatch hr
      case h_2 t' w hcopy =>
          rw [← hlen] at hcopy
          obtain ⟨hsound, hkept, s', hs', hmask, hreg'⟩ :=
            copyBlock_spec h.sound hs hp hreg (by omega) hcopy
          have hworld := h.world hsound hkept
          have hcount : (copied ++ bytes).length = c.i + bytes.length := by
            rw [List.length_append, hlen]
          rw [← hgot] at hreg' hcount
          split at hr
          · refine succeed_step ?_ ?_ ?_ (hp.of_mask hmask) (by omega) ?_ hr
            · exact hworld.offsets _
            · exact ht
            · exact hs'
            · exact hreg'
          -- the next block
          · cases hr
            refine ⟨trivial, ?_⟩
            show Tracks cfg _ φ
            rw [← Function.update_eq_self t φ]
            refine hworld.setTask ht rfl nofun ?_
            intro c' hc'
            cases hc'
            refine ⟨⟨?_, s', φ t, hs', hp.of_mask hmask, (List.append_nil _).symm, hcount, hreg'⟩,
              ⟨Nat.zero_le _, rfl⟩, rfl, rfl⟩
            show c.i + bytes.length + (c.remaining - bytes.length) = c.size
            omega

lemma poll_step (h : Tracks cfg σ φ) (ht : σ.tasks[t]? = some task) (hc : task.call = some c)
    (hr : MmapState.poll cfg σ t task c reset = some (o, σ')) : Good cfg φ o σ' := by
  obtain ⟨hin, hbuf⟩ := h.call t task c ht hc
  have hlt := (List.getElem?_eq_some_iff.mp ht).1
  have hframe := h.frame_call ht hc
  unfold MmapState.poll at hr
  -- `Resume` does not change the address space of the task
  have hspace : (if c.paused then { task with task := task.task.resume } else task).space =
      task.space := by
    split <;> rfl
  generalize (if c.paused then { task with task := task.task.resume } else task) = task' at hr hspace
  simp only at hr
  split at hr
  case h_1 got hread =>
      cases hr
      exact ⟨trivial, hframe.reads_on ht hspace hin (MmapCall.of_running hread).2
        (MmapCall.of_running hread).2 ⟨hbuf.fits, hbuf.eq⟩⟩
  case h_2 result hread =>
      rw [← hspace] at hframe hin
      exact afterRead_step hframe hlt hin hbuf hread hr

/-- Every orderly step keeps what the calls have read in its place. -/
lemma good_step {op : MmapOp} (h : Tracks cfg σ φ) (hop : σ.Orderly op)
    (hr : MmapState.step cfg op σ = some (o, σ')) : Good cfg φ o σ' := by
  cases op with
  | call t args offsetScale name answers => exact call_step h hop hr
  | deliver t bytes =>
    obtain ⟨task, c, ht, hc, hact⟩ := inCall_eq_some hr
    exact deliver_step h hop ht hc hact
  | readEnds t =>
    obtain ⟨task, c, ht, hc, hact⟩ := inCall_eq_some hr
    exact readEnds_step h ht hc hact
  | readFails t errno =>
    obtain ⟨task, c, ht, hc, hact⟩ := inCall_eq_some hr
    exact readFails_step h ht hc hact
  | poll t reset =>
  obtain ⟨task, c, ht, hc, hact⟩ := inCall_eq_some hr
  exact poll_step h ht hc hact

lemma init_tracks (hw : Sound cfg w) (offsets : Offsets) (tasks : List (Task × Nat)) :
    Tracks cfg (MmapState.init w offsets tasks) (fun _ => []) := by
  have hidle : ∀ (t : Nat) (task : MmapTask), (MmapState.init w offsets tasks).tasks[t]? = some task →
      task.call = none := by
    intro t task ht
    obtain ⟨⟨task', space⟩, _, rfl⟩ := List.mem_map.mp (List.mem_of_getElem? ht)
    rfl
  refine ⟨hw, List.length_replicate, ?_, fun _ _ _ _ => rfl, ?_⟩
  · intro t task c ht hc
    exact nomatch (hidle t task ht).symm.trans hc
  intro t1 _ task1 _ c1 _ _ ht1 _ hc1
  exact nomatch (hidle t1 task1 ht1).symm.trans hc1

end Mmap

end Vmill
