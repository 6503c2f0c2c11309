import Vmill.Logic.MmapCall
import Vmill.Theorems.Mmap

/-!
# One `mmap` call

A mapping is where and what was asked for, unless the end of a `MAP_FIXED` request wraps around. An
error leaves the state of before exactly if the seek back succeeds and a failed read leaves a hole
where there was the same hole before.
-/

namespace Vmill

open Base AddressSpace

variable {os : List MmapOut} {offsets : Offsets} {fd : Int}

/-- The request is accepted, and a file is at its place when the mapping is made. -/
def MmapArgs.Begins (cfg : Config) (h : Heap) (s : AddressSpace) (args : MmapArgs)
    (offsetScale : Nat) (answers : SeekAnswers) : Prop :=
  (∃ place, mmapPlace cfg s h args offsetScale = some (.ok place)) ∧
    (0 ≤ args.fd → answers.current = none ∧ answers.toStart = none)

namespace Mmap

variable {cfg : Config} {b : Begun} {n : Nat} {σ σ' : MmapState} {φ : Known} {task : MmapTask}
  {c : MmapCall} {o : MmapOut} {reset : Option Nat}

/-- What a call comes to, of which `n` bytes have been read; `reset` is the answer to the seek
back after a read. -/
inductive Called (cfg : Config) (w : World) (s : AddressSpace) (offsets : Offsets) (space : Nat)
    (args : MmapArgs) (offsetScale : Nat) (answers : SeekAnswers) (n : Nat) (reset : Option Nat) :
    MmapOut → MmapState → Prop
  | refused {e : Errno} {σ' : MmapState} (idle : Idle σ') (world : σ'.world = w)
      (seeks : σ'.offsets = offsets)
      (noPlace : ∀ place, mmapPlace cfg s w.heap args offsetScale ≠ some (.ok place)) :
      Called cfg w s offsets space args offsetScale answers n reset (.failed 0 e) σ'
  | unseekable {e : Errno} {σ' : MmapState} {place : MmapPlace} (idle : Idle σ')
      (world : σ'.world = w) (placed : mmapPlace cfg s w.heap args offsetScale = some (.ok place))
      (file : 0 ≤ args.fd) (seeks : seekTo offsets args.fd place answers = (.error e, σ'.offsets)) :
      Called cfg w s offsets space args offsetScale answers n reset (.failed 0 e) σ'
  | begun {o : MmapOut} {σ' : MmapState} {place : MmapPlace}
      (placed : mmapPlace cfg s w.heap args offsetScale = some (.ok place))
      (seeks : 0 ≤ args.fd → answers.current = none ∧ answers.toStart = none)
      (outcome : Outcome cfg ⟨w.heap, s, offsets, space, args.prot, args.fd, place⟩ n reset o σ') :
      Called cfg w s offsets space args offsetScale answers n reset o σ'

lemma seekTo_ok {offsets offsets' : Offsets} {fd old : Int} {place : MmapPlace}
    {answers : SeekAnswers} (hr : seekTo offsets fd place answers = (.ok old, offsets')) :
    answers.current = none ∧ answers.toStart = none ∧ old = offsets fd ∧
      offsets' = Function.update offsets fd place.offset := by
  unfold seekTo at hr
  split at hr
  · exact nomatch congrArg Prod.fst hr
  case h_2 hcurrent =>
      simp only at hr
      split at hr
      · exact nomatch congrArg Prod.fst hr
      case h_2 hstart =>
          obtain ⟨hold, rfl⟩ := Prod.mk.inj hr
          refine ⟨hcurrent, hstart, (Except.ok.inj hold).symm, ?_⟩
          unfold lseek
          cases answers.toEnd with
          | none => exact Function.update_idem ..
          | some e => rfl

section Call

variable {w : World} {s : AddressSpace} {space offsetScale : Nat} {t : Task} {args : MmapArgs}
  {name : Option (List UInt8)} {answers : SeekAnswers}

lemma mapMemory_outcome {place : MmapPlace} {old : Int} (h : Sound cfg σ.world)
    (hlen : σ.ioBuffer.length = kIOBufferSize + 1) (hs : σ.world.spaces[space]? = some s)
    (htasks : σ.tasks = [⟨t, space, none⟩]) (hp : Placed s place.addr place.size)
    (hold : 0 ≤ args.fd → old = offsets args.fd ∧ σ.offsets = Function.update offsets args.fd
      place.offset)
    (hr : MmapState.mapMemory cfg σ 0 ⟨t, space, none⟩ args place name old = some (o, σ')) :
    Outcome cfg ⟨σ.world.heap, s, offsets, space, args.prot, args.fd, place⟩ 0 none o σ' := by
  have hidle : ∀ (t' : Nat) (task : MmapTask) (c : MmapCall), σ.tasks[t']? = some task →
      task.call = some c → False := by
    intro t' task c ht hc
    have hmem := List.mem_of_getElem? ht
    rw [htasks] at hmem
    rw [List.mem_singleton.mp hmem] at hc
    exact nomatch hc
  have hframe : Frame cfg σ (fun _ => []) 0 space place.addr (place.addr + place.size) :=
    ⟨h, hlen, fun t' task c _ ht hc => (hidle t' task c ht hc).elim, fun _ _ _ _ _ => rfl,
      fun t' task c _ ht hc => (hidle t' task c ht hc).elim,
      fun t1 _ task1 _ c1 _ _ _ _ ht _ hc => (hidle t1 task1 c1 ht hc).elim⟩
  have hgood := mapMemory_step hframe (by rw [htasks]; exact Nat.zero_lt_one) rfl hs hp hr
  unfold MmapState.mapMemory at hr
  simp only at hr
  split at hr
  · exact nomatch hr
  case h_2 o' w' hmap =>
      obtain ⟨hsound, _, s', hs', hmask, hreg⟩ := remap_spec h rfl rfl hs hp hmap
      have hmade := made_of_addMap
        (b := ⟨σ.world.heap, s, offsets, space, args.prot, args.fd, place⟩) h hs rfl hp hmap
      split at hr
      case isTrue hfd =>
          cases hr
          obtain ⟨rfl, hoffsets⟩ := hold hfd
          refine .goesOn ⟨hgood.2, setTask_single htasks, rfl, rfl, rfl, rfl, rfl, rfl, hfd, rfl,
            ?_, hmade⟩ rfl
          show σ.offsets = Function.update offsets args.fd (place.offset + 0)
          rw [hoffsets, Int.add_zero]
      case isFalse =>
          refine succeed_outcome ?_ ?_ ?_ ?_ (hp.of_mask hmask) ?_ ?_ hr
          · exact hsound
          · exact ⟨_, htasks⟩
          · rfl
          · exact hs'
          · exact region_mapped (hreg rfl)
          · exact hmade

lemma init_idle (w : World) (offsets : Offsets) (t : Task) (space : Nat) :
    Idle (MmapState.init w offsets [(t, space)]) := by
  intro task htask
  rw [List.mem_singleton.mp htask]

lemma call_called (hw : Sound cfg w) (hs : w.spaces[space]? = some s)
    (hfits : args.Begins cfg w.heap s offsetScale answers → args.Fits s)
    (hr : MmapState.step cfg (.call 0 (some args) offsetScale name answers) (MmapState.init w
      offsets [(t, space)]) = some (o, σ')) :
    Called cfg w s offsets space args offsetScale answers 0 none o σ' := by
  simp only [MmapState.step, MmapState.init, List.map_cons, List.map_nil, List.getElem?_cons_zero,
    MmapState.mmapCall, hs] at hr
  split at hr
  · cases hr
  case h_2 e hplace =>
      cases hr
      refine .refused (init_idle w offsets t space) rfl rfl fun place hok => ?_
      cases hplace.symm.trans hok
  case h_3 place hplace =>
      have hplaced (hseeks : 0 ≤ args.fd → answers.current = none ∧ answers.toStart = none) :
          Placed s place.addr place.size :=
        (place_placed hw hs (hfits ⟨⟨place, hplace⟩, hseeks⟩) hplace).1
      split at hr
      case isTrue hfd =>
          split at hr
          case h_1 e offsets' hseek =>
              cases hr
              exact .unseekable (init_idle w offsets' t space) rfl hplace hfd hseek
          case h_2 old offsets' hseek =>
              obtain ⟨hcurrent, hstart, hold, hoffsets⟩ := seekTo_ok hseek
              have hseeks : 0 ≤ args.fd → answers.current = none ∧ answers.toStart = none :=
                fun _ => ⟨hcurrent, hstart⟩
              refine .begun hplace hseeks ?_
              refine mapMemory_outcome ?_ ?_ ?_ ?_ (hplaced hseeks) ?_ hr
              · exact hw
              · exact List.length_replicate
              · exact hs
              · rfl
              · exact fun _ => ⟨hold, hoffsets⟩
      case isFalse hfd =>
          refine .begun hplace (fun hfd' => absurd hfd' hfd) ?_
          refine mapMemory_outcome ?_ ?_ ?_ ?_ (hplaced fun hfd' => absurd hfd' hfd) ?_ hr
          · exact hw
          · exact List.length_replicate
          · exact hs
          · rfl
          · exact fun hfd' => absurd hfd' hfd

lemma call_run {rest : List MmapOp} {os : List MmapOut} (hw : Sound cfg w)
    (hs : w.spaces[space]? = some s)
    (hfits : args.Begins cfg w.heap s offsetScale answers → args.Fits s)
    (hrest : ∀ op ∈ rest, op.continues = true)
    (hr : (mmaps cfg).run (.call 0 (some args) offsetScale name answers :: rest) (MmapState.init w
      offsets [(t, space)]) = some (os, σ')) (ho : o ∈ os) (hreturns : o.returns = true) :
    Called cfg w s offsets space args offsetScale answers (rest.map MmapOp.delivered).sum
      (rest.getLast?.bind MmapOp.reset) o σ' := by
  obtain ⟨o1, os', σ1, hstep, hr', rfl⟩ := Machine.run_cons_eq_some hr
  have hcalled := call_called hw hs hfits hstep
  have hend : Idle σ1 → Called cfg w s offsets space args offsetScale answers
      (rest.map MmapOp.delivered).sum (rest.getLast?.bind MmapOp.reset) o σ' := by
    intro hidle
    obtain ⟨rfl, rfl, rfl⟩ := run_of_idle hidle hrest hr'
    rwa [List.mem_singleton.mp ho]
  cases hcalled with
  | refused hidle _ _ _ => exact hend hidle
  | unseekable hidle _ _ _ _ => exact hend hidle
  | begun hplace hseeks houtcome =>
  cases houtcome with
  | goesOn halone hon =>
    rcases List.mem_cons.mp ho with rfl | ho'
    · exact nomatch hon.symm.trans hreturns
    refine .begun hplace hseeks ?_
    have hrun := halone.run hw.wf.heap (hw.wf.space _ _ hs) hrest hr' ho' hreturns
    rwa [Nat.zero_add] at hrun
  | mapped hidle _ => exact hend hidle
  | failed hidle _ _ _ _ => exact hend hidle

end Call

/-- All calls in progress are for this mapping. -/
def For (addr size : Nat) (σ : MmapState) : Prop :=
  ∀ task ∈ σ.tasks, ∀ c ∈ task.call, c.addr = addr ∧ c.size = size

/-- If a mapping is returned, it is this one. -/
def Returned (addr size : Nat) : MmapOut → Prop
  | .mapped _ a n _ _ => a = addr ∧ n = size
  | _ => True

section Where

variable {addr size t : Nat}

lemma For.setTask {call : Option MmapCall} (h : For addr size σ)
    (hcall : ∀ c ∈ call, c.addr = addr ∧ c.size = size) :
    For addr size (σ.setTask t task call) := by
  intro task' hmem c hc
  rcases List.mem_or_eq_of_mem_set hmem with hold | rfl
  · exact h task' hold c hc
  · exact hcall c hc

lemma succeed_for {prot : Nat} (h : For addr size σ)
    (hr : MmapState.succeed cfg σ t task addr size prot = some (o, σ')) :
    For addr size σ' ∧ Returned addr size o := by
  unfold MmapState.succeed at hr
  split at hr
  · exact nomatch hr
  split at hr
  · exact nomatch hr
  cases hr
  refine ⟨For.setTask ?_ nofun, rfl, rfl⟩
  exact h

lemma afterRead_for {result : Except Errno (List UInt8)} (h : For addr size σ)
    (hc : c.addr = addr ∧ c.size = size)
    (hr : MmapState.afterRead cfg σ t task c result reset = some (o, σ')) :
    For addr size σ' ∧ Returned addr size o := by
  unfold MmapState.afterRead at hr
  split at hr
  · simp only at hr
    split at hr
    · exact nomatch hr
    cases hr
    refine ⟨For.setTask ?_ nofun, trivial⟩
    exact h
  · rw [hc.1, hc.2] at hr
    refine succeed_for ?_ hr
    exact h
  simp only at hr
  split at hr
  · exact nomatch hr
  split at hr
  · rw [hc.1, hc.2] at hr
    refine succeed_for ?_ hr
    exact h
  cases hr
  refine ⟨For.setTask ?_ ?_, trivial⟩
  · exact h
  intro c' hc'
  cases hc'
  exact hc

lemma For.step {op : MmapOp} (h : For addr size σ) (hop : op.continues = true)
    (hr : MmapState.step cfg op σ = some (o, σ')) : For addr size σ' ∧ Returned addr size o := by
  -- a step that only changes how far the read is
  have hwaits : ∀ {t : Nat} {task task' : MmapTask} {c : MmapCall} {read : ReadState} {paused : Bool}
      {buffer : List UInt8} {offsets : Offsets}, σ.tasks[t]? = some task → task.call = some c →
      For addr size (MmapState.setTask { σ with ioBuffer := buffer, offsets := offsets } t task'
        (some { c with read := read, paused := paused })) := by
    intro t task task' c read paused buffer offsets ht hc
    refine For.setTask ?_ ?_
    · exact h
    intro c' hc'
    cases hc'
    exact h task (List.mem_of_getElem? ht) c hc
  cases op with
  | call => exact nomatch hop
  | deliver t bytes =>
    obtain ⟨task, c, ht, hc, hact⟩ := inCall_eq_some hr
    unfold MmapState.deliver at hact
    split at hact
    case h_2 => exact nomatch hact
    simp only at hact
    split at hact
    case isFalse => exact nomatch hact
    cases hact
    exact ⟨hwaits ht hc, trivial⟩
  | readEnds t =>
    obtain ⟨task, c, ht, hc, hact⟩ := inCall_eq_some hr
    unfold MmapState.readEnds at hact
    split at hact
    case h_2 => exact nomatch hact
    cases hact
    exact ⟨hwaits ht hc, trivial⟩
  | readFails t errno =>
    obtain ⟨task, c, ht, hc, hact⟩ := inCall_eq_some hr
    unfold MmapState.readFails at hact
    split at hact
    case h_2 => exact nomatch hact
    cases hact
    exact ⟨hwaits ht hc, trivial⟩
  | poll t reset =>
  obtain ⟨task, c, ht, hc, hact⟩ := inCall_eq_some hr
  unfold MmapState.poll at hact
  simp only at hact
  split at hact
  · cases hact
    exact ⟨hwaits ht hc, trivial⟩
  · exact afterRead_for h (h task (List.mem_of_getElem? ht) c hc) hact

section Result

variable {w : World} {s : AddressSpace} {space offsetScale : Nat} {t0 : Task} {args : MmapArgs}
  {name : Option (List UInt8)} {answers : SeekAnswers}

lemma mapMemory_for {place : MmapPlace} {old : Int} (hidle : Idle σ)
    (hr : MmapState.mapMemory cfg σ t task args place name old = some (o, σ')) :
    For place.addr place.size σ' ∧ Returned place.addr place.size o := by
  have hfor : For place.addr place.size σ := by
    intro task' hmem c hc
    rw [hidle task' hmem] at hc
    exact nomatch hc
  unfold MmapState.mapMemory at hr
  simp only at hr
  split at hr
  · exact nomatch hr
  split at hr
  · cases hr
    refine ⟨For.setTask ?_ ?_, trivial⟩
    · exact hfor
    intro c hc
    cases hc
    exact ⟨rfl, rfl⟩
  refine succeed_for ?_ hr
  exact hfor

lemma call_for (hs : w.spaces[space]? = some s)
    (hr : MmapState.step cfg (.call 0 (some args) offsetScale name answers) (MmapState.init w
      offsets [(t0, space)]) = some (o, σ')) :
    ((∃ e, o = .failed 0 e) ∧ Idle σ') ∨
      ∃ place, mmapPlace cfg s w.heap args offsetScale = some (.ok place) ∧
        For place.addr place.size σ' ∧ Returned place.addr place.size o := by
  simp only [MmapState.step, MmapState.init, List.map_cons, List.map_nil, List.getElem?_cons_zero,
    MmapState.mmapCall, hs] at hr
  split at hr
  · cases hr
  case h_2 e hplace =>
      cases hr
      exact .inl ⟨⟨e, rfl⟩, init_idle w offsets t0 space⟩
  case h_3 place hplace =>
      split at hr
      · split at hr
        case h_1 e offsets' hseek =>
            cases hr
            exact .inl ⟨⟨e, rfl⟩, init_idle w offsets' t0 space⟩
        case h_2 old offsets' hseek =>
            exact .inr ⟨place, hplace, mapMemory_for (init_idle w offsets' t0 space) hr⟩
      · exact .inr ⟨place, hplace, mapMemory_for (init_idle w offsets t0 space) hr⟩

lemma mapped_place {s' : AddressSpace} {h' : Heap} {rest : List MmapOp} {os : List MmapOut}
    (hs : w.spaces[space]? = some s) (hrest : ∀ op ∈ rest, op.continues = true)
    (hr : (mmaps cfg).run (.call 0 (some args) offsetScale name answers :: rest) (MmapState.init w
      offsets [(t0, space)]) = some (os, σ')) (ho : .mapped 0 addr size s' h' ∈ os) :
    ∃ place, mmapPlace cfg s w.heap args offsetScale = some (.ok place) ∧ addr = place.addr ∧
      size = place.size := by
  obtain ⟨o1, os', σ1, hstep, hr', rfl⟩ := Machine.run_cons_eq_some hr
  rcases call_for hs hstep with ⟨⟨e, rfl⟩, hidle⟩ | ⟨place, hplace, hfor, hreturned⟩
  · obtain ⟨_, rfl, _⟩ := run_of_idle hidle hrest hr'
    exact nomatch List.mem_singleton.mp ho
  refine ⟨place, hplace, ?_⟩
  have hall : ∀ o ∈ os', Returned place.addr place.size o :=
    Machine.run_outputs (P := fun _ op => op.continues = true)
      (fun σ op o σ' h hop hs => h.step hop hs) hfor
      (Machine.runMeets_of_forall (fun _ op hop => hrest op hop) σ1) hr'
  rcases List.mem_cons.mp ho with rfl | ho'
  · exact hreturned
  · exact hall _ ho'

end Result

end Where

end Mmap

/-- The result of a successful call: the mapping is on whole pages, within the bounds for
mappings, and has the permissions that were asked for. -/
structure AsAsked (cfg : Config) (args : MmapArgs) (s : AddressSpace) (addr size : Nat)
    (h' : Heap) (s' : AddressSpace) : Prop where
  rounded : size = args.pages s
  aligned : addr % 4096 = 0
  low : 65536 ≤ addr
  high : addr + size ≤ maxAddress cfg args.flags
  pages : MappedWith h' s' addr (addr + size) args.prot

/-- **Success.** In every reachable address space, a call that returns an address has mapped
what was asked for if and only if the end of a `MAP_FIXED` request does not wrap around. -/
theorem mapped_as_asked_iff {cfg : Config} {w : World} {s s' : AddressSpace} {h' : Heap}
    {offsets : Offsets} {space offsetScale addr size : Nat} {t : Task} {args : MmapArgs}
    {name : Option (List UInt8)} {answers : SeekAnswers} {rest : List MmapOp} {os : List MmapOut}
    {σ' : MmapState} (hw : World.Reachable cfg w) (hs : w.spaces[space]? = some s)
    (hrest : ∀ op ∈ rest, op.continues = true)
    (hr : (mmaps cfg).run (.call 0 (some args) offsetScale name answers :: rest)
      (MmapState.init w offsets [(t, space)]) = some (os, σ'))
    (ho : .mapped 0 addr size s' h' ∈ os) :
    AsAsked cfg args s addr size h' s' ↔ args.Fits s := by
  have hsound := Mmap.Sound.of_reachable hw
  obtain ⟨place, hplace, rfl, rfl⟩ := Mmap.mapped_place hs hrest hr ho
  obtain ⟨hsize, _, hcases⟩ := mmapPlace_ok hplace
  constructor
  · intro hasked hflag
    have hhigh := hasked.high
    have hmask := maxAddress_le (hsound.masks _ s hs) args.flags
    cases hcases with
    | fixed _ haddr _ =>
      rw [haddr, hsize] at hhigh
      omega
    | hole hnot _ => exact nomatch hflag.symm.trans hnot
  · intro hfits
    obtain ⟨hp, hlow, hhigh⟩ := Mmap.place_placed hsound hs hfits hplace
    have hcalled := Mmap.call_run hsound hs (fun _ => hfits) hrest hr ho rfl
    refine ⟨hsize, hp.addrMod, hlow, hhigh, ?_⟩
    cases hcalled with
    | begun hplace' _ houtcome =>
      obtain rfl := Except.ok.inj (Option.mem_unique hplace hplace')
      cases houtcome with
      | goesOn _ hon => exact nomatch hon
      | mapped _ hasked => exact hasked

def mappedAt (addr size : Nat) : MmapOut → Bool
  | .mapped 0 a n _ _ => decide (a = addr ∧ n = size)
  | _ => false

lemma mappedAt_mem {addr size : Nat} (h : os.any (mappedAt addr size) = true) :
    ∃ s h, .mapped 0 addr size s h ∈ os := by
  obtain ⟨o, ho, hat⟩ := List.any_eq_true.mp h
  unfold mappedAt at hat
  split at hat
  · obtain ⟨rfl, rfl⟩ := of_decide_eq_true hat
    exact ⟨_, _, ho⟩
  · exact nomatch hat

def failedFirst : MmapOut → Bool
  | .failed 0 (.host 5) => true
  | _ => false

lemma failedFirst_mem (h : os.any failedFirst = true) : .failed 0 (.host 5) ∈ os := by
  obtain ⟨o, ho, hat⟩ := List.any_eq_true.mp h
  unfold failedFirst at hat
  split at hat
  · exact ho
  · exact nomatch hat

def anonymous (addr size flags : Nat) : MmapArgs :=
  { addr := addr, size := size, prot := 5, flags := flags, fd := -1, offset := 0 }

abbrev oneTask (w : World) : MmapState := MmapState.init w (fun _ => 0) [(Task.init 0, 0)]

def freshSpace (cfg : Config) : AddressSpace := (AddressSpace.new cfg World.init.heap).1

/-- A page where it was asked for. -/
theorem mapped_as_asked_fixed :
    ∃ (os : List MmapOut) (σ' : MmapState) (s' : AddressSpace) (h' : Heap),
      (mmaps (amd64 false)).run [.call 0 (some (anonymous 0x10000 100 0x32)) 1 none seeksOk]
        (oneTask (oneSpace (amd64 false))) = some (os, σ') ∧
      .mapped 0 0x10000 0x1000 s' h' ∈ os ∧
      AsAsked (amd64 false) (anonymous 0x10000 100 0x32) (freshSpace (amd64 false)) 0x10000 0x1000
        h' s' := by
  have heval : ((mmaps (amd64 false)).run
      [.call 0 (some (anonymous 0x10000 100 0x32)) 1 none seeksOk]
      (oneTask (oneSpace (amd64 false)))).any (fun r => r.1.any (mappedAt 0x10000 0x1000)) = true := by
    decide +kernel
  obtain ⟨⟨os, σ'⟩, hrun, hany⟩ := (Option.any_eq_true _ _).mp heval
  obtain ⟨s', h', hmapped⟩ := mappedAt_mem hany
  refine ⟨os, σ', s', h', hrun, hmapped, ?_⟩
  refine (mapped_as_asked_iff (oneSpace_reachable _) rfl ?_ hrun hmapped).mpr (by decide +kernel)
  exact nofun

/-- Two pages from the last page of the address space on: the sum is `0x1000`, and the call
returns an address. -/
theorem mapped_beyond_end :
    ∃ (os : List MmapOut) (σ' : MmapState) (s' : AddressSpace) (h' : Heap),
      World.Reachable (amd64 false) (oneSpace (amd64 false)) ∧
      (oneSpace (amd64 false)).spaces[0]? = some (freshSpace (amd64 false)) ∧
      (mmaps (amd64 false)).run
        [.call 0 (some (anonymous 0xfffffffffffff000 0x2000 0x32)) 1 none seeksOk]
        (oneTask (oneSpace (amd64 false))) = some (os, σ') ∧
      .mapped 0 0xfffffffffffff000 0x2000 s' h' ∈ os ∧
      ¬ AsAsked (amd64 false) (anonymous 0xfffffffffffff000 0x2000 0x32) (freshSpace (amd64 false))
        0xfffffffffffff000 0x2000 h' s' := by
  have heval : ((mmaps (amd64 false)).run
      [.call 0 (some (anonymous 0xfffffffffffff000 0x2000 0x32)) 1 none seeksOk]
      (oneTask (oneSpace (amd64 false)))).any (fun r =>
        r.1.any (mappedAt 0xfffffffffffff000 0x2000)) = true := by
    decide +kernel
  obtain ⟨⟨os, σ'⟩, hrun, hany⟩ := (Option.any_eq_true _ _).mp heval
  obtain ⟨s', h', hmapped⟩ := mappedAt_mem hany
  refine ⟨os, σ', s', h', oneSpace_reachable _, rfl, hrun, hmapped, fun hasked => ?_⟩
  exact absurd hasked.high (by decide)

/-- An error leaves no trace. If the seek to the start fails, the seek back succeeds, or there was
nothing to seek. If a read fails, the same holds of its seek back, and the place of the mapping was
an invalid range of its own, without permissions. -/
def MmapArgs.Undoable (cfg : Config) (h : Heap) (s : AddressSpace) (offsets : Offsets)
    (args : MmapArgs) (offsetScale : Nat) (answers : SeekAnswers) (rest : List MmapOp) : Prop :=
  ∀ place, mmapPlace cfg s h args offsetScale = some (.ok place) → 0 ≤ args.fd →
    answers.current = none →
      if answers.toStart = none then
        (rest.getLast?.bind MmapOp.reset = none ∨
          place.offset + (rest.map MmapOp.delivered).sum = offsets args.fd) ∧
          Hollow h s place.addr (place.addr + place.size)
      else answers.toEnd = none → answers.reset = none ∨
        place.offset + place.size = offsets args.fd

lemma lseek_back_iff {pos : Int} {reset : Option Nat} :
    lseek (Function.update offsets fd pos) fd (offsets fd) reset = offsets ↔
      reset = none ∨ pos = offsets fd := by
  cases reset with
  | none =>
    refine ⟨fun _ => .inl rfl, fun _ => ?_⟩
    show Function.update (Function.update offsets fd pos) fd (offsets fd) = offsets
    rw [Function.update_idem, Function.update_eq_self]
  | some e =>
  show Function.update offsets fd pos = offsets ↔ _
  rw [Function.update_eq_self_iff]
  simp

lemma seekTo_error_iff {offsets' : Offsets} {place : MmapPlace} {answers : SeekAnswers}
    {e : Errno} (hr : seekTo offsets fd place answers = (.error e, offsets')) :
    (answers.current = none → answers.toStart ≠ none) ∧
      (offsets' = offsets ↔ (answers.current = none → answers.toEnd = none →
        answers.reset = none ∨ place.offset + place.size = offsets fd)) := by
  unfold seekTo at hr
  split at hr
  case h_1 code hcurrent =>
      obtain ⟨_, rfl⟩ := Prod.mk.inj hr
      have hno : answers.current ≠ none := by
        rw [hcurrent]
        exact nofun
      exact ⟨fun hnone => absurd hnone hno, fun _ hnone => absurd hnone hno, fun _ => rfl⟩
  case h_2 hcurrent =>
      simp only at hr
      split at hr
      case h_2 => exact nomatch congrArg Prod.fst hr
      case h_1 code hstart =>
          obtain ⟨_, rfl⟩ := Prod.mk.inj hr
          refine ⟨fun _ => by rw [hstart]; exact nofun, ?_⟩
          cases hend : answers.toEnd with
          | some e =>
            have hsame : lseek (lseek offsets fd (place.offset + place.size) (some e)) fd
                (offsets fd) answers.reset = offsets := by
              cases answers.reset with
              | none => exact Function.update_eq_self fd offsets
              | some e => rfl
            exact ⟨fun _ _ hnone => absurd hnone nofun, fun _ => hsame⟩
          | none =>
          refine lseek_back_iff.trans ⟨fun hback _ _ => hback, fun hback => ?_⟩
          exact hback hcurrent rfl

/-- **Errors.** In every reachable address space, for a request that does not wrap around or is not
accepted: a call that returns an error leaves the address space and the files as they were if and
only if it could be undone. -/
theorem failed_restores_iff {cfg : Config} {w : World} {s : AddressSpace} {offsets : Offsets}
    {space offsetScale : Nat} {t : Task} {args : Option MmapArgs} {name : Option (List UInt8)}
    {answers : SeekAnswers} {rest : List MmapOp} {os : List MmapOut} {σ' : MmapState} {e : Errno}
    (hw : World.Reachable cfg w) (hs : w.spaces[space]? = some s)
    (hfits : ∀ a ∈ args, a.Begins cfg w.heap s offsetScale answers → a.Fits s)
    (hrest : ∀ op ∈ rest, op.continues = true)
    (hr : (mmaps cfg).run (.call 0 args offsetScale name answers :: rest)
      (MmapState.init w offsets [(t, space)]) = some (os, σ')) (ho : .failed 0 e ∈ os) :
    (σ'.offsets = offsets ∧
        ∃ s', σ'.world.spaces[space]? = some s' ∧ Same w.heap s σ'.world.heap s') ↔
      ∀ a ∈ args, a.Undoable cfg w.heap s offsets offsetScale answers rest := by
  have hsound := Mmap.Sound.of_reachable hw
  cases args with
  | none =>
    -- the arguments could not be read
    obtain ⟨o1, os', σ1, hstep, hr', rfl⟩ := Machine.run_cons_eq_some hr
    cases hstep
    obtain ⟨_, _, rfl⟩ := Mmap.run_of_idle (Mmap.init_idle w offsets t space) hrest hr'
    constructor
    · intro _ a ha
      cases ha
    · intro _
      exact ⟨rfl, s, hs, Same.refl _ _⟩
  | some args =>
    have hcalled := Mmap.call_run hsound hs (hfits args rfl) hrest hr ho rfl
    simp only [Option.mem_some_iff, forall_eq']
    unfold MmapArgs.Undoable
    cases hcalled with
    | refused _ hworld hseeks hno =>
      refine ⟨fun _ place hplace => absurd hplace (hno place), fun _ => ⟨hseeks, s, ?_, ?_⟩⟩
      · rw [hworld, hs]
      · rw [hworld]
        exact Same.refl _ _
    | unseekable _ hworld hplace hfile hseeks =>
      obtain ⟨hstart, hiff⟩ := seekTo_error_iff hseeks
      constructor
      · rintro ⟨hoffsets, _⟩ place' hplace' _ hcurrent
        obtain rfl := Except.ok.inj (Option.mem_unique hplace hplace')
        rw [if_neg (hstart hcurrent)]
        exact hiff.mp hoffsets hcurrent
      · intro hundo
        refine ⟨hiff.mpr fun hcurrent => ?_, s, by rw [hworld, hs], by rw [hworld]; exact Same.refl _ _⟩
        have hback := hundo _ hplace hfile hcurrent
        rwa [if_neg (hstart hcurrent)] at hback
    | begun hplace hseeks houtcome =>
      cases houtcome with
      | goesOn _ hon => cases hon
      | failed _ hfile hoffsets hspace hsame =>
        obtain ⟨hcurrent, hstart⟩ := hseeks hfile
        rw [hoffsets, lseek_back_iff]
        constructor
        · rintro ⟨hback, s', hs', hsame'⟩ place' hplace' _ _
          obtain rfl := Except.ok.inj (Option.mem_unique hplace hplace')
          obtain rfl := Option.mem_unique hspace hs'
          rw [if_pos hstart]
          exact ⟨hback, hsame.mp hsame'⟩
        · intro hundo
          have hboth := hundo _ hplace hfile hcurrent
          rw [if_pos hstart] at hboth
          exact ⟨hboth.1, _, hspace, hsame.mpr hboth.2⟩

/-- The first read of a file fails: the page that was mapped in place of a hole of one page is gone,
and the file is where it was. -/
theorem failed_restores_hole :
    ∃ (w : World) (s : AddressSpace) (os : List MmapOut) (σ' : MmapState),
      World.Reachable (amd64 false) w ∧ w.spaces[0]? = some s ∧
      (mmaps (amd64 false)).run [.call 0 (some (onePage 0x10000 0x12 3)) 1 none seeksOk,
        .readFails 0 5, .poll 0 none] (oneTask w) = some (os, σ') ∧
      .failed 0 (.host 5) ∈ os ∧ σ'.offsets = (fun _ => 0) ∧
      ∃ s', σ'.world.spaces[0]? = some s' ∧ Same w.heap s σ'.world.heap s' := by
  obtain ⟨w, s, hw, hs, halone, hperms, hfits, hplace, hany⟩ := World.reachable_eval (amd64 false)
    [.new, .addMap 0 0x10000 0x1000 none 0, .removeMap 0 0x10000 0x1000]
    (fun w s => (rangeList w.heap s).filter (overlapsRange 0x10000 0x11000) =
        [(0x10000, 0x11000, false)] ∧
      (s.pageIsReadable 0x10000 = false ∧ s.pageIsWritable 0x10000 = false ∧
        s.pageIsExecutable 0x10000 = false) ∧ (onePage 0x10000 0x12 3).Fits s ∧
      (mmapPlace (amd64 false) s w.heap (onePage 0x10000 0x12 3) 1).all (fun r =>
        r.toOption.all fun place => decide (place.addr = 0x10000 ∧ place.size = 0x1000)) = true ∧
      ((mmaps (amd64 false)).run [.call 0 (some (onePage 0x10000 0x12 3)) 1 none seeksOk,
        .readFails 0 5, .poll 0 none] (oneTask w)).any (fun r => r.1.any failedFirst) = true)
    (by decide +kernel)
  obtain ⟨⟨os, σ'⟩, hrun, hfailed⟩ := (Option.any_eq_true _ _).mp hany
  have hfailed := failedFirst_mem hfailed
  refine ⟨w, s, os, σ', hw, hs, hrun, hfailed, ?_⟩
  refine (failed_restores_iff hw hs ?_ (by decide) hrun hfailed).mpr ?_
  · intro a ha _
    cases ha
    exact hfits
  · intro a ha place hok _ _
    cases ha
    rw [hok] at hplace
    obtain ⟨haddr, hsize⟩ := of_decide_eq_true hplace
    rw [if_pos (show seeksOk.toStart = none from rfl), haddr, hsize]
    refine ⟨.inl rfl, halone, fun a hmod hlo hhi => ?_⟩
    obtain rfl : a = 0x10000 := by omega
    exact hperms

/-- The same where a page was mapped before (`MAP_FIXED`): it is gone as well. -/
theorem failed_unmaps :
    ∃ (w : World) (s : AddressSpace) (os : List MmapOut) (σ' : MmapState),
      World.Reachable (amd64 false) w ∧ w.spaces[0]? = some s ∧
      (mmaps (amd64 false)).run [.call 0 (some (onePage 0x10000 0x12 3)) 1 none seeksOk,
        .readFails 0 5, .poll 0 none] (oneTask w) = some (os, σ') ∧
      .failed 0 (.host 5) ∈ os ∧ (onePage 0x10000 0x12 3).Fits s ∧
      ¬ ∃ s', σ'.world.spaces[0]? = some s' ∧ Same w.heap s σ'.world.heap s' := by
  obtain ⟨os0, w, s, hw, hs, hview, hfits, hany⟩ := World.run_eval (amd64 false)
    [.new, .addMap 0 0x10000 0x1000 none 0]
    (fun w s => view w.heap s 0x10000 = some 0 ∧ (onePage 0x10000 0x12 3).Fits s ∧
      ((mmaps (amd64 false)).run [.call 0 (some (onePage 0x10000 0x12 3)) 1 none seeksOk,
        .readFails 0 5, .poll 0 none] (oneTask w)).any (fun r => r.1.any failedFirst &&
          r.2.world.spaces[0]?.any fun s' => decide (view r.2.world.heap s' 0x10000 = none)) = true)
    (by decide +kernel)
  obtain ⟨⟨os, σ'⟩, hrun, hboth⟩ := (Option.any_eq_true _ _).mp hany
  obtain ⟨hfailed, hgone⟩ := (Bool.and_eq_true _ _).mp hboth
  obtain ⟨s1, hs1, hnone⟩ := (Option.any_eq_true _ _).mp hgone
  refine ⟨w, s, os, σ', ⟨_, os0, by decide +kernel, hw⟩, hs, hrun, failedFirst_mem hfailed, hfits, ?_⟩
  rintro ⟨s', hs', hsame⟩
  obtain rfl := Option.mem_unique hs1 hs'
  have hview' := congrFun hsame.view 0x10000
  rw [of_decide_eq_true hnone, hview] at hview'
  exact nomatch hview'

end Vmill
