import Vmill.Logic.Buffer
import Vmill.Logic.World
import Vmill.Runtime.Linux.RecvMsg
import Mathlib.Data.List.TakeWhile

/-!
# Receiving a message into guest memory

`SysRecvMsg` ignores what `Export` returns: when a part of the message cannot be written back, the
parts behind it are not written either, and the call returns a count all the same.
-/

namespace Vmill.Linux

open Base Guest

variable {compat : List UInt8} {fmt : MsgFormat} {message addr size : Nat} {g g0 g' : Guest}
  {h : MessageHeader} {a : RecvMsgAnswer} {cfg : Config}

/-! ## What the guest gives -/

section Given

variable (fmt : MsgFormat) (message : Nat) (g : Guest)

/-- The header in guest memory. -/
def guestHeader : List UInt8 := fmt.cleared (g.bytesAt message fmt.headerSize)

/-- The array of buffers in guest memory. -/
def guestVecs : List IoVec :=
  let header := guestHeader fmt message g
  let n := fmt.get .iovlen header
  (fmt.vecs n (g.bytesAt (fmt.get .iov header) (n * fmt.vecSize))).map IoVec.cleared

/-- The areas that the guest describes: the header, the name, the array, the control data and the
buffers. -/
def guestAreas : List (Nat × Nat) :=
  let get := fun field => fmt.get field (guestHeader fmt message g)
  (message, fmt.headerSize) :: (get .name, get .namelen) ::
    (get .iov, get .iovlen * fmt.vecSize) :: (get .control, get .controllen) ::
    (guestVecs fmt message g).map fun vec => (vec.iovBase, vec.iovLen)

end Given

lemma guestVecs_length : (guestVecs fmt message g).length =
    fmt.get .iovlen (guestHeader fmt message g) := by
  simp [guestVecs, MsgFormat.vecs]

/-! ## `Import` -/

section Yields

variable {α β : Type} {P : α → Prop} {Q : β → Prop}

/-- From any state that reading `g0` leads to, `f` ends in such a state again, with no result or
with one of which `P` holds. -/
def Yields (g0 : Guest) (f : Guest → Option (Option α × Guest)) (P : α → Prop) : Prop :=
  ∀ g, g0.Becomes g g0.mem →
    ∃ r g', f g = some (r, g') ∧ g0.Becomes g' g0.mem ∧ ∀ a, r = some a → P a

lemma Yields.pure {a : α} (ha : P a) : Yields g0 (fun g => some (some a, g)) P := by
  refine fun g hb => ⟨some a, g, rfl, hb, fun a' h => ?_⟩
  cases h
  exact ha

lemma Yields.andThen {f : Guest → Option (Option α × Guest)}
    {next : α → Guest → Option (Option β × Guest)} (hf : Yields g0 f P)
    (hnext : ∀ a, P a → Yields g0 (next a) Q) : Yields g0 (fun g => andThen (f g) next) Q := by
  intro g hb
  obtain ⟨r, g1, heq, hb1, hP⟩ := hf g hb
  simp only [heq]
  cases r with
  | none => exact ⟨none, g1, rfl, hb1, nofun⟩
  | some a => exact hnext a (hP a rfl) g1 hb1

variable (hg : g0.WF)
include hg

lemma tryReadMemory_yields (harea : g0.ReadsOrFails addr size) :
    Yields g0 (fun g => g.tryReadMemory addr size) fun bytes => bytes = g0.bytesAt addr size := by
  intro g hb
  rcases harea with hmay | ⟨hpos, hfirst⟩
  · obtain ⟨g', hread, hb'⟩ := (hb.mayRead hg hmay).tryReadMemory (hb.wf hg)
    refine ⟨_, g', hread, hb.trans (hb.mem ▸ hb'), fun bytes h => ?_⟩
    cases h
    exact bytesAt_congr fun _ _ => congrFun hb.mem _
  have hcheck : g.canReadMemory addr size = some false := by
    refine checked_first (hb.wf hg) hpos ?_
    rw [hb.addrT, canRead_accessed hb.updates.accessed]
    exact hfirst
  refine ⟨none, g, ?_, hb, nofun⟩
  simp only [tryReadMemory, hcheck]

lemma importVecs_yields {vecs : List IoVec}
    (hareas : ∀ vec ∈ vecs.map IoVec.cleared, g0.ReadsOrFails vec.iovBase vec.iovLen) :
    Yields g0 (importVecs vecs) fun r => r.map Prod.fst = vecs.map IoVec.cleared := by
  induction vecs with
  | nil => exact Yields.pure rfl
  | cons vec vecs ih =>
  refine Yields.andThen (tryReadMemory_yields hg (hareas _ (.head _))) fun data _ => ?_
  refine Yields.andThen (ih fun vec hvec => hareas vec (.tail _ hvec)) fun rest hrest => ?_
  exact Yields.pure (congrArg (vec.cleared :: ·) hrest)

lemma importPart_yields (given : Bool) (harea : g0.ReadsOrFails addr size) :
    Yields g0 (importPart given addr size) fun _ => True := by
  cases given with
  | false => exact Yields.pure trivial
  | true => exact Yields.andThen (tryReadMemory_yields hg harea) fun _ _ => Yields.pure trivial

lemma importIov_yields {iov iovlen : Nat} {vecs : List IoVec}
    (hvecs : vecs = (fmt.vecs iovlen (g0.bytesAt iov (iovlen * fmt.vecSize))).map IoVec.cleared)
    (harray : g0.ReadsOrFails iov (iovlen * fmt.vecSize))
    (hareas : ∀ vec ∈ vecs, g0.ReadsOrFails vec.iovBase vec.iovLen) :
    Yields g0 (importIov fmt iov iovlen) fun r => (r.getD []).map Prod.fst = vecs := by
  subst hvecs
  unfold importIov
  by_cases hzero : iovlen = 0
  · simp only [if_pos hzero]
    exact Yields.pure (by subst hzero; rfl)
  simp only [if_neg hzero]
  refine Yields.andThen (tryReadMemory_yields hg harray) fun bytes hbytes => ?_
  subst hbytes
  exact Yields.andThen (importVecs_yields hg hareas) fun r hr => Yields.pure hr

/-- `Import` gets the header and the array as they are in guest memory. -/
lemma import_yields (fmt : MsgFormat) (message : Nat)
    (hareas : ∀ area ∈ guestAreas fmt message g0, g0.ReadsOrFails area.1 area.2) :
    Yields g0 (fun g => andThen (g.tryReadMemory message fmt.headerSize) (importHeader fmt))
      fun h => h.compat = guestHeader fmt message g0 ∧
        (h.msgIov.getD []).map Prod.fst = guestVecs fmt message g0 := by
  refine Yields.andThen (tryReadMemory_yields hg (hareas _ (.head _))) fun compat hcompat => ?_
  subst hcompat
  have hname := hareas _ (.tail _ (.head _))
  have harray := hareas _ (.tail _ (.tail _ (.head _)))
  have hcontrol := hareas _ (.tail _ (.tail _ (.tail _ (.head _))))
  refine Yields.andThen (importPart_yields hg _ hname) fun _ _ => ?_
  refine Yields.andThen (importIov_yields hg rfl harray fun vec hvec => ?_) fun _ hiov => ?_
  · exact hareas _ (.tail _ (.tail _ (.tail _ (.tail _ (List.mem_map_of_mem hvec)))))
  exact Yields.andThen (importPart_yields hg _ hcontrol) fun _ _ => Yields.pure ⟨rfl, hiov⟩

end Yields

/-! ## `Export` -/

namespace MsgPart

/-- The check of the part. -/
def passes (g : Guest) (part : MsgPart) : Bool :=
  g.canWriteMemory part.addr part.checked = some true

/-- Where the part goes, and its bytes. -/
def block (part : MsgPart) : Nat × List (Option UInt8) := (part.addr, part.bytes.map some)

/-- The part lies in an area that may be written, or fails its check at the first byte. -/
def Settled (g : Guest) (part : MsgPart) : Prop :=
  (∃ size, part.checked ≤ size ∧ part.bytes.length ≤ size ∧ g.MayWrite part.addr size) ∨
    0 < part.checked ∧ g.space.canWrite (g.addrT part.addr) = false

variable {part : MsgPart} {m : Nat → Option UInt8}

lemma passes_of_mayWrite (hg : g.WF) (hle : part.checked ≤ size)
    (hmay : g.MayWrite part.addr size) : part.passes g = true :=
  decide_eq_true (MayWrite.check hg (Copyable.mono hmay le_rfl hle))

lemma Settled.mayWrite (hg : g.WF) (hpart : part.Settled g) (hpass : part.passes g = true) :
    g.MayWrite part.addr part.bytes.length := by
  rcases hpart with ⟨size, _, hlen, hmay⟩ | ⟨hpos, hfirst⟩
  · exact Copyable.mono hmay le_rfl hlen
  have hcheck : g.canWriteMemory part.addr part.checked = some false :=
    checked_first hg hpos hfirst
  exact nomatch hcheck.symm.trans (of_decide_eq_true hpass)

lemma Settled.becomes (hpart : part.Settled g) (hb : g.Becomes g' m) (hg : g.WF) :
    part.Settled g' := by
  refine hpart.imp (fun ⟨size, hchecked, hlen, hmay⟩ =>
    ⟨size, hchecked, hlen, hb.mayWrite hg hmay⟩) (And.imp_right fun hfirst => ?_)
  rw [hb.addrT, canWrite_accessed hb.updates.accessed]
  exact hfirst

end MsgPart

/-- The parts up to the first one that does not pass its check are written back. -/
lemma exportParts_spec (cfg : Config) (hg : g.WF) {parts : List MsgPart}
    (hparts : ∀ part ∈ parts, part.Settled g) :
    ∃ g', exportParts cfg parts g = some (parts.all (MsgPart.passes g), g') ∧
      g.Becomes g' (overwriteAll g.mem
        ((parts.takeWhile (MsgPart.passes g)).map MsgPart.block)) := by
  induction parts generalizing g with
  | nil => exact ⟨g, rfl, Becomes.refl g⟩
  | cons part parts ih =>
  rcases hparts part (.head _) with ⟨size, hchecked, hlen, hmay⟩ | ⟨hpos, hfirst⟩
  · have hpass := MsgPart.passes_of_mayWrite hg hchecked hmay
    obtain ⟨g1, hcopy, hb⟩ := hmay.copyToMemory cfg hg hlen
    obtain ⟨g', hrest, hb'⟩ := ih (hb.wf hg) fun part hpart =>
      (hparts part (.tail _ hpart)).becomes hb hg
    have hsame : MsgPart.passes g1 = MsgPart.passes g := by
      funext part'
      unfold MsgPart.passes
      rw [canWriteMemory_accessed hb.updates.accessed]
    rw [hsame] at hrest hb'
    refine ⟨g', ?_, ?_⟩
    · simp only [exportParts, of_decide_eq_true hpass, hcopy, hrest, List.all_cons, hpass,
        Bool.true_and]
    · rw [hb.mem] at hb'
      rw [List.takeWhile_cons, if_pos hpass]
      exact hb.trans hb'
  have hcheck : g.canWriteMemory part.addr part.checked = some false :=
    checked_first hg hpos hfirst
  have hfail : part.passes g = false := by simp [MsgPart.passes, hcheck]
  refine ⟨g, by simp only [exportParts, hcheck, List.all_cons, hfail, Bool.false_and], ?_⟩
  rw [List.takeWhile_cons, if_neg (by simp [hfail])]
  exact Becomes.refl g

/-! ## The call -/

/-- Everything that is to be written back. -/
def MessageHeader.pieces (h : MessageHeader) (fmt : MsgFormat) (message : Nat)
    (a : RecvMsgAnswer) : List (Nat × List (Option UInt8)) :=
  (h.parts fmt a).map MsgPart.block ++ [(message, (h.exported fmt a).map some)]

/-- The address is in the area. -/
def InArea (g : Guest) (area : Nat × Nat) (x : Nat) : Prop := ∃ k < area.2, x = g.addrT (area.1 + k)

lemma outside_of_not_inArea (hg : g.WF) {area : Nat × Nat} {x : Nat}
    (hmay : g.MayWrite area.1 size) (hlen : size ≤ area.2) (hx : ¬ InArea g area x) :
    x < area.1 ∨ area.1 + size ≤ x := by
  by_contra hin
  obtain ⟨k, rfl⟩ := Nat.exists_eq_add_of_le (show area.1 ≤ x by omega)
  have hk : k < size := by omega
  exact hx ⟨k, hk.trans_le hlen, (addrT_of_le hg.space (hmay.fits k (Nat.zero_le _) hk)).symm⟩

/-- A call that got a message from the host has written only to the areas of the guest; it returns a
count only if everything was written back, up to the last byte; and it returns `-EFAULT` if a byte
of an area is not writable. -/
structure WrittenBack (fmt : MsgFormat) (message : Nat) (h : MessageHeader) (a : RecvMsgAnswer)
    (g g' : Guest) (code : Int) : Prop where
  inside : ∀ x, (∀ area ∈ guestAreas fmt message g, ¬ InArea g area x) → g'.mem x = g.mem x
  complete : 0 ≤ code → g'.mem = overwriteAll g.mem (h.pieces fmt message a)
  writable : (∃ area ∈ guestAreas fmt message g, ∃ x, InArea g area x ∧
    g.space.canWrite x = false) → code = -eFAULT

/-- A call of `SysRecvMsg` returns and records no fault; without a message from the host it returns
an error and writes nothing, and otherwise it is `WrittenBack`. -/
def RecvMsgMeets (cfg : Config) (fmt : MsgFormat) (host : MessageHeader → RecvMsgAnswer)
    (message : Nat) (g : Guest) : Prop :=
  ∃ r g', sysRecvMsg cfg fmt host message g = some (r, g') ∧ g'.task = g.task ∧
    match r.received with
    | none => r.code < 0 ∧ g'.mem = g.mem
    | some h => WrittenBack fmt message h (host h) g g' r.code

/-- The host leaves no larger name and control data than there is room for. Each area is mapped and
readable up to its last byte, or its first byte is not readable; likewise for writing; and if the
first byte of the header is writable, all areas are, up to their last byte. -/
structure RecvMsgReady (fmt : MsgFormat) (host : MessageHeader → RecvMsgAnswer) (message : Nat)
    (g : Guest) : Prop where
  lengths : ∀ h, h.compat = guestHeader fmt message g →
    (host h).name.length ≤ fmt.get .namelen h.compat ∧
      (host h).control.length ≤ fmt.get .controllen h.compat
  readable : ∀ area ∈ guestAreas fmt message g, g.ReadsOrFails area.1 area.2
  writable : ∀ area ∈ guestAreas fmt message g, g.WritesOrFails area.1 area.2
  header : g.space.canWrite (g.addrT message) = true →
    ∀ area ∈ guestAreas fmt message g, g.MayWrite area.1 area.2

/-- The part lies in one of the areas. -/
def MsgPart.LiesIn (areas : List (Nat × Nat)) (part : MsgPart) : Prop :=
  ∃ area ∈ areas, part.addr = area.1 ∧ part.checked ≤ area.2 ∧ part.bytes.length ≤ area.2 ∧
    (part.checked = 0 → part.bytes = [])

section LiesIn

variable {areas : List (Nat × Nat)} {parts : List MsgPart}

lemma MsgPart.LiesIn.settled {part : MsgPart} (hin : part.LiesIn areas)
    (hwritable : ∀ area ∈ areas, g.WritesOrFails area.1 area.2) : part.Settled g := by
  obtain ⟨area, harea, haddr, hchecked, hlen, hempty⟩ := hin
  unfold MsgPart.Settled
  rw [haddr]
  rcases hwritable area harea with hmay | ⟨_, hfirst⟩
  · exact .inl ⟨area.2, hchecked, hlen, hmay⟩
  rcases Nat.eq_zero_or_pos part.checked with hzero | hpos
  · exact .inl ⟨0, Nat.le_of_eq hzero, by simp [hempty hzero], by simp, by simp, by simp⟩
  · exact .inr ⟨hpos, hfirst⟩

lemma overwriteParts_outside (hg : g.WF) (hin : ∀ part ∈ parts, part.LiesIn areas)
    (hsettled : ∀ part ∈ parts, part.Settled g) {x : Nat}
    (hx : ∀ area ∈ areas, ¬ InArea g area x) (m : Nat → Option UInt8) :
    overwriteAll m ((parts.takeWhile (MsgPart.passes g)).map MsgPart.block) x = m x := by
  refine overwriteAll_of_not_mem fun block hblock => ?_
  obtain ⟨part, hpart, rfl⟩ := List.mem_map.mp hblock
  have hmem := (List.takeWhile_sublist _).subset hpart
  have hmay := (hsettled part hmem).mayWrite hg (List.mem_takeWhile_imp hpart)
  obtain ⟨area, harea, haddr, _, hlen, _⟩ := hin part hmem
  have hout := outside_of_not_inArea hg (haddr ▸ hmay) hlen (hx area harea)
  unfold MsgPart.block
  rwa [haddr, List.length_map]

end LiesIn

section Lengths

lemma MsgFormat.place_le (fmt : MsgFormat) (field : MsgField) :
    (fmt.place field).1 + (fmt.place field).2 ≤ fmt.headerSize := by
  cases fmt <;> cases field <;> decide

lemma MsgFormat.set_length (fmt : MsgFormat) (field : MsgField) (n : Nat)
    (h : compat.length = fmt.headerSize) : (fmt.set field n compat).length = fmt.headerSize := by
  have hle := fmt.place_le field
  simp only [MsgFormat.set, numberBytes, List.length_append, List.length_take, List.length_map,
    List.length_range, List.length_drop, h]
  omega

lemma MsgFormat.clearLength_length (fmt : MsgFormat) (addr length : MsgField)
    (h : compat.length = fmt.headerSize) :
    (fmt.clearLength addr length compat).length = fmt.headerSize := by
  unfold MsgFormat.clearLength
  split
  · exact fmt.set_length length 0 h
  · exact h

lemma guestHeader_length (fmt : MsgFormat) (message : Nat) (g : Guest) :
    (guestHeader fmt message g).length = fmt.headerSize := by
  have hlen : (g.bytesAt message fmt.headerSize).length = fmt.headerSize := by
    rw [bytesAt, List.length_map, List.length_range]
  exact fmt.clearLength_length _ _ (fmt.clearLength_length _ _ (fmt.clearLength_length _ _ hlen))

lemma MessageHeader.exported_length (a : RecvMsgAnswer)
    (hlen : h.compat.length = fmt.headerSize) : (h.exported fmt a).length = fmt.headerSize :=
  fmt.set_length _ _ (fmt.set_length _ _ (fmt.set_length _ _ (fmt.set_length _ _ hlen)))

lemma MsgFormat.vecBytes_length (fmt : MsgFormat) (vecs : List IoVec) :
    (vecs.flatMap fmt.vecBytes).length = vecs.length * fmt.vecSize := by
  induction vecs with
  | nil => exact (Nat.zero_mul _).symm
  | cons vec vecs ih =>
  have hvec : (fmt.vecBytes vec).length = fmt.vecSize := by
    simp only [MsgFormat.vecBytes, numberBytes, MsgFormat.vecSize, List.length_append,
      List.length_map, List.length_range]
    omega
  rw [List.flatMap_cons, List.length_append, hvec, ih, List.length_cons, Nat.succ_mul,
    Nat.add_comm]

lemma RecvMsgAnswer.Fits.buffer_length (hfits : a.Fits h) {vecs : List (IoVec × List UInt8)}
    (hvecs : h.msgIov = some vecs) {vec : IoVec × List UInt8}
    (hmem : vec ∈ (vecs.map Prod.fst).zip a.buffers) : vec.2.length = vec.1.iovLen := by
  obtain ⟨i, hi⟩ := List.mem_iff_getElem?.mp hmem
  obtain ⟨hfst, hsnd⟩ := List.getElem?_zip_eq_some.mp hi
  have hlens := congrArg (·[i]?) hfits.buffers
  rw [List.getElem?_map] at hfst
  obtain ⟨vec', hvec', hsame⟩ := Option.map_eq_some_iff.mp hfst
  simp only [hvecs, Option.getD_some, List.getElem?_map, hsnd, hvec', Option.map_some, hsame,
    Option.some.injEq] at hlens
  exact hlens

/-- Each part is checked and written inside an area of the guest. -/
lemma MessageHeader.parts_fit (hfits : a.Fits h) (hcompat : h.compat = guestHeader fmt message g)
    (hvecs : (h.msgIov.getD []).map Prod.fst = guestVecs fmt message g)
    (hname : a.name.length ≤ fmt.get .namelen h.compat)
    (hcontrol : a.control.length ≤ fmt.get .controllen h.compat) {part : MsgPart}
    (hpart : part ∈ h.parts fmt a) : part.LiesIn (guestAreas fmt message g) := by
  unfold MessageHeader.parts at hpart
  rw [hcompat] at hpart hname hcontrol
  simp only [List.mem_append] at hpart
  rcases hpart with (hpart | hpart) | hpart
  · split at hpart
    · obtain rfl := List.mem_singleton.mp hpart
      exact ⟨_, .tail _ (.head _), rfl, hname, hname, List.eq_nil_of_length_eq_zero⟩
    · exact nomatch hpart
  · cases hiov : h.msgIov with
    | none =>
      rw [hiov] at hpart
      exact nomatch hpart
    | some vecs =>
    rw [hiov, Option.getD_some] at hvecs
    rw [hiov] at hpart
    rcases List.mem_append.mp hpart with hbuffer | harray
    · obtain ⟨vec, hmem, rfl⟩ := List.mem_map.mp hbuffer
      obtain ⟨hmem, hpos⟩ := List.mem_filter.mp hmem
      have hvec : vec.1 ∈ guestVecs fmt message g := hvecs ▸ (List.of_mem_zip hmem).1
      refine ⟨(vec.1.iovBase, vec.1.iovLen), ?_, rfl, le_rfl,
        Nat.le_of_eq (hfits.buffer_length hiov hmem), fun hzero => ?_⟩
      · exact .tail _ (.tail _ (.tail _ (.tail _ (List.mem_map.mpr ⟨vec.1, hvec, rfl⟩))))
      · exact absurd hzero (of_decide_eq_true hpos)
    obtain rfl := List.mem_singleton.mp harray
    have hlen : (vecs.map Prod.fst).length = fmt.get .iovlen (guestHeader fmt message g) := by
      rw [hvecs, guestVecs_length]
    refine ⟨_, .tail _ (.tail _ (.head _)), rfl, ?_, ?_, fun hzero => ?_⟩
    · rw [hlen]
      exact Nat.le_mul_of_pos_right _ (by cases fmt <;> decide)
    · rw [fmt.vecBytes_length, hlen]
    · have hzero : (vecs.map Prod.fst).length = 0 := hzero
      rw [List.eq_nil_of_length_eq_zero hzero]
      rfl
  split at hpart
  · obtain rfl := List.mem_singleton.mp hpart
    exact ⟨_, .tail _ (.tail _ (.tail _ (.head _))), rfl, hcontrol, hcontrol,
      List.eq_nil_of_length_eq_zero⟩
  · exact nomatch hpart

end Lengths

section Returned

variable {host : MessageHeader → RecvMsgAnswer}

/-- From the return of the host on. `g1` is the guest at that time. -/
lemma recvMsgReturn_spec (cfg : Config) (count : Nat) (hg : g.WF) (hready : RecvMsgReady fmt host message g)
    {g1 : Guest} (hb1 : g.Becomes g1 g.mem) (hcompat : h.compat = guestHeader fmt message g)
    (hvecs : (h.msgIov.getD []).map Prod.fst = guestVecs fmt message g)
    (hfits : (host h).Fits h) :
    ∃ code g', recvMsgReturn cfg fmt message count h (host h) g1 = some (code, g') ∧
      g'.task = g.task ∧ WrittenBack fmt message h (host h) g g' code := by
  obtain ⟨hname, hcontrol⟩ := hready.lengths h hcompat
  have hfit : ∀ part ∈ h.parts fmt (host h), part.LiesIn (guestAreas fmt message g) :=
    fun part hpart => h.parts_fit hfits hcompat hvecs hname hcontrol hpart
  have hsettled : ∀ part ∈ h.parts fmt (host h), part.Settled g1 := fun part hpart =>
    ((hfit part hpart).settled hready.writable).becomes hb1 hg
  have hg1 := hb1.wf hg
  obtain ⟨g2, hexport, hb2⟩ := exportParts_spec cfg hg1 hsettled
  rw [hb1.mem] at hb2
  have hb2 := hb1.trans hb2
  have hinside : ∀ x, (∀ area ∈ guestAreas fmt message g, ¬ InArea g area x) →
      g2.mem x = g.mem x := by
    intro x hx
    rw [hb2.mem]
    exact overwriteParts_outside hg1 hfit hsettled
      (fun area harea ⟨k, hk, heq⟩ => hx area harea ⟨k, hk, hb1.addrT _ ▸ heq⟩) _
  have hcan : g2.canWriteMemory message fmt.headerSize =
      some (g.space.canWrite (g.addrT message)) := by
    rw [canWriteMemory_accessed hb2.updates.accessed]
    exact canWriteMemory_small hg.space.mask (by cases fmt <;> decide) (by cases fmt <;> decide)
  have hlen : h.compat.length = fmt.headerSize := hcompat ▸ guestHeader_length fmt message g
  simp only [recvMsgReturn, hexport]
  cases hheader : g.space.canWrite (g.addrT message) with
  | false =>
    have hwrite : g2.tryWriteMemory cfg message (if (h.parts fmt (host h)).all (MsgPart.passes g1)
        then h.exported fmt (host h) else h.compat) = some (false, g2) := by
      have hsize : (if (h.parts fmt (host h)).all (MsgPart.passes g1) then h.exported fmt (host h)
          else h.compat).length = fmt.headerSize := by
        split
        · exact h.exported_length (host h) hlen
        · exact hlen
      unfold tryWriteMemory
      rw [hsize, hcan, hheader]
    rw [hwrite]
    exact ⟨-eFAULT, g2, rfl, hb2.task, hinside, fun hpos => absurd hpos (by decide), fun _ => rfl⟩
  | true =>
  have hmay := hready.header hheader
  have hpass : ∀ part ∈ h.parts fmt (host h), part.passes g1 = true := by
    intro part hpart
    obtain ⟨area, harea, haddr, hchecked, _⟩ := hfit part hpart
    exact MsgPart.passes_of_mayWrite hg1 hchecked (hb1.mayWrite hg (haddr ▸ hmay area harea))
  rw [List.all_eq_true.mpr hpass, if_pos rfl]
  rw [List.takeWhile_eq_self_iff.mpr hpass] at hb2
  have hsize := h.exported_length (host h) hlen
  obtain ⟨g3, hwrite, hb3⟩ := MayWrite.tryWriteMemory cfg (hb2.wf hg)
    (hb2.mayWrite hg (hsize.symm ▸ hmay (message, fmt.headerSize) (.head _)))
  rw [hwrite]
  refine ⟨count, g3, rfl, hb3.task.trans hb2.task, fun x hx => ?_, fun _ => ?_, ?_⟩
  · rw [hb3.mem, overwrite_of_not_mem, hinside x hx]
    rw [List.length_map, hsize]
    exact outside_of_not_inArea hg (hmay _ (.head _)) le_rfl (hx _ (.head _))
  · rw [hb3.mem, hb2.mem]
    unfold overwriteAll MessageHeader.pieces
    rw [List.foldl_append]
    rfl
  · rintro ⟨area, harea, _, ⟨k, hk, rfl⟩, hfalse⟩
    have hbyte : g.space.canWrite (g.addrT (area.1 + k)) = true :=
      (hmay area harea).byteOk hg (fun _ => rfl) hk
    exact nomatch hbyte.symm.trans hfalse

end Returned

def messageOps (name : Nat) : List Vmill.Op :=
  [.tryWrite 0 0x1000 (numberBytes 8 name ++ numberBytes 8 4 ++ numberBytes 8 0x1100 ++
      numberBytes 8 1 ++ numberBytes 8 0 ++ numberBytes 8 0),
    .tryWrite 0 0x1100 (numberBytes 8 0x1200 ++ numberBytes 8 2)]

def fillBuffers (h : MessageHeader) : RecvMsgAnswer :=
  ⟨.ok 2, [7, 7], (h.msgIov.getD []).map fun vec => List.replicate vec.1.iovLen 1, [], 0⟩

lemma fillBuffers_fits (h : MessageHeader) : (fillBuffers h).Fits h where
  buffers := by simp [fillBuffers, Function.comp_def]
  errno _ herr := nomatch herr

end Vmill.Linux
