import Vmill.Logic.Buffer
import Vmill.Runtime.Linux.Net
import Vmill.Theorems.Probes

/-!
# Receiving into a buffer of the guest

`-EFAULT` can come too late, when `recvfrom` has taken the data from the socket. And the buffer is
copied back as a whole.
-/

namespace Vmill.Linux

open Base Guest

variable {g : Guest} {c : RecvFromCall}

/-- The length that the guest gives for the address; 0 if it gives none. -/
def RecvFromArgs.addrlen (args : RecvFromArgs) (g : Guest) : Nat :=
  if args.addrlenAddr = 0 then 0 else bytesNumber (g.copyFromMemory args.addrlenAddr 4).1

/-- How `DoSysRecvFrom` gets to the call of the host, or ends before it, with the checks on the way. -/
inductive Begins (args : RecvFromArgs) (g : Guest) : RecvFromBegun → Guest → Prop
  | empty (n : args.n = 0) : Begins args g (.returns (-eINVAL)) g
  | noLength (n : args.n ≠ 0) (asked : args.addrlenAddr ≠ 0)
      (length : g.canReadMemory args.addrlenAddr 4 = some false) :
      Begins args g (.returns (-eFAULT)) g
  | tooLong (n : args.n ≠ 0) (asked : args.addrlenAddr ≠ 0)
      (length : g.canReadMemory args.addrlenAddr 4 = some true)
      (long : sockaddrSize < args.addrlen g) :
      Begins args g (.returns (-eINVAL)) (g.copyFromMemory args.addrlenAddr 4).2
  | noInfo (n : args.n ≠ 0) (asked : args.addrlenAddr ≠ 0)
      (length : g.canReadMemory args.addrlenAddr 4 = some true)
      (long : ¬ sockaddrSize < args.addrlen g) (given : args.addrlen g ≠ 0)
      (info : g.canReadMemory args.addr sockaddrSize = some false) :
      Begins args g (.returns (-eFAULT)) (g.copyFromMemory args.addrlenAddr 4).2
  | calls (c : RecvFromCall) (g' : Guest) (n : args.n ≠ 0)
      (length : args.addrlenAddr ≠ 0 → g.canReadMemory args.addrlenAddr 4 = some true)
      (long : ¬ sockaddrSize < args.addrlen g)
      (info : args.addrlen g ≠ 0 → g.canReadMemory args.addr sockaddrSize = some true)
      (same : c.args = args) (addrlen : c.addrlen = args.addrlen g)
      (copied : g.MayRead args.buf args.n → c.bufVal = g.bytesAt args.buf args.n)
      (looked : g.Looked g') :
      Begins args g (.calls c) g'

lemma copyAndCall_begins {args : RecvFromArgs} {g1 : Guest} {info : List UInt8} {addrlen : Nat}
    (hg : g.WF) (hw : g.Looked g1) (n : args.n ≠ 0)
    (length : args.addrlenAddr ≠ 0 → g.canReadMemory args.addrlenAddr 4 = some true)
    (long : ¬ sockaddrSize < args.addrlen g)
    (hinfo : args.addrlen g ≠ 0 → g.canReadMemory args.addr sockaddrSize = some true)
    (hlen : addrlen = args.addrlen g) :
    ∃ b g', copyAndCall args info addrlen g1 = some (b, g') ∧ Begins args g b g' := by
  refine ⟨_, _, rfl, .calls _ _ n length long hinfo rfl hlen (fun hbuf => ?_)
    (hw.trans (copyFromLoop_looked _ _ _ 0))⟩
  obtain ⟨_, hcopy, _⟩ := (MayRead.updates hw.updates hg hbuf).copyFromMemory (hw.wf hg)
  exact (congrArg Prod.fst hcopy).trans (bytesAt_congr fun _ _ => congrFun hw.mem_eq _)

lemma recvFromCall_begins (args : RecvFromArgs) (hg : g.WF) :
    ∃ b g', recvFromCall args g = some (b, g') ∧ Begins args g b g' := by
  unfold recvFromCall
  by_cases hn : args.n = 0
  · exact ⟨_, _, if_pos hn, .empty hn⟩
  rw [if_neg hn]
  by_cases hasked : args.addrlenAddr = 0
  · rw [if_pos hasked]
    have hzero : args.addrlen g = 0 := if_pos hasked
    exact copyAndCall_begins hg (Wrote.refl g _) hn (absurd hasked) (by rw [hzero]; decide)
      (absurd hzero) hzero.symm
  rw [if_neg hasked]
  have hlen : args.addrlen g = bytesNumber (g.copyFromMemory args.addrlenAddr 4).1 :=
    if_neg hasked
  have hcan : g.canReadMemory args.addrlenAddr 4 = some _ :=
    canReadMemory_small hg.space.mask (by decide) (by decide)
  unfold tryReadMemory
  cases hlength : g.canReadMemory args.addrlenAddr 4 with
  | none => exact absurd (hcan.symm.trans hlength) (Option.some_ne_none _)
  | some ok =>
  cases ok with
  | false => exact ⟨_, _, rfl, .noLength hn hasked hlength⟩
  | true =>
  have hw : g.Looked (g.copyFromMemory args.addrlenAddr 4).2 := copyFromLoop_looked g _ _ 0
  have hg1 := hw.wf hg
  simp only [← hlen]
  by_cases hlong : sockaddrSize < args.addrlen g
  · exact ⟨_, _, if_pos hlong, .tooLong hn hasked hlength hlong⟩
  rw [if_neg hlong]
  by_cases hzero : args.addrlen g = 0
  · rw [if_pos hzero]
    exact copyAndCall_begins hg hw hn (fun _ => hlength) hlong (absurd hzero) hzero.symm
  rw [if_neg hzero]
  have hsame := canReadMemory_accessed hw.accessed args.addr sockaddrSize
  have hcan1 : g.canReadMemory args.addr sockaddrSize = some _ :=
    canReadMemory_small hg.space.mask (by decide) (by decide)
  rw [hsame]
  cases hinfo : g.canReadMemory args.addr sockaddrSize with
  | none => exact absurd (hcan1.symm.trans hinfo) (Option.some_ne_none _)
  | some ok =>
  cases ok with
  | false => exact ⟨_, _, rfl, .noInfo hn hasked hlength hlong hzero hinfo⟩
  | true =>
  exact copyAndCall_begins hg (hw.trans (copyFromLoop_looked _ _ _ 0)) hn
    (fun _ => hlength) hlong (fun _ => hinfo) rfl

/-- What is copied back: the whole buffer, and the address with its length. -/
def RecvFromCall.blocks (c : RecvFromCall) (a : RecvFromAnswer) : List (Nat × List UInt8) :=
  (c.args.buf, c.bufAfter a) ::
    if c.addrlen = 0 then []
    else [(c.args.addr, a.info.take c.addrlen), (c.args.addrlenAddr, wordBytes a.addrlen)]

/-- A byte that is copied back, and its place. -/
def RecvFromCall.Stores (c : RecvFromCall) (a : RecvFromAnswer) (g : Guest) (x : Nat)
    (val : UInt8) : Prop :=
  ∃ block ∈ c.blocks a, ∃ k, block.2[k]? = some val ∧ x = g.addrT (block.1 + k)

/-- The checks between the return of the host and the copies all pass. -/
def RecvFromCall.Writable (c : RecvFromCall) (g : Guest) : Prop :=
  g.canWriteMemory c.args.buf c.args.n = some true ∧
    (c.addrlen ≠ 0 → g.canWriteMemory c.args.addr c.addrlen = some true ∧
      g.canWriteMemory c.args.addrlenAddr 4 = some true)

/-- The second half of `recvfrom`: no answer, every store, or `EFAULT`. -/
lemma recvFromReturn_spec (cfg : Config) (a : RecvFromAnswer) (hg : g.WF)
    (hlen : c.addrlen ≤ 4096) :
    g.canWriteMemory c.args.buf c.args.n = none ∧ recvFromReturn cfg c a g = none ∨
    c.Writable g ∧ (∃ g', recvFromReturn cfg c a g = some (a.code, g') ∧
      g.Wrote g' (c.Stores a g)) ∨
    ¬ c.Writable g ∧ ∃ g', recvFromReturn cfg c a g = some (-eFAULT, g') := by
  unfold recvFromReturn RecvFromCall.Writable
  cases hbuf : g.canWriteMemory c.args.buf c.args.n with
  | none => exact .inl ⟨rfl, rfl⟩
  | some ok =>
  right
  cases ok with
  | false => exact .inr ⟨fun h => (nomatch h.1), g, rfl⟩
  | true =>
  obtain ⟨g1, hcopy, hw⟩ : ∃ g1, g.copyToMemory cfg c.args.buf (c.bufAfter a) = some g1 ∧
      g.Wrote g1 (c.Stores a g) :=
    copyToMemory_wrote cfg hg _ _ fun k val hk => ⟨_, .head _, k, hk, rfl⟩
  simp only [hcopy]
  by_cases hzero : c.addrlen = 0
  · rw [if_pos hzero]
    exact .inl ⟨⟨trivial, absurd hzero⟩, g1, rfl, hw⟩
  rw [if_neg hzero]
  have hblocks : (c.args.addr, a.info.take c.addrlen) ∈ c.blocks a ∧
      (c.args.addrlenAddr, wordBytes a.addrlen) ∈ c.blocks a := by
    rw [RecvFromCall.blocks, if_neg hzero]
    exact ⟨.tail _ (.head _), .tail _ (.tail _ (.head _))⟩
  have haddr := canWriteMemory_accessed hw.accessed c.args.addr c.addrlen
  have hsmall : g.canWriteMemory c.args.addr c.addrlen = some _ :=
    canWriteMemory_small hg.space.mask (Nat.pos_of_ne_zero hzero) hlen
  rw [haddr]
  cases hcan : g.canWriteMemory c.args.addr c.addrlen with
  | none => exact absurd (hsmall.symm.trans hcan) (Option.some_ne_none _)
  | some ok =>
  cases ok with
  | false => exact .inr ⟨fun h => (nomatch (h.2 hzero).1), g1, rfl⟩
  | true =>
  obtain ⟨g2, hcopy2, hw2⟩ : ∃ g2, g1.copyToMemory cfg c.args.addr (a.info.take c.addrlen) =
      some g2 ∧ g1.Wrote g2 (c.Stores a g) :=
    copyToMemory_wrote cfg (hw.wf hg) _ _ fun k val hk =>
      ⟨_, hblocks.1, k, hk, hw.addrT _⟩
  have hword := canWriteMemory_accessed (hw.accessed.trans hw2.accessed) c.args.addrlenAddr 4
  have hsmall4 : g.canWriteMemory c.args.addrlenAddr 4 = some _ :=
    canWriteMemory_small hg.space.mask (by decide) (by decide)
  have hfour : (wordBytes a.addrlen).length = 4 := rfl
  simp only [hcopy2, tryWriteMemory, hfour]
  rw [hword]
  cases hcan4 : g.canWriteMemory c.args.addrlenAddr 4 with
  | none => exact absurd (hsmall4.symm.trans hcan4) (Option.some_ne_none _)
  | some ok =>
  cases ok with
  | false => exact .inr ⟨fun h => (nomatch (h.2 hzero).2), g2, rfl⟩
  | true =>
  have hw' := hw.trans hw2
  obtain ⟨g3, hcopy3, hw3⟩ : ∃ g3, g2.copyToMemory cfg c.args.addrlenAddr (wordBytes a.addrlen) =
      some g3 ∧ g2.Wrote g3 (c.Stores a g) :=
    copyToMemory_wrote cfg (hw'.wf hg) _ _ fun k val hk =>
      ⟨_, hblocks.2, k, hk, hw'.addrT _⟩
  exact .inl ⟨⟨trivial, fun _ => ⟨trivial, rfl⟩⟩, g3, by rw [hcopy3]; rfl, hw'.trans hw3⟩

/-- A call that returns `-EFAULT` has not called the host, and has recorded no fault. -/
def FaultsEarly (cfg : Config) (host : RecvFromCall → RecvFromAnswer) (args : RecvFromArgs)
    (g : Guest) : Prop :=
  ∀ r g', doSysRecvFrom cfg host args g = some (r, g') → r.code = -eFAULT →
    r.called = false ∧ g'.task = g.task

/-- In the memory before the call: the host is not called, and the length word is read without a
fault if the address cannot be read; or it is called, all areas pass the probe for writing, and the
host does not fail with `EFAULT` itself. -/
def WritesChecked (host : RecvFromCall → RecvFromAnswer) (args : RecvFromArgs) (g : Guest) : Prop :=
  if args.n = 0 ∨ (args.addrlenAddr ≠ 0 ∧ g.canReadMemory args.addrlenAddr 4 = some false) ∨
      sockaddrSize < args.addrlen g then True
  else if args.addrlen g ≠ 0 ∧ g.canReadMemory args.addr sockaddrSize = some false then
    (g.copyFromMemory args.addrlenAddr 4).2.task = g.task
  else g.canWriteMemory args.buf args.n = none ∨
    g.canWriteMemory args.buf args.n = some true ∧
    (args.addrlen g ≠ 0 → g.canWriteMemory args.addr (args.addrlen g) = some true ∧
      g.canWriteMemory args.addrlenAddr 4 = some true) ∧
    ∀ c g', recvFromCall args g = some (.calls c, g') → (host c).code ≠ -eFAULT

/-- **`-EFAULT` of `recvfrom`.** For every guest memory and all arguments: if `DoSysRecvFrom`
returns `-EFAULT` then the host has not been called and no fault was recorded, if and only if the
areas are writable when the host is called. The length word is read without a fault if its four
bytes are mapped and readable. -/
theorem recvFrom_fault_iff (cfg : Config) (host : RecvFromCall → RecvFromAnswer)
    (args : RecvFromArgs) {g : Guest} (hg : g.WF) :
    (FaultsEarly cfg host args g ↔ WritesChecked host args g) ∧
      (g.MayRead args.addrlenAddr 4 →
        (g.copyFromMemory args.addrlenAddr 4).2.task = g.task) := by
  have hclean (hword : g.MayRead args.addrlenAddr 4) :
      (g.copyFromMemory args.addrlenAddr 4).2.task = g.task := by
    obtain ⟨g', hcopy, hbecomes⟩ := hword.copyFromMemory hg
    rw [hcopy]
    exact hbecomes.task
  refine ⟨?_, hclean⟩
  obtain ⟨b, g1, hcall, hb⟩ := recvFromCall_begins args hg
  unfold FaultsEarly WritesChecked doSysRecvFrom
  rw [hcall]
  cases hb with
  | empty hn =>
    rw [if_pos (.inl hn)]
    refine iff_of_true (fun r g' h hcode => ?_) trivial
    cases h
    exact ⟨rfl, rfl⟩
  | noLength _ hasked hlength =>
    rw [if_pos (.inr (.inl ⟨hasked, hlength⟩))]
    refine iff_of_true (fun r g' h hcode => ?_) trivial
    cases h
    exact ⟨rfl, rfl⟩
  | tooLong _ _ _ hlong =>
    rw [if_pos (.inr (.inr hlong))]
    refine iff_of_true (fun r g' h hcode => ?_) trivial
    cases h
    exact absurd hcode (by decide)
  | noInfo hn hasked hlength hlong hgiven hinfo =>
    have hfirst : ¬ (args.n = 0 ∨
        (args.addrlenAddr ≠ 0 ∧ g.canReadMemory args.addrlenAddr 4 = some false) ∨
        sockaddrSize < args.addrlen g) := by
      rw [hlength]
      simp [hn, hlong]
    rw [if_neg hfirst, if_pos ⟨hgiven, hinfo⟩]
    constructor
    · exact fun h => (h _ _ rfl rfl).2
    · rintro htask r g' h _
      cases h
      exact ⟨rfl, htask⟩
  | calls c g' hn hlength hlong hinfo hsame haddrlen _ hw =>
    have hfirst : ¬ (args.n = 0 ∨
        (args.addrlenAddr ≠ 0 ∧ g.canReadMemory args.addrlenAddr 4 = some false) ∨
        sockaddrSize < args.addrlen g) := by
      rintro (h | ⟨hasked, h⟩ | h)
      · exact hn h
      · exact nomatch (hlength hasked).symm.trans h
      · exact hlong h
    have hsecond : ¬ (args.addrlen g ≠ 0 ∧
        g.canReadMemory args.addr sockaddrSize = some false) := fun h =>
      (nomatch (hinfo h.1).symm.trans h.2)
    rw [if_neg hfirst, if_neg hsecond]
    have hlen : c.addrlen ≤ 4096 := by
      rw [haddrlen]
      exact (Nat.not_lt.mp hlong).trans (by decide)
    have hwritable : c.Writable g1 ↔ g.canWriteMemory args.buf args.n = some true ∧
        (args.addrlen g ≠ 0 → g.canWriteMemory args.addr (args.addrlen g) = some true ∧
          g.canWriteMemory args.addrlenAddr 4 = some true) := by
      unfold RecvFromCall.Writable
      rw [hsame, haddrlen]
      simp only [canWriteMemory_accessed hw.accessed]
    have hhost : (∀ c' g', some (RecvFromBegun.calls c, g1) = some (.calls c', g') →
        (host c').code ≠ -eFAULT) ↔ (host c).code ≠ -eFAULT := by
      refine ⟨fun h => h c g1 rfl, fun h c' g' heq => ?_⟩
      obtain rfl : c = c' := RecvFromBegun.calls.inj (Prod.mk.inj (Option.some.inj heq)).1
      exact h
    rw [hhost, ← and_assoc, ← hwritable]
    rcases recvFromReturn_spec cfg (host c) (hw.wf hg) hlen with
      ⟨hbuf, hnone⟩ | ⟨hall, g2, hreturn, _⟩ | ⟨hno, g2, hreturn⟩
    · rw [hsame, canWriteMemory_accessed hw.accessed] at hbuf
      simp only [hnone]
      exact iff_of_true (fun _ _ h => (nomatch h)) (.inl hbuf)
    · have hbuf := (hwritable.mp hall).1
      simp only [hreturn, hbuf]
      refine ⟨fun h => .inr ⟨hall, fun hcode => ?_⟩, fun h r g' heq hcode => ?_⟩
      · exact nomatch (h _ _ rfl hcode).1
      · cases heq
        exact absurd hcode (h.resolve_left nofun).2
    · have hbuf : g.canWriteMemory args.buf args.n ≠ none := by
        intro hnone
        rw [← canWriteMemory_accessed hw.accessed, ← hsame] at hnone
        unfold recvFromReturn at hreturn
        rw [hnone] at hreturn
        exact nomatch hreturn
      simp only [hreturn]
      refine ⟨fun h => ?_, fun h => absurd (h.resolve_left hbuf).1 hno⟩
      exact nomatch (h _ _ rfl rfl).1

def recvArgs : RecvFromArgs := ⟨3, 0x1000, 4, 0, 0, 0⟩

def twoBytes (_ : RecvFromCall) : RecvFromAnswer := ⟨.ok 2, [1, 2], List.replicate sockaddrSize 0, 0⟩

theorem recvFrom_fault_mapped : ∃ (w : World) (s : AddressSpace),
    World.Reachable (amd64 false) w ∧ w.spaces[0]? = some s ∧
    FaultsEarly (amd64 false) twoBytes recvArgs ⟨some (Task.init 0), s, w.heap⟩ := by
  obtain ⟨w, s, hw, hi, hcan⟩ :=
    World.reachable_eval (amd64 false) [.new, .addMap 0 0x1000 0x1000 none 0]
      (fun w s => canWriteMemory ⟨some (Task.init 0), s, w.heap⟩ 0x1000 4 = some true)
      (by decide +kernel)
  refine ⟨w, s, hw, hi, (recvFrom_fault_iff (amd64 false) twoBytes recvArgs
    ⟨hw.wf.heap, hw.wf.space 0 s hi⟩).1.mpr ?_⟩
  unfold WritesChecked
  have hzero : recvArgs.addrlen ⟨some (Task.init 0), s, w.heap⟩ = 0 := rfl
  have hcode : ∀ c, (twoBytes c).code = 2 := fun _ => rfl
  rw [hzero, if_neg (by simp [recvArgs]), if_neg (fun h => h.1 rfl)]
  exact .inr ⟨hcan, absurd rfl, fun c g' _ => by rw [hcode]; decide⟩

/-- Nothing is mapped at the buffer: the host gives up its data, and only then the buffer is found
not to be writable. -/
theorem recvFrom_faults_late : ∃ (w : World) (s : AddressSpace),
    World.Reachable (amd64 false) w ∧ w.spaces[0]? = some s ∧
    ∃ g', doSysRecvFrom (amd64 false) twoBytes recvArgs ⟨some (Task.init 0), s, w.heap⟩ =
        some (⟨-eFAULT, true⟩, g') ∧
      g'.task.map (·.memAccessFault.address) = some 0x1000 ∧
      ¬ FaultsEarly (amd64 false) twoBytes recvArgs ⟨some (Task.init 0), s, w.heap⟩ := by
  obtain ⟨w, s, hw, hi, hcall⟩ :=
    World.reachable_eval (amd64 false) [.new]
      (fun w s => (doSysRecvFrom (amd64 false) twoBytes recvArgs
          ⟨some (Task.init 0), s, w.heap⟩).map
          (fun r => (r.1, r.2.task.map (·.memAccessFault.address))) =
        some (⟨-eFAULT, true⟩, some 0x1000))
      (by decide +kernel)
  obtain ⟨⟨_, g'⟩, hret, heq⟩ := Option.map_eq_some_iff.mp hcall
  obtain ⟨rfl, hfault⟩ := Prod.mk.inj heq
  exact ⟨w, s, hw, hi, g', hret, hfault,
    fun h => (nomatch (h _ _ hret rfl).1)⟩

/-- The bytes of the buffer behind the received ones are as they were when the task went on. -/
def KeepsOthers (c : RecvFromCall) (count : Nat) (g g' : Guest) : Prop :=
  ∀ j, count ≤ j → j < c.args.n → g'.mem (c.args.buf + j) = g.mem (c.args.buf + j)

/-- The address and the length word, if they are given, are apart from the bytes of the buffer
behind the first `count`. -/
structure RecvFromCall.TailApart (c : RecvFromCall) (count : Nat) (g : Guest) : Prop where
  addr : ∀ j, count ≤ j → j < c.args.n → ∀ k < c.addrlen,
    g.addrT (c.args.addr + k) ≠ c.args.buf + j
  length : ∀ j, count ≤ j → j < c.args.n → c.addrlen ≠ 0 → ∀ k < 4,
    g.addrT (c.args.addrlenAddr + k) ≠ c.args.buf + j

lemma RecvFromAnswer.Fits.received_le {a : RecvFromAnswer} (h : a.Fits c) :
    a.received.length ≤ c.args.n := by
  rw [h.received]
  split
  · exact Nat.min_le_right _ _
  · exact Nat.zero_le _

lemma RecvFromAnswer.Fits.bufAfter_getElem? {a : RecvFromAnswer} {c : RecvFromCall}
    {count j : Nat} (h : a.Fits c) (hcode : a.code = count) (hj : count ≤ j) :
    (c.bufAfter a)[j]? = c.bufVal[j]? := by
  have hle : a.received.length ≤ j := by
    have hreceived := h.received
    unfold RecvFromAnswer.code at hcode
    cases hret : a.ret with
    | ok n =>
      rw [hret] at hreceived hcode
      obtain rfl : n = count := Int.ofNat.inj hcode
      rw [hreceived]
      exact (Nat.min_le_left _ _).trans hj
    | error err =>
    rw [hret] at hreceived
    rw [hreceived]
    exact Nat.zero_le _
  unfold RecvFromCall.bufAfter
  rw [List.getElem?_append_right hle, List.getElem?_drop, Nat.add_sub_cancel' hle]

/-- A byte that is stored behind the received ones is what the buffer held when the call began. -/
lemma RecvFromCall.TailApart.stored {a : RecvFromAnswer} {count j : Nat} {g0 : Guest}
    (hapart : c.TailApart count g) (hg : g.WF)
    (hfit : ∀ k < c.args.n, c.args.buf + k ≤ g.space.addrMask)
    (hbuf : g0.MayRead c.args.buf c.args.n) (hval : c.bufVal = g0.bytesAt c.args.buf c.args.n)
    (hfits : a.Fits c) (hcode : a.code = count) (hj : count ≤ j) (hn : j < c.args.n) {val : UInt8}
    (hstored : c.Stores a g (c.args.buf + j) val) :
    g0.mem (c.args.buf + j) = some val := by
  obtain ⟨block, hblock, k, hk, haddr⟩ := hstored
  have hlt : k < block.2.length := (List.getElem?_eq_some_iff.mp hk).1
  unfold RecvFromCall.blocks at hblock
  rcases List.mem_cons.mp hblock with rfl | hblock
  · have hlen : (c.bufAfter a).length = c.args.n := by
      rw [RecvFromCall.bufAfter, List.length_append, List.length_drop, hval, Guest.bytesAt,
        List.length_map, List.length_range]
      exact Nat.add_sub_cancel' hfits.received_le
    have hkn : k < c.args.n := hlen ▸ hlt
    obtain rfl : j = k := by
      rw [addrT_of_le hg.space (hfit k hkn)] at haddr
      exact Nat.add_left_cancel haddr
    have hbyte := congrArg (·[j]?) hbuf.bytesAt
    simp only [← hval, List.getElem?_map, ← hfits.bufAfter_getElem? hcode hj, hk,
      List.getElem?_range hn, Option.map_some] at hbyte
    exact (Option.some.inj hbyte).symm
  split at hblock
  · exact nomatch hblock
  next hgiven =>
  rcases List.mem_cons.mp hblock with rfl | hblock
  · exact absurd haddr.symm (hapart.addr j hj hn k (hlt.trans_le (List.length_take_le _ _)))
  obtain rfl := List.mem_singleton.mp hblock
  exact absurd haddr.symm (hapart.length j hj hn hgiven k hlt)

/-- **Other tasks.** A task calls `recvfrom` with a buffer that is mapped and readable, and is
paused; then any memory operations of any tasks; then the call returns a count. It has changed no
byte of the buffer but the received ones, if the others are, when the task goes on, as they were at
the call, and apart from the address and its length. -/
theorem recvFrom_keeps {cfg : Config} {w w' : World} {i : Nat} {s s' : AddressSpace}
    {task task' : Task} {args : RecvFromArgs} {c : RecvFromCall} {a : RecvFromAnswer}
    {g1 g' : Guest} {ops : List Vmill.Op} {os : List Vmill.Out} {count : Nat} (hw : World.Reachable cfg w)
    (hi : w.spaces[i]? = some s)
    (hcall : recvFromCall args ⟨some task, s, w.heap⟩ = some (.calls c, g1))
    (hguard : (memory cfg).RunMeets World.Guarded ops (w.put i g1.space g1.heap))
    (hrun : (memory cfg).run ops (w.put i g1.space g1.heap) = some (os, w'))
    (hi' : w'.spaces[i]? = some s')
    (hfits : a.Fits c)
    (hreturn : recvFromReturn cfg c a ⟨some task', s', w'.heap⟩ = some ((count : Int), g'))
    (hbuf : Guest.MayRead ⟨some task, s, w.heap⟩ args.buf args.n)
    (hapart : c.TailApart count ⟨some task', s', w'.heap⟩)
    (hsame : ∀ j, count ≤ j → j < args.n →
      Guest.mem ⟨some task', s', w'.heap⟩ (args.buf + j) =
        Guest.mem ⟨some task, s, w.heap⟩ (args.buf + j)) :
    KeepsOthers c count ⟨some task', s', w'.heap⟩ g' := by
  have hg : Guest.WF ⟨some task, s, w.heap⟩ := ⟨hw.wf.heap, hw.wf.space i s hi⟩
  obtain ⟨b, g2, hcall', hb⟩ := recvFromCall_begins args hg
  obtain ⟨rfl, rfl⟩ := Prod.mk.inj (Option.mem_unique hcall hcall')
  cases hb with
  | calls _ _ hn _ hlong _ hargs haddrlen hval hlooked =>
  have hwf : w'.WF := Machine.run_preserves (I := World.WF)
    (fun _ _ _ _ h hg hs => (World.step_effect h hg hs).wf h) (hw.wf.updates hi hlooked.updates) hguard hrun
  have hg' : Guest.WF ⟨some task', s', w'.heap⟩ := ⟨hwf.heap, hwf.space i s' hi'⟩
  have hlen : c.addrlen ≤ 4096 := by
    rw [haddrlen]
    exact (Nat.not_lt.mp hlong).trans (by decide)
  obtain ⟨hcode, hw'⟩ : a.code = count ∧ Guest.Wrote ⟨some task', s', w'.heap⟩ g'
      (c.Stores a ⟨some task', s', w'.heap⟩) := by
    rcases recvFromReturn_spec cfg a hg' hlen with ⟨_, hnone⟩ | ⟨_, g2, hr, hw2⟩ | ⟨_, g2, hr⟩
    · exact nomatch hnone.symm.trans hreturn
    · obtain ⟨hcode, rfl⟩ := Prod.mk.inj (Option.mem_unique hr hreturn)
      exact ⟨hcode, hw2⟩
    · obtain ⟨hcode, _⟩ := Prod.mk.inj (Option.mem_unique hr hreturn)
      unfold eFAULT at hcode
      omega
  subst hargs
  intro j hj hlt
  rcases hw'.stored (c.args.buf + j) with hkept | ⟨val, hstored, heq⟩
  · exact hkept
  rw [heq, hsame j hj hlt]
  refine (hapart.stored hg' (fun k hk => ?_) hbuf (hval hbuf) hfits hcode hj hlt hstored).symm
  -- the byte itself, or byte `j` behind it, is still mapped
  have hmapped := hbuf.mapped (max k j) (Nat.zero_le _) (by omega)
  rw [← Guest.mem, ← hsame _ (by omega) (by omega)] at hmapped
  exact le_trans (by omega) (le_of_mapped hg' hmapped)

def evalRecv (ops : List Vmill.Op) (P : Guest → RecvFromCall → Guest → Int × Guest → Bool) : Bool :=
  ((memory (amd64 false)).run [.new, .addMap 0 0x1000 0x1000 none 0] World.init).any fun r =>
    r.2.spaces[0]?.any fun s =>
      match recvFromCall recvArgs ⟨some (Task.init 0), s, r.2.heap⟩ with
      | some (.calls c, g1) =>
        ((memory (amd64 false)).run ops (r.2.put 0 g1.space g1.heap)).any fun r' =>
          decide ((memory (amd64 false)).RunMeets World.Guarded ops
            (r.2.put 0 g1.space g1.heap)) &&
          r'.2.spaces[0]?.any fun s' =>
            (recvFromReturn (amd64 false) c (twoBytes c) ⟨some (Task.init 0), s', r'.2.heap⟩).any
              (P ⟨some (Task.init 0), s, r.2.heap⟩ c ⟨some (Task.init 0), s', r'.2.heap⟩)
      | _ => false

lemma evalRecv_true (ops : List Vmill.Op) (P : Guest → RecvFromCall → Guest → Int × Guest → Bool)
    (h : evalRecv ops P = true) : ∃ w s c g1 os w' s' r,
      World.Reachable (amd64 false) w ∧ w.spaces[0]? = some s ∧
      recvFromCall recvArgs ⟨some (Task.init 0), s, w.heap⟩ = some (.calls c, g1) ∧
      (memory (amd64 false)).RunMeets World.Guarded ops (w.put 0 g1.space g1.heap) ∧
      (memory (amd64 false)).run ops (w.put 0 g1.space g1.heap) = some (os, w') ∧
      w'.spaces[0]? = some s' ∧
      recvFromReturn (amd64 false) c (twoBytes c) ⟨some (Task.init 0), s', w'.heap⟩ = some r ∧
      P ⟨some (Task.init 0), s, w.heap⟩ c ⟨some (Task.init 0), s', w'.heap⟩ r = true := by
  obtain ⟨⟨os0, w⟩, hrun0, h⟩ := (Option.any_eq_true _ _).mp h
  obtain ⟨s, hi, h⟩ := (Option.any_eq_true _ _).mp h
  dsimp only at h hi
  split at h
  case h_2 => exact nomatch h
  case h_1 c g1 hcall =>
    obtain ⟨⟨os, w'⟩, hrun, h⟩ := (Option.any_eq_true _ _).mp h
    obtain ⟨hguard, h⟩ := Bool.and_eq_true_iff.mp h
    obtain ⟨s', hi', h⟩ := (Option.any_eq_true _ _).mp h
    obtain ⟨r, hreturn, hP⟩ := (Option.any_eq_true _ _).mp h
    exact ⟨w, s, c, g1, os, w', s', r, ⟨_, os0, by decide +kernel, hrun0⟩, hi, hcall,
      of_decide_eq_true hguard, hrun, hi', hreturn, hP⟩

lemma twoBytes_fits (hn : 2 ≤ c.args.n) : (twoBytes c).Fits c :=
  ⟨(Nat.min_eq_left hn).symm, List.length_replicate⟩

/-- Another task stores to the byte that is going to be received, and nowhere else. -/
theorem recvFrom_keeps_received : ∃ w s c g1 os w' s' g',
    World.Reachable (amd64 false) w ∧ w.spaces[0]? = some s ∧
    recvFromCall recvArgs ⟨some (Task.init 0), s, w.heap⟩ = some (.calls c, g1) ∧
    (memory (amd64 false)).run [.tryWriteByte 0 0x1001 9] (w.put 0 g1.space g1.heap) =
      some (os, w') ∧
    recvFromReturn (amd64 false) c (twoBytes c) ⟨some (Task.init 0), s', w'.heap⟩ =
      some (2, g') ∧
    KeepsOthers c 2 ⟨some (Task.init 0), s', w'.heap⟩ g' := by
  obtain ⟨w, s, c, g1, os, w', s', ⟨code, g'⟩, hw, hi, hcall, hguard, hrun, hi', hreturn, hP⟩ :=
    evalRecv_true [.tryWriteByte 0 0x1001 9] (fun g0 c g r =>
      decide (r.1 = 2 ∧ c.args = recvArgs ∧ c.addrlen = 0 ∧ g0.MayRead 0x1000 4 ∧
        ∀ j : Nat, j < 4 → 2 ≤ j → g.mem (0x1000 + j) = g0.mem (0x1000 + j))) (by decide +kernel)
  obtain ⟨rfl, hargs, hzero, hbuf, hkept⟩ := of_decide_eq_true hP
  have hapart : c.TailApart 2 ⟨some (Task.init 0), s', w'.heap⟩ :=
    ⟨fun _ _ _ k hk => absurd hk (hzero ▸ Nat.not_lt_zero k), fun _ _ _ h => absurd hzero h⟩
  exact ⟨w, s, c, g1, os, w', s', g', hw, hi, hcall, hrun, hreturn,
    recvFrom_keeps hw hi hcall hguard hrun hi' (twoBytes_fits (by rw [hargs]; decide)) hreturn hbuf
      hapart fun j hj hlt => hkept j hlt hj⟩

/-- Another task stores 9 to the last byte of the buffer. Two bytes are received, and the last byte
is 0 again. -/
theorem recvFrom_loses_store : ∃ w s c g1 os w' s' g',
    World.Reachable (amd64 false) w ∧ w.spaces[0]? = some s ∧
    recvFromCall recvArgs ⟨some (Task.init 0), s, w.heap⟩ = some (.calls c, g1) ∧
    (memory (amd64 false)).run [.tryWriteByte 0 0x1003 9] (w.put 0 g1.space g1.heap) =
      some (os, w') ∧ w'.spaces[0]? = some s' ∧ (twoBytes c).Fits c ∧
    recvFromReturn (amd64 false) c (twoBytes c) ⟨some (Task.init 0), s', w'.heap⟩ =
      some (2, g') ∧
    Guest.mem ⟨some (Task.init 0), s', w'.heap⟩ 0x1003 = some 9 ∧ g'.mem 0x1003 = some 0 ∧
    ¬ KeepsOthers c 2 ⟨some (Task.init 0), s', w'.heap⟩ g' := by
  obtain ⟨w, s, c, g1, os, w', s', ⟨code, g'⟩, hw, hi, hcall, hguard, hrun, hi', hreturn, hP⟩ :=
    evalRecv_true [.tryWriteByte 0 0x1003 9] (fun _ c g r =>
      decide (r.1 = 2 ∧ c.args = recvArgs ∧ g.mem 0x1003 = some 9 ∧ r.2.mem 0x1003 = some 0))
      (by decide +kernel)
  obtain ⟨rfl, hargs, hbefore, hafter⟩ := of_decide_eq_true hP
  refine ⟨w, s, c, g1, os, w', s', g', hw, hi, hcall, hrun, hi',
    twoBytes_fits (by rw [hargs]; decide), hreturn, hbefore, hafter, fun hkeeps => ?_⟩
  have hlast : c.args.buf + 3 = 0x1003 := by rw [hargs]; rfl
  have hkept := hkeeps 3 (by decide) (by rw [hargs]; decide)
  rw [hlast, hbefore, hafter] at hkept
  exact absurd hkept (by decide)

end Vmill.Linux
