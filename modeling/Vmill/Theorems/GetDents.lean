import Vmill.Logic.Buffer
import Vmill.Logic.World
import Vmill.Runtime.Linux.GetDents

/-!
# Listing a directory

Two things the calls do not tell: that the next entry does not fit into the buffer (0 is returned,
as at the end), and that a record could not be written.
-/

namespace Vmill.Linux

open Base AddressSpace Guest

variable {mem : Nat → Option UInt8} {buf lo count written tell pos align : Nat} {bytes : List UInt8}
  {g : Guest}

/-- The bytes are in memory from `addr` on. -/
def HoldsBytes (mem : Nat → Option UInt8) (addr : Nat) (bytes : List UInt8) : Prop :=
  ∀ k b, bytes[k]? = some b → mem (addr + k) = some b

/-- An entry as it is written, with its name. -/
def DirEntry.record (e : DirEntry) (reclen : Nat) : List UInt8 := e.header reclen ++ (e.dName ++ [0])

/-- The memory holds records for the entries, from offset `lo` of the buffer to offset `hi`. Each
record has the distance to the next one in `d_reclen`, and ends in front of it. -/
def Laid (mem : Nat → Option UInt8) (buf : Nat) : List DirEntry → Nat → Nat → Prop
  | [], lo, hi => lo = hi
  | e :: es, lo, hi => ∃ reclen, HoldsBytes mem (buf + lo) (e.record reclen) ∧
      (e.record reclen).length ≤ reclen ∧ reclen < 2 ^ 16 ∧ Laid mem buf es (lo + reclen) hi

/-- The call fails, or leaves records for the entries in its buffer. -/
def GetDentsOut.Lists (o : GetDentsOut) (es : List DirEntry) : Prop :=
  o.ret < 0 ∧ es = [] ∨
    ∃ total : Nat, o.ret = total ∧ total ≤ o.count ∧ Laid o.after.mem o.dirent es 0 total

/-- The calls list the entries in order and each once, and 0 is returned when none remains. -/
def Listed : List GetDentsOut → List DirEntry → Prop
  | [], _ => True
  | o :: os, rest => ∃ es rest', rest = es ++ rest' ∧ o.Lists es ∧ (o.ret = 0 → rest = []) ∧
      Listed os rest'

namespace DirEntry

lemma header_length (e : DirEntry) (reclen : Nat) : (e.header reclen).length = direntSize := by
  simp [header, numberBytes, direntSize]

lemma record_length (e : DirEntry) (reclen : Nat) :
    (e.record reclen).length = direntSize + e.dName.length + 1 := by
  rw [record, List.length_append, header_length, List.length_append, List.length_singleton]
  omega

lemma toWrite_bounds (e : DirEntry) {align : Nat} (halign : 0 < align ∧ align ≤ 8) :
    direntSize + e.dName.length + 1 ≤ e.toWrite align ∧ e.toWrite align < 2 ^ 16 := by
  have hshort := e.short
  have hmod := Nat.mod_lt (direntSize + e.dName.length + 1) halign.1
  unfold toWrite
  unfold direntSize at hmod ⊢
  dsimp only
  split <;> omega

end DirEntry

lemma Laid.le {hi : Nat} {es : List DirEntry} (h : Laid mem buf es lo hi) : lo ≤ hi := by
  induction es generalizing lo with
  | nil => exact Nat.le_of_eq h
  | cons e es ih =>
  obtain ⟨reclen, _, _, _, hrest⟩ := h
  exact (Nat.le_add_right _ _).trans (ih hrest)

lemma HoldsBytes.congr {mem' : Nat → Option UInt8} {addr : Nat} (h : HoldsBytes mem addr bytes)
    (hsame : ∀ x, addr ≤ x → x < addr + bytes.length → mem' x = mem x) :
    HoldsBytes mem' addr bytes := by
  intro k b hb
  have hk : k < bytes.length := (List.getElem?_eq_some_iff.mp hb).1
  rw [hsame (addr + k) (by omega) (by omega)]
  exact h k b hb

lemma holdsBytes_overwrite (mem : Nat → Option UInt8) (addr : Nat) (bytes : List UInt8) :
    HoldsBytes (overwrite mem addr (bytes.map some)) addr bytes := by
  intro k b hb
  unfold overwrite
  rw [if_pos (Nat.le_add_right _ _), Nat.add_sub_cancel_left, List.getElem?_map, hb]
  rfl

lemma copyStringToLoop_eq (cfg : Config) (addr : Nat) {name : List UInt8}
    (hname : ∀ b ∈ name, b ≠ 0) (i : Nat) (g : Guest) :
    copyStringToLoop cfg addr (name ++ [0]) i g =
      (copyToLoop cfg addr (name ++ [0]) i g).map (i + name.length, ·) := by
  induction name generalizing i g with
  | nil =>
    simp only [List.nil_append, copyStringToLoop, copyToLoop]
    cases g.writeMemory8 cfg (g.addrT (addr + i)) 0 <;> rfl
  | cons b name ih =>
  simp only [List.cons_append, copyStringToLoop, copyToLoop]
  cases g.writeMemory8 cfg (g.addrT (addr + i)) b with
  | none => rfl
  | some g1 =>
  simp only [if_neg (hname b (.head _))]
  rw [ih (fun b hb => hname b (.tail _ hb)), List.length_cons,
    Nat.add_right_comm, Nat.add_assoc]

/-- One record is written, with its name. -/
lemma writeRecord_spec (cfg : Config) {reclen : Nat} (e : DirEntry) (hg : g.WF)
    (hb : g.MayWrite buf count) (hfits : lo + (e.record reclen).length ≤ count) :
    ∃ g1 g2, g.tryWriteMemory cfg (g.addrT (buf + lo)) (e.header reclen) = some (true, g1) ∧
      g1.copyStringToMemory cfg (g1.addrT (g.addrT (buf + lo) + direntSize)) (e.dName ++ [0])
        (e.dName.length + 1) = some (e.dName.length, g2) ∧
      g.Becomes g2 (overwrite g.mem (buf + lo) ((e.record reclen).map some)) := by
  have hheader := e.header_length reclen
  have hlen : (e.dName ++ [0]).length = e.dName.length + 1 := by simp
  rw [e.record_length] at hfits
  have hlo : g.addrT (buf + lo) = buf + lo :=
    addrT_of_le hg.space (hb.fits lo (Nat.zero_le _) (by omega))
  obtain ⟨g1, hwrite, hb1⟩ := MayWrite.tryWriteMemory cfg hg
    (hb.part (show lo + (e.header reclen).length ≤ count by omega))
  have hg1 := hb1.wf hg
  have hmay := hb1.mayWrite hg hb
  have hname : g1.addrT (buf + lo + direntSize) = buf + (lo + direntSize) := by
    rw [Nat.add_assoc]
    exact addrT_of_le hg1.space (hmay.fits (lo + direntSize) (Nat.zero_le _) (by omega))
  have hpart := hmay.part (show lo + direntSize + (e.dName ++ [0]).length ≤ count by omega)
  obtain ⟨g2, hcopy, hb2⟩ := hpart.copyToMemory cfg hg1 le_rfl
  refine ⟨g1, g2, by rw [hlo, hwrite], ?_, ?_⟩
  · have hprobe : g1.numWritableBytes (buf + (lo + direntSize)) (e.dName.length + 1) =
        some (e.dName.length + 1) := hlen ▸ Copyable.numBytesLoop hg1 (fun _ => rfl) hpart
    have hall : (e.dName ++ [0]).take (e.dName.length + 1) = e.dName ++ [0] :=
      List.take_of_length_le (Nat.le_of_eq hlen)
    have hcopy : copyToLoop cfg (buf + (lo + direntSize)) (e.dName ++ [0]) 0 g1 = some g2 := hcopy
    unfold copyStringToMemory
    rw [hlo, hname, hprobe]
    simp only [hall]
    rw [copyStringToLoop_eq cfg _ e.nonzero, hcopy, Option.map_some, Nat.zero_add]
  have hsplit : (e.record reclen).map some =
      (e.header reclen).map some ++ (e.dName ++ [0]).map some := List.map_append
  rw [hsplit, overwrite_append, List.length_map, hheader, Nat.add_assoc, ← hb1.mem]
  exact hb1.trans hb2

lemma position_eq (hpos : written = 0 → pos = tell) :
    (if written ≠ 0 then tell else pos) = tell := by
  split
  · rfl
  rename_i hzero
  exact hpos (not_not.mp hzero)

/-- The records laid, up to the first that does not fit. -/
lemma getDirEntriesLoop_spec (cfg : Config) (halign : 0 < align ∧ align ≤ 8)
    {rest : List DirEntry} (hg : g.WF) (hb : g.MayWrite buf count) (hw : written ≤ count)
    (hpos : written = 0 → pos = tell) :
    ∃ es rest' total g', rest = es ++ rest' ∧
      getDirEntriesLoop cfg align buf count rest tell written pos g =
        some (total, tell + es.length, g') ∧
      total ≤ count ∧ Laid g'.mem buf es written total ∧
      (∀ x, x < buf + written → g'.mem x = g.mem x) ∧
      ∀ e, rest'.head? = some e → count < total + e.toWrite align := by
  induction rest generalizing tell written pos g with
  | nil =>
    have hsame := position_eq hpos
    refine ⟨[], [], written, g, rfl, ?_, hw, rfl, fun _ _ => rfl, fun e he => (nomatch he)⟩
    simp only [getDirEntriesLoop, hsame]
    rfl
  | cons e rest ih =>
  have hsame := position_eq hpos
  by_cases hstop : written + e.toWrite align > count
  · refine ⟨[], e :: rest, written, g, rfl, ?_, hw, rfl, fun _ _ => rfl, fun e' he => ?_⟩
    · simp only [getDirEntriesLoop, hsame, if_pos hstop]
      rfl
    cases he
    exact hstop
  obtain ⟨hroom, hsmall⟩ := e.toWrite_bounds halign
  have hlen := e.record_length (e.toWrite align)
  obtain ⟨g1, g2, hwrite, hstring, hb2⟩ :=
    writeRecord_spec cfg e hg hb (show written + (e.record (e.toWrite align)).length ≤ count by omega)
  obtain ⟨es, rest', total, g', hsplit, hloop, htotal, hlaid, hframe, hnext⟩ :=
    @ih (written + e.toWrite align) (tell + 1) tell g2 (hb2.wf hg) (hb2.mayWrite hg hb) (by omega)
      (fun hzero => by unfold direntSize at hroom; omega)
  refine ⟨e :: es, rest', total, g', by rw [hsplit, List.cons_append], ?_, htotal,
    ⟨e.toWrite align, ?_, by omega, hsmall, hlaid⟩, fun x hx => ?_, hnext⟩
  · simp only [getDirEntriesLoop, hsame, if_neg hstop, hwrite, hstring]
    rw [hloop, List.length_cons, Nat.add_right_comm, Nat.add_assoc]
  · have hthere : HoldsBytes g2.mem (buf + written) (e.record (e.toWrite align)) := by
      rw [hb2.mem]
      exact holdsBytes_overwrite _ _ _
    exact hthere.congr fun x _ hx => hframe x (by omega)
  · rw [hframe x (by omega), hb2.mem, overwrite_of_not_mem (.inl hx)]

/-- The call gets as far as reading the directory. -/
def GetDentsCall.Reads (c : GetDentsCall) : Prop :=
  c.guest.canWriteMemory c.dirent c.count = some true ∧ c.dupError = none ∧ c.openError = none

/-- The condition of a call: if it gets as far as reading the directory, then the buffer is mapped
and writable byte by byte, and the next entry, if there is one, fits into it. -/
structure Served (align : Nat) (dir : List DirEntry) (pos : Nat) (c : GetDentsCall) : Prop where
  wf : c.guest.WF
  buffer : c.Reads → c.guest.MayWrite c.dirent c.count
  fits : c.Reads → ∀ e, dir[pos]? = some e → e.toWrite align ≤ c.count

/-- One `getdents`. -/
lemma Served.step {cfg : Config} {dir : List DirEntry} {pos' : Nat} {c : GetDentsCall}
    {o : GetDentsOut} (halign : 0 < align ∧ align ≤ 8) (h : Served align dir pos c)
    (hs : (directory cfg align dir).step c pos = some (o, pos')) :
    ∃ es, dir.drop pos = es ++ dir.drop pos' ∧ o.Lists es ∧ (o.ret = 0 → dir.drop pos = []) := by
  have hfails : ∀ err : Nat, some err ≠ some 0 →
      some (GetDentsOut.mk c.dirent c.count (-err) c.guest, pos) = some (o, pos') →
      ∃ es, dir.drop pos = es ++ dir.drop pos' ∧ o.Lists es ∧ (o.ret = 0 → dir.drop pos = []) := by
    intro err herr heq
    cases heq
    have hpos : err ≠ 0 := fun hzero => herr (congrArg some hzero)
    refine ⟨[], rfl, .inl ⟨?_, rfl⟩, fun hzero => ?_⟩
    · dsimp only
      omega
    dsimp only at hzero
    omega
  have hstep : sysGetDirEntries64 cfg align dir c pos = some (o, pos') := hs
  simp only [sysGetDirEntries64] at hstep
  cases hcan : c.guest.canWriteMemory c.dirent c.count with
  | none =>
    rw [hcan] at hstep
    exact nomatch hstep
  | some ok =>
  cases ok with
  | false =>
    rw [hcan] at hstep
    exact hfails 14 (by decide) hstep
  | true =>
  rw [hcan] at hstep
  cases hdup : c.dupError with
  | some err =>
    rw [hdup] at hstep
    exact hfails err (hdup ▸ c.dup_errno) hstep
  | none =>
  cases hopen : c.openError with
  | some err =>
    rw [hdup, hopen] at hstep
    exact hfails err (hopen ▸ c.open_errno) hstep
  | none =>
  rw [hdup, hopen] at hstep
  have hreads : c.Reads := ⟨hcan, hdup, hopen⟩
  obtain ⟨es, rest', total, g', hsplit, hloop, htotal, hlaid, _, hnext⟩ :=
    @getDirEntriesLoop_spec c.dirent c.count 0 pos pos align c.guest cfg halign (dir.drop pos)
      h.wf (h.buffer hreads) (Nat.zero_le _) (fun _ => rfl)
  rw [hloop] at hstep
  cases hstep
  have hrest : dir.drop (pos + es.length) = rest' := by
    rw [← List.drop_drop, hsplit, List.drop_left]
  refine ⟨es, by rw [hrest]; exact hsplit, .inr ⟨total, rfl, htotal, hlaid⟩, fun hzero => ?_⟩
  -- the first entry would have been written
  obtain rfl : total = 0 := Int.ofNat.inj hzero
  cases es with
  | cons e es =>
    obtain ⟨reclen, _, hlen, _, hmore⟩ := hlaid
    have hle := hmore.le
    rw [e.record_length] at hlen
    omega
  | nil =>
  cases rest' with
  | nil => exact hsplit
  | cons e rest' =>
  have hfirst : dir[pos]? = some e := by
    rw [← List.head?_drop, hsplit]
    rfl
  have hfit := h.fits hreads e hfirst
  have hmore := hnext e rfl
  omega

/-- **`getdents64`.** In every run of calls that meet the condition, from any position: each call
that succeeds leaves consecutive records, for the entries that follow those of the calls before, and
a call returns 0 only when no entry remains. -/
theorem getDents_lists {cfg : Config} {align : Nat} {dir : List DirEntry} {pos pos' : Nat}
    {calls : List GetDentsCall} {os : List GetDentsOut} (halign : 0 < align ∧ align ≤ 8)
    (hmeets : (directory cfg align dir).RunMeets (Served align dir) calls pos)
    (hrun : (directory cfg align dir).run calls pos = some (os, pos')) :
    Listed os (dir.drop pos) := by
  induction calls generalizing pos os with
  | nil =>
    cases hrun
    trivial
  | cons c calls ih =>
    obtain ⟨o, os', pos1, hstep, hrest, rfl⟩ := Machine.run_cons_eq_some hrun
    obtain ⟨es, hsplit, hlists, hzero⟩ := Served.step halign hmeets.1 hstep
    exact ⟨es, dir.drop pos1, hsplit, hlists, hzero, ih (hmeets.tail hstep) hrest⟩

def letterEntry (letter : UInt8) (h : letter ≠ 0) : DirEntry :=
  ⟨1, 2, 8, [letter], by simpa using h, by simp⟩

def twoFiles : List DirEntry := [letterEntry 97 (by decide), letterEntry 98 (by decide)]

def listCalls (n count : Nat) (s : AddressSpace) (h : Heap) : List GetDentsCall :=
  List.replicate n ⟨⟨some (Task.init 0), s, h⟩, 0x1000, count, none, none, nofun, nofun⟩

/-- Three calls with room for one record: the two files, and the end. `d_ino` is packed, so its
alignment is 1. -/
theorem getDents_lists_two : ∃ (w : World) (s : AddressSpace) (os : List GetDentsOut),
    World.Reachable (amd64 false) w ∧ w.spaces[0]? = some s ∧
    (directory (amd64 false) 1 twoFiles).run (listCalls 3 21 s w.heap) 0 = some (os, 2) ∧
    os.map (·.ret) = [21, 21, 0] ∧ Listed os twoFiles := by
  obtain ⟨w, s, hw, hi, hret, hbuffer⟩ :=
    World.reachable_eval (amd64 false) [.new, .addMap 0 0x1000 0x1000 none 0]
      (fun w s =>
        ((directory (amd64 false) 1 twoFiles).run (listCalls 3 21 s w.heap) 0).map
            (fun r => (r.1.map (·.ret), r.2)) = some ([21, 21, 0], 2) ∧
        Guest.MayWrite ⟨some (Task.init 0), s, w.heap⟩ 0x1000 21)
      (by decide +kernel)
  obtain ⟨⟨outs, pos⟩, hcalls, heq⟩ := Option.map_eq_some_iff.mp hret
  obtain ⟨hrets, rfl⟩ := Prod.mk.inj heq
  have hmeets : (directory (amd64 false) 1 twoFiles).RunMeets (Served 1 twoFiles)
      (listCalls 3 21 s w.heap) 0 := by
    refine Machine.runMeets_of_forall (fun pos c hc => ?_) 0
    obtain rfl := List.eq_of_mem_replicate hc
    refine ⟨⟨hw.wf.heap, hw.wf.space 0 s hi⟩, fun _ => hbuffer, fun _ e he => ?_⟩
    have hall : ∀ e ∈ twoFiles, e.toWrite 1 ≤ 21 := by decide
    exact hall e (List.mem_of_getElem? he)
  exact ⟨w, s, outs, hw, hi, hcalls, hrets, getDents_lists (by decide) hmeets hcalls⟩

/-- With a buffer of 8 bytes no record fits: the first call returns 0, and two entries remain. -/
theorem getDents_returns_zero : ∃ (w : World) (s : AddressSpace) (os : List GetDentsOut),
    World.Reachable (amd64 false) w ∧ w.spaces[0]? = some s ∧
    (directory (amd64 false) 1 twoFiles).run (listCalls 1 8 s w.heap) 0 = some (os, 0) ∧
    os.map (·.ret) = [0] ∧ ¬ Listed os twoFiles := by
  obtain ⟨w, s, hw, hi, hret⟩ :=
    World.reachable_eval (amd64 false) [.new, .addMap 0 0x1000 0x1000 none 0]
      (fun w s => ((directory (amd64 false) 1 twoFiles).run (listCalls 1 8 s w.heap) 0).map
        (fun r => (r.1.map (·.ret), r.2)) = some ([0], 0))
      (by decide +kernel)
  obtain ⟨⟨outs, pos⟩, hcalls, heq⟩ := Option.map_eq_some_iff.mp hret
  obtain ⟨hrets, rfl⟩ := Prod.mk.inj heq
  refine ⟨w, s, outs, hw, hi, hcalls, hrets, fun hlisted => ?_⟩
  cases outs with
  | nil => exact nomatch hrets
  | cons o outs =>
    obtain ⟨es, rest', _, _, hzero, _⟩ := hlisted
    exact nomatch hzero (List.cons.inj hrets).1

end Vmill.Linux
