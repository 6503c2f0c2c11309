import Vmill.Base.Gather
import Vmill.Logic.Buffer
import Vmill.Logic.World
import Vmill.Runtime.Linux.IO

/-!
# The stream of `readv` and `writev`

The loop goes on after a short transfer, and throws the count away when the host fails. It reads each
element of the array after the transfers in front of it, which may have changed it.
-/

namespace Vmill

open Base

namespace Linux

open Guest

variable {g g' : Guest} {iov i count total : Nat} {vec : IoVec} {bytes : List UInt8}
  {log : List IoStep} {ended : IoEnd} {c : VectorCall}

/-- The addresses of a buffer. -/
def IoVec.buffer (vec : IoVec) : List Nat := (List.range vec.iovLen).map (vec.iovBase + ·)

/-- Element `i` of the array in memory. -/
def vecAt (g : Guest) (iov i : Nat) : IoVec :=
  .ofBytes (IoVec.addrSize g)
    (g.bytesAt (iov + 2 * IoVec.addrSize g * i) (2 * IoVec.addrSize g))

/-- The `count` elements from element `i` on. -/
def vecsFrom (g : Guest) (iov i count : Nat) : List IoVec := (List.range' i count).map (vecAt g iov)

/-- The bytes that went through the descriptor. -/
def stream (log : List IoStep) : List UInt8 := log.flatMap IoStep.bytes

namespace VectorCall

/-- The helper that is called for each element. -/
def transfer (cfg : Config) : VectorCall → Nat → IoVec → Guest → Option (Transfer × Guest)
  | .readv host => doRead cfg host
  | .writev host => doWrite host

/-- The bytes of the buffer are mapped, and may be written by `readv`, read by `writev`. -/
def May (g : Guest) (vec : IoVec) : VectorCall → Prop
  | .readv _ => g.MayWrite vec.iovBase vec.iovLen
  | .writev _ => g.MayRead vec.iovBase vec.iovLen

/-- The addresses to which the call stores. -/
def targets (vec : IoVec) : VectorCall → List Nat
  | .readv _ => vec.buffer
  | .writev _ => []

/-- The addresses to which the calls in the log have stored. -/
def touched (c : VectorCall) (log : List IoStep) : List Nat :=
  scattered (log.map fun step => (c.targets step.vec, step.bytes.length))

/-- The memory at the call: the array may be read, the buffers may be accessed, and `readv` stores
neither to an earlier buffer nor to the array. -/
structure Ready (c : VectorCall) (g : Guest) (iov i count : Nat) : Prop where
  array : g.MayRead iov (2 * IoVec.addrSize g * (i + count))
  buffers : ∀ vec ∈ vecsFrom g iov i count, c.May g vec
  apart : (vecsFrom g iov i count).Pairwise fun a b => ∀ x ∈ c.targets b, x ∉ a.buffer
  outside : ∀ vec ∈ vecsFrom g iov i count, ∀ x ∈ c.targets vec,
    x < iov ∨ iov + 2 * IoVec.addrSize g * (i + count) ≤ x

/-- The bytes that were moved are at the beginning of the buffer, and nothing else has changed. -/
structure Moved (c : VectorCall) (g g' : Guest) (vec : IoVec) (bytes : List UInt8) : Prop where
  le : bytes.length ≤ vec.iovLen
  becomes : g.Becomes g' g'.mem
  there : (vec.buffer.take bytes.length).map g'.mem = bytes.map some
  frame : ∀ x, x ∉ (c.targets vec).take bytes.length → g'.mem x = g.mem x

end VectorCall

open VectorCall

lemma buffer_take {n : Nat} (hn : n ≤ vec.iovLen) :
    vec.buffer.take n = (List.range n).map (vec.iovBase + ·) := by
  rw [IoVec.buffer, ← List.map_take, List.take_range, Nat.min_eq_left hn]

lemma addrSize_eq (h : g'.space.addrMask = g.space.addrMask) :
    IoVec.addrSize g' = IoVec.addrSize g := by
  unfold IoVec.addrSize
  rw [h]

lemma doRead_moved (cfg : Config) (host : HostRead) (i : Nat) (hg : g.WF)
    (hmay : g.MayWrite vec.iovBase vec.iovLen) :
    (∃ err, doRead cfg host i vec g = some (.error err, g)) ∨
      ∃ bytes g', doRead cfg host i vec g = some (.done bytes, g') ∧
        (readv host).Moved g g' vec bytes := by
  unfold doRead
  rw [hmay.check hg]
  simp only
  cases hread : host.read i vec.iovLen with
  | error err => exact .inl ⟨err, rfl⟩
  | ok bytes =>
  have hle := host.le i _ bytes hread
  obtain ⟨g', hcopy, hbecomes⟩ := hmay.copyToMemory cfg hg hle
  simp only [hcopy]
  refine .inr ⟨bytes, g', rfl, hle, hbecomes.mem ▸ hbecomes, ?_, fun x hx => ?_⟩
  · rw [buffer_take hle, List.map_map, hbecomes.mem]
    refine List.ext_getElem (by simp) fun k hk _ => ?_
    have hk : k < (bytes.map some).length := by simpa using hk
    simp only [List.getElem_map, List.getElem_range, Function.comp_apply]
    rw [overwrite_of_mem hk, List.getElem_map]
  · rw [hbecomes.mem]
    refine overwrite_of_not_mem ?_
    by_contra hin
    rw [List.length_map] at hin
    refine hx (?_ : x ∈ vec.buffer.take bytes.length)
    rw [buffer_take hle]
    exact List.mem_map.mpr ⟨x - vec.iovBase, List.mem_range.mpr (by omega), by omega⟩

lemma doWrite_moved (host : HostWrite) (i : Nat) (hg : g.WF)
    (hmay : g.MayRead vec.iovBase vec.iovLen) :
    (∃ err g', doWrite host i vec g = some (.error err, g') ∧ g.Becomes g' g.mem) ∨
      ∃ bytes g', doWrite host i vec g = some (.done bytes, g') ∧
        (writev host).Moved g g' vec bytes := by
  obtain ⟨g', hcopy, hbecomes⟩ := hmay.copyFromMemory hg
  unfold doWrite
  rw [hmay.check hg, hcopy]
  simp only
  cases hwrite : host.write i (g.bytesAt vec.iovBase vec.iovLen) with
  | error err => exact .inl ⟨err, g', rfl, hbecomes⟩
  | ok taken =>
  have hlen : (g.bytesAt vec.iovBase vec.iovLen).length = vec.iovLen := by
    rw [bytesAt, List.length_map, List.length_range]
  have hle : taken ≤ vec.iovLen := hlen ▸ host.le i _ _ hwrite
  have htaken : ((g.bytesAt vec.iovBase vec.iovLen).take taken).length = taken := by
    rw [List.length_take, hlen, Nat.min_eq_left hle]
  refine .inr ⟨_, g', rfl, htaken.trans_le hle, hbecomes.mem ▸ hbecomes, ?_,
    fun x _ => congrFun hbecomes.mem x⟩
  rw [htaken, List.map_take, List.map_take, hbecomes.mem, MayRead.bytesAt hmay, IoVec.buffer,
    List.map_map]
  rfl

/-- **Step lemma**: the transfer of one element fails in the host, or moves bytes. -/
lemma transfer_moved (cfg : Config) (c : VectorCall) (i : Nat) (hg : g.WF) (hmay : c.May g vec) :
    (∃ err g', c.transfer cfg i vec g = some (.error err, g') ∧ g.Becomes g' g.mem) ∨
      ∃ bytes g', c.transfer cfg i vec g = some (.done bytes, g') ∧ c.Moved g g' vec bytes := by
  cases c with
  | readv host =>
    exact (doRead_moved cfg host i hg hmay).imp_left fun ⟨err, h⟩ => ⟨err, g, h, .refl g⟩
  | writev host => exact doWrite_moved host i hg hmay

lemma May.becomes {m : Nat → Option UInt8} (hmay : c.May g vec) (hg : g.WF) (h : g.Becomes g' m) :
    c.May g' vec := by
  cases c with
  | readv host => exact h.mayWrite hg hmay
  | writev host => exact h.mayRead hg hmay

lemma vecsFrom_succ (g : Guest) (iov i count : Nat) :
    vecsFrom g iov i (count + 1) = vecAt g iov i :: vecsFrom g iov (i + 1) count := by
  rw [vecsFrom, List.range'_succ, List.map_cons]
  rfl

lemma vecsFrom_congr (hsize : IoVec.addrSize g' = IoVec.addrSize g)
    (h : ∀ x, iov ≤ x → x < iov + 2 * IoVec.addrSize g * (i + count) → g'.mem x = g.mem x) :
    vecsFrom g' iov i count = vecsFrom g iov i count := by
  refine List.map_congr_left fun j hj => ?_
  obtain ⟨hlo, hhi⟩ := List.mem_range'_1.mp hj
  unfold vecAt
  rw [hsize]
  congr 1
  refine bytesAt_congr fun k hk => h _ (by omega) ?_
  have hle : 2 * IoVec.addrSize g * (j + 1) ≤ 2 * IoVec.addrSize g * (i + count) :=
    Nat.mul_le_mul_left _ (by omega)
  rw [Nat.mul_add, Nat.mul_one] at hle
  omega

namespace VectorCall.Ready

/-- The first element of the array, as the loop reads it. -/
lemma element (hr : c.Ready g iov i (count + 1)) (hg : g.WF) :
    ∃ g', g.tryReadMemory (g.addrT (iov + 2 * IoVec.addrSize g * i)) (2 * IoVec.addrSize g) =
        some (some (g.bytesAt (iov + 2 * IoVec.addrSize g * i) (2 * IoVec.addrSize g)), g') ∧
      g.Becomes g' g.mem := by
  have hpos : 0 < 2 * IoVec.addrSize g := by
    unfold IoVec.addrSize
    split <;> decide
  have hend : 2 * IoVec.addrSize g * i + 2 * IoVec.addrSize g ≤
      2 * IoVec.addrSize g * (i + (count + 1)) := by
    rw [← Nat.mul_succ]
    exact Nat.mul_le_mul_left _ (by omega)
  have haddr := addrT_of_le hg.space (hr.array.fits (2 * IoVec.addrSize g * i) (Nat.zero_le _)
    (by omega))
  rw [haddr]
  exact MayRead.tryReadMemory hg (Copyable.shift (Copyable.mono hr.array (Nat.zero_le _) hend))

lemma head (hr : c.Ready g iov i (count + 1)) : c.May g (vecAt g iov i) :=
  hr.buffers _ (vecsFrom_succ g iov i count ▸ .head _)

/-- What is left is ready when nothing was stored but the bytes of the first element. -/
lemma tail (hr : c.Ready g iov i (count + 1)) (hg : g.WF) (h : g.Becomes g' g'.mem)
    (hframe : ∀ x, x ∉ c.targets (vecAt g iov i) → g'.mem x = g.mem x) :
    vecsFrom g' iov (i + 1) count = vecsFrom g iov (i + 1) count ∧ c.Ready g' iov (i + 1) count := by
  have hcount : i + (count + 1) = i + 1 + count := by omega
  have hsize := addrSize_eq h.addrMask
  obtain ⟨harray, hbuffers, hapart, houtside⟩ := hr
  rw [hcount] at harray houtside
  rw [vecsFrom_succ] at hbuffers hapart houtside
  have hvecs : vecsFrom g' iov (i + 1) count = vecsFrom g iov (i + 1) count := by
    refine vecsFrom_congr hsize fun x hlo hhi => hframe x fun hx => ?_
    have := houtside _ (.head _) x hx
    omega
  refine ⟨hvecs, ?_, ?_, ?_, ?_⟩
  · rw [hsize]
    exact h.mayRead hg harray
  · rw [hvecs]
    exact fun vec hvec => May.becomes (hbuffers vec (.tail _ hvec)) hg h
  · rw [hvecs]
    exact (List.pairwise_cons.mp hapart).2
  · rw [hvecs, hsize]
    exact fun vec hvec => houtside vec (.tail _ hvec)

end VectorCall.Ready

/-- What a run of the loop leaves behind: it has ended with the array, or in a failure of the host;
the stream is in the beginnings of the buffers; and nothing else has changed. -/
structure Ran (c : VectorCall) (g g' : Guest) (vecs : List IoVec) (total : Nat) (ended : IoEnd)
    (log : List IoStep) : Prop where
  becomes : g.Becomes g' g'.mem
  le : ∀ step ∈ log, step.bytes.length ≤ step.vec.iovLen
  ends : (ended = .done (total + (stream log).length) ∧ log.map IoStep.vec = vecs ∧
      ∀ step ∈ log, step.failed = false) ∨
    (ended = .error ∧ ∃ step ∈ log, step.failed = true)
  sub : ∀ step ∈ log, step.vec ∈ vecs
  there : (scattered (log.map fun step => (step.vec.buffer, step.bytes.length))).map g'.mem =
    (stream log).map some
  frame : ∀ x, x ∉ c.touched log → g'.mem x = g.mem x

lemma mem_touched {x : Nat} (hx : x ∈ c.touched log) : ∃ step ∈ log, x ∈ c.targets step.vec := by
  obtain ⟨part, hpart, hx⟩ := List.mem_flatMap.mp hx
  obtain ⟨step, hstep, rfl⟩ := List.mem_map.mp hpart
  exact ⟨step, hstep, List.mem_of_mem_take hx⟩

/-- **Run lemma**: the loop returns, by induction over the elements that are left. -/
lemma vectorLoop_ran (cfg : Config) (total : Nat) (hg : g.WF) (hr : c.Ready g iov i count) :
    ∃ ended log g', vectorLoop (c.transfer cfg) iov count i total g = some (ended, log, g') ∧
      Ran c g g' (vecsFrom g iov i count) total ended log := by
  induction count generalizing g i total with
  | zero =>
    exact ⟨_, _, g, rfl, .refl g, nofun, .inl ⟨rfl, rfl, nofun⟩, nofun, rfl, fun _ _ => rfl⟩
  | succ count ih =>
  obtain ⟨g1, hread, hb1⟩ := hr.element hg
  have hg1 := hb1.wf hg
  rw [vecsFrom_succ]
  rcases transfer_moved cfg c i hg1 (May.becomes hr.head hg hb1) with
    ⟨err, g', htransfer, hb2⟩ | ⟨bytes, g2, htransfer, hmoved⟩
  · rw [hb1.mem] at hb2
    have hb := hb1.trans hb2
    refine ⟨.error, [⟨vecAt g iov i, [], true⟩], g', ?_, hb.mem ▸ hb, ?_,
      .inr ⟨rfl, _, .head _, rfl⟩, ?_, rfl, fun x _ => congrFun hb.mem x⟩
    · simp only [vectorLoop, hread]
      rw [show IoVec.ofBytes _ _ = vecAt g iov i from rfl, htransfer]
    · exact List.forall_mem_singleton.mpr (Nat.zero_le _)
    · exact List.forall_mem_singleton.mpr (.head _)
  have hb := hb1.trans hmoved.becomes
  have hframe : ∀ x, x ∉ (c.targets (vecAt g iov i)).take bytes.length → g2.mem x = g.mem x :=
    fun x hx => (hmoved.frame x hx).trans (congrFun hb1.mem x)
  obtain ⟨hvecs, hr2⟩ := hr.tail hg hb fun x hx => hframe x fun htake =>
    hx (List.mem_of_mem_take htake)
  obtain ⟨ended, log, g', hloop, hran⟩ := ih (total + bytes.length) (hb.wf hg) hr2
  rw [hvecs] at hran
  have hapart := (List.pairwise_cons.mp (vecsFrom_succ g iov i count ▸ hr.apart)).1
  refine ⟨ended, ⟨vecAt g iov i, bytes, false⟩ :: log, g', ?_, hb.trans hran.becomes, ?_, ?_, ?_,
    ?_, ?_⟩
  · simp only [vectorLoop, hread]
    rw [show IoVec.ofBytes _ _ = vecAt g iov i from rfl, htransfer]
    simp only [hloop]
  · exact List.forall_mem_cons.mpr ⟨hmoved.le, hran.le⟩
  · refine hran.ends.imp (fun ⟨hdone, hlog, hno⟩ => ⟨?_, ?_, ?_⟩)
      fun ⟨herror, step, hstep, hf⟩ => ⟨herror, step, .tail _ hstep, hf⟩
    · rw [hdone, stream, stream, List.flatMap_cons, List.length_append, Nat.add_assoc]
    · rw [List.map_cons, hlog]
    · exact List.forall_mem_cons.mpr ⟨rfl, hno⟩
  · exact List.forall_mem_cons.mpr ⟨.head _, fun step hstep => .tail _ (hran.sub step hstep)⟩
  · -- what the first transfer moved is kept by the later ones
    have hkept : ((vecAt g iov i).buffer.take bytes.length).map g'.mem =
        ((vecAt g iov i).buffer.take bytes.length).map g2.mem := by
      refine List.map_congr_left fun x hx => hran.frame x fun htouched => ?_
      obtain ⟨step, hstep, htarget⟩ := mem_touched htouched
      exact hapart step.vec (hran.sub step hstep) x htarget (List.mem_of_mem_take hx)
    have hthere := hran.there
    unfold scattered stream at hthere ⊢
    rw [List.map_cons, List.flatMap_cons, List.map_append, hthere, hkept, hmoved.there,
      List.flatMap_cons, List.map_append]
  · intro x hx
    rw [touched, scattered, List.map_cons, List.flatMap_cons, List.mem_append, not_or] at hx
    rw [hran.frame x hx.2, hframe x hx.1]

/-- What a call returns and moves. A return value that is not negative is the number of bytes that
went through the descriptor; they are, in order, at the beginning of the concatenation of the
buffers; and nothing else in memory has changed. If the host fails when bytes have been moved, their
number is returned. -/
structure StreamLaw (c : VectorCall) (g g' : Guest) (vecs : List IoVec) (ended : IoEnd)
    (log : List IoStep) : Prop where
  counted : ended.ret g ≤ g.space.addrMask / 2 → ended.ret g = (stream log).length
  stored : ended.ret g ≤ g.space.addrMask / 2 →
    ((vecs.flatMap IoVec.buffer).take (stream log).length).map g'.mem = (stream log).map some
  kept : ended.ret g ≤ g.space.addrMask / 2 →
    ∀ x, x ∉ (vecs.flatMap c.targets).take (stream log).length → g'.mem x = g.mem x
  late : (∃ step ∈ log, step.failed = true) → stream log ≠ [] →
    ended.ret g = (stream log).length ∧ ended.ret g ≤ g.space.addrMask / 2

/-- The host does not fail when bytes have been moved, moves nothing after a short transfer, and not
more bytes than an `addr_t` can count. -/
structure HostOrderly (g : Guest) (log : List IoStep) : Prop where
  noLateError : (∃ step ∈ log, step.failed = true) → stream log = []
  noGap : log.Pairwise fun a b => b.bytes = [] ∨ a.bytes.length = a.vec.iovLen
  counts : (stream log).length ≤ g.space.addrMask

lemma buffer_length (vec : IoVec) : vec.buffer.length = vec.iovLen := by
  rw [IoVec.buffer, List.length_map, List.length_range]

lemma moved_stream (f : IoVec → List Nat) (log : List IoStep) :
    moved (log.map fun step => (f step.vec, step.bytes.length)) = (stream log).length := by
  rw [moved, stream, List.length_flatMap, List.map_map]
  rfl

/-- Without a gap, the stream is at the beginning of the concatenation of the buffers. -/
lemma scattered_stream (hle : ∀ step ∈ log, step.bytes.length ≤ step.vec.iovLen)
    (hgap : log.Pairwise fun a b => b.bytes = [] ∨ a.bytes.length = a.vec.iovLen) :
    scattered (log.map fun step => (step.vec.buffer, step.bytes.length)) =
      (log.flatMap fun step => step.vec.buffer).take (stream log).length := by
  rw [scattered_of_filled, moved_stream, List.flatMap_map]
  · intro part hpart
    obtain ⟨step, hstep, rfl⟩ := List.mem_map.mp hpart
    exact (hle step hstep).trans_eq (buffer_length _).symm
  · refine List.pairwise_map.mpr (hgap.imp fun {a b} hor => ?_)
    exact hor.imp (fun hnil => by rw [hnil]; rfl) fun hfull => by rw [hfull, buffer_length]

lemma touched_stream (hle : ∀ step ∈ log, step.bytes.length ≤ step.vec.iovLen)
    (hgap : log.Pairwise fun a b => b.bytes = [] ∨ a.bytes.length = a.vec.iovLen) :
    c.touched log = (log.flatMap fun step => c.targets step.vec).take (stream log).length := by
  cases c with
  | readv host => exact scattered_stream hle hgap
  | writev host =>
    have hnil : (log.flatMap fun _ => ([] : List Nat)) = [] :=
      List.flatMap_eq_nil_iff.mpr fun _ _ => rfl
    show scattered (log.map _) = (log.flatMap fun _ => []).take _
    rw [hnil, List.take_nil, scattered, List.flatMap_map, ← hnil]
    exact congrArg log.flatMap (funext fun _ => List.take_nil)

lemma ret_error (hg : g.WF) : g.space.addrMask / 2 < IoEnd.error.ret g := by
  show _ < g.space.addrMask + 1 - 14
  rcases hg.space.mask with hm | hm <;> rw [hm] <;> decide

/-- A host whose first answer is `first`, and the second one four bytes. -/
def twoReads (first : List UInt8) : HostRead where
  read i size := .ok ((if i = 0 then first else [3, 4, 5, 6]).take size)
  le i size bytes h := by
    obtain rfl := Except.ok.inj h
    exact List.length_take_le ..
  errno _ _ _ h := nomatch h

/-- Two buffers of four bytes, at `0x1100` and `0x1200`. -/
abbrev twoBuffers : List UInt8 :=
  [0, 0x11, 0, 0, 0, 0, 0, 0, 4, 0, 0, 0, 0, 0, 0, 0, 0, 0x12, 0, 0, 0, 0, 0, 0, 4, 0, 0, 0, 0, 0, 0, 0]

end Linux

end Vmill
