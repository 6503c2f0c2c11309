import Vmill.Runtime.Linux.PathAt
import Vmill.Theorems.Path

/-!
# The path of a directory descriptor

Four things go wrong:

* the test of the flags is always true, so the directory is always taken for a link;
* after the current directory, the descriptor `AT_FDCWD` is looked up as well;
* a target of `PATH_MAX` bytes or more is cut off;
* no terminator is written, so the path goes on with what is left in the buffer.
-/

namespace Vmill.Linux

open Base

variable {host : PathHost} {path target : List UInt8}

/-- The buffer holds the string. -/
structure IsCString (buf : PathBuffer) (s : List UInt8) : Prop where
  bytes : ∀ k b, s[k]? = some b → buf k = b
  nonzero : ∀ b ∈ s, b ≠ 0
  ends : buf s.length = 0

lemma isCString_append_iff {buf : PathBuffer} {x s : List UInt8}
    (hx : ∀ k b, x[k]? = some b → buf k = b) (hnonzero : ∀ b ∈ x, b ≠ 0) :
    IsCString buf s ↔ ∃ rest, IsCString (fun k => buf (x.length + k)) rest ∧ s = x ++ rest := by
  constructor
  · intro h
    have hle : x.length ≤ s.length := by
      by_contra hlt
      have hk := List.getElem?_eq_getElem (Nat.lt_of_not_le hlt)
      exact hnonzero _ (List.getElem_mem _) ((hx _ _ hk).symm.trans h.ends)
    have hprefix : s = x ++ s.drop x.length := by
      refine List.ext_getElem? fun k => ?_
      rcases Nat.lt_or_ge k x.length with hk | hk
      · have hs := List.getElem?_eq_getElem (hk.trans_le hle)
        have hxk := List.getElem?_eq_getElem hk
        rw [List.getElem?_append_left hk, hs, hxk, ← h.bytes _ _ hs, ← hx _ _ hxk]
      · rw [List.getElem?_append_right hk, List.getElem?_drop, Nat.add_sub_cancel' hk]
    refine ⟨s.drop x.length, ⟨fun k b hb => h.bytes _ b ?_, fun b hb => h.nonzero b ?_, ?_⟩,
      hprefix⟩
    · rwa [List.getElem?_drop] at hb
    · exact List.mem_of_mem_drop hb
    · rw [List.length_drop, Nat.add_sub_cancel' hle]
      exact h.ends
  rintro ⟨rest, h, rfl⟩
  refine ⟨fun k b hb => ?_,
    fun b hb => (List.mem_append.mp hb).elim (hnonzero b) (h.nonzero b), ?_⟩
  · rcases Nat.lt_or_ge k x.length with hk | hk
    · rw [List.getElem?_append_left hk] at hb
      exact hx k b hb
    rw [List.getElem?_append_right hk] at hb
    have hrest : buf (x.length + (k - x.length)) = b := h.bytes _ b hb
    rwa [Nat.add_sub_cancel' hk] at hrest
  · rw [List.length_append]
    exact h.ends

lemma testsFlags_eq (flags : BitVec 32) : testsFlags flags = true := by
  refine decide_eq_true fun h => ?_
  have hbit := congrArg (fun v : BitVec 32 => v.getLsbD 10) h
  simp [atSymlinkFollow] at hbit

lemma readlinkInto_of_some (h : host.readlink path = some target) (buf : PathBuffer) :
    ∃ buf', readlinkInto host path buf = (true, buf') ∧
      cString buf' = target.take pathMax ∧
      (∀ k b, (target.take pathMax)[k]? = some b → buf' k = b) ∧
      ∀ k, (target.take pathMax).length < k → buf' k = Function.update buf pathMax 0 k := by
  have hlen : (target.take pathMax).length ≤ pathMax := by
    rw [List.length_take]
    exact Nat.min_le_left _ _
  have hnonzero : ∀ b ∈ target.take pathMax, b ≠ 0 := fun b hb =>
    host.readlink_string path target h b (List.mem_of_mem_take hb)
  have hcall : readlinkInto host path buf =
      (true, Function.update (Function.update (overwrite buf 0 (target.take pathMax)) pathMax 0)
        (target.take pathMax).length 0) := by
    unfold readlinkInto
    rw [h]
  refine ⟨_, hcall, ?_⟩
  generalize target.take pathMax = t at hlen hnonzero ⊢
  have hbytes : ∀ k b, t[k]? = some b →
      Function.update (Function.update (overwrite buf 0 t) pathMax 0) t.length 0 k = b := by
    intro k b hb
    have hk : k < t.length := (List.getElem?_eq_some_iff.mp hb).1
    rw [Function.update_of_ne hk.ne,
      Function.update_of_ne (Nat.lt_of_lt_of_le hk hlen).ne]
    simp [overwrite, hb]
  refine ⟨cString_eq hlen hbytes hnonzero (Function.update_self _ _ _), hbytes, fun k hk => ?_⟩
  rw [Function.update_of_ne hk.ne', Function.update_apply, Function.update_apply,
    overwrite_of_not_mem (.inr (by omega))]

lemma readlinkInto_of_none (h : host.readlink path = none) (buf : PathBuffer) :
    readlinkInto host path buf = (false, Function.update buf pathMax 0) := by
  unfold readlinkInto
  rw [h]

/-- The host can report the path of the directory: the current one, or the one that is open. -/
def PathHost.Reports (host : PathHost) (fd : Int) (dir : List UInt8) : Prop :=
  fd = atFDCWD ∧ host.getcwd = some dir ∨ 0 ≤ fd ∧ host.readlink (fdPath fd) = some dir

/-- Symbolic links are followed. -/
def Follows (flags : BitVec 32) : Prop :=
  flags &&& atSymlinkNoFollow = 0 ∨ flags &&& atSymlinkFollow ≠ 0
deriving Decidable

/-- The path that is asked for, below the directory or what it links to. -/
def PathHost.pathAt (host : PathHost) (dir path : List UInt8) (flags : BitVec 32) : List UInt8 :=
  (if Follows flags then (host.readlink dir).getD dir else dir) ++ slash :: path

/-- The link of the descriptor is itself a link, and its target, the path, and what is left in the
buffer behind them make up the path that is asked for. -/
def PathAtTells (host : PathHost) (fd : Int) (dir path : List UInt8) (flags : BitVec 32)
    (b : PathBuffers) : Prop :=
  ∃ link target rest, host.readlink (fdPath fd) = some link ∧
    host.readlink (link.take pathMax) = some target ∧
    IsCString (fun k => Function.update b.gIOBuffer pathMax 0
      ((target.take pathMax ++ slash :: path).length + k)) rest ∧
    (target.take pathMax ++ slash :: path) ++ rest = host.pathAt dir path flags

lemma getBasePathAt_eq {fd : Int} {dir : List UInt8} (h : host.Reports fd dir)
    (hdir : dir.length < pathMax) (gPathAt : PathBuffer) :
    ∃ buf, getBasePathAt host fd gPathAt = linkOfFd host fd buf := by
  unfold getBasePathAt
  rcases h with ⟨hfd, hcwd⟩ | ⟨hfd, _⟩
  · have hok : (getcwdInto host gPathAt).1 = true := by
      unfold getcwdInto
      rw [hcwd]
      simp only [if_pos hdir]
    rw [if_pos hfd]
    exact ⟨_, if_pos hok⟩
  have hne : fd ≠ atFDCWD := by
    unfold atFDCWD
    omega
  rw [if_neg hne, if_neg (Int.not_lt.mpr hfd)]
  exact ⟨_, rfl⟩

lemma appendPath_spec {link : List UInt8} (h : host.readlink link = some target)
    (path : List UInt8) (buf : PathBuffer) :
    ∃ buf', readlinkInto host link buf = (true, buf') ∧
      (∀ k b, (target.take pathMax ++ slash :: path)[k]? = some b →
        appendPath path buf' k = b) ∧
      ∀ k, appendPath path buf' ((target.take pathMax ++ slash :: path).length + k) =
        Function.update buf pathMax 0 ((target.take pathMax ++ slash :: path).length + k) := by
  obtain ⟨buf', hcall, hstring, hbytes, hbehind⟩ := readlinkInto_of_some h buf
  refine ⟨buf', hcall, ?_⟩
  unfold appendPath
  rw [hstring]
  generalize target.take pathMax = t at hbytes hbehind ⊢
  refine ⟨fun k b hb => ?_, fun k => ?_⟩
  · rcases Nat.lt_trichotomy k t.length with hlt | rfl | hgt
    · rw [List.getElem?_append_left hlt] at hb
      rw [overwrite_of_not_mem (.inl (by omega)), Function.update_of_ne hlt.ne]
      exact hbytes k b hb
    · rw [overwrite_of_not_mem (.inl (by omega)), Function.update_self]
      simpa using hb
    rw [List.getElem?_append_right hgt.le, List.getElem?_cons, if_neg (by omega)] at hb
    unfold overwrite
    rw [if_pos (Nat.succ_le_of_lt hgt), Nat.sub_add_eq, hb]
    rfl
  have hlen : (t ++ slash :: path).length = t.length + 1 + path.length := by
    rw [List.length_append, List.length_cons]
    omega
  rw [hlen, overwrite_of_not_mem (.inr (by omega)), Function.update_of_ne (by omega),
    hbehind _ (by omega)]

/-- **`GetPathAt`.** For every descriptor whose directory the host can report, every relative path,
all flags, and whatever is in the buffers: the result is the string asked for if and only if the
links and the contents of the buffer make it up. -/
theorem getPathAt_iff (host : PathHost) (fd : Int) {dir path : List UInt8}
    (hdir : host.Reports fd dir) (hrel : path.head? ≠ some slash) (hpath : ∀ b ∈ path, b ≠ 0)
    (hlen : dir.length + 1 + path.length < pathMax) (flags : BitVec 32) (b : PathBuffers) :
    (∃ b', getPathAt host fd path flags b = (.ioBuffer, b') ∧
        IsCString b'.gIOBuffer (host.pathAt dir path flags)) ↔
      PathAtTells host fd dir path flags b := by
  obtain ⟨buf, hbase⟩ := getBasePathAt_eq hdir (by omega) b.gPathAt
  unfold getPathAt PathAtTells
  rw [if_neg hrel, hbase, linkOfFd]
  cases hlink : host.readlink (fdPath fd) with
  | none =>
    rw [readlinkInto_of_none hlink]
    exact ⟨fun ⟨b', h, _⟩ => (nomatch h), fun ⟨link, target, rest, h, _⟩ => (nomatch h)⟩
  | some link =>
    obtain ⟨gPathAt, hcall, hstring, _⟩ := readlinkInto_of_some hlink buf
    rw [hcall]
    simp only [testsFlags_eq, if_true, hstring]
    cases htarget : host.readlink (link.take pathMax) with
    | none =>
      rw [readlinkInto_of_none htarget]
      refine ⟨fun ⟨b', h, _⟩ => (nomatch h), ?_⟩
      rintro ⟨link', target, rest, hl, ht, _⟩
      cases hl
      exact nomatch htarget.symm.trans ht
    | some target =>
      obtain ⟨iobuf, hio, hbytes, hbehind⟩ := appendPath_spec htarget path b.gIOBuffer
      rw [hio]
      have hnonzero : ∀ c ∈ target.take pathMax ++ slash :: path, c ≠ 0 := by
        intro c hc
        rcases List.mem_append.mp hc with hc | hc
        · exact host.readlink_string _ _ htarget c (List.mem_of_mem_take hc)
        · rcases List.mem_cons.mp hc with rfl | hc
          · decide
          · exact hpath c hc
      have hiff := isCString_append_iff (s := host.pathAt dir path flags) hbytes hnonzero
      simp only [hbehind] at hiff
      constructor
      · rintro ⟨b', heq, hstr⟩
        obtain ⟨_, rfl⟩ := Prod.mk.inj heq
        obtain ⟨rest, hrest, hsame⟩ := hiff.mp hstr
        exact ⟨link, target, rest, rfl, htarget, hrest, hsame.symm⟩
      · rintro ⟨link', target', rest, hl, ht, hrest, hsame⟩
        cases hl
        obtain rfl := Option.mem_unique htarget ht
        exact ⟨_, rfl, hiff.mpr ⟨rest, hrest, hsame.symm⟩⟩

/-- A host with `/d` as the current directory, the descriptor 3 open on `/d`, and for `linked` a
link from `/d` to `/e`. -/
def smallHost (linked : Bool) : PathHost where
  getcwd := some [47, 100]
  readlink path :=
    if path = fdPath 3 then some [47, 100]
    else if path = [47, 100] ∧ linked = true then some [47, 101]
    else none
  getcwd_string := by
    intro dir hdir
    cases hdir
    simp
  readlink_string := by
    intro path target htarget
    split at htarget
    · cases htarget
      simp
    · split at htarget
      · cases htarget
        simp
      · exact nomatch htarget

def unusedBuffers : PathBuffers := ⟨fun _ => 0, fun _ => 0⟩

/-- The path `x` in the directory of the descriptor 3, which is a link: `/e/x`. -/
theorem getPathAt_link :
    ∃ b', getPathAt (smallHost true) 3 [120] 0 unusedBuffers = (.ioBuffer, b') ∧
      IsCString b'.gIOBuffer [47, 101, 47, 120] := by
  have hreports : (smallHost true).Reports 3 [47, 100] := .inr ⟨by decide, by decide⟩
  have hrel : [(120 : UInt8)].head? ≠ some slash := by decide
  have hiff := getPathAt_iff (smallHost true) 3 hreports hrel (by simp) (by decide) 0
    unusedBuffers
  exact hiff.mpr ⟨[47, 100], [47, 101], [], by decide, by decide, ⟨nofun, nofun, by decide⟩,
    by decide⟩

/-- Without the link there is no path. With it, what is left in the buffer is taken for a part of
the path: `/e/xy`. -/
theorem getPathAt_directory :
    (getPathAt (smallHost false) 3 [120] 0 unusedBuffers).1 = .null ∧
      (getPathAt (smallHost true) atFDCWD [120] 0 unusedBuffers).1 = .null ∧
      cString (getPathAt (smallHost true) 3 [120] 0
        ⟨fun _ => 0, fun k => if k = 4 then 121 else 0⟩).2.gIOBuffer =
          [47, 101, 47, 120, 121] ∧
      (smallHost false).Reports 3 [47, 100] ∧ (smallHost true).Reports atFDCWD [47, 100] ∧
      (smallHost true).pathAt [47, 100] [120] 0 = [47, 101, 47, 120] :=
  ⟨by decide +kernel, by decide +kernel, by decide +kernel, .inr ⟨by decide, by decide⟩,
    .inl ⟨rfl, rfl⟩, by decide⟩

end Vmill.Linux
