import Vmill.Logic.Stores
import Vmill.Runtime.Linux.Path
import Vmill.Theorems.Probes
import Mathlib.Data.List.TakeWhile

/-!
# The path that the host receives

The handlers differ in what they look at after the copy of the path: the length and the terminator,
the length alone, or nothing.
-/

namespace Vmill

open Base AddressSpace

namespace Guest

variable {g : Guest} {addr count i : Nat} {b : UInt8}

/-- A string in readable memory, with its terminator. -/
structure IsString (g : Guest) (addr : Nat) (p : List UInt8) : Prop where
  bytes : ∀ k b, p[k]? = some b → readable g.heap g.space (g.addrT (addr + k)) = some b
  nonzero : ∀ b ∈ p, b ≠ 0
  terminated : readable g.heap g.space (g.addrT (addr + p.length)) = some 0

/-- The bytes that are copied, up to the first zero. -/
def stringFrom (g : Guest) (addr count i : Nat) : List UInt8 :=
  (copyFromLoop addr count i g).1.takeWhile (· ≠ 0)

lemma stringFrom_succ (g : Guest) (addr count i : Nat) :
    g.stringFrom addr (count + 1) i =
      if (g.readMemory8 (g.addrT (addr + i))).1 = 0 then []
      else (g.readMemory8 (g.addrT (addr + i))).1 ::
        (g.readMemory8 (g.addrT (addr + i))).2.stringFrom addr count (i + 1) := by
  simp only [stringFrom, copyFromLoop, List.takeWhile_cons, decide_not, Bool.not_eq_true',
    decide_eq_false_iff_not, ite_not]

lemma stringFrom_length_le (g : Guest) (addr count i : Nat) :
    (g.stringFrom addr count i).length ≤ count := by
  have hle := (List.takeWhile_prefix (p := fun b : UInt8 => b ≠ 0)
    (l := (copyFromLoop addr count i g).1)).length_le
  rwa [copyFromLoop_length] at hle

lemma stringFrom_nonzero (hb : b ∈ g.stringFrom addr count i) : b ≠ 0 := by
  unfold stringFrom at hb
  simpa using List.mem_takeWhile_imp hb

lemma copyStringLoop_eq (g : Guest) (addr count i : Nat) (val : Nat → UInt8) :
    (copyStringLoop addr count i g val).1 = i + (g.stringFrom addr count i).length ∧
    (∀ k b, (g.stringFrom addr count i)[k]? = some b →
      (copyStringLoop addr count i g val).2.1 (i + k) = b) ∧
    ((g.stringFrom addr count i).length < count →
      (copyStringLoop addr count i g val).2.1 (i + (g.stringFrom addr count i).length) = 0) ∧
    (∀ k < i, (copyStringLoop addr count i g val).2.1 k = val k) := by
  induction count generalizing g i val with
  | zero => exact ⟨rfl, nofun, nofun, fun _ _ => rfl⟩
  | succ count ih =>
  rw [stringFrom_succ]
  simp only [copyStringLoop]
  generalize g.readMemory8 (g.addrT (addr + i)) = r
  obtain ⟨b, g1⟩ := r
  dsimp only
  by_cases hb : b = 0
  · rw [if_pos hb, if_pos hb]
    refine ⟨rfl, nofun, fun _ => ?_, fun k hk => ?_⟩
    · show Function.update val i b (i + 0) = 0
      rw [Nat.add_zero, Function.update_self, hb]
    · exact Function.update_of_ne hk.ne b val
  rw [if_neg hb, if_neg hb]
  obtain ⟨hlen, hbytes, hend, hold⟩ := ih g1 (i + 1) (Function.update val i b)
  rw [List.length_cons]
  refine ⟨by rw [hlen]; omega, ?_, ?_, ?_⟩
  · rintro (_ | k) c hc
    · cases hc
      exact (hold i (Nat.lt_succ_self i)).trans (Function.update_self i b val)
    rw [← Nat.add_assoc, Nat.add_right_comm]
    exact hbytes k c hc
  · intro hlt
    rw [← Nat.add_assoc, Nat.add_right_comm]
    exact hend (Nat.lt_of_succ_lt_succ hlt)
  intro k hk
  rw [hold k (by omega), Function.update_of_ne hk.ne]

lemma readMemory8_of_readable (hwf : g.heap.WF) (hs : g.space.WF g.heap) {a : Nat}
    (hb : readable g.heap g.space (g.addrT a) = some b) : (g.readMemory8 (g.addrT a)).1 = b := by
  have hmask : g.addrT a &&& g.space.addrMask = g.addrT a := mask_mask g.space a
  have hacc : g.space.accessible (alignDownToPage (g.addrT a)) = true := by
    unfold readable at hb
    split at hb
    · assumption
    · exact nomatch hb
  have hx := lookupExact_of_accessible hwf hs (alignDownToPage_mod (g.addrT a)) hacc
  obtain ⟨_, hval⟩ := tryReadByte_eq hwf hs (g.addrT a) (by rwa [hmask])
  rw [hmask, hb] at hval
  unfold readMemory8
  dsimp only
  split <;> exact hval

lemma stringFrom_of_bytes {p : List UInt8} (hwf : g.heap.WF) (hs : g.space.WF g.heap)
    (hle : p.length ≤ count)
    (hbytes : ∀ k b, p[k]? = some b → readable g.heap g.space (g.addrT (addr + (i + k))) = some b)
    (hnonzero : ∀ b ∈ p, b ≠ 0)
    (hend : p.length < count → readable g.heap g.space (g.addrT (addr + (i + p.length))) = some 0) :
    g.stringFrom addr count i = p := by
  induction p generalizing g count i with
  | nil =>
    cases count with
    | zero => rfl
    | succ count =>
    rw [stringFrom_succ, if_pos]
    exact readMemory8_of_readable hwf hs (hend (Nat.succ_pos count))
  | cons b p ih =>
  cases count with
  | zero => simp at hle
  | succ count =>
  have hfirst := readMemory8_of_readable hwf hs (hbytes 0 b rfl)
  rw [Nat.add_zero] at hfirst
  rw [stringFrom_succ, hfirst, if_neg (hnonzero b (.head _))]
  obtain ⟨hacc, hheap⟩ := readMemory8_accessed g (g.addrT (addr + i))
  generalize (g.readMemory8 (g.addrT (addr + i))).2 = g1 at hacc hheap
  have hsame : ∀ a, readable g1.heap g1.space (g1.addrT a) =
      readable g.heap g.space (g.addrT a) := by
    intro a
    unfold addrT
    rw [hheap, hacc.readable, hacc.addrMask]
  have hrest : g1.stringFrom addr count (i + 1) = p := by
    refine ih (hheap ▸ hwf) (hheap ▸ hs.accessed hacc) (Nat.le_of_succ_le_succ hle) ?_
      (fun c hc => hnonzero c (.tail _ hc)) ?_
    · intro k c hc
      rw [hsame, Nat.add_right_comm, Nat.add_assoc]
      exact hbytes (k + 1) c hc
    · intro hlt
      rw [hsame, Nat.add_right_comm, Nat.add_assoc]
      exact hend (Nat.succ_lt_succ hlt)
  rw [hrest]

end Guest

namespace Linux

open Guest

variable {g : Guest} {path : Nat}

lemma cString_eq {val : PathBuffer} {p : List UInt8} (hlen : p.length ≤ pathMax)
    (hbytes : ∀ k b, p[k]? = some b → val k = b) (hnonzero : ∀ b ∈ p, b ≠ 0)
    (hend : val p.length = 0) : cString val = p := by
  have hmap : (List.range p.length).map val = p := by
    refine List.ext_getElem? fun k => ?_
    rw [List.getElem?_map]
    rcases Nat.lt_or_ge k p.length with hlt | hge
    · have hk := List.getElem?_eq_getElem hlt
      rw [List.getElem?_range hlt, hk, Option.map_some, hbytes k _ hk]
    rw [List.getElem?_eq_none hge, List.getElem?_eq_none (by rwa [List.length_range])]
    rfl
  obtain ⟨n, hn⟩ : ∃ n, pathMax + 1 = p.length + (n + 1) := ⟨pathMax - p.length, by omega⟩
  unfold cString
  rw [hn, List.range_add, List.map_append, hmap, List.takeWhile_append_of_pos]
  · rw [List.range_succ_eq_map, List.map_cons, List.map_cons, Nat.add_zero, hend,
      List.takeWhile_cons_of_neg (by simp), List.append_nil]
  · exact fun b hb => decide_eq_true (hnonzero b hb)

/-- The path that `CopyString` copies. -/
def pathFound (g : Guest) (path : Nat) : List UInt8 := g.stringFrom path pathMax 0

lemma numReadableBytes_path (hs : g.space.WF g.heap) (path : Nat) :
    g.numReadableBytes path pathMax =
      some (if g.space.canRead path then pathMax else 0) := by
  have hcan : ∀ a, g.space.canRead (g.addrT a) = g.space.canRead a := by
    intro a
    unfold canRead
    rw [addrT, mask_mask g.space]
  rw [numReadableBytes, numBytesLoop_small hs.mask (by decide) (by decide), hcan]

lemma readPath_of_canRead (hs : g.space.WF g.heap) (hok : g.space.canRead path = true)
    (gPath : PathBuffer) :
    ∃ gPath' g', readPath g path gPath = some ((pathFound g path).length, gPath', g') ∧
      cString gPath' = pathFound g path ∧ gPath' (pathFound g path).length = 0 ∧
      g' = (copyStringLoop path pathMax 0 g gPath).2.2 := by
  obtain ⟨hlen, hbytes, hend, _⟩ := copyStringLoop_eq g path pathMax 0 gPath
  have hle := stringFrom_length_le g path pathMax 0
  have hterm : Function.update (copyStringLoop path pathMax 0 g gPath).2.1 pathMax 0
      (pathFound g path).length = 0 := by
    by_cases hfull : (pathFound g path).length = pathMax
    · rw [hfull, Function.update_self]
    rw [Function.update_of_ne hfull, ← hend (by unfold pathFound at hfull; omega), Nat.zero_add]
    rfl
  refine ⟨_, _, ?_, cString_eq hle ?_ (fun b hb => stringFrom_nonzero hb) hterm, hterm, rfl⟩
  · simp only [readPath, copyStringFromMemory, numReadableBytes_path hs, hok, if_true,
      Option.map_some, hlen, Nat.zero_add]
    rfl
  intro k b hb
  obtain ⟨hlt, _⟩ := List.getElem?_eq_some_iff.mp hb
  rw [Function.update_of_ne (by unfold pathFound at hlt; omega), ← hbytes k b hb, Nat.zero_add]

lemma readPath_of_not_canRead (hs : g.space.WF g.heap) (hno : g.space.canRead path ≠ true)
    (gPath : PathBuffer) :
    readPath g path gPath = some (0, Function.update gPath pathMax 0, g) := by
  unfold readPath copyStringFromMemory
  rw [numReadableBytes_path hs, if_neg hno]
  rfl

/-- The host receives the same path whatever is left in `gPath`, or is never called; and what it
receives is the string in guest memory. -/
structure HistoryFree (g : Guest) (c : PathCall) : Prop where
  same : ∀ b b', c.hostPath g b = c.hostPath g b'
  exact : ∀ b p, c.hostPath g b = some p → g.IsString c.path p

/-- There is a string of at most `n` bytes. -/
def StringWithin (g : Guest) (path n : Nat) : Prop := ∃ p, p.length ≤ n ∧ g.IsString path p

/-- The first byte of the path can be read, and there is a string that is not too long, or no
byte reads as a terminator. -/
def CheckedPath (g : Guest) (path : Nat) : Prop :=
  g.space.canRead path = true ∧
    (StringWithin g path (pathMax - 1) ∨ ∀ b ∈ (g.copyFromMemory path pathMax).1, b ≠ 0)

/-- The first byte can be read, and there is a string that fits the buffer. -/
def UncheckedPath (g : Guest) (path : Nat) : Prop :=
  g.space.canRead path = true ∧ StringWithin g path pathMax

/-- `readlink` gets to the call of the host. -/
structure ReadLinkCalls (g : Guest) (path buf size : Nat) : Prop where
  notNegative : isNegative g size = false
  notNull : buf ≠ 0
  canRead : g.space.canRead path = true
  nonempty : (g.readMemory8 (g.addrT path)).1 ≠ 0
  writable : ∃ n, g.numWritableBytes buf size = some n ∧ n ≠ 0

/-- The condition under which the call is `HistoryFree`. -/
def PathSafe (g : Guest) : PathCall → Prop
  | .open' path _ _ | .access path _ => CheckedPath g path
  | .stat path buf => path = 0 ∨ buf = 0 ∨ CheckedPath g path
  | .readlink path buf size => ReadLinkCalls g path buf size → StringWithin g path pathMax
  | .mkdir path _ | .mkdirat _ path _ | .rmdir path => UncheckedPath g path

lemma isString_pathFound_iff (hwf : g.heap.WF) (hs : g.space.WF g.heap) {n : Nat}
    (hn : n ≤ pathMax) (hlen : (pathFound g path).length ≤ n) :
    g.IsString path (pathFound g path) ↔ StringWithin g path n := by
  constructor
  · exact fun h => ⟨_, hlen, h⟩
  rintro ⟨p, hp, h⟩
  have hfound : pathFound g path = p := by
    refine stringFrom_of_bytes hwf hs (hp.trans hn) ?_ h.nonzero ?_
    · intro k b hb
      rw [Nat.zero_add]
      exact h.bytes k b hb
    intro _
    rw [Nat.zero_add]
    exact h.terminated
  rwa [hfound]

lemma pathFound_length_eq_iff (g : Guest) (path : Nat) :
    (pathFound g path).length = pathMax ↔ ∀ b ∈ (g.copyFromMemory path pathMax).1, b ≠ 0 := by
  have hlen := copyFromLoop_length g path pathMax 0
  constructor
  · intro heq b hb
    have hprefix : pathFound g path <+: (g.copyFromMemory path pathMax).1 := List.takeWhile_prefix _
    have hall := hprefix.eq_of_length (heq.trans hlen.symm)
    rw [← hall] at hb
    exact stringFrom_nonzero hb
  intro hall
  have heq : pathFound g path = (g.copyFromMemory path pathMax).1 :=
    List.takeWhile_eq_self_iff.mpr fun b hb => decide_eq_true (hall b hb)
  rw [heq]
  exact hlen

lemma checkedCall_path (hs : g.space.WF g.heap) (call : HostCall) (path : Nat)
    (gPath : PathBuffer) :
    (checkedCall call g path gPath).bind (fun r => r.1.path) =
      if g.space.canRead path then
        if (pathFound g path).length < pathMax then some (pathFound g path) else none
      else if gPath 0 = 0 then some [] else none := by
  by_cases hok : g.space.canRead path = true
  · obtain ⟨gPath', g', hread, hstring, hterm, _⟩ := readPath_of_canRead hs hok gPath
    rw [if_pos hok]
    by_cases hlt : (pathFound g path).length < pathMax
    · simp only [checkedCall, hread, ge_iff_le, hlt.not_ge, if_false, hterm, ne_eq,
        not_true_eq_false, Option.bind_some, PathOutcome.path, hstring, hlt, if_true]
    simp only [checkedCall, hread, ge_iff_le, Nat.le_of_not_lt hlt, if_true, Option.bind_some,
      PathOutcome.path, hlt, if_false]
  rw [if_neg hok]
  have hread := readPath_of_not_canRead hs hok gPath
  have hfirst : Function.update gPath pathMax 0 0 = gPath 0 :=
    Function.update_of_ne (by decide) _ _
  by_cases hzero : gPath 0 = 0
  · have hstring : cString (Function.update gPath pathMax 0) = [] :=
      cString_eq (Nat.zero_le _) nofun nofun (hfirst.trans hzero)
    simp only [checkedCall, hread, hfirst, hzero, hstring, ge_iff_le, ne_eq, not_true_eq_false,
      if_false, if_true, PathOutcome.path]
    rfl
  simp only [checkedCall, hread, hfirst, hzero, ge_iff_le, ne_eq, not_false_eq_true, if_true,
    if_false]
  rfl

lemma uncheckedCall_path (hs : g.space.WF g.heap) (call : HostCall) (path : Nat)
    (gPath : PathBuffer) :
    (uncheckedCall call g path gPath).bind (fun r => r.1.path) =
      some (if g.space.canRead path then pathFound g path
        else cString (Function.update gPath pathMax 0)) := by
  by_cases hok : g.space.canRead path = true
  · obtain ⟨gPath', g', hread, hstring, _⟩ := readPath_of_canRead hs hok gPath
    simp only [uncheckedCall, hread, hok, if_true, Option.bind_some, PathOutcome.path, hstring]
  simp only [uncheckedCall, readPath_of_not_canRead hs hok gPath, if_neg hok, Option.bind_some,
    PathOutcome.path]

lemma copyStringLoop_accessed (g : Guest) (addr count i : Nat) (val : Nat → UInt8) :
    Accessed g.space (copyStringLoop addr count i g val).2.2.space ∧
      (copyStringLoop addr count i g val).2.2.heap = g.heap := by
  induction count generalizing g i val with
  | zero => exact ⟨Accessed.refl _, rfl⟩
  | succ count ih =>
  obtain ⟨hacc, hheap⟩ := readMemory8_accessed g (g.addrT (addr + i))
  simp only [copyStringLoop]
  generalize g.readMemory8 (g.addrT (addr + i)) = r at hacc hheap
  obtain ⟨b, g1⟩ := r
  dsimp only at hacc hheap ⊢
  split
  · exact ⟨hacc, hheap⟩
  obtain ⟨hacc', hheap'⟩ := ih g1 (i + 1) (Function.update val i b)
  exact ⟨hacc.trans hacc', hheap'.trans hheap⟩

lemma pathFound_eq_nil_iff (g : Guest) (path : Nat) :
    pathFound g path = [] ↔ (g.readMemory8 (g.addrT path)).1 = 0 := by
  have hsucc : pathFound g path = g.stringFrom path (4095 + 1) 0 := rfl
  rw [hsucc, stringFrom_succ, Nat.add_zero]
  split
  · exact ⟨fun _ => ‹_›, fun _ => rfl⟩
  · exact ⟨nofun, fun h => absurd h ‹_›⟩

lemma sysReadLink_path (hs : g.space.WF g.heap) (path buf size : Nat) (gPath : PathBuffer)
    [Decidable (ReadLinkCalls g path buf size)] :
    (sysReadLink g path buf size gPath).bind (fun r => r.1.path) =
      if ReadLinkCalls g path buf size then some (pathFound g path) else none := by
  unfold sysReadLink
  by_cases hneg : isNegative g size = true
  · rw [if_pos hneg, if_neg fun h => absurd (hneg.symm.trans h.notNegative) (by decide)]
    rfl
  rw [if_neg hneg]
  by_cases hbuf : buf = 0
  · rw [if_pos hbuf, if_neg fun h => h.notNull hbuf]
    rfl
  rw [if_neg hbuf]
  by_cases hok : g.space.canRead path = true
  · obtain ⟨gPath', g', hread, hstring, _, hg'⟩ := readPath_of_canRead hs hok gPath
    have hwritable : g'.numWritableBytes buf size = g.numWritableBytes buf size := by
      rw [hg']
      exact numWritableBytes_accessed (copyStringLoop_accessed g _ _ _ _).1 buf size
    simp only [hread, hwritable, List.length_eq_zero_iff]
    by_cases hnil : pathFound g path = []
    · rw [if_pos hnil,
        if_neg fun h => h.nonempty ((pathFound_eq_nil_iff g path).mp hnil)]
      rfl
    rw [if_neg hnil]
    rcases hnum : g.numWritableBytes buf size with _ | n
    · rw [if_neg]
      · rfl
      rintro ⟨_, _, _, _, m, hm, _⟩
      exact absurd (hnum.symm.trans hm) nofun
    by_cases hn : n = 0
    · rw [if_neg]
      · simp only [hn, if_true]
        rfl
      rintro ⟨_, _, _, _, m, hm, hne⟩
      exact hne ((Option.mem_unique hnum hm).symm.trans hn)
    rw [if_pos ⟨by simpa using hneg, hbuf, hok,
      fun h => hnil ((pathFound_eq_nil_iff g path).mpr h), n, hnum, hn⟩]
    simp only [if_neg hn, Option.bind_some, PathOutcome.path, hstring]
  rw [readPath_of_not_canRead hs hok gPath, if_neg fun h => hok h.canRead]
  rfl

section Calls

variable {c : PathCall}

lemma historyFree_of_none (hnone : ∀ b, c.hostPath g b = none) : HistoryFree g c where
  same b b' := (hnone b).trans (hnone b').symm
  exact b _ hp := absurd ((hnone b).symm.trans hp) nofun

lemma historyFree_of_some {p : List UInt8} (hsome : ∀ b, c.hostPath g b = some p) :
    HistoryFree g c ↔ g.IsString c.path p := by
  refine ⟨fun h => h.exact (fun _ => 0) p (hsome _), fun h => ⟨fun b b' => ?_, fun b q hq => ?_⟩⟩
  · exact (hsome b).trans (hsome b').symm
  · rwa [← Option.mem_unique (hsome b) hq]

lemma historyFree_checked (hwf : g.heap.WF) (hs : g.space.WF g.heap) (call : HostCall)
    (hrun : ∀ b, c.hostPath g b = (checkedCall call g c.path b).bind fun r => r.1.path) :
    HistoryFree g c ↔ CheckedPath g c.path := by
  have hpath : ∀ b, c.hostPath g b = _ := fun b => (hrun b).trans (checkedCall_path hs call c.path b)
  by_cases hok : g.space.canRead c.path = true
  · simp only [hok, if_true] at hpath
    by_cases hlt : (pathFound g c.path).length < pathMax
    · have hstring := isString_pathFound_iff hwf hs (n := pathMax - 1) (Nat.sub_le _ _)
        (Nat.le_pred_of_lt hlt)
      simp only [hlt, if_true] at hpath
      rw [historyFree_of_some hpath, hstring]
      refine ⟨fun h => ⟨hok, .inl h⟩, ?_⟩
      rintro ⟨_, hfound | hall⟩
      · exact hfound
      · exact absurd ((pathFound_length_eq_iff g c.path).mpr hall) hlt.ne
    simp only [hlt, if_false] at hpath
    have hfull : (pathFound g c.path).length = pathMax :=
      Nat.le_antisymm (stringFrom_length_le g c.path pathMax 0) (Nat.le_of_not_lt hlt)
    exact ⟨fun _ => ⟨hok, .inr ((pathFound_length_eq_iff g c.path).mp hfull)⟩,
      fun _ => historyFree_of_none hpath⟩
  simp only [if_neg hok] at hpath
  refine ⟨fun h => ?_, fun h => absurd h.1 hok⟩
  -- the test for the terminator reads a byte that is left in the buffer
  have hsame := h.same (fun _ => 0) (fun _ => 1)
  rw [hpath, hpath] at hsame
  exact absurd hsame (by decide)

lemma cString_ones : cString (Function.update (fun _ => 1) pathMax 0) ≠ [] := by
  unfold cString
  rw [List.range_succ_eq_map, List.map_cons, List.takeWhile_cons_of_pos (by decide)]
  exact List.cons_ne_nil _ _

lemma historyFree_unchecked (hwf : g.heap.WF) (hs : g.space.WF g.heap) (call : HostCall)
    (hrun : ∀ b, c.hostPath g b = (uncheckedCall call g c.path b).bind fun r => r.1.path) :
    HistoryFree g c ↔ UncheckedPath g c.path := by
  have hpath : ∀ b, c.hostPath g b = _ := fun b =>
    (hrun b).trans (uncheckedCall_path hs call c.path b)
  by_cases hok : g.space.canRead c.path = true
  · simp only [hok, if_true] at hpath
    rw [historyFree_of_some hpath, isString_pathFound_iff hwf hs (Nat.le_refl pathMax)
      (stringFrom_length_le g c.path pathMax 0)]
    exact ⟨fun h => ⟨hok, h⟩, And.right⟩
  simp only [if_neg hok] at hpath
  refine ⟨fun h => ?_, fun h => absurd h.1 hok⟩
  have hsame := h.same (fun _ => 0) (fun _ => 1)
  have hzeros : cString (Function.update (fun _ => 0) pathMax 0) = [] :=
    cString_eq (Nat.zero_le _) nofun nofun rfl
  rw [hpath, hpath, hzeros] at hsame
  exact absurd (Option.some.inj hsame).symm cString_ones

lemma historyFree_readlink (hwf : g.heap.WF) (hs : g.space.WF g.heap) (path buf size : Nat) :
    HistoryFree g (.readlink path buf size) ↔
      (ReadLinkCalls g path buf size → StringWithin g path pathMax) := by
  classical
  have hpath : ∀ b, (PathCall.readlink path buf size).hostPath g b = _ := fun b =>
    sysReadLink_path hs path buf size b
  by_cases hcalls : ReadLinkCalls g path buf size
  · simp only [hcalls, if_true] at hpath
    rw [historyFree_of_some hpath]
    exact (isString_pathFound_iff hwf hs (Nat.le_refl pathMax)
      (stringFrom_length_le g path pathMax 0)).trans ⟨fun h _ => h, fun h => h hcalls⟩
  simp only [hcalls, if_false] at hpath
  exact ⟨fun _ h => absurd h hcalls, fun _ => historyFree_of_none hpath⟩

end Calls

/-- **Paths.** For each handler: the path that the host receives depends on guest memory only, and
is the string there, exactly if the condition holds. -/
theorem path_history_iff (cfg : Config) (w : World) (i : Nat) (g : Guest)
    (hw : World.Reachable cfg w) (hheap : g.heap = w.heap) (hi : w.spaces[i]? = some g.space)
    (c : PathCall) : HistoryFree g c ↔ PathSafe g c := by
  have hwf : g.heap.WF := hheap ▸ hw.wf.heap
  have hs : g.space.WF g.heap := hheap ▸ hw.wf.space i _ hi
  cases c with
  | open' path oflag mode => exact historyFree_checked hwf hs (.open' oflag mode) fun _ => rfl
  | access path type => exact historyFree_checked hwf hs (.access type) fun _ => rfl
  | stat path buf =>
    by_cases hnull : path = 0 ∨ buf = 0
    · have hnone : ∀ b, (PathCall.stat path buf).hostPath g b = none := by
        intro b
        simp only [PathCall.hostPath, PathCall.run, sysStat, if_pos hnull, Option.bind_some,
          PathOutcome.path]
      refine ⟨fun _ => ?_, fun _ => historyFree_of_none hnone⟩
      exact hnull.elim .inl fun hbuf => .inr (.inl hbuf)
    · have hchecked := historyFree_checked (c := .stat path buf) hwf hs .stat fun b => by
        simp only [PathCall.hostPath, PathCall.run, sysStat, if_neg hnull]
        rfl
      rw [hchecked]
      refine ⟨fun h => .inr (.inr h), ?_⟩
      rintro (hpath | hbuf | h)
      · exact absurd (.inl hpath) hnull
      · exact absurd (.inr hbuf) hnull
      · exact h
  | readlink path buf size => exact historyFree_readlink hwf hs path buf size
  | mkdir path mode => exact historyFree_unchecked hwf hs (.mkdir mode) fun _ => rfl
  | mkdirat dirfd path mode => exact historyFree_unchecked hwf hs (.mkdirat dirfd mode) fun _ => rfl
  | rmdir path => exact historyFree_unchecked hwf hs .rmdir fun _ => rfl

abbrev startedGuest (s : AddressSpace) (h : Heap) : Guest := ⟨some (Task.init 0), s, h⟩

/-- The path `/a` is opened. -/
theorem path_history_open : ∃ (w : World) (s : AddressSpace), World.Reachable (amd64 false) w ∧
    w.spaces[0]? = some s ∧ HistoryFree (startedGuest s w.heap) (.open' 0x1000 0 0) := by
  obtain ⟨w, s, hw, hi, hread, hb0, hb1, hb2⟩ :=
    World.reachable_eval (amd64 false)
      [.new, .addMap 0 0x1000 0x1000 none 0, .tryWrite 0 0x1000 [47, 97, 0]]
      (fun w s => s.canRead 0x1000 = true ∧
        readable w.heap s ((startedGuest s w.heap).addrT 0x1000) = some 47 ∧
        readable w.heap s ((startedGuest s w.heap).addrT 0x1001) = some 97 ∧
        readable w.heap s ((startedGuest s w.heap).addrT 0x1002) = some 0)
      (by decide +kernel)
  refine ⟨w, s, hw, hi, (path_history_iff (amd64 false) w 0 (startedGuest s w.heap) hw rfl hi
    (.open' 0x1000 0 0)).mpr ⟨hread, .inl ⟨[47, 97], by decide, ?_, ?_, hb2⟩⟩⟩
  · rintro (_ | _ | k) b hb
    · cases hb
      exact hb0
    · cases hb
      exact hb1
    · exact nomatch hb
  · intro b hb
    rw [List.mem_cons, List.mem_singleton] at hb
    rcases hb with rfl | rfl <;> decide

def leftOver (letter : UInt8) : PathBuffer
  | 0 => 47
  | 1 => letter
  | _ => 0

/-- `rmdir` with a path that is not mapped removes the directory that the previous call
named. -/
theorem removes_previous_path : ∃ (w : World) (s : AddressSpace),
    World.Reachable (amd64 false) w ∧ w.spaces[0]? = some s ∧
    (PathCall.rmdir 0x1000).hostPath (startedGuest s w.heap) (leftOver 97) = some [47, 97] ∧
    (PathCall.rmdir 0x1000).hostPath (startedGuest s w.heap) (leftOver 98) = some [47, 98] ∧
    ¬ HistoryFree (startedGuest s w.heap) (.rmdir 0x1000) := by
  obtain ⟨w, s, hw, hi, hfirst, hsecond⟩ :=
    World.reachable_eval (amd64 false) [.new]
      (fun w s =>
        (PathCall.rmdir 0x1000).hostPath (startedGuest s w.heap) (leftOver 97) = some [47, 97] ∧
        (PathCall.rmdir 0x1000).hostPath (startedGuest s w.heap) (leftOver 98) = some [47, 98])
      (by decide +kernel)
  refine ⟨w, s, hw, hi, hfirst, hsecond, fun h => ?_⟩
  have hsame := h.same (leftOver 97) (leftOver 98)
  rw [hfirst, hsecond] at hsame
  exact absurd hsame (by decide)

end Linux

end Vmill
