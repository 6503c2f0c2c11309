import Vmill.Logic.Access
import Vmill.Logic.Version

/-!
# Accesses that succeed

An access that reaches the end of the 64-bit space has an end below its start: the page loop has
nothing to do, and returns `true`. A typed read is safe, since it looks up its first byte before it
falls back to the loop. A read that ends in the last page has to fail in front of it, or it does not
return at all.
-/

namespace Vmill

open Base AddressSpace

namespace Value

/-- A read of this form at `addr` returns, and with `true` only if all of its bytes were read
from mapped pages. -/
def ReadsAll (v : Value) (s : AddressSpace) (h : Heap) (addr : Nat) : Prop :=
  ∃ ok vals, v.tryRead s h addr = some (ok, vals) ∧
    (ok = true → vals.length = v.bytes.length ∧
      ∀ i (hi : i < vals.length), view h s ((addr &&& s.addrMask) + i) = some vals[i])

/-- A write of this form at `addr` returns, and with `true` only if all of its bytes were stored
to mapped pages. -/
def WritesAll (v : Value) (cfg : Config) (s : AddressSpace) (h : Heap) (addr : Nat) : Prop :=
  ∃ ok s' h', v.tryWrite cfg s h addr = some (ok, s', h') ∧
    (ok = true → ∀ i (hi : i < v.bytes.length),
      (view h s ((addr &&& s.addrMask) + i)).isSome = true ∧
        view h' s' ((addr &&& s.addrMask) + i) = some v.bytes[i])

/-- The read ends in front of the last page, or ends inside it and fails in front of it. One that
looks up its first byte may also begin in the last page. -/
def ReadEnds (v : Value) (s : AddressSpace) (h : Heap) (addr : Nat) : Prop :=
  (addr &&& s.addrMask) + v.bytes.length ≤ 2 ^ 64 - 4096 ∨
    ((addr &&& s.addrMask) + v.bytes.length < 2 ^ 64 ∧ FrontFails h s addr) ∨
    (2 ^ 64 - 4096 ≤ (addr &&& s.addrMask) ∧ ¬ ∃ vals, v = .sized vals)

/-- The access ends before the end of the 64-bit space (or in its last page, once
wrapped). -/
def EndsWithin (addr size : Nat) : Prop :=
  addr + size < 2 ^ 64 ∨ 2 ^ 64 - 4096 < wrap64 (addr + size)

end Value

namespace AddressSpace

variable {h : Heap} {s s' : AddressSpace} {addr : Nat} {vals : List UInt8} {v : Value}

lemma view_last (hwf : h.WF) (hs : s.WF h) : view h s (2 ^ 64 - 1) = none := by
  refine (view_eq_none hwf hs).mpr fun p ho => ?_
  have hlt := hs.limit_lt p ho.mem
  have hin := ho.inside.2
  omega

lemma tryReadTyped_true (hwf : h.WF) (hs : s.WF h) {type : ValueType}
    (hr : tryReadTyped type s h addr = some (true, vals, s')) :
    vals.length = type.size ∧
      ∀ i (hi : i < vals.length), view h s ((addr &&& s.addrMask) + i) = some vals[i] := by
  have hsize := type.size_le
  by_cases hlast : (addr &&& s.addrMask) < 2 ^ 64 - 4096
  · rcases tryReadTyped_or_missing hwf.rooted s type hlast with heq | ⟨_, _, htyped, _⟩
    · exact tryRead_true hwf hs (by omega) (heq ▸ hr)
    · rw [htyped] at hr
      simp at hr
  rw [tryReadTyped_last hwf hs type (by omega)] at hr
  simp at hr

lemma tryReadByte_true (hwf : h.WF) (hs : s.WF h) (hr : (s.tryReadByte h addr).1 = true) :
    view h s (addr &&& s.addrMask) = some (s.tryReadByte h addr).2.1 := by
  have halt := mask_lt hs addr
  simp only [tryReadByte, findRange, Heap.read_eq h hwf] at hr ⊢
  generalize addr &&& s.addrMask = a at halt hr ⊢
  obtain ⟨_, ho | ⟨hinv, _⟩⟩ := findRangeAligned_spec hs (alignDownToPage a)
  · have hoa := (owns_alignDown_iff hs halt).mpr ho
    exact hoa.view_eq hwf hs
  rw [hinv, (Heap.isValid_eq_false_iff hwf).mpr hs.invalid] at hr
  simp at hr

/-- The typed read returns exactly if its first byte is not found, or the bytes after it are not in
the last page. -/
lemma tryReadTyped_isSome_iff (hwf : h.WF) (hs : s.WF h) (type : ValueType) (addr : Nat) :
    (∃ r, tryReadTyped type s h addr = some r) ↔
      (addr &&& s.addrMask) + type.size ≤ 2 ^ 64 - 4096 ∨ FrontFails h s addr ∨
        2 ^ 64 - 4096 ≤ (addr &&& s.addrMask) := by
  have hsize := type.size_le
  by_cases hlast : (addr &&& s.addrMask) < 2 ^ 64 - 4096
  · have hsame : (∃ r, tryReadTyped type s h addr = some r) ↔
        ∃ r, s.tryRead h addr type.size = some r := by
      rcases tryReadTyped_or_missing hwf.rooted s type hlast with heq | ⟨_, _, htyped, hsized⟩
      · rw [heq]
      · exact iff_of_true ⟨_, htyped⟩ ⟨_, hsized⟩
    rw [hsame]
    by_cases hend : (addr &&& s.addrMask) + type.size ≤ 2 ^ 64 - 4096
    · exact iff_of_true (tryRead_isSome hend) (.inl hend)
    · rw [tryRead_last_iff hs (by rw [wrap64_of_lt (by omega)]; omega), or_iff_right hend,
        or_iff_left (by omega)]
  · exact iff_of_true ⟨_, tryReadTyped_last hwf hs type (by omega)⟩ (.inr (.inr (by omega)))

/-- A sized read that reaches the end of the 64-bit space returns `true` without a byte, or does not
return. -/
lemma tryRead_wraps (hs : s.WF h) {size : Nat} (hsize : size < 2 ^ 64)
    (hwrap : 2 ^ 64 ≤ (addr &&& s.addrMask) + size) :
    (∃ s', s.tryRead h addr size = some (true, [], s')) ∨ s.tryRead h addr size = none := by
  by_cases hend : wrap64 ((addr &&& s.addrMask) + size) ≤ 2 ^ 64 - 4096
  · exact .inl (tryRead_beyond hs hsize hwrap hend)
  right
  have halt := mask_lt hs addr
  refine Option.eq_none_iff_forall_ne_some.mpr fun r hr => ?_
  obtain ⟨hlt, _⟩ := (tryRead_last_iff hs (by omega)).mp ⟨r, hr⟩
  unfold wrap64 at hend
  omega

/-- When a read that reports success has read every byte. -/
lemma readsAll_iff (hwf : h.WF) (hs : s.WF h) (addr : Nat) (hne : v.bytes ≠ [])
    (hsize : v.bytes.length < 2 ^ 64) : v.ReadsAll s h addr ↔ v.ReadEnds s h addr := by
  have halt := mask_lt hs addr
  unfold Value.ReadsAll Value.ReadEnds
  cases v with
  | byte val =>
    refine iff_of_true ⟨_, _, rfl, fun hok => ⟨rfl, fun i hi => ?_⟩⟩ ?_
    · obtain rfl : i = 0 := by simpa using hi
      exact tryReadByte_true hwf hs hok
    · simp only [Value.bytes, List.length_singleton, reduceCtorEq, exists_false, not_false_eq_true,
        and_true]
      omega
  | typed type val =>
    have hlen : (Value.typed type val).bytes.length = type.size := val.toList_length
    have hle := type.size_le
    have hiff := tryReadTyped_isSome_iff hwf hs type addr
    simp only [hlen, Value.tryRead, reduceCtorEq, exists_false, not_false_eq_true, and_true]
    constructor
    · rintro ⟨ok, vals, hr, _⟩
      obtain ⟨r, hr, _⟩ := Option.map_eq_some_iff.mp hr
      rcases hiff.mp ⟨r, hr⟩ with hend | hfront | hlast
      · exact .inl hend
      · have hlt := hfront.1
        exact .inr (.inl ⟨by omega, hfront⟩)
      · exact .inr (.inr hlast)
    · intro hends
      obtain ⟨⟨ok, vals, s'⟩, hr⟩ := hiff.mpr (hends.imp_right (.imp_left And.right))
      refine ⟨ok, vals, by rw [hr]; rfl, ?_⟩
      rintro rfl
      exact tryReadTyped_true hwf hs hr
  | sized buf =>
  have hlen : (Value.sized buf).bytes.length = buf.length := rfl
  have hpos := List.length_pos_iff.mpr hne
  rw [hlen] at hsize hpos
  simp only [hlen, Value.tryRead, Value.sized.injEq, exists_eq', not_true_eq_false, and_false,
    or_false]
  constructor
  · rintro ⟨ok, vals, hr, hall⟩
    simp only [Option.map_eq_some_iff, Prod.mk.injEq] at hr
    obtain ⟨⟨_, _, s'⟩, hr, rfl, rfl⟩ := hr
    by_cases hlt : (addr &&& s.addrMask) + buf.length < 2 ^ 64
    · by_cases hend : (addr &&& s.addrMask) + buf.length ≤ 2 ^ 64 - 4096
      · exact .inl hend
      · exact .inr ⟨hlt, (tryRead_last_iff hs (by rw [wrap64_of_lt hlt]; omega)).mp ⟨_, hr⟩⟩
    rcases tryRead_wraps hs hsize (not_lt.mp hlt) with ⟨s1, hwraps⟩ | hnone
    · cases hr.symm.trans hwraps
      have hzero := (hall rfl).1
      exact absurd hzero hpos.ne
    · cases hr.symm.trans hnone
  · intro hends
    have hlt : (addr &&& s.addrMask) + buf.length < 2 ^ 64 := by omega
    obtain ⟨⟨ok, vals, s'⟩, hr⟩ : ∃ r, s.tryRead h addr buf.length = some r := by
      by_cases hend : (addr &&& s.addrMask) + buf.length ≤ 2 ^ 64 - 4096
      · exact tryRead_isSome hend
      · exact (tryRead_last_iff hs (by rw [wrap64_of_lt hlt]; omega)).mpr
          (hends.resolve_left hend).2
    refine ⟨ok, vals, by rw [hr]; rfl, ?_⟩
    rintro rfl
    exact tryRead_true hwf hs hlt hr

lemma Updates.stores {h' : Heap} (hwf : h.WF) (hs : s.WF h) {a : Nat}
    (hu : Updates h s h' s' (overwrite (AddressSpace.view h s) a (vals.map some))) {i : Nat}
    (hi : i < vals.length) :
    (AddressSpace.view h s (a + i)).isSome = true ∧
      AddressSpace.view h' s' (a + i) = some vals[i] := by
  have hstored : AddressSpace.view h' s' (a + i) = some vals[i] := by
    rw [hu.view, overwrite_of_mem (by rwa [List.length_map]), List.getElem_map]
  refine ⟨?_, hstored⟩
  obtain ⟨p, ho⟩ := exists_owner (hu.heapWF hwf) (hu.wf hs) (by rw [hstored]; rfl)
  rw [(hu.owns.mp ho).view_eq hwf hs]
  rfl

lemma tryWriteValue_beyond (cfg : Config) (hwf : h.WF) (hs : s.WF h)
    (hsize : v.bytes.length < 2 ^ 64) (hwrap : 2 ^ 64 ≤ (addr &&& s.addrMask) + v.bytes.length)
    (hend : wrap64 ((addr &&& s.addrMask) + v.bytes.length) ≤ 2 ^ 64 - 4096)
    (hw : wrap64 ((addr &&& s.addrMask) + v.bytes.length) ≤ alignDownToPage (addr &&& s.addrMask) ∨
      s.canWriteAligned (alignDownToPage (addr &&& s.addrMask)) = true) :
    ∃ s' h', v.tryWrite cfg s h addr = some (true, s', h') := by
  have halt := mask_lt hs addr
  have hmask := mask_mask s addr
  obtain ⟨q, hc⟩ := tryWriteValue_cases v cfg hwf hs addr
  generalize addr &&& s.addrMask = a at halt hmask hwrap hend hw hc
  generalize v.tryWrite cfg s h addr = r at hc
  cases hc with
  | fast _ p s2 h2 _ ho _ _ hfit _ heq =>
    have hop := (owns_alignDown_iff hs halt).mp ho
    have hbound := hop.page_le hs (alignDownToPage_mod a)
    omega
  | slow s1 h1 hacc _ hp _ heq =>
  have hu := WriteCases.prepared_updates hwf hs hacc hp
  have hag := tryWrite_agrees cfg (hu.heapWF hwf) (hu.wf hs) a v.bytes
  have hflat : Flat.tryWrite s.pageIsWritable (view h1 s1) a v.bytes =
      some (true, view h1 s1) := Flat.tryWrite_beyond _ halt hsize hwrap hend hw
  rw [hacc.canWrite, hacc.addrMask, hmask, hflat] at hag
  rcases hag with ⟨_, hnone⟩ | ⟨ok, s', h', m, hsome, hflat, _⟩
  · simp at hnone
  obtain ⟨rfl, _⟩ : true = ok ∧ _ := by simpa using hflat
  exact ⟨s', h', heq.trans hsome⟩

lemma tryWriteValue_isSome (cfg : Config) (v : Value) (hwf : h.WF) (hs : s.WF h) (addr : Nat) :
    ∃ ok s' h', v.tryWrite cfg s h addr = some (ok, s', h') := by
  obtain ⟨q, hc⟩ := tryWriteValue_cases v cfg hwf hs addr
  generalize v.tryWrite cfg s h addr = r at hc
  cases hc with
  | fast _ p s2 h2 _ _ _ _ _ _ heq => exact ⟨_, _, _, heq⟩
  | slow s1 h1 hacc _ hp _ heq =>
  have hu := WriteCases.prepared_updates hwf hs hacc hp
  obtain ⟨_, hflat⟩ := Flat.tryWrite_isSome (view h1 s1) ((addr &&& s.addrMask) &&& s1.addrMask)
    v.bytes ((hu.wf hs).lastPage (2 ^ 64 - 4096) le_rfl)
  rcases tryWrite_agrees cfg (hu.heapWF hwf) (hu.wf hs) (addr &&& s.addrMask) v.bytes with
    ⟨_, hnone⟩ | ⟨ok, s', h', _, hsome, _⟩
  · cases hflat.symm.trans hnone
  · exact ⟨ok, s', h', heq.trans hsome⟩

lemma writesAll_iff {cfg : Config} (hwf : h.WF) (hs : s.WF h) (addr : Nat)
    (hsize : v.bytes.length < 2 ^ 64) :
    v.WritesAll cfg s h addr ↔
      (Value.EndsWithin (addr &&& s.addrMask) v.bytes.length ∨
        (alignDownToPage (addr &&& s.addrMask) <
            wrap64 ((addr &&& s.addrMask) + v.bytes.length) ∧
          s.canWriteAligned (alignDownToPage (addr &&& s.addrMask)) = false)) := by
  have halt := mask_lt hs addr
  have hmask := mask_mask s addr
  constructor
  · -- the last byte before the wrap is not mapped
    rintro ⟨ok, s1, h1, hrun, hall⟩
    by_contra hno
    simp only [Value.EndsWithin, not_or, not_lt, not_and, Bool.not_eq_false] at hno
    obtain ⟨⟨hwrap, hend⟩, hpage⟩ := hno
    have hw := (Nat.lt_or_ge (alignDownToPage (addr &&& s.addrMask))
      (wrap64 ((addr &&& s.addrMask) + v.bytes.length))).symm.imp_right hpage
    obtain ⟨s', h', hr⟩ := tryWriteValue_beyond cfg hwf hs hsize hwrap hend hw
    cases hrun.symm.trans hr
    obtain ⟨hmapped, _⟩ := hall rfl (2 ^ 64 - 1 - (addr &&& s.addrMask)) (by omega)
    rw [Nat.add_sub_cancel' (by omega), view_last hwf hs] at hmapped
    simp at hmapped
  intro hcond
  obtain ⟨ok, s', h', hr⟩ := tryWriteValue_isSome cfg v hwf hs addr
  refine ⟨ok, s', h', hr, ?_⟩
  rintro rfl i hi
  obtain ⟨q, hc⟩ := tryWriteValue_cases v cfg hwf hs addr
  rw [hr] at hc
  generalize addr &&& s.addrMask = a at halt hmask hcond hc ⊢
  cases hc with
  | fast _ p s2 h2 _ ho hacc _ hfit hw heq =>
    obtain ⟨rfl, rfl⟩ : s' = s2 ∧ h' = h2 := by simpa using heq
    exact (WriteCases.fast_updates hwf hs halt ho hacc hfit hw).stores hwf hs hi
  | slow s1 h1 hacc _ hp _ heq =>
  have hu := WriteCases.prepared_updates hwf hs hacc hp
  have hag := (tryWrite_agrees cfg (hu.heapWF hwf) (hu.wf hs) a v.bytes).after hu
  rw [← heq, hacc.canWrite, hacc.addrMask, hmask, hu.view] at hag
  rcases hag with ⟨hnone, _⟩ | ⟨ok, s2, h2, m, hsome, hflat, hu'⟩
  · simp at hnone
  obtain ⟨rfl, rfl, rfl⟩ : true = ok ∧ s' = s2 ∧ h' = h2 := by simpa using hsome
  rcases hcond with (hlt | hpage) | ⟨hlt, hnw⟩
  · obtain ⟨rfl, _⟩ := Flat.tryWrite_true hlt hflat
    exact hu'.stores hwf hs hi
  · exact absurd hflat (Flat.writeLoop_ne_true (alignDownToPage_mod _)
      ((alignDownToPage_le _).trans_lt halt) hpage)
  unfold Flat.tryWrite kPageSteps at hflat
  rw [Flat.writeLoop, if_pos hlt, if_neg (by
    intro hw
    rw [canWriteAligned, hw] at hnw
    exact absurd hnw (by simp))] at hflat
  simp at hflat

end AddressSpace

/-- **No vacuous success.** In every reachable address space: a read returns, and with `true` only if
it has read all of its bytes from mapped pages, exactly if it ends in front of the last page, fails
there, or is a byte or typed value inside the last page; a write returns, and with `true` only if it
has stored all of its bytes to mapped pages, exactly if it does not reach the end of the 64-bit
space, or wraps around it in front of a page that is checked and not writable. -/
theorem no_vacuous_success {cfg : Config} {w : World} (hw : World.Reachable cfg w) {i : Nat}
    {s : AddressSpace} (hi : w.spaces[i]? = some s) (addr : Nat) {v : Value}
    (hne : v.bytes ≠ []) (hsize : v.bytes.length < 2 ^ 64) :
    (v.ReadsAll s w.heap addr ↔ v.ReadEnds s w.heap addr) ∧
    (v.WritesAll cfg s w.heap addr ↔
      (Value.EndsWithin (addr &&& s.addrMask) v.bytes.length ∨
        (alignDownToPage (addr &&& s.addrMask) <
            wrap64 ((addr &&& s.addrMask) + v.bytes.length) ∧
          s.canWriteAligned (alignDownToPage (addr &&& s.addrMask)) = false))) :=
  ⟨readsAll_iff hw.wf.heap (hw.wf.space i s hi) addr hne hsize,
    writesAll_iff hw.wf.heap (hw.wf.space i s hi) addr hsize⟩

/-- An 80-bit value at the end of a mapped page and the beginning of an unmapped one. -/
theorem no_vacuous_success_f80 :
    ∃ w s, World.Reachable (amd64 false) w ∧ w.spaces[0]? = some s ∧
      (Value.sized (List.replicate 10 7)).ReadsAll s w.heap 0x1ffc ∧
      (Value.sized (List.replicate 10 7)).WritesAll (amd64 false) s w.heap 0x1ffc := by
  obtain ⟨w, s, hw, hi, hmask⟩ := World.reachable_eval (amd64 false)
    [.new, .addMap 0 0x1000 0x1000 none 0] (fun _ s => s.addrMask = 2 ^ 64 - 1)
    (by decide +kernel)
  have haddr : 0x1ffc &&& s.addrMask = 0x1ffc := by rw [hmask]; decide
  obtain ⟨hread, hwrite⟩ := no_vacuous_success hw hi 0x1ffc
    (v := .sized (List.replicate 10 7)) (by decide) (by decide)
  refine ⟨w, s, hw, hi, hread.mpr (.inl ?_), hwrite.mpr (.inl (.inl ?_))⟩ <;>
    · rw [haddr]
      decide

/-- In an address space without any mapping, accesses succeed at the end of the 64-bit space. -/
theorem vacuous_success_at_end :
    ∃ w s, World.Reachable (amd64 false) w ∧ w.spaces[0]? = some s ∧
      (∀ a, view w.heap s a = none) ∧
      (Value.sized (List.replicate 10 7)).tryRead s w.heap (2 ^ 64 - 4) = some (true, []) ∧
      (∃ s' h', (Value.sized (List.replicate 10 7)).tryWrite (amd64 false) s w.heap (2 ^ 64 - 4) =
        some (true, s', h')) ∧
      ∃ s' h', (Value.typed .uint16 ⟨[1, 2], rfl⟩).tryWrite (amd64 false) s w.heap (2 ^ 64 - 1) =
        some (true, s', h') := by
  obtain ⟨w, s, hw, hi, hinvalid, hread, hwrite, htyped⟩ := World.reachable_eval (amd64 false)
    [.new]
    (fun w s => (s.maps.all fun p => !w.heap.isValid p) = true ∧
      (Value.sized (List.replicate 10 7)).tryRead s w.heap (2 ^ 64 - 4) = some (true, []) ∧
      (((Value.sized (List.replicate 10 7)).tryWrite (amd64 false) s w.heap (2 ^ 64 - 4)).any
        fun r => r.1) = true ∧
      (((Value.typed .uint16 ⟨[1, 2], rfl⟩).tryWrite (amd64 false) s w.heap (2 ^ 64 - 1)).any
        fun r => r.1) = true)
    (by decide +kernel)
  have hreturns : ∀ r : Option (Bool × AddressSpace × Heap), (r.any fun r => r.1) = true →
      ∃ s' h', r = some (true, s', h') := by
    rintro (_ | ⟨ok, s', h'⟩) hr
    · simp at hr
    · obtain rfl : ok = true := hr
      exact ⟨s', h', rfl⟩
  refine ⟨w, s, hw, hi, fun a => ?_, hread, hreturns _ hwrite, hreturns _ htyped⟩
  refine (view_eq_none hw.wf.heap (hw.wf.space 0 s hi)).mpr fun p ho => ?_
  have hp := List.all_eq_true.mp hinvalid p ho.mem
  rw [(Heap.isValid_iff hw.wf.heap).mpr ho.valid] at hp
  simp at hp

end Vmill
