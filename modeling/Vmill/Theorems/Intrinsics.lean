import Vmill.Arch.X86.Runtime
import Vmill.Theorems.PageCount
import Vmill.Theorems.Success

/-!
# The two definitions of the read intrinsics

`Runtime.cpp` returns zero from a read that fails. `Runtime.S` returns what is in
`__vmill_mem_value`: what `TryRead` has stored there before it failed, and what is left over from an
earlier read.
-/

namespace Vmill

open Base AddressSpace

variable {vals value : List UInt8} {width : IntWidth} {h : Heap} {s s' : AddressSpace} {a : Nat}
  {m : Assembly} {cfg : Config}

namespace AddressSpace

variable {page fuel addr endAddr : Nat}

/-- The lookup of the page finds a valid range. -/
def finds (s : AddressSpace) (h : Heap) (page : Nat) : Bool :=
  h.isValid (s.findRangeAligned h page).2

lemma finds_owner (hwf : h.WF) (hs : s.WF h) (hfound : s.finds h page = true) :
    Owns h s (s.findRangeAligned h page).2 page := by
  rcases (findRangeAligned_spec hs page).2 with ho | ⟨hinv, _⟩
  · exact ho
  unfold finds at hfound
  rw [hinv, (Heap.isValid_eq_false_iff hwf).mpr hs.invalid] at hfound
  cases hfound

lemma tryReadLoop_found (hwf : h.WF) (hlt : page < endAddr) (hfound : s.finds h page = true) :
    tryReadLoop h (fuel + 1) s page addr endAddr =
      (tryReadLoop h fuel (s.findRangeAligned h page).1 (wrap64 (page + kPageSize))
        (max addr (min endAddr (wrap64 (page + kPageSize)))) endAddr).map fun r =>
          (r.1, (readBytes h (s.findRangeAligned h page).2 addr
            (min endAddr (wrap64 (page + kPageSize)) - addr)).2 ++ r.2.1, r.2.2) := by
  have hall := readBytes_of_valid hwf ((Heap.isValid_iff hwf).mp hfound) addr
    (min endAddr (wrap64 (page + kPageSize)) - addr)
  rw [tryReadLoop, if_pos hlt]
  simp only
  generalize readBytes h (s.findRangeAligned h page).2 addr
    (min endAddr (wrap64 (page + kPageSize)) - addr) = chunk at hall ⊢
  obtain ⟨ok, vals⟩ := chunk
  obtain rfl : ok = true := hall
  simp only
  cases tryReadLoop h fuel (s.findRangeAligned h page).1 (wrap64 (page + kPageSize))
    (max addr (min endAddr (wrap64 (page + kPageSize)))) endAddr <;> rfl

lemma tryReadLoop_missing (hwf : h.WF) (hlt : page < endAddr) (hfound : s.finds h page = false)
    (hchunk : addr < min endAddr (wrap64 (page + kPageSize))) :
    tryReadLoop h (fuel + 1) s page addr endAddr =
      some (false, [0], (s.findRangeAligned h page).1) := by
  have hkind := (Heap.isValid_eq_false_iff hwf).mp hfound
  obtain ⟨count, hcount⟩ : ∃ count,
      min endAddr (wrap64 (page + kPageSize)) - addr = count + 1 :=
    Nat.exists_eq_succ_of_ne_zero (by omega)
  rw [tryReadLoop, if_pos hlt]
  simp only [hcount, readBytes, Heap.read_of_invalid hkind]
  rfl

section

variable {type : ValueType}

/-- The first byte is found: the rest is read from the next page on. -/
lemma tryReadTyped_found (hwf : h.WF) (hs : s.WF h) (ha : addr &&& s.addrMask = a)
    (hfound : s.finds h (alignDownToPage a) = true) :
    ∃ first : List UInt8, first.length = min (a + type.size) (alignDownToPage a + 4096) - a ∧
      (∀ j (hj : j < first.length), view h s (a + j) = some first[j]) ∧
      tryReadTyped type s h addr =
        (tryReadLoop h (2 ^ 52) (s.findRangeAligned h (alignDownToPage a)).1
          (alignDownToPage a + 4096) (max a (min (a + type.size) (alignDownToPage a + 4096)))
          (a + type.size)).map fun r => (r.1, first ++ r.2.1, r.2.2) := by
  have halt : a < 2 ^ 64 := ha ▸ mask_lt hs addr
  have ho := finds_owner hwf hs hfound
  have hpos := type.size_pos
  have hsize := type.size_le
  have hmod := alignDownToPage_mod a
  have hle := alignDownToPage_le a
  have hpa := lt_alignDownToPage_add halt
  have hbound := ho.page_le hs hmod
  have hread : (h.read (s.findRange h a).2 a).1 = true := by
    rw [Heap.read_eq h hwf]
    exact hfound
  have hnext := wrap64_add_page (alignDownToPage a) (by omega)
  obtain ⟨hlen, hview⟩ := readPage_true hwf hs hmod (fun _ => hle) (min_le_right _ _)
    (Prod.ext (readBytes_of_valid hwf ho.valid a (min (a + type.size) (alignDownToPage a + 4096) - a))
      rfl)
  refine ⟨_, hlen, hview, ?_⟩
  rw [tryReadTyped_of_found hwf.rooted ha (by omega) hread]
  unfold tryRead kPageSteps
  simp only [ha, wrap64_of_lt (show a + type.size < 2 ^ 64 by omega)]
  rw [tryReadLoop_found hwf (by omega) hfound, hnext]

lemma tryReadLoop_next (hwf : h.WF) {page endAddr : Nat} (hmod : page % 4096 = 0)
    (hlt : page < endAddr) (hend : endAddr ≤ page + 4096) :
    (page + 4096 = 2 ^ 64 → tryReadLoop h (2 ^ 52) s page page endAddr = none) ∧
    (page + 4096 < 2 ^ 64 → s.finds h page = true →
      ∃ vals s', tryReadLoop h (2 ^ 52) s page page endAddr = some (true, vals, s')) ∧
    (page + 4096 < 2 ^ 64 → s.finds h page = false →
      ∃ s', tryReadLoop h (2 ^ 52) s page page endAddr = some (false, [0], s')) := by
  have hsteps : 2 ^ 52 = (2 ^ 52 - 2) + 1 + 1 := by omega
  refine ⟨fun hlast => ?_, fun hlow hfound => ?_, fun hlow hmissing => ?_⟩
  · exact tryReadLoop_endless (by omega) hmod (by omega) (by omega)
  · have hnext := wrap64_add_page page (by omega)
    rw [hsteps, tryReadLoop_found hwf hlt hfound, hnext, tryReadLoop, if_neg (by omega)]
    exact ⟨_, _, rfl⟩
  have hnext := wrap64_add_page page (by omega)
  rw [hsteps, tryReadLoop_missing hwf hlt hmissing (by rw [hnext]; omega)]
  exact ⟨_, rfl⟩

/-- How a typed read ends. -/
inductive TypedRead (h : Heap) (s : AddressSpace) (a size : Nat) :
    Option (Bool × List UInt8 × AddressSpace) → Prop
  | missing (s' : AddressSpace) (hfirst : s.finds h (alignDownToPage a) = false) :
      TypedRead h s a size (some (false, [], s'))
  | torn (s' : AddressSpace) (first : List UInt8) (hfirst : s.finds h (alignDownToPage a) = true)
      (hcross : alignDownToPage a + 4096 < a + size) (hlow : alignDownToPage a + 8192 < 2 ^ 64)
      (hsecond : (s.findRangeAligned h (alignDownToPage a)).1.finds h
        (alignDownToPage a + 4096) = false)
      (hlen : first.length = alignDownToPage a + 4096 - a)
      (hview : ∀ j (hj : j < first.length), view h s (a + j) = some first[j]) :
      TypedRead h s a size (some (false, first ++ [0], s'))
  | complete (s' : AddressSpace) (vals : List UInt8)
      (hfirst : s.finds h (alignDownToPage a) = true)
      (hrest : alignDownToPage a + 4096 < a + size →
        (s.findRangeAligned h (alignDownToPage a)).1.finds h (alignDownToPage a + 4096) = true)
      (hlen : vals.length = size) : TypedRead h s a size (some (true, vals, s'))
  | endless (hfirst : s.finds h (alignDownToPage a) = true)
      (hlast : alignDownToPage a + 8192 = 2 ^ 64) : TypedRead h s a size none

lemma tryReadTyped_cases (hwf : h.WF) (hs : s.WF h) (type : ValueType) (addr : Nat) :
    TypedRead h s (addr &&& s.addrMask) type.size (tryReadTyped type s h addr) := by
  have htrue : ∀ vals s', tryReadTyped type s h addr = some (true, vals, s') →
      vals.length = type.size := fun vals s' hr => (tryReadTyped_true hwf hs hr).1
  have hread := h.read_eq hwf (s.findRange h (addr &&& s.addrMask)).2 (addr &&& s.addrMask)
  cases hfirst : s.finds h (alignDownToPage (addr &&& s.addrMask)) with
  | false =>
    rw [tryReadTyped_of_missing (by rw [hread]; exact hfirst)]
    exact .missing _ hfirst
  | true =>
  obtain ⟨first, hlen, hview, heq⟩ := @tryReadTyped_found h s _ addr type hwf hs rfl hfirst
  have halt := mask_lt hs addr
  generalize addr &&& s.addrMask = a at hfirst hlen hview heq halt ⊢
  have hsize := type.size_le
  have hmod := alignDownToPage_mod a
  have hpa := lt_alignDownToPage_add halt
  have hbound := (finds_owner hwf hs hfirst).page_le hs hmod
  by_cases hcross : alignDownToPage a + 4096 < a + type.size
  · obtain ⟨hnone, hfound, hmissing⟩ := tryReadLoop_next hwf
      (show (alignDownToPage a + 4096) % 4096 = 0 by omega) hcross (by omega)
    rw [show max a (min (a + type.size) (alignDownToPage a + 4096)) = alignDownToPage a + 4096 by
      omega] at heq
    by_cases hlast : alignDownToPage a + 8192 = 2 ^ 64
    · rw [heq, hnone (by omega)]
      exact .endless hfirst hlast
    cases hsecond : (s.findRangeAligned h (alignDownToPage a)).1.finds h
        (alignDownToPage a + 4096) with
    | true =>
      obtain ⟨vals, s', hloop⟩ := hfound (by omega) hsecond
      rw [heq, hloop] at htrue ⊢
      exact .complete s' _ hfirst (fun _ => hsecond) (htrue _ _ rfl)
    | false =>
      obtain ⟨s', hloop⟩ := hmissing (by omega) hsecond
      rw [heq, hloop]
      exact .torn s' first hfirst hcross (by omega) hsecond (by omega) hview
  rw [show 2 ^ 52 = (2 ^ 52 - 1) + 1 by omega, tryReadLoop, if_neg (by omega)] at heq
  rw [heq]
  exact .complete _ _ hfirst (fun hc => absurd hc hcross) (htrue _ _ heq)

end

end AddressSpace

lemma stored_getElem? {buf vals : List UInt8} {j : Nat} (hj : j < buf.length) :
    (stored buf vals)[j]? = if j < vals.length then vals[j]? else buf[j]? := by
  unfold stored
  rw [List.getElem?_take, if_pos hj]
  split
  · rename_i hlt
    rw [List.getElem?_append_left hlt]
  rename_i hge
  rw [List.getElem?_append_right (by omega), List.getElem?_drop, Nat.add_sub_cancel' (by omega)]

lemma take_eq_zeros_iff {l : List UInt8} {n : Nat} :
    l.take n = List.replicate n 0 ↔ ∀ j, j < n → l[j]? = some 0 := by
  constructor
  · intro heq j hj
    have hget := congrArg (·[j]?) heq
    simp only [List.getElem?_take, List.getElem?_replicate, hj, if_true] at hget
    exact hget
  intro hzero
  refine List.ext_getElem? fun j => ?_
  rw [List.getElem?_take, List.getElem?_replicate]
  split
  · rename_i hj
    exact hzero j hj
  · rfl

lemma take_stored {buf : List UInt8} (hle : vals.length ≤ buf.length) :
    (stored buf vals).take vals.length = vals := by
  refine List.ext_getElem? fun j => ?_
  rw [List.getElem?_take]
  split
  · rename_i hj
    rw [stored_getElem? (by omega), if_pos hj]
  rename_i hj
  rw [List.getElem?_eq_none (by omega)]

lemma IntWidth.bytes_le (width : IntWidth) : width.bytes ≤ 8 := by
  cases width <;> decide

lemma IntWidth.typed (width : IntWidth) : width = .w8 ∨ width ≠ .w8 ∧ ∃ type : ValueType,
    width.bytes = type.size ∧ ∀ s h addr, width.tryRead s h addr = s.tryReadTyped type h addr := by
  cases width with
  | w8 => exact .inl rfl
  | w16 => exact .inr ⟨by decide, .uint16, rfl, fun _ _ _ => rfl⟩
  | w32 => exact .inr ⟨by decide, .uint32, rfl, fun _ _ _ => rfl⟩
  | w64 => exact .inr ⟨by decide, .uint64, rfl, fun _ _ _ => rfl⟩

/-- `__vmill_mem_value` is zero where a read that fails does not store anything, and memory is
zero where it does. -/
structure StagedZero (width : IntWidth) (value : List UInt8) (h : Heap) (s : AddressSpace)
    (a : Nat) : Prop where
  missing : s.finds h (alignDownToPage a) = false → ∀ j, j < width.bytes → value[j]? = some 0
  torn : s.finds h (alignDownToPage a) = true → alignDownToPage a + 4096 < a + width.bytes →
    alignDownToPage a + 8192 < 2 ^ 64 →
    (s.findRangeAligned h (alignDownToPage a)).1.finds h (alignDownToPage a + 4096) = false →
    (∀ j, a + j < alignDownToPage a + 4096 → view h s (a + j) = some 0) ∧
      ∀ j, alignDownToPage a + 4096 < a + j → j < width.bytes → value[j]? = some 0

lemma stagedZero_iff (ha : a < 2 ^ 64) (hvalue : value.length = 8)
    (hread : TypedRead h s a width.bytes (some (false, vals, s'))) :
    (stored value vals).take width.bytes = List.replicate width.bytes 0 ↔
      StagedZero width value h s a := by
  have hbytes := width.bytes_le
  have hlow := alignDownToPage_le a
  have hpa := lt_alignDownToPage_add ha
  rw [take_eq_zeros_iff]
  have hget : ∀ j, j < width.bytes →
      (stored value vals)[j]? = if j < vals.length then vals[j]? else value[j]? :=
    fun j hj => stored_getElem? (by omega)
  cases hread with
  | missing _ hfirst =>
    constructor
    · intro hzero
      refine ⟨fun _ j hj => ?_, fun hno => absurd hno (by rw [hfirst]; decide)⟩
      have hj0 := hzero j hj
      rwa [hget j hj, if_neg (by simp)] at hj0
    intro hz j hj
    rw [hget j hj, if_neg (by simp)]
    exact hz.missing hfirst j hj
  | torn _ first hfirst hcross hbelow hsecond hlen hview =>
  have hlen' : (first ++ [0]).length = first.length + 1 := by simp
  constructor
  · intro hzero
    refine ⟨fun hno => absurd hno (by rw [hfirst]; decide), fun _ _ _ _ => ⟨?_, ?_⟩⟩
    · intro j hj
      have hj0 := hzero j (by omega)
      rw [hget j (by omega), if_pos (by omega), List.getElem?_append_left (by omega),
        List.getElem?_eq_getElem (by omega)] at hj0
      rw [hview j (by omega), hj0]
    intro j hj hlt
    have hj0 := hzero j hlt
    rwa [hget j hlt, if_neg (by omega)] at hj0
  intro hz j hj
  obtain ⟨hmem, hrest⟩ := hz.torn hfirst hcross hbelow hsecond
  rw [hget j hj]
  rcases Nat.lt_trichotomy j first.length with hlt | heq | hgt
  · rw [if_pos (by omega), List.getElem?_append_left hlt, List.getElem?_eq_getElem hlt,
      ← hview j hlt]
    exact hmem j (by omega)
  · rw [if_pos (by omega), heq, List.getElem?_append_right le_rfl, Nat.sub_self]
    rfl
  rw [if_neg (by omega)]
  exact hrest j (by omega) hj

lemma Assembly.readMemory_process (m : Assembly) (width : IntWidth) (memory addr : Nat) :
    (m.readMemory width memory addr).map (fun r => r.2.process) =
      (m.process.readMemory width memory addr).map Prod.snd := by
  unfold readMemory Process.readMemory
  cases m.process.world.spaces[memory]? with
  | none => rfl
  | some s =>
  simp only
  cases width.tryRead s m.process.world.heap addr with
  | none => rfl
  | some r =>
  obtain ⟨ok, vals, s'⟩ := r
  cases ok <;> rfl

lemma AddressSpace.tryReadByte_zero (hwf : h.WF) {addr : Nat} {val : UInt8}
    (hr : s.tryReadByte h addr = (false, val, s')) : val = 0 := by
  simp only [tryReadByte, Heap.read_eq h hwf, Prod.mk.injEq] at hr
  obtain ⟨hinv, hval, _⟩ := hr
  rw [← hval, Heap.byte_of_invalid ((Heap.isValid_eq_false_iff hwf).mp hinv)]

lemma AddressSpace.TypedRead.stagedZero {r : Option (Bool × List UInt8 × AddressSpace)}
    (hread : TypedRead h s a width.bytes r) (hok : ∀ vals s', r ≠ some (false, vals, s')) :
    StagedZero width value h s a := by
  cases hread with
  | missing s' => exact absurd rfl (hok [] s')
  | torn s' first => exact absurd rfl (hok _ s')
  | complete _ _ hfirst hrest =>
    refine ⟨fun hno => ?_, fun _ hcross _ hno => ?_⟩
    · rw [hfirst] at hno
      cases hno
    rw [hrest hcross] at hno
    cases hno
  | endless hfirst hlast =>
  refine ⟨fun hno => ?_, fun _ _ hbelow => by omega⟩
  rw [hfirst] at hno
  cases hno

lemma Assembly.readMemory_agrees_iff (hw : m.process.world.WF) (width : IntWidth) {memory : Nat}
    (hi : m.process.world.spaces[memory]? = some s) (addr : Nat) :
    (m.readMemory width memory addr).map (fun r => (r.1, r.2.process)) =
        m.process.readMemory width memory addr ↔
      width = .w8 ∨ StagedZero width m.staging.memValue.toList m.process.world.heap s
        (addr &&& s.addrMask) := by
  have hwf := hw.heap
  have hs := hw.space memory s hi
  have hlen : m.staging.memValue.toList.length = 8 := m.staging.memValue.2
  unfold readMemory Process.readMemory
  simp only [hi]
  rcases width.typed with rfl | ⟨hne, type, hsize, htyped⟩
  · refine ⟨fun _ => .inl rfl, fun _ => ?_⟩
    simp only [IntWidth.tryRead]
    cases hbyte : s.tryReadByte m.process.world.heap addr with
    | mk ok r =>
      obtain ⟨val, s'⟩ := r
      have hone := @take_stored [val] m.staging.memValue.toList (by simp [hlen])
      cases ok with
      | true => exact congrArg some (Prod.ext hone rfl)
      | false =>
      obtain rfl := tryReadByte_zero hwf hbyte
      exact congrArg some (Prod.ext hone rfl)
  have hread := tryReadTyped_cases hwf hs type addr
  rw [← htyped, ← hsize] at hread
  rw [or_iff_right hne]
  cases hr : width.tryRead s m.process.world.heap addr with
  | none =>
    rw [hr] at hread
    exact ⟨fun _ => hread.stagedZero fun _ _ hno => (by cases hno), fun _ => rfl⟩
  | some r =>
  obtain ⟨ok, vals, s'⟩ := r
  rw [hr] at hread
  cases ok with
  | true =>
    refine ⟨fun _ => hread.stagedZero fun _ _ hno => (by cases hno), fun _ => ?_⟩
    cases hread with
    | complete _ _ _ _ hvals =>
      have hasm := @take_stored vals m.staging.memValue.toList
        (by rw [hlen, hvals]; exact width.bytes_le)
      have hcxx := @take_stored vals (List.replicate width.bytes 0) (by simp [hvals])
      rw [hvals] at hasm hcxx
      rw [List.take_of_length_le (by simp [stored_length])] at hcxx
      exact congrArg some (Prod.ext (hasm.trans hcxx.symm) rfl)
  | false =>
  rw [← stagedZero_iff (mask_lt hs addr) hlen hread]
  constructor
  · intro heq
    exact (Prod.mk.inj (Option.some.inj heq)).1
  intro hzero
  exact congrArg some (Prod.ext hzero rfl)

section

variable {w : World} {i addr : Nat} {ok : Bool}

lemma IntWidth.tryRead_step {vals : List UInt8} (hi : w.spaces[i]? = some s)
    (hr : width.tryRead s w.heap addr = some (ok, vals, s')) :
    ∃ op o, op.isAccess = true ∧ (memory cfg).step op w = some (o, w.put i s' w.heap) := by
  have htyped : ∀ type : ValueType, s.tryReadTyped type w.heap addr = some (ok, vals, s') →
      ∃ op o, op.isAccess = true ∧ (memory cfg).step op w = some (o, w.put i s' w.heap) := by
    intro type hread
    refine ⟨.tryReadTyped i type addr, .read ok vals, rfl, ?_⟩
    simp only [memory, World.step, World.onSpace, hi, hread, Option.map_some]
  cases width with
  | w8 =>
    refine ⟨.tryReadByte i addr, .read ok vals, rfl, ?_⟩
    simp only [IntWidth.tryRead, Option.some.injEq, Prod.mk.injEq] at hr
    simp only [memory, World.step, World.onSpace, hi, hr]
  | w16 => exact htyped .uint16 hr
  | w32 => exact htyped .uint32 hr
  | w64 => exact htyped .uint64 hr

lemma IntWidth.tryWrite_step {val : List.Vector UInt8 width.bytes} {h' : Heap}
    (hi : w.spaces[i]? = some s) (hr : width.tryWrite cfg s w.heap addr val = some (ok, s', h')) :
    ∃ op o, op.isAccess = true ∧ (memory cfg).step op w = some (o, w.put i s' h') := by
  have htyped : ∀ (type : ValueType) (val : List.Vector UInt8 type.size),
      s.tryWriteTyped cfg type w.heap addr val = some (ok, s', h') →
      ∃ op o, op.isAccess = true ∧ (memory cfg).step op w = some (o, w.put i s' h') := by
    intro type val hwrite
    refine ⟨.tryWriteTyped i type addr val, .wrote ok, rfl, ?_⟩
    simp only [memory, World.step, World.onSpace, hi, hwrite, Option.map_some]
  cases width with
  | w8 =>
    refine ⟨.tryWriteByte i addr val.head, .wrote ok, rfl, ?_⟩
    simp only [IntWidth.tryWrite] at hr
    simp only [memory, World.step, World.onSpace, hi, hr, Option.map_some]
  | w16 => exact htyped .uint16 val hr
  | w32 => exact htyped .uint32 val hr
  | w64 => exact htyped .uint64 val hr

end

/-- Mapping calls are guarded. -/
def Assembly.Guarded (m : Assembly) : Intrinsic → Prop
  | .call op => World.Guarded m.process.world op
  | _ => True

instance (m : Assembly) (op : Intrinsic) : Decidable (m.Guarded op) := by
  cases op <;> unfold Assembly.Guarded <;> infer_instance

lemma World.Reachable.access {w w' : World} (hw : World.Reachable cfg w)
    (hstep : ∃ op o, op.isAccess = true ∧ (memory cfg).step op w = some (o, w')) :
    World.Reachable cfg w' := by
  obtain ⟨op, o, hop, hs⟩ := hstep
  exact hw.next (World.guarded_of_isAccess hop w) hs

namespace Assembly

variable {m' : Assembly} {i addr : Nat}

lemma readMemory_reachable {val : List UInt8} (hw : World.Reachable cfg m.process.world)
    (hr : m.readMemory width i addr = some (val, m')) : World.Reachable cfg m'.process.world := by
  unfold readMemory at hr
  cases hi : m.process.world.spaces[i]? with
  | none =>
    rw [hi] at hr
    cases hr
  | some s =>
  cases hread : width.tryRead s m.process.world.heap addr with
  | none =>
    simp only [hi, hread] at hr
    cases hr
  | some r =>
  obtain ⟨ok, vals, s'⟩ := r
  simp only [hi, hread] at hr
  cases hr
  have hnext := hw.access (IntWidth.tryRead_step hi hread)
  cases ok <;> exact hnext

lemma writeMemory_reachable {val : List.Vector UInt8 width.bytes} {ptr : Nat}
    (hw : World.Reachable cfg m.process.world)
    (hr : m.writeMemory cfg width i addr val = some (ptr, m')) :
    World.Reachable cfg m'.process.world := by
  unfold writeMemory at hr
  cases hi : m.process.world.spaces[i]? with
  | none =>
    rw [hi] at hr
    cases hr
  | some s =>
  cases hwrite : width.tryWrite cfg s m.process.world.heap addr val with
  | none =>
    simp only [hi, hwrite] at hr
    cases hr
  | some r =>
  obtain ⟨ok, s', h'⟩ := r
  simp only [hi, hwrite] at hr
  cases hr
  have hnext := hw.access (IntWidth.tryWrite_step hi hwrite)
  cases ok <;> exact hnext

lemma writeMemory_process (m : Assembly) (cfg : Config) (width : IntWidth) (i addr : Nat)
    (val : List.Vector UInt8 width.bytes) :
    (m.writeMemory cfg width i addr val).map (fun r => (r.1, r.2.process)) =
      m.process.writeMemory cfg width i addr val := by
  unfold writeMemory Process.writeMemory
  cases m.process.world.spaces[i]? with
  | none => rfl
  | some s =>
  simp only
  cases width.tryWrite cfg s m.process.world.heap addr val with
  | none => rfl
  | some r =>
  obtain ⟨ok, s', h'⟩ := r
  cases ok <;> rfl

end Assembly

lemma asmIntrinsics_step {m' : Assembly} {op : Intrinsic} {o : IntrinsicOut}
    (hstep : (asmIntrinsics cfg).step op m = some (o, m')) :
    (World.Reachable cfg m.process.world → m.Guarded op → World.Reachable cfg m'.process.world) ∧
      ∃ o', (cxxIntrinsics cfg).step op m.process = some (o', m'.process) := by
  cases op with
  | read width i addr =>
    obtain ⟨⟨val, m1⟩, hread, heq⟩ := Option.map_eq_some_iff.mp hstep
    obtain ⟨_, rfl⟩ := Prod.mk.inj heq
    have hproc := m.readMemory_process width i addr
    rw [hread, Option.map_some, eq_comm, Option.map_eq_some_iff] at hproc
    obtain ⟨⟨val', p⟩, hcxx, rfl⟩ := hproc
    refine ⟨fun hw _ => Assembly.readMemory_reachable hw hread, .value val', ?_⟩
    simp only [cxxIntrinsics, hcxx, Option.map_some]
  | write width i addr val =>
    obtain ⟨⟨ptr, m1⟩, hwrite, heq⟩ := Option.map_eq_some_iff.mp hstep
    obtain ⟨_, rfl⟩ := Prod.mk.inj heq
    have hproc := m.writeMemory_process cfg width i addr val
    rw [hwrite, Option.map_some] at hproc
    refine ⟨fun hw _ => Assembly.writeMemory_reachable hw hwrite, .memory ptr, ?_⟩
    simp only [cxxIntrinsics, ← hproc, Option.map_some]
  | call op =>
    obtain ⟨⟨o1, w1⟩, hcall, heq⟩ := Option.map_eq_some_iff.mp hstep
    obtain ⟨_, rfl⟩ := Prod.mk.inj heq
    refine ⟨fun hw hguard => hw.next hguard hcall, .answer o1, ?_⟩
    simp only [cxxIntrinsics, hcall, Option.map_some]
  | switchTo task =>
  cases hstep
  exact ⟨fun hw _ => hw, .switched, rfl⟩

lemma asmIntrinsics_reachable {d : Staging} {t : Option Task} {ops : List Intrinsic}
    {os : List IntrinsicOut}
    (hguard : (asmIntrinsics cfg).RunMeets Assembly.Guarded ops ⟨d, t, World.init⟩)
    (hrun : (asmIntrinsics cfg).run ops ⟨d, t, World.init⟩ = some (os, m)) :
    World.Reachable cfg m.process.world :=
  Machine.run_preserves (I := fun m => World.Reachable cfg m.process.world)
    (fun _ _ _ _ hw hg hs => (asmIntrinsics_step hs).1 hw hg) ⟨[], [], trivial, rfl⟩ hguard hrun

/-- **Read intrinsics.** After every run, from any data section and with any task: the intrinsics of
`Runtime.cpp` lead to the same process, and so does the next read; its value is the same exactly if
it is a byte, or what a failed read leaves is zero. -/
theorem read_intrinsics_agree_iff {cfg : Config} {d : Staging} {t : Option Task}
    {ops : List Intrinsic} {os : List IntrinsicOut} {m : Assembly}
    (hguard : (asmIntrinsics cfg).RunMeets Assembly.Guarded ops ⟨d, t, World.init⟩)
    (hrun : (asmIntrinsics cfg).run ops ⟨d, t, World.init⟩ = some (os, m)) {i : Nat}
    {s : AddressSpace} (hi : m.process.world.spaces[i]? = some s) (width : IntWidth) (addr : Nat) :
    (∃ os', (cxxIntrinsics cfg).run ops ⟨t, World.init⟩ = some (os', m.process)) ∧
    (m.readMemory width i addr).map (fun r => r.2.process) =
      (m.process.readMemory width i addr).map Prod.snd ∧
    ((m.readMemory width i addr).map (fun r => (r.1, r.2.process)) =
        m.process.readMemory width i addr ↔
      width = .w8 ∨ StagedZero width m.staging.memValue.toList m.process.world.heap s
        (addr &&& s.addrMask)) := by
  refine ⟨?_, m.readMemory_process width i addr, ?_⟩
  · exact Machine.run_projects (f := Assembly.process)
      (fun _ _ _ _ hs => (asmIntrinsics_step hs).2) hrun
  · exact m.readMemory_agrees_iff (asmIntrinsics_reachable hguard hrun).wf width hi addr

/-- A value is written and read back, by both. -/
theorem read_intrinsics_agree_written :
    ∃ os m s, (asmIntrinsics (amd64 false)).run [.call .new, .call (.addMap 0 0x1000 0x1000 none 0),
        .write .w16 0 0x1000 ⟨[0x34, 0x12], rfl⟩] ⟨.zero, some (.init 0), World.init⟩ =
          some (os, m) ∧
      m.process.world.spaces[0]? = some s ∧
      (m.readMemory .w16 0 0x1000).map (fun r => (r.1, r.2.process)) =
        m.process.readMemory .w16 0 0x1000 := by
  obtain ⟨⟨os, m⟩, hrun, hany⟩ := (Option.any_eq_true _ _).mp
    (show ((asmIntrinsics (amd64 false)).run [.call .new, .call (.addMap 0 0x1000 0x1000 none 0),
      .write .w16 0 0x1000 ⟨[0x34, 0x12], rfl⟩] ⟨.zero, some (.init 0), World.init⟩).any (fun r =>
        r.2.process.world.spaces[0]?.any fun s => decide (0x1000 &&& s.addrMask = 0x1000) &&
          s.finds r.2.process.world.heap 0x1000) = true by decide +kernel)
  obtain ⟨s, hi, hfacts⟩ := (Option.any_eq_true _ _).mp hany
  rw [Bool.and_eq_true, decide_eq_true_eq] at hfacts
  obtain ⟨hmask, hfound⟩ := hfacts
  refine ⟨os, m, s, hrun, hi, ?_⟩
  refine (read_intrinsics_agree_iff (by decide +kernel) hrun hi .w16 0x1000).2.2.mpr (.inr ?_)
  rw [hmask]
  refine ⟨fun hno => ?_, fun _ hcross => absurd hcross (by decide)⟩
  rw [show alignDownToPage 0x1000 = 0x1000 by decide, hfound] at hno
  cases hno

/-- A value is read, and then an address where nothing is mapped: the assembly returns the value
again, where `Runtime.cpp` returns zero. -/
theorem read_intrinsics_left_over :
    ∃ os m m', (asmIntrinsics (amd64 false)).run [.call .new,
        .call (.addMap 0 0x1000 0x1000 none 0), .write .w16 0 0x1000 ⟨[0x34, 0x12], rfl⟩,
        .read .w16 0 0x1000] ⟨.zero, some (.init 0), World.init⟩ = some (os, m) ∧
      m.readMemory .w16 0 0x5000 = some ([0x34, 0x12], m') ∧
      m.process.readMemory .w16 0 0x5000 = some ([0, 0], m'.process) := by
  obtain ⟨⟨os, m⟩, hrun, hfacts⟩ := (Option.any_eq_true _ _).mp
    (show ((asmIntrinsics (amd64 false)).run [.call .new, .call (.addMap 0 0x1000 0x1000 none 0),
      .write .w16 0 0x1000 ⟨[0x34, 0x12], rfl⟩, .read .w16 0 0x1000]
        ⟨.zero, some (.init 0), World.init⟩).any (fun r =>
          decide ((r.2.readMemory .w16 0 0x5000).map Prod.fst = some [0x34, 0x12]) &&
          decide ((r.2.process.readMemory .w16 0 0x5000).map Prod.fst = some [0, 0])) = true
      by decide +kernel)
  rw [Bool.and_eq_true, decide_eq_true_eq, decide_eq_true_eq, Option.map_eq_some_iff,
    Option.map_eq_some_iff] at hfacts
  obtain ⟨⟨⟨val, m'⟩, hasm, rfl⟩, ⟨⟨val', p⟩, hcxx, rfl⟩⟩ := hfacts
  have hproc := m.readMemory_process .w16 0 0x5000
  rw [hasm, hcxx, Option.map_some, Option.map_some, Option.some.injEq] at hproc
  exact ⟨os, m, m', hrun, hasm, by rw [hcxx, hproc]⟩

end Vmill
