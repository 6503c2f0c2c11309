import Vmill.Logic.Cache

/-!
# Accesses of every form

`Value` is what can be written or read at once: a byte, a typed value or a buffer.
-/

namespace Vmill

open Base AddressSpace

/-- What can be written or read at once: a byte, a value of one of the types
`MAKE_TRY_WRITE` is instantiated at, or a buffer. -/
inductive Value where
  | byte (val : UInt8)
  | typed (type : ValueType) (val : List.Vector UInt8 type.size)
  | sized (vals : List UInt8)

namespace Value

/-- The bytes of the value. -/
def bytes : Value → List UInt8
  | byte val => [val]
  | typed _ val => val.toList
  | sized vals => vals

/-- The `TryWrite` of this form. -/
def tryWrite (v : Value) (cfg : Config) (s : AddressSpace) (h : Heap) (addr : Nat) :
    Option (Bool × AddressSpace × Heap) :=
  match v with
  | byte val => s.tryWriteByte cfg h addr val
  | typed type val => AddressSpace.tryWriteTyped cfg type s h addr val
  | sized vals => s.tryWrite cfg h addr vals

/-- The `TryRead` of this form, without the caches. -/
def tryRead (v : Value) (s : AddressSpace) (h : Heap) (addr : Nat) : Option (Bool × List UInt8) :=
  match v with
  | byte _ => some ((s.tryReadByte h addr).1, [(s.tryReadByte h addr).2.1])
  | typed type _ => (AddressSpace.tryReadTyped type s h addr).map (fun r => (r.1, r.2.1))
  | sized vals => (s.tryRead h addr vals.length).map (fun r => (r.1, r.2.1))

end Value

namespace AddressSpace

variable {h : Heap} {s : AddressSpace}

lemma view_whole (hwf : h.WF) (hs : s.WF h) : Flat.Whole (view h s) := by
  have hpage : ∀ x, x < 2 ^ 64 →
      ((view h s x).isSome = true ↔ ∃ p, Owns h s p (alignDownToPage x)) := by
    intro x hx
    constructor
    · intro hsome
      obtain ⟨p, ho⟩ := exists_owner hwf hs hsome
      exact ⟨p, (owns_alignDown_iff hs hx).mp ho⟩
    rintro ⟨p, ho⟩
    have hx' := (owns_alignDown_iff hs hx).mpr ho
    rw [hx'.view_eq hwf hs]
    rfl
  intro x y hx hy hxy
  rw [Bool.eq_iff_iff, hpage x hx, hpage y hy, hxy]

lemma tryRead_empty (hs : s.WF h) (addr : Nat) (hend : (addr &&& s.addrMask) + 4096 ≤ 2 ^ 64) :
    (s.tryRead h addr 0).map (fun r => (r.1, r.2.1)) = some (true, []) := by
  have halt := mask_lt hs addr
  have hsteps : kPageSteps = (2 ^ 52 - 1) + 1 + 1 := by decide
  unfold tryRead
  simp only [hsteps, Nat.add_zero]
  generalize addr &&& s.addrMask = a at halt hend ⊢
  have hle := alignDownToPage_le a
  have hlt := lt_alignDownToPage_add halt
  rw [wrap64_of_lt halt, tryReadLoop]
  by_cases hin : alignDownToPage a < a
  · have hpage := wrap64_add_page (alignDownToPage a) (by omega)
    have hzero : min a (alignDownToPage a + 4096) - a = 0 := by omega
    rw [if_pos hin]
    simp only [hpage, hzero, readBytes, tryReadLoop]
    rw [if_neg (by omega)]
    rfl
  rw [if_neg hin]
  rfl

lemma tryWriteValue_cases (v : Value) (cfg : Config) (hwf : h.WF) (hs : s.WF h) (addr : Nat) :
    ∃ q, WriteCases cfg h s (addr &&& s.addrMask) v.bytes q (v.tryWrite cfg s h addr) := by
  cases v with
  | byte val => exact ⟨true, tryWriteByte_cases cfg hwf hs addr val⟩
  | typed type val => exact ⟨true, tryWriteTyped_cases cfg hwf hs type addr val⟩
  | sized vals => exact ⟨false, tryWrite_cases cfg h s addr vals⟩

lemma tryWriteValue_agrees (v : Value) (cfg : Config) (hwf : h.WF) (hs : s.WF h) (addr : Nat)
    (hfast : v.bytes ≠ [] → Owns h s (s.findWNXRange h (addr &&& s.addrMask)).2 (addr &&&
      s.addrMask) → s.canWriteAligned (alignDownToPage (addr &&& s.addrMask)) = true) :
    Agrees h s (v.tryWrite cfg s h addr)
      (Flat.tryWrite s.pageIsWritable (view h s) (addr &&& s.addrMask) v.bytes) := by
  have hmask := mask_mask s addr
  cases v with
  | byte val =>
    exact (tryWriteByte_cases cfg hwf hs addr val).agrees hwf hs hmask (by simp)
      (hfast (by simp [Value.bytes]))
  | typed type val =>
    have hne : val.toList ≠ [] := by
      refine List.length_pos_iff.mp ?_
      rw [val.toList_length]
      exact type.size_pos
    exact (tryWriteTyped_cases cfg hwf hs type addr val).agrees hwf hs hmask hne
      (hfast hne)
  | sized vals => exact tryWrite_agrees cfg hwf hs addr vals

lemma tryReadValue_eq (v : Value) (hwf : h.WF) (hs : s.WF h) {addr : Nat} {vals : List UInt8}
    (hlen : v.bytes.length = vals.length)
    (hend : (addr &&& s.addrMask) + vals.length + 4096 ≤ 2 ^ 64)
    (hacc : ∀ x, (addr &&& s.addrMask) ≤ x → x < (addr &&& s.addrMask) + vals.length → s.accessible
      (alignDownToPage x) = true)
    (hview : ∀ i (hi : i < vals.length), view h s ((addr &&& s.addrMask) + i) = some vals[i]) :
    v.tryRead s h addr = some (true, vals) := by
  have hread : ∀ i (hi : i < vals.length),
      readable h s ((addr &&& s.addrMask) + i) = some vals[i] := by
    intro i hi
    unfold readable
    rw [if_pos (hacc _ (by omega) (by omega))]
    exact hview i hi
  have hflat := Flat.tryRead_of_mapped hend hread
  by_cases hnil : vals = []
  · subst hnil
    cases v with
    | byte val => exact absurd hlen (by simp [Value.bytes])
    | typed type val =>
      have hpos := type.size_pos
      simp only [Value.bytes, val.toList_length, List.length_nil] at hlen
      omega
    | sized buf =>
    obtain rfl : buf = [] := List.eq_nil_of_length_eq_zero hlen
    exact tryRead_empty hs addr hend
  have hpos : 0 < vals.length := List.length_pos_iff.mpr hnil
  have hx := accessExact_of_accessible hwf hs hpos hend hacc
  have hfirst := hread 0 hpos
  cases v with
  | byte val =>
    have hone : vals.length = 1 := hlen.symm
    obtain ⟨b, rfl⟩ := List.length_eq_one_iff.mp hone
    obtain ⟨h1, h2⟩ := tryReadByte_eq hwf hs addr (hx _ (.inl rfl))
    rw [Nat.add_zero] at hfirst
    simp only [Value.tryRead, h1, h2, hfirst]
    rfl
  | typed type val =>
    have hsize : type.size = vals.length := val.toList_length.symm.trans hlen
    simp only [Value.tryRead]
    rw [tryReadTyped_eq hwf hs type (hsize ▸ hx), Flat.tryReadTyped, hsize]
    rw [Nat.add_zero] at hfirst
    rw [if_pos (by rw [hfirst]; rfl), hflat]
  | sized buf =>
  have hsize : buf.length = vals.length := hlen
  simp only [Value.tryRead]
  rw [hsize, tryRead_eq hwf hs hx, hflat]

end AddressSpace

end Vmill
