import Vmill.Logic.Heap

/-!
# Writing a range

A write through an empty or copy-on-write range first turns the range into an array of the bytes it
had, which drops the cached code version; a write to an array keeps it.
-/

namespace Vmill

open Base

/-- The range owns its bytes. -/
def MappedRange.IsArray (r : MappedRange) : Prop := ∃ data, r.kind = .array data

/-- The range consists of whole pages. -/
structure MappedRange.Paged (r : MappedRange) : Prop where
  base : r.baseAddress % 4096 = 0
  limit : r.limitAddress % 4096 = 0
  lt : r.limitAddress < 2 ^ 64

namespace Heap

variable {h : Heap} {p : MemoryMapPtr} {a : Nat}

/-- Range `p` is an array now that holds `f`; nothing else has changed. -/
structure Wrote (h h' : Heap) (p : MemoryMapPtr) (f : Nat → UInt8) : Prop where
  next : h'.next = h.next
  frame : ∀ q, q ≠ p → h'.obj q = h.obj q
  base : (h'.obj p).baseAddress = (h.obj p).baseAddress
  limit : (h'.obj p).limitAddress = (h.obj p).limitAddress
  offset : (h'.obj p).offset = (h.obj p).offset
  array : (h'.obj p).IsArray
  held : ∀ a, (h.obj p).baseAddress ≤ a → a < (h.obj p).limitAddress → h'.byte p a = f a
  version : (h.obj p).IsArray →
    (h'.obj p).codeVersionIsValid = (h.obj p).codeVersionIsValid ∧
      (h'.obj p).codeVersion = (h.obj p).codeVersion
  stale : ¬ (h.obj p).IsArray → (h'.obj p).codeVersionIsValid = false

namespace Wrote

variable {h' h'' : Heap} {f g : Nat → UInt8}

lemma refl (hk : (h.obj p).IsArray) : Wrote h h p (h.byte p) :=
  ⟨rfl, fun _ _ => rfl, rfl, rfl, rfl, hk, fun _ _ _ => rfl, fun _ => ⟨rfl, rfl⟩,
    fun hn => absurd hk hn⟩

lemma trans (h1 : Wrote h h' p f) (h2 : Wrote h' h'' p g) : Wrote h h'' p g where
  next := h2.next.trans h1.next
  frame q hq := (h2.frame q hq).trans (h1.frame q hq)
  base := h2.base.trans h1.base
  limit := h2.limit.trans h1.limit
  offset := h2.offset.trans h1.offset
  array := h2.array
  held a ha hl := h2.held a (by rwa [h1.base]) (by rwa [h1.limit])
  version hk := by
    obtain ⟨hv, hc⟩ := h1.version hk
    obtain ⟨hv', hc'⟩ := h2.version h1.array
    exact ⟨hv'.trans hv, hc'.trans hc⟩
  stale hk := by
    obtain ⟨hv', _⟩ := h2.version h1.array
    exact hv'.trans (h1.stale hk)

lemma congr (hw : Wrote h h' p f)
    (hfg : ∀ a, (h.obj p).baseAddress ≤ a → a < (h.obj p).limitAddress → f a = g a) :
    Wrote h h' p g :=
  { hw with held := fun a ha hl => (hw.held a ha hl).trans (hfg a ha hl) }

lemma touched (hw : Wrote h h' p f) (hk : (h.obj p).kind ≠ .invalid) : Touched (· = p) h h' := by
  refine ⟨hw.next, fun q => ?_, fun q => ?_, fun q => ?_, fun q => ?_⟩
  all_goals by_cases hq : q = p
  · rw [hq]; exact hw.base
  · rw [hw.frame q hq]
  · rw [hq]; exact hw.limit
  · rw [hw.frame q hq]
  · rw [hq]; exact hw.offset
  · rw [hw.frame q hq]
  · rw [hq]; exact .inr ⟨rfl, hk, hw.array⟩
  · rw [hw.frame q hq]; exact .inl rfl

end Wrote

lemma newArray_eq_some {base limit offset : Nat} {name : List UInt8} {data : Nat → UInt8}
    (hb : base % 4096 = 0) (hl : limit % 4096 = 0) (hlt : limit < 2 ^ 64) (hle : base ≤ limit) :
    newArray base limit name offset data =
      some (newRange base limit (some name) offset (.array data)) := by
  unfold newArray
  have hsize : (newRange base limit (some name) offset (.array data)).size = limit - base := by
    show sub64 limit base = limit - base
    exact sub64_of_le hle hlt
  have hpages : limit - base = (limit - base) / kPageSize * kPageSize := by
    unfold kPageSize
    omega
  simp only [hsize]
  rw [if_pos hpages, if_pos hle]

private lemma wrote_set_array {h : Heap} {p : MemoryMapPtr} {name : List UInt8}
    {data : Nat → UInt8} (hna : ¬ (h.obj p).IsArray) (hlt : (h.obj p).limitAddress < 2 ^ 64)
    (hdata : ∀ a, (h.obj p).baseAddress ≤ a → a < (h.obj p).limitAddress →
      data (a - (h.obj p).baseAddress) = h.byte p a) :
    Wrote h (h.set p (newRange (h.obj p).baseAddress (h.obj p).limitAddress (some name)
      (h.obj p).offset (.array data))) p (h.byte p) := by
  have hobj := set_obj_self h p (newRange (h.obj p).baseAddress (h.obj p).limitAddress
    (some name) (h.obj p).offset (.array data))
  constructor
  · rfl
  · intro q hq
    exact set_obj_of_ne h _ hq
  · rw [hobj]; rfl
  · rw [hobj]; rfl
  · rw [hobj]; rfl
  · exact ⟨data, by rw [hobj]; rfl⟩
  · intro a ha hl
    rw [byte_of_array (d := data) (by rw [hobj]; rfl), hobj]
    show data (sub64 a (h.obj p).baseAddress) = h.byte p a
    rw [sub64_of_le ha (by omega)]
    exact hdata a ha hl
  · intro hk
    exact absurd hk hna
  · intro _
    rw [hobj]; rfl

lemma materialise_spec (hwf : h.WF) (hv : (h.obj p).kind ≠ .invalid) (hpg : (h.obj p).Paged)
    (hle : (h.obj p).baseAddress ≤ (h.obj p).limitAddress) :
    ∃ h', h.materialise p = some h' ∧ Wrote h h' p (h.byte p) := by
  cases hk : (h.obj p).kind with
  | invalid => exact absurd hk hv
  | array data => exact ⟨h, by simp only [materialise, hk], Wrote.refl ⟨data, hk⟩⟩
  | empty =>
    simp only [materialise, hk]
    rw [newArray_eq_some hpg.base hpg.limit hpg.lt hle]
    refine ⟨_, rfl, wrote_set_array ?_ hpg.lt ?_⟩
    · rintro ⟨data, hd⟩
      rw [hk] at hd
      simp at hd
    intro a _ _
    rw [byte_of_empty hk]
  | copyOnWrite q =>
  simp only [materialise, hk]
  rw [newArray_eq_some hpg.base hpg.limit hpg.lt hle]
  refine ⟨_, rfl, wrote_set_array ?_ hpg.lt ?_⟩
  · rintro ⟨data, hd⟩
    rw [hk] at hd
    simp at hd
  intro a ha hl
  have hback : (h.obj p).baseAddress + (a - (h.obj p).baseAddress) = a := by omega
  rw [hback, if_pos hl, byte_of_cow hwf hk]
  rfl

lemma store_spec (hk : (h.obj p).IsArray) (v : UInt8) (ha : (h.obj p).baseAddress ≤ a)
    (hl : a < (h.obj p).limitAddress) (hlt : (h.obj p).limitAddress < 2 ^ 64) :
    Wrote h (h.store p (sub64 a (h.obj p).baseAddress) v) p
      (Function.update (h.byte p) a v) := by
  obtain ⟨data, hdata⟩ := hk
  have hstore : h.store p (sub64 a (h.obj p).baseAddress) v =
      h.set p { h.obj p with
        kind := .array (Function.update data (sub64 a (h.obj p).baseAddress) v) } := by
    unfold store
    rw [hdata]
  rw [hstore]
  have hobj := set_obj_self h p { h.obj p with
    kind := .array (Function.update data (sub64 a (h.obj p).baseAddress) v) }
  constructor
  · rfl
  · intro q hq
    exact set_obj_of_ne h _ hq
  · rw [hobj]
  · rw [hobj]
  · rw [hobj]
  · exact ⟨_, by rw [hobj]⟩
  · intro x hx hxl
    rw [byte_of_array (by rw [hobj]), hobj]
    show Function.update data (sub64 a (h.obj p).baseAddress) v (sub64 x (h.obj p).baseAddress) = _
    rw [sub64_of_le ha (by omega), sub64_of_le hx (by omega)]
    by_cases hxa : x = a
    · rw [hxa, Function.update_self, Function.update_self]
    rw [Function.update_of_ne hxa, Function.update_of_ne (by omega), byte_of_array hdata,
      sub64_of_le hx (by omega)]
  · intro _
    rw [hobj]
    exact ⟨rfl, rfl⟩
  intro hn
  exact absurd ⟨data, hdata⟩ hn

lemma storeBytes_spec (hk : (h.obj p).IsArray) (vals : List UInt8)
    (ha : (h.obj p).baseAddress ≤ a) (hl : a + vals.length ≤ (h.obj p).limitAddress)
    (hlt : (h.obj p).limitAddress < 2 ^ 64) :
    Wrote h (h.storeBytes p (sub64 a (h.obj p).baseAddress) vals) p
      (overwrite (h.byte p) a vals) := by
  induction vals generalizing h a with
  | nil =>
    rw [overwrite_nil]
    exact Wrote.refl hk
  | cons v vals ih =>
  simp only [List.length_cons] at hl
  have hfirst := store_spec hk v ha (by omega) hlt
  have hrest := ih hfirst.array (a := a + 1) (by rw [hfirst.base]; omega)
    (by rw [hfirst.limit]; omega) (by rwa [hfirst.limit])
  have hidx : sub64 (a + 1) (h.obj p).baseAddress = sub64 a (h.obj p).baseAddress + 1 := by
    rw [sub64_of_le (by omega) (by omega), sub64_of_le ha (by omega)]
    omega
  rw [hfirst.base, hidx] at hrest
  refine (hfirst.trans hrest).congr ?_
  intro x hx hxl
  rw [overwrite_cons]
  -- inside the block both sides read the new value, outside the old one
  unfold overwrite
  rw [hfirst.held x hx hxl]

lemma toReadWriteVirtualAddress_spec (hwf : h.WF) (a : Nat) (hv : (h.obj p).kind ≠ .invalid)
    (hpg : (h.obj p).Paged) (hle : (h.obj p).baseAddress ≤ (h.obj p).limitAddress) :
    ∃ h', h.toReadWriteVirtualAddress p a = some (h', some (sub64 a (h.obj p).baseAddress)) ∧
      Wrote h h' p (h.byte p) := by
  obtain ⟨h', hmat, hw⟩ := materialise_spec hwf hv hpg hle
  refine ⟨h', ?_, hw⟩
  unfold toReadWriteVirtualAddress
  split
  · rename_i hk
    exact absurd hk hv
  rw [hmat]
  rfl

lemma toReadWriteVirtualAddress_of_invalid (a : Nat) (hk : (h.obj p).kind = .invalid) :
    h.toReadWriteVirtualAddress p a = some (h, none) := by
  unfold toReadWriteVirtualAddress
  rw [hk]

lemma write_spec (hwf : h.WF) (v : UInt8) (hv : (h.obj p).kind ≠ .invalid) (hpg : (h.obj p).Paged)
    (ha : (h.obj p).baseAddress ≤ a) (hl : a < (h.obj p).limitAddress) :
    ∃ h', h.write p a v = some (true, h') ∧ Wrote h h' p (Function.update (h.byte p) a v) := by
  obtain ⟨h1, hrw, hw⟩ := toReadWriteVirtualAddress_spec hwf a hv hpg (by omega)
  refine ⟨h1.store p (sub64 a (h.obj p).baseAddress) v, ?_, ?_⟩
  · unfold write
    rw [hrw]
  have hstore := store_spec hw.array (a := a) v (by rwa [hw.base])
    (by rwa [hw.limit]) (by rw [hw.limit]; exact hpg.lt)
  rw [hw.base] at hstore
  refine (hw.trans hstore).congr ?_
  intro x hx hxl
  by_cases hxa : x = a
  · rw [hxa, Function.update_self, Function.update_self]
  · rw [Function.update_of_ne hxa, Function.update_of_ne hxa, hw.held x hx hxl]

lemma write_of_invalid (a : Nat) (v : UInt8) (hk : (h.obj p).kind = .invalid) :
    h.write p a v = some (false, h) := by
  unfold write
  rw [toReadWriteVirtualAddress_of_invalid a hk]

end Heap

end Vmill
