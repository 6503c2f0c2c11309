import Vmill.Base.Cells
import Vmill.Base.Run
import Vmill.Util.AreaAllocator
import Mathlib.Order.Interval.Set.Basic

/-!
# Area allocators

What one `Allocate` does (`allocate_spec`), for calls whose address computations stay below `2 ^ 64`
(`Fits`).
-/

namespace Vmill

open Base

variable {base limit : Nat} {maps : List (Nat × Nat)}

/-- The mappings fill `[base, limit)` in order. -/
def Contiguous : Nat → List (Nat × Nat) → Nat → Prop
  | base, [], limit => base = limit
  | base, (addr, size) :: maps, limit => addr = base ∧ Contiguous (base + size) maps limit

lemma Contiguous.append {size : Nat} (hc : Contiguous base maps limit) :
    Contiguous base (maps ++ [(limit, size)]) (limit + size) := by
  induction maps generalizing base with
  | nil =>
    obtain rfl : base = limit := hc
    exact ⟨rfl, rfl⟩
  | cons m ms ih => exact ⟨hc.1, ih hc.2⟩

lemma Contiguous.mapped_iff (hc : Contiguous base maps limit) (x : Nat) :
    (∃ m ∈ maps, m.1 ≤ x ∧ x < m.1 + m.2) ↔ base ≤ x ∧ x < limit := by
  induction maps generalizing base with
  | nil =>
    obtain rfl : base = limit := hc
    simp
  | cons m ms ih =>
  obtain ⟨hm, hrest⟩ := hc
  have hle : base + m.2 ≤ limit := by
    clear ih
    induction ms generalizing base m with
    | nil => exact Nat.le_of_eq hrest
    | cons m' ms ih' =>
    have := ih' m' hrest.1 hrest.2
    omega
  simp only [List.mem_cons, exists_eq_or_imp, ih hrest, hm]
  omega

namespace AreaAllocator

variable {a a' : AreaAllocator} {k size align x ret : Nat} {h h' : Host} {grow first : Option Nat}

lemma roundUp_spec (hk : k < 64) (hp : a.pageSize = 2 ^ k)
    (hsize : size + (a.pageSize - 1) < 2 ^ 64) :
    a.pageSize ∣ a.roundUp size ∧ size ≤ a.roundUp size ∧ a.roundUp size < size + a.pageSize := by
  have hpos : 0 < 2 ^ k := Nat.two_pow_pos k
  have hle : 2 ^ k ≤ 2 ^ 64 := Nat.pow_le_pow_right (by decide) hk.le
  have hmask : 2 ^ 64 - 1 - (2 ^ k - 1) = 2 ^ 64 - 2 ^ k := by omega
  unfold roundUp
  rw [hp] at hsize ⊢
  rw [wrap64_of_lt hsize, hmask, and_high_mask hk.le, Nat.mod_eq_of_lt hsize]
  have hdiv := Nat.div_add_mod (size + (2 ^ k - 1)) (2 ^ k)
  have hmod := Nat.mod_lt (size + (2 ^ k - 1)) hpos
  refine ⟨Nat.dvd_mul_left _ _, ?_, ?_⟩
  · rw [Nat.mul_comm]
    omega
  rw [Nat.mul_comm]
  omega

lemma initialSize_spec (hk : k < 64) (hp : a.pageSize = 2 ^ k)
    (hsize : size + (a.pageSize - 1) < 2 ^ 64) :
    a.pageSize ∣ a.initialSize size ∧ size ≤ a.initialSize size := by
  unfold initialSize
  split
  · obtain ⟨hdvd, hle, _⟩ := roundUp_spec hk hp hsize
    exact ⟨hdvd, hle⟩
  · exact ⟨Nat.dvd_refl _, by omega⟩

lemma growthSize_spec {missing : Nat} (hk : k < 64) (hp : a.pageSize = 2 ^ k)
    (hsize : missing + (a.pageSize - 1) < 2 ^ 64) :
    a.pageSize ∣ a.growthSize missing ∧ missing ≤ a.growthSize missing := by
  obtain ⟨hdvd, hle, _⟩ := roundUp_spec hk hp hsize
  unfold growthSize
  split
  · exact ⟨Nat.dvd_refl _, by omega⟩
  · exact ⟨hdvd, hle⟩

lemma alignBump_spec {bump : Nat}
    (hfits : align ≠ 0 → bump % align ≠ 0 → bump + (align - bump % align) < 2 ^ 64) :
    bump ≤ alignBump bump align ∧ (align ≠ 0 → align ∣ alignBump bump align) := by
  unfold alignBump
  by_cases halign : align = 0
  · simp [halign]
  simp only [halign, ne_eq, not_false_eq_true, if_true, forall_const]
  by_cases hmod : bump % align = 0
  · rw [if_neg (by simpa using hmod)]
    exact ⟨le_rfl, Nat.dvd_of_mod_eq_zero hmod⟩
  rw [if_pos hmod, wrap64_of_lt (hfits halign hmod)]
  have hlt := Nat.mod_lt bump (Nat.pos_of_ne_zero halign)
  have hdiv := Nat.div_add_mod bump align
  refine ⟨by omega, ?_⟩
  have hsum : bump + (align - bump % align) = align * (bump / align) + align := by omega
  rw [hsum]
  exact Nat.dvd_add (Nat.dvd_mul_right _ _) (Nat.dvd_refl _)

/-- The area is one contiguous piece of whole pages, and the bump pointer is in it. -/
structure WF (a : AreaAllocator) (maps : List (Nat × Nat)) : Prop where
  page : ∃ k < 64, a.pageSize = 2 ^ k
  unmapped : a.base = 0 → a.bump = 0 ∧ a.limit = 0 ∧ maps = []
  bump : a.base ≤ a.bump ∧ a.bump ≤ a.limit
  limit : a.limit < 2 ^ 64
  pages : a.pageSize ∣ a.limit - a.base
  mapped : Contiguous a.base maps a.limit

/-- The first mapping does not wrap around. -/
def FitsInitial (a : AreaAllocator) (size : Nat) (first : Option Nat) : Prop :=
  size + (a.pageSize - 1) < 2 ^ 64 ∧
    ∀ ret ∈ first, ret ≠ 0 ∧ ret + a.initialSize size < 2 ^ 64
deriving Decidable

/-- Neither alignment, nor the bump, nor growing wraps around. -/
def FitsBump (a : AreaAllocator) (size align : Nat) : Prop :=
  (align ≠ 0 → a.bump % align ≠ 0 → a.bump + (align - a.bump % align) < 2 ^ 64) ∧
  alignBump a.bump align + size < 2 ^ 64 ∧
  (a.limit ≤ alignBump a.bump align + size →
    alignBump a.bump align + size - a.limit + (a.pageSize - 1) < 2 ^ 64 ∧
    a.limit + a.growthSize (alignBump a.bump align + size - a.limit) < 2 ^ 64)
deriving Decidable

/-- No address of an `Allocate` wraps around. -/
def Fits (a : AreaAllocator) (size align : Nat) (first : Option Nat) : Prop :=
  (a.base = 0 → a.FitsInitial size first ∧ ∀ ret ∈ first,
    FitsBump { a with base := ret, bump := ret, limit := ret + a.initialSize size } size align) ∧
  (a.base ≠ 0 → a.FitsBump size align)
deriving Decidable

/-- What an `Allocate` that returned `ret` has done. -/
structure Allocated (a : AreaAllocator) (h : Host) (size align : Nat) (ret : Nat)
    (a' : AreaAllocator) (h' : Host) : Prop where
  wf : a'.WF h'.maps
  mapped : a'.base ≠ 0
  behind : a.bump ≤ ret
  inside : a'.base ≤ ret
  ends : ret + size = a'.bump
  aligned : align ≠ 0 → align ∣ ret
  base : a.base = 0 ∨ a'.base = a.base
  grows : a.limit ≤ a'.limit
  maps : ∃ more, h'.maps = h.maps ++ more
  bytes : ∀ x, a.base ≤ x → x < a.limit → h'.bytes x = h.bytes x

lemma mapPages_maps (a : AreaAllocator) (h : Host) (addr size : Nat) :
    (a.mapPages h addr size).maps = h.maps ++ [(addr, size)] := by
  unfold mapPages
  dsimp only
  split
  · rfl
  · rfl

lemma mapPages_bytes (a : AreaAllocator) (h : Host) {addr : Nat}
    (hx : ¬ (addr ≤ x ∧ x < addr + size)) : (a.mapPages h addr size).bytes x = h.bytes x := by
  unfold mapPages Host.mmap Host.fill
  dsimp only
  split
  · simp only [hx, if_false]
  · simp only [hx, if_false]

/-- `Allocate` in an area that is mapped. -/
lemma bumpAllocate_spec (hwf : a.WF h.maps) (hbase : a.base ≠ 0) (hfits : a.FitsBump size align)
    (hr : a.bumpAllocate h size align grow = some (ret, a', h')) :
    Allocated a h size align ret a' h' := by
  obtain ⟨k, hk, hp⟩ := hwf.page
  obtain ⟨hbumped, hblock, hmore⟩ := hfits
  obtain ⟨hle, hdvd⟩ := alignBump_spec hbumped
  have hbump := hwf.bump
  unfold bumpAllocate at hr
  simp only [wrap64_of_lt hblock] at hr
  by_cases hgrow : alignBump a.bump align + size ≥ a.limit
  · obtain ⟨hmissing, hlimit⟩ := hmore hgrow
    obtain ⟨hpages, henough⟩ := growthSize_spec hk hp hmissing
    rw [if_pos hgrow, sub64_of_le hgrow hblock] at hr
    unfold mapMore at hr
    cases grow with
    | none => simp at hr
    | some addr =>
    by_cases haddr : addr = a.limit
    · subst haddr
      simp only [ne_eq, not_true_eq_false, if_false, wrap64_of_lt hlimit, Option.some.injEq,
        Prod.mk.injEq] at hr
      obtain ⟨rfl, rfl, rfl⟩ := hr
      have hbelow : a.base ≤ a.limit := hbump.1.trans hbump.2
      refine ⟨⟨hwf.page, fun h0 => absurd h0 hbase, ⟨?_, ?_⟩, hlimit, ?_, ?_⟩, hbase, hle,
        hbump.1.trans hle, rfl, hdvd, .inr rfl, Nat.le_add_right _ _, ⟨_, mapPages_maps _ _ _ _⟩,
        fun x _ hx =>
          mapPages_bytes _ _ (by omega)⟩
      · simp only
        omega
      · simp only
        omega
      · simp only
        rw [Nat.sub_add_comm hbelow]
        exact Nat.dvd_add hwf.pages hpages
      · simp only
        rw [mapPages_maps]
        exact hwf.mapped.append
    · simp [haddr] at hr
  rw [if_neg hgrow] at hr
  cases hr
  exact
    { wf := ⟨hwf.page, fun h0 => absurd h0 hbase, ⟨by simp only; omega, by simp only; omega⟩,
        hwf.limit, hwf.pages, hwf.mapped⟩
      mapped := hbase
      behind := hle
      inside := hbump.1.trans hle
      ends := rfl
      aligned := hdvd
      base := .inr rfl
      grows := le_rfl
      maps := ⟨[], (List.append_nil _).symm⟩
      bytes := fun _ _ _ => rfl }

lemma mapInitial_spec {a1 : AreaAllocator} {h1 : Host} (hwf : a.WF h.maps) (hbase : a.base = 0)
    (hfits : a.FitsInitial size first) (hr : a.mapInitial h size first = some (a1, h1)) :
    ∃ ret ∈ first, a1 = { a with base := ret, bump := ret, limit := ret + a.initialSize size } ∧
      a1.WF h1.maps ∧ a1.base ≠ 0 := by
  obtain ⟨k, hk, hp⟩ := hwf.page
  obtain ⟨hpages, _⟩ := initialSize_spec hk hp hfits.1
  cases first with
  | none => exact absurd hr (by simp [mapInitial])
  | some ret =>
  obtain ⟨hne, hlimit⟩ := hfits.2 ret rfl
  simp only [mapInitial, wrap64_of_lt hlimit, Option.some.injEq, Prod.mk.injEq] at hr
  obtain ⟨rfl, rfl⟩ := hr
  refine ⟨ret, rfl, rfl, ⟨hwf.page, fun h0 => absurd h0 hne,
    ⟨le_rfl, Nat.le_add_right _ _⟩, hlimit, ?_, ?_⟩, hne⟩
  · simp only [Nat.add_sub_cancel_left]
    exact hpages
  · rw [mapPages_maps, (hwf.unmapped hbase).2.2]
    exact ⟨rfl, rfl⟩

lemma allocate_spec (hwf : a.WF h.maps) (hfits : a.Fits size align first)
    (hr : a.allocate h size align first grow = some (ret, a', h')) :
    Allocated a h size align ret a' h' := by
  unfold allocate at hr
  by_cases hbase : a.base = 0
  · rw [if_pos hbase] at hr
    obtain ⟨hinit, hbump⟩ := hfits.1 hbase
    obtain ⟨hb0, hl0, hm0⟩ := hwf.unmapped hbase
    cases hmap : a.mapInitial h size first with
    | none => rw [hmap] at hr; simp at hr
    | some r =>
    obtain ⟨a1, h1⟩ := r
    rw [hmap] at hr
    obtain ⟨addr, haddr, rfl, hwf1, hne⟩ := mapInitial_spec hwf hbase hinit hmap
    have hal := bumpAllocate_spec hwf1 hne (hbump addr haddr) hr
    exact
      { hal with
        behind := by rw [hb0]; exact Nat.zero_le _
        base := .inl hbase
        grows := by rw [hl0]; exact Nat.zero_le _
        maps := ⟨h'.maps, by rw [hm0]; rfl⟩
        bytes := fun x _ hx => by rw [hl0] at hx; exact absurd hx (Nat.not_lt_zero _) }
  rw [if_neg hbase] at hr
  exact bumpAllocate_spec hwf hbase (hfits.2 hbase) hr

lemma new_wf (perms : AreaAllocationPerms) (preferredBase : Nat) (hk : k < 64) :
    (new perms preferredBase (2 ^ k)).WF [] where
  page := ⟨k, hk, rfl⟩
  unmapped _ := ⟨rfl, rfl, rfl⟩
  bump := ⟨le_rfl, le_rfl⟩
  limit := by simp [new]
  pages := by simp [new]
  mapped := rfl

end AreaAllocator

end Vmill
