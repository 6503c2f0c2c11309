import Vmill.Base.Masks
import Mathlib.Data.List.Basic

/-!
# 64-bit addresses and pages

Addresses are natural numbers; every operation whose 64-bit result can wrap says so with `wrap64` or
`sub64`. The page helpers are those at the top of `AddressSpace.cpp`.
-/

namespace Vmill

variable {a addr page base limit : Nat}

def wrap64 (n : Nat) : Nat := n % 2 ^ 64

def sub64 (a b : Nat) : Nat := (a + 2 ^ 64 - b) % 2 ^ 64

def kPageSize : Nat := 4096

def kPageShift : Nat := kPageSize - 1

/-- `~kPageShift` as a `uint64_t`. -/
def kPageMask : Nat := 2 ^ 64 - 1 - kPageShift

def alignDownToPage (addr : Nat) : Nat := addr &&& kPageMask

def roundUpToPage (size : Nat) : Nat := wrap64 (size + kPageShift) &&& kPageMask

/-- The values the loop `for (addr = base; addr < limit; addr += kPageSize)`
takes. Every caller passes a `base` on a page boundary, and a `limit` that is
on a page boundary or below `2 ^ 32`, so the induction variable cannot wrap. -/
def pagesIn (base limit : Nat) : List Nat :=
  (List.range ((limit - base + kPageShift) / kPageSize)).map (fun i => base + i * kPageSize)

/-- More page steps than the 64-bit address space has pages. -/
def kPageSteps : Nat := 2 ^ 52 + 1

lemma wrap64_lt (n : Nat) : wrap64 n < 2 ^ 64 := Nat.mod_lt _ (by decide)

lemma wrap64_of_lt {n : Nat} (h : n < 2 ^ 64) : wrap64 n = n := Nat.mod_eq_of_lt h

lemma sub64_of_le {b : Nat} (h : b ≤ a) (ha : a < 2 ^ 64) : sub64 a b = a - b := by
  unfold sub64
  omega

/-! ## The masks as arithmetic -/

lemma alignDownToPage_eq (addr : Nat) : alignDownToPage addr = addr % 2 ^ 64 / 4096 * 4096 := by
  have hmask : kPageMask = 2 ^ 64 - 2 ^ 12 := by decide
  have hsize : (4096 : Nat) = 2 ^ 12 := by decide
  unfold alignDownToPage
  rw [hmask, hsize, Base.and_high_mask (by decide)]

lemma roundUpToPage_eq (size : Nat) :
    roundUpToPage size = (size + 4095) % 2 ^ 64 / 4096 * 4096 := by
  have hunfold : roundUpToPage size = alignDownToPage (wrap64 (size + 4095)) := rfl
  rw [hunfold, alignDownToPage_eq]
  unfold wrap64
  rw [Nat.mod_mod]

lemma alignDownToPage_mod (addr : Nat) : alignDownToPage addr % 4096 = 0 := by
  rw [alignDownToPage_eq]
  omega

lemma alignDownToPage_lt (addr : Nat) : alignDownToPage addr < 2 ^ 64 := by
  rw [alignDownToPage_eq]
  omega

lemma alignDownToPage_le (addr : Nat) : alignDownToPage addr ≤ addr := by
  rw [alignDownToPage_eq]
  omega

lemma roundUpToPage_mod (size : Nat) : roundUpToPage size % 4096 = 0 := by
  rw [roundUpToPage_eq]
  omega

lemma lt_alignDownToPage_add (h : addr < 2 ^ 64) : addr < alignDownToPage addr + 4096 := by
  rw [alignDownToPage_eq]
  omega

lemma alignDownToPage_of_aligned (h : addr < 2 ^ 64) (ha : addr % 4096 = 0) :
    alignDownToPage addr = addr := by
  rw [alignDownToPage_eq]
  omega

lemma alignDownToPage_of_mem (hpage : page % 4096 = 0) (hle : page ≤ addr)
    (hlt : addr < page + 4096) (h : addr < 2 ^ 64) : alignDownToPage addr = page := by
  rw [alignDownToPage_eq]
  omega

lemma wrap64_add_page (page : Nat) (hlt : page + 4096 < 2 ^ 64) :
    wrap64 (page + kPageSize) = page + 4096 := wrap64_of_lt hlt

lemma wrap64_add_page_mod (hpage : page % 4096 = 0) : wrap64 (page + kPageSize) % 4096 = 0 := by
  unfold wrap64 kPageSize
  omega

lemma wrap64_add_page_le (page : Nat) : wrap64 (page + kPageSize) ≤ page + 4096 :=
  Nat.mod_le _ _

lemma roundUpToPage_of_aligned {size : Nat} (h : size < 2 ^ 64) (ha : size % 4096 = 0) :
    roundUpToPage size = size := by
  rw [roundUpToPage_eq]
  omega

lemma mem_pagesIn (hb : base % 4096 = 0) :
    a ∈ pagesIn base limit ↔ a % 4096 = 0 ∧ base ≤ a ∧ a < limit := by
  unfold pagesIn
  simp only [List.mem_map, List.mem_range, kPageShift, kPageSize]
  constructor
  · rintro ⟨i, hi, rfl⟩
    omega
  rintro ⟨ha, hba, hal⟩
  exact ⟨(a - base) / 4096, by omega, by omega⟩

lemma page_mem_interval (hb : base % 4096 = 0) (hl : limit % 4096 = 0) (ha : a < 2 ^ 64) :
    (base ≤ alignDownToPage a ∧ alignDownToPage a < limit) ↔ base ≤ a ∧ a < limit := by
  rw [alignDownToPage_eq]
  omega

end Vmill
