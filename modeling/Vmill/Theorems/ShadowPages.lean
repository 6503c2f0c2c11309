import Vmill.Logic.Shadow

/-!
# The size of the pages of the shadow

`AddPageForAddress` computes the size of a page from the granularities and the size of the element,
by a loop that need not end and with products that can wrap around.
-/

namespace Vmill

open Base

lemma leastCommonMultiple_page (k : Nat) :
    leastCommonMultiple k 4096 = if k = 0 then none else some ((k % 2 ^ 52).lcm 4096) := by
  unfold leastCommonMultiple greatestCommonDivisor
  split
  case isTrue hk =>
    rw [hk, greatestCommonDivisorLoop_zero _ (by decide)]
    rfl
  case isFalse hk =>
    rw [greatestCommonDivisorLoop_eq (Nat.pos_of_ne_zero hk) (by decide) (Nat.lt_succ_self _),
      Option.map_some]
    have hgcd : k.gcd 4096 = (k % 2 ^ 52).gcd 4096 := by
      conv_lhs => rw [← Nat.mod_add_div k (2 ^ 52)]
      rw [show 2 ^ 52 * (k / 2 ^ 52) = 2 ^ 40 * (k / 2 ^ 52) * 4096 by omega]
      exact Nat.gcd_add_mul_right_left _ _ _
    have hwrap : wrap64 (k * 4096) = k % 2 ^ 52 * 4096 := by
      unfold wrap64
      omega
    rw [hgcd, hwrap]
    rfl

namespace ShadowMemory

variable {m m' : ShadowMemory} {T : ShadowType} {addr size x base key : Nat}

/-- The number of bytes of shadow for the elements of a page. -/
def typeBytes (m : ShadowMemory) (T : ShadowType) : Nat :=
  (2 ^ m.pageGranularity >>> m.shadowGranularity) * T.bits / 8

/-- What `AddPageForAddress` makes of it. -/
def typePiece (m : ShadowMemory) (T : ShadowType) : Nat := (m.typeBytes T % 2 ^ 52).lcm 4096

lemma typePiece_lt (m : ShadowMemory) (T : ShadowType) : m.typePiece T < 2 ^ 64 := by
  have hle : m.typePiece T ≤ m.typeBytes T % 2 ^ 52 * 4096 := Nat.div_le_self _ _
  omega

lemma typePiece_pos_iff : 0 < m.typePiece T ↔ m.typeBytes T % 2 ^ 52 ≠ 0 := by
  refine ⟨fun hpos hzero => ?_, fun hne => Nat.lcm_pos (Nat.pos_of_ne_zero hne) (by decide)⟩
  unfold typePiece at hpos
  rw [hzero, Nat.lcm_zero_left] at hpos
  omega

lemma setLast_shadowPageSize (hp : m.pageGranularity < 64) :
    (m.setLast T addr).shadowPageSize =
      if (2 ^ m.pageGranularity >>> m.shadowGranularity) * T.bits % 2 ^ 64 / 8 = 0 then none
      else some (m.typePiece T) := by
  have hpow : wrap64 (2 ^ m.pageGranularity) = 2 ^ m.pageGranularity :=
    wrap64_of_lt (Nat.pow_lt_pow_right (by decide) hp)
  unfold shadowPageSize setLast
  simp only [hpow]
  rw [leastCommonMultiple_page]
  have hmod : (2 ^ m.pageGranularity >>> m.shadowGranularity) * T.bits % 2 ^ 64 / 8 % 2 ^ 52 =
      m.typeBytes T % 2 ^ 52 := by
    unfold typeBytes
    omega
  unfold wrap64
  rw [hmod]
  rfl

lemma key_le (m : ShadowMemory) (addr : Nat) : m.key addr ≤ addr := by
  unfold key
  rw [Nat.shiftRight_eq_div_pow]
  exact Nat.div_le_self _ _

lemma sub64_base (hbase : base < 2 ^ 64) (hkey : key < base) :
    sub64 (wrap64 (key + base)) base = key := by
  unfold sub64 wrap64
  omega

lemma inPage_iff (hpos : 0 < size) (hsize : size < 2 ^ 64) :
    InPage (wrap64 (key / size * size + base)) size (wrap64 (key + base)) ↔
      (key / size * size + base) / 2 ^ 64 = (key / size * size + base + size) / 2 ^ 64 := by
  have hle : key / size * size ≤ key := Nat.div_mul_le_self _ _
  have hlt : key < key / size * size + size := by
    have hdiv := Nat.div_add_mod key size
    have hmod := Nat.mod_lt key hpos
    rw [Nat.mul_comm] at hdiv
    omega
  generalize key / size * size = off at hle hlt ⊢
  unfold InPage wrap64
  omega

/-- The size of the pieces for an access to the element of `addr`: the computation ends, its result
is a positive multiple of 4096, and the `CHECK` that the piece has the faulting byte holds. -/
def PageSizeWorks (m : ShadowMemory) (T : ShadowType) (addr : Nat) : Prop :=
  ∃ size, (m.setLast T addr).shadowPageSize = some size ∧ 0 < size ∧ 4096 ∣ size ∧
    InPage ((m.setLast T addr).shadowPage (m.setLast T addr).lastShadowAddress size) size
      (m.setLast T addr).lastShadowAddress

end ShadowMemory

open ShadowMemory

/-- **The size of the pieces.** For every granularity, base, type and address below the base: it is
a positive multiple of 4096 and the `CHECK` holds exactly if the shadow of a page is at least one
byte, no multiple of `2 ^ 52`, and the piece does not cross the end of the 64-bit space. -/
theorem pageSize_works_iff {m : ShadowMemory} (hp : m.pageGranularity < 64)
    (hbase : m.shadowBase < 2 ^ 64) (T : ShadowType) {addr : Nat} (haddr : addr < m.shadowBase) :
    m.PageSizeWorks T addr ↔
      m.typeBytes T % 2 ^ 52 ≠ 0 ∧
        (m.key addr / m.typePiece T * m.typePiece T + m.shadowBase) / 2 ^ 64 =
          (m.key addr / m.typePiece T * m.typePiece T + m.shadowBase + m.typePiece T) / 2 ^ 64 := by
  have hkey := (m.key_le addr).trans_lt haddr
  have hcheck : ∀ size, (m.setLast T addr).shadowPage (m.setLast T addr).lastShadowAddress size =
      wrap64 (m.key addr / size * size + m.shadowBase) := by
    intro size
    unfold shadowPage setLast
    simp only [sub64_base hbase hkey]
  have hsize := @setLast_shadowPageSize m T addr hp
  unfold PageSizeWorks
  simp only [hcheck]
  constructor
  · rintro ⟨size, hsome, hpos, _, hin⟩
    rw [hsize] at hsome
    split at hsome
    · cases hsome
    · cases hsome
      exact ⟨typePiece_pos_iff.mp hpos, (inPage_iff hpos (m.typePiece_lt T)).mp hin⟩
  · rintro ⟨hne, hnowrap⟩
    have hpos := typePiece_pos_iff.mpr hne
    refine ⟨m.typePiece T, ?_, hpos, Nat.dvd_lcm_right _ _,
      (inPage_iff hpos (m.typePiece_lt T)).mpr hnowrap⟩
    rw [hsize, if_neg]
    unfold typeBytes at hne
    omega

theorem pageSize_works_label : defaultShadow.PageSizeWorks .label 0x1234 :=
  (pageSize_works_iff (m := defaultShadow) (by decide) (by decide) _ (by decide)).mpr
    ⟨by decide, by decide⟩

/-- One bit for every 1024 bytes: the loop of `GreatestCommonDivisor` never ends. -/
theorem pageSize_endless :
    (get 10 12 0x100000000000 fun _ => 0).typeBytes .bool = 0 ∧
      (∀ fuel, greatestCommonDivisorLoop fuel 0 4096 = none) ∧
      ((get 10 12 0x100000000000 fun _ => 0).setLast .bool 0).addPageForAddress 0x100000000000 =
        none ∧
      (get 10 12 0x100000000000 fun _ => 0).at' .bool 0 ⟨none, none⟩ = none ∧
      ¬ (get 10 12 0x100000000000 fun _ => 0).PageSizeWorks .bool 0 := by
  have hnone : ((get 10 12 0x100000000000 fun _ => 0).setLast .bool 0).shadowPageSize = none := by
    decide +kernel
  refine ⟨by decide, fun fuel => greatestCommonDivisorLoop_zero fuel (by decide), ?_, by rfl, ?_⟩
  · unfold addPageForAddress
    rw [if_neg (by decide), hnone]
  · rintro ⟨size, hsome, _⟩
    exact nomatch hnone.symm.trans hsome

end Vmill
