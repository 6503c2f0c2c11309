import Vmill.Snapshot

/-!
# Names of page ranges

A line is `begin-end perms offset major:minor inode path`. Its name keeps the two numerals in front,
since the runs of other characters become one underscore each (`pageRangeName_separates`).
-/

namespace Vmill

open Base

/-- A line that starts with two numerals, a hyphen between them and a space behind them. -/
def mapsText (first last : Numeral 16) (rest : List UInt8) : List UInt8 :=
  first.digits ++ 45 :: (last.digits ++ 32 :: rest)

lemma pageRangeNameLoop_append {word rest : List UInt8} (hne : word ≠ [])
    (hall : ∀ c ∈ word, isAlnum c = true) (seenSym : Bool) :
    pageRangeNameLoop seenSym (word ++ rest) = word ++ pageRangeNameLoop false rest := by
  induction word generalizing seenSym with
  | nil => exact absurd rfl hne
  | cons c word ih =>
  rw [List.cons_append, pageRangeNameLoop, if_pos (hall c (.head _))]
  cases word with
  | nil => rfl
  | cons d word =>
  rw [ih (by simp) (fun c' hc' => hall c' (.tail _ hc')) false]
  rfl

lemma pageRangeName_mapsText (first last : Numeral 16) (rest : List UInt8) :
    pageRangeName (mapsText first last rest) =
      first.digits ++ 95 :: (last.digits ++ 95 :: pageRangeNameLoop true rest) := by
  have hhyphen : ∀ line, pageRangeNameLoop false (45 :: line) = 95 :: pageRangeNameLoop true line :=
    fun _ => rfl
  have hspace : ∀ line, pageRangeNameLoop false (32 :: line) = 95 :: pageRangeNameLoop true line :=
    fun _ => rfl
  unfold pageRangeName mapsText
  rw [pageRangeNameLoop_append first.nonempty first.isAlnum, hhyphen,
    pageRangeNameLoop_append last.nonempty last.isAlnum, hspace]

lemma word_unique {word word' rest rest' : List UInt8} (hall : ∀ c ∈ word, isAlnum c = true)
    (hall' : ∀ c ∈ word', isAlnum c = true) (heq : word ++ 95 :: rest = word' ++ 95 :: rest') :
    word = word' ∧ rest = rest' := by
  have htake : ∀ w r : List UInt8, (∀ c ∈ w, isAlnum c = true) →
      (w ++ 95 :: r).takeWhile isAlnum = w := by
    intro w r hw
    rw [List.takeWhile_append_of_pos hw, List.takeWhile_cons_of_neg (by decide), List.append_nil]
  have hword : word = word' := by
    rw [← htake word rest hall, heq, htake word' rest' hall']
  refine ⟨hword, ?_⟩
  rw [hword] at heq
  exact (List.cons.inj (List.append_cancel_left heq)).2

lemma readTraceePageMaps_names {rlimCur : Nat} {lines : List (List UInt8)}
    {ranges : List PageRange} (hread : readTraceePageMaps rlimCur lines = some ranges) :
    (ranges.map PageRange.name).Sublist (lines.map pageRangeName) := by
  induction lines generalizing ranges with
  | nil =>
    cases hread
    exact List.Sublist.slnil
  | cons line lines ih =>
  rw [readTraceePageMaps] at hread
  split at hread
  · rename_i rest _ hrest
    cases hread
    exact (ih hrest).cons _
  · rename_i range rest hline hrest
    cases hread
    have hname : range.name = pageRangeName line := by
      unfold readPageInfoLine at hline
      split at hline
      · cases hline
      split at hline
      · cases hline
      rw [← Option.some.inj (Option.some.inj hline)]
      rfl
    rw [List.map_cons, List.map_cons, hname]
    exact (ih hrest).cons_cons _
  · cases hread

/-- **Names.** For all lines in the format of the kernel: lines with a different begin or end have
different names, so that no two of their ranges share a file. -/
theorem pageRangeName_separates :
    (∀ (first last first' last' : Numeral 16) (rest rest' : List UInt8),
      first.value ≠ first'.value ∨ last.value ≠ last'.value →
      pageRangeName (mapsText first last rest) ≠ pageRangeName (mapsText first' last' rest')) ∧
    ∀ (lines : List (Numeral 16 × Numeral 16 × List UInt8)) (rlimCur : Nat)
      (ranges : List PageRange),
      (lines.Pairwise fun l l' => l.1.value ≠ l'.1.value ∨ l.2.1.value ≠ l'.2.1.value) →
      readTraceePageMaps rlimCur (lines.map fun l => mapsText l.1 l.2.1 l.2.2) = some ranges →
      (ranges.map PageRange.name).Nodup := by
  have hsep : ∀ (first last first' last' : Numeral 16) (rest rest' : List UInt8),
      first.value ≠ first'.value ∨ last.value ≠ last'.value →
      pageRangeName (mapsText first last rest) ≠ pageRangeName (mapsText first' last' rest') := by
    intro first last first' last' rest rest' hne heq
    rw [pageRangeName_mapsText, pageRangeName_mapsText] at heq
    obtain ⟨hfirst, heq⟩ := word_unique first.isAlnum first'.isAlnum heq
    obtain ⟨hlast, _⟩ := word_unique last.isAlnum last'.isAlnum heq
    unfold Numeral.value at hne
    rw [hfirst, hlast] at hne
    exact hne.elim (absurd rfl) (absurd rfl)
  refine ⟨hsep, fun lines rlimCur ranges hdiffer hread => ?_⟩
  refine (readTraceePageMaps_names hread).nodup ?_
  rw [List.map_map]
  exact List.pairwise_map.mpr (hdiffer.imp fun {l l'} hne => hsep _ _ _ _ _ _ hne)

/-- `40-50 r-xp 0 0:0 0 /a-b` and `40-51 r-xp 0 0:0 0`: the names are `40_50_r_xp_0_0_0_0_a_b` and
`40_51_r_xp_0_0_0_0`. -/
theorem pageRangeName_separates_ends :
    let first : Numeral 16 := ⟨[52, 48], by decide, by decide⟩
    let last : Numeral 16 := ⟨[53, 48], by decide, by decide⟩
    let last' : Numeral 16 := ⟨[53, 49], by decide, by decide⟩
    let fields : List UInt8 := [114, 45, 120, 112, 32, 48, 32, 48, 58, 48, 32, 48]
    let path : List UInt8 := [32, 47, 97, 45, 98]
    let lines := [mapsText first last (fields ++ path), mapsText first last' fields]
    lines.map pageRangeName =
        [[52, 48, 95, 53, 48, 95, 114, 95, 120, 112, 95, 48, 95, 48, 95, 48, 95, 48, 95, 97, 95,
            98],
          [52, 48, 95, 53, 49, 95, 114, 95, 120, 112, 95, 48, 95, 48, 95, 48, 95, 48]] ∧
      ∃ ranges, readTraceePageMaps (8 <<< 20) lines = some ranges ∧ ranges.length = 2 ∧
        (ranges.map PageRange.name).Nodup := by
  intro first last last' fields path lines
  refine ⟨by decide, (readTraceePageMaps (8 <<< 20) lines).getD [], by decide +kernel,
    by decide +kernel, ?_⟩
  exact pageRangeName_separates.2 [(first, last, fields ++ path), (first, last', fields)] (8 <<< 20)
    _ (by decide) (by decide +kernel)

end Vmill
