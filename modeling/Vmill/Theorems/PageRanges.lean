import Vmill.Logic.Load
import Vmill.Theorems.Snapshot

/-!
# Page ranges of a snapshot

The range of the stack is recorded with the size that the stack may grow to. Whether it then still
is a range, and apart from the others, depends on what is below the stack.
-/

namespace Vmill

open Base AddressSpace

variable {rlimCur : Nat} {h : Heap}

/-- A line in the format of the kernel. The path is part of `rest`, and may be missing. -/
structure MapsLine where
  first : Numeral 16
  last : Numeral 16
  canRead : Bool
  canWrite : Bool
  canExec : Bool
  shared : Bool
  offset : Numeral 16
  devMajor : Numeral 16
  devMinor : Numeral 16
  inode : Numeral 10
  rest : List UInt8
  nonempty : first.value < last.value
  bounded : last.value < 2 ^ 64
  spaced : ∀ c ∈ rest.head?, c = 32

namespace MapsLine

/-- A letter, or `-`. -/
def flag (letter : UInt8) (set : Bool) : UInt8 := if set then letter else 45

/-- The line, with `rest` behind the inode. -/
def textWith (l : MapsLine) (rest : List UInt8) : List UInt8 :=
  mapsText l.first l.last
    (flag 114 l.canRead :: flag 119 l.canWrite :: flag 120 l.canExec ::
      (if l.shared then 115 else 112) :: 32 ::
      (l.offset.digits ++ 32 :: (l.devMajor.digits ++ 58 :: (l.devMinor.digits ++ 32 ::
        (l.inode.digits ++ rest)))))

/-- The line as the kernel prints it. -/
def text (l : MapsLine) : List UInt8 := l.textWith l.rest

/-- The path that `sscanf` finds. -/
def path (l : MapsLine) : List UInt8 :=
  ((scanWord (l.rest.takeWhile (· ≠ 0))).map Prod.fst).getD []

/-- The fields that `sscanf` finds. -/
def fields (l : MapsLine) : MapsFields where
  begin := l.first.value
  limit := l.last.value
  r := flag 114 l.canRead
  w := flag 119 l.canWrite
  x := flag 120 l.canExec
  offset := toUnsigned false l.offset.value
  path := l.path

/-- The range that is recorded for the line. -/
def recorded (rlimCur : Nat) (l : MapsLine) : PageRange := pageRangeOf rlimCur l.text l.fields

lemma flag_ne (set : Bool) : ∀ letter ∈ [114, 119, (120 : UInt8)],
    flag letter set ≠ 0 ∧ isSpace (flag letter set) = false := by
  cases set <;> decide

lemma takeWhile_textWith (l : MapsLine) (rest : List UInt8) :
    (l.textWith rest).takeWhile (· ≠ 0) = l.textWith (rest.takeWhile (· ≠ 0)) := by
  have hdigits : ∀ {base : Nat} (n : Numeral base), ∀ c ∈ n.digits, c ≠ 0 := by
    rintro base n c hc rfl
    exact absurd (n.isAlnum 0 hc) (by decide)
  have hflag := fun set letter hmem => (flag_ne set letter hmem).1
  have hhead : ∀ c ∈ l.textWith [], c ≠ 0 := by
    intro c hc
    simp only [textWith, mapsText, List.mem_append, List.mem_cons, List.append_nil] at hc
    rcases hc with hc | rfl | hc | rfl | rfl | rfl | rfl | rfl | rfl | hc | rfl | hc | rfl | hc |
      rfl | hc
    all_goals first
      | exact hdigits _ c hc
      | exact hflag _ _ (by decide)
      | (split <;> decide)
      | decide
  have hsplit : ∀ rest, l.textWith rest = l.textWith [] ++ rest := by
    intro rest
    simp only [textWith, mapsText, List.append_assoc, List.cons_append, List.append_nil]
  rw [hsplit, List.takeWhile_append_of_pos fun c hc => decide_eq_true (hhead c hc), ← hsplit]

lemma endsNumeral_rest (l : MapsLine) : EndsNumeral 10 (l.rest.takeWhile (· ≠ 0)) := by
  have hspaced := l.spaced
  cases hrest : l.rest with
  | nil => trivial
  | cons c rest =>
  rw [hrest] at hspaced
  obtain rfl := hspaced c rfl
  rw [List.takeWhile_cons_of_pos (by decide)]
  exact endsNumeral_of_space 10 rfl

lemma scanMapsLine_text (l : MapsLine) :
    scanMapsLine (l.text.takeWhile (· ≠ 0)) = some l.fields := by
  have hnone : ∀ c ∈ ([] : List UInt8), isSpace c = true := nofun
  have hone : ∀ c ∈ [(32 : UInt8)], isSpace c = true := by decide
  have hspace : ∀ base rest, EndsNumeral base (32 :: rest) := fun base _ =>
    endsNumeral_of_space base rfl
  have hpunct : ∀ c ∈ [45, (58 : UInt8)], ∀ rest, EndsNumeral 16 (c :: rest) := by
    intro c hc rest
    have hdigit : ∀ c ∈ [45, (58 : UInt8)], digit 16 c = none ∧ c ≠ 120 ∧ c ≠ 88 := by decide
    exact hdigit c hc
  have hperm : ∀ rest,
      skipSpace (32 :: flag 114 l.canRead :: rest) = flag 114 l.canRead :: rest := by
    intro rest
    unfold skipSpace
    rw [List.dropWhile_cons_of_pos rfl, List.dropWhile_cons_of_neg]
    rw [(flag_ne l.canRead 114 (by decide)).2]
    exact Bool.false_ne_true
  unfold text
  rw [takeWhile_textWith]
  unfold textWith mapsText
  -- field by field
  have h1 := fun rest => scanUnsigned_numeral l.first hnone (hpunct 45 (by decide) rest)
  have h2 := fun rest => scanUnsigned_numeral l.last hnone (hspace 16 rest)
  have h3 := fun rest => scanUnsigned_numeral l.offset hone (hspace 16 rest)
  have h4 := fun rest => scanUnsigned_numeral l.devMajor hone (hpunct 58 (by decide) rest)
  have h5 := fun rest => scanUnsigned_numeral l.devMinor hnone (hspace 16 rest)
  have h6 := scanUnsigned_numeral l.inode hone l.endsNumeral_rest
  simp only [List.nil_append, List.cons_append] at h1 h2 h3 h4 h5 h6
  simp only [scanMapsLine, h1, h2, h3, h4, h5, h6, hperm, scanExactly, scanChar, if_true,
    Option.bind_eq_bind, Option.bind_some, Option.pure_def]
  rw [toUnsigned_of_lt (l.nonempty.trans l.bounded), toUnsigned_of_lt l.bounded]
  rfl

lemma readPageInfoLine_text (rlimCur : Nat) (l : MapsLine) :
    readPageInfoLine rlimCur l.text =
      if kPathMax < l.path.length then none else some (some (l.recorded rlimCur)) := by
  unfold readPageInfoLine
  rw [l.scanMapsLine_text]
  rfl

end MapsLine

/-- No path is too long. -/
def PathsFit (lines : List MapsLine) : Prop := ∀ l ∈ lines, l.path.length ≤ kPathMax
deriving Decidable

variable {lines : List MapsLine}

lemma readTraceePageMaps_eq_some {ranges : List PageRange} :
    readTraceePageMaps rlimCur (lines.map MapsLine.text) = some ranges ↔
      PathsFit lines ∧ ranges = lines.map (MapsLine.recorded rlimCur) := by
  induction lines generalizing ranges with
  | nil =>
    refine ⟨fun hread => ⟨nofun, ?_⟩, ?_⟩
    · exact (Option.some.inj hread).symm
    rintro ⟨_, rfl⟩
    rfl
  | cons l lines ih =>
  rw [List.map_cons, List.map_cons, readTraceePageMaps, l.readPageInfoLine_text]
  have hfit : PathsFit (l :: lines) ↔ l.path.length ≤ kPathMax ∧ PathsFit lines :=
    List.forall_mem_cons
  by_cases hlong : kPathMax < l.path.length
  · rw [if_pos hlong, hfit]
    refine ⟨fun hread => ?_, fun hfits => absurd hlong hfits.1.1.not_gt⟩
    cases hread
  rw [if_neg hlong, hfit]
  cases hrest : readTraceePageMaps rlimCur (lines.map MapsLine.text) with
  | none =>
    refine ⟨fun hread => absurd hread.symm (Option.some_ne_none _), ?_⟩
    rintro ⟨⟨_, hfits⟩, _⟩
    rw [ih.mpr ⟨hfits, rfl⟩] at hrest
    cases hrest
  | some rest =>
  obtain ⟨hfits, rfl⟩ := ih.mp hrest
  constructor
  · intro hread
    exact ⟨⟨Nat.le_of_not_lt hlong, hfits⟩, (Option.some.inj hread).symm⟩
  rintro ⟨_, rfl⟩
  rfl

namespace MapsLine

variable {l : MapsLine}

/-- The line is that of a stack. -/
def IsStack (l : MapsLine) : Prop := occursIn kStackText (l.path.dropWhile (· == 32)) = true
deriving Decidable

/-- The size that a stack is recorded with. -/
def newStackSize (rlimCur : Nat) (l : MapsLine) : Nat :=
  max (l.last.value - l.first.value) (getMaxStackSize rlimCur)

/-- The lines have no address in common. -/
def Disjoint (l l' : MapsLine) : Prop :=
  l.last.value ≤ l'.first.value ∨ l'.last.value ≤ l.first.value
deriving Decidable

lemma kind_eq_stack_iff (path : List UInt8) :
    pageRangeKind path = .linuxStackPageRange ↔ occursIn kStackText path = true := by
  unfold pageRangeKind
  split_ifs <;> simp_all

lemma kind_ne_zero (path : List UInt8) : pageRangeKind path ≠ .anonymousZeroRange := by
  unfold pageRangeKind
  split_ifs <;> simp

@[simp] lemma recorded_limit (rlimCur : Nat) (l : MapsLine) :
    (l.recorded rlimCur).limit = l.last.value := rfl

lemma recorded_base (rlimCur : Nat) (l : MapsLine) :
    (l.recorded rlimCur).base =
      if l.IsStack then sub64 l.last.value (l.newStackSize rlimCur) else l.first.value := by
  have hsize : sub64 l.last.value l.first.value = l.last.value - l.first.value :=
    sub64_of_le l.nonempty.le l.bounded
  have hbase : (l.recorded rlimCur).base =
      if pageRangeKind (l.path.dropWhile (· == 32)) = .linuxStackPageRange then
        sub64 l.last.value (max (sub64 l.last.value l.first.value) (getMaxStackSize rlimCur))
      else l.first.value := rfl
  rw [hbase, hsize]
  exact if_congr (kind_eq_stack_iff _) rfl rfl

lemma newStackSize_lt (hrlim : rlimCur < 2 ^ 64) (l : MapsLine) :
    l.newStackSize rlimCur < 2 ^ 64 := by
  have hbounded := l.bounded
  unfold newStackSize getMaxStackSize
  omega

lemma recorded_base_stack (hstack : l.IsStack) (hroom : l.newStackSize rlimCur ≤ l.last.value) :
    (l.recorded rlimCur).base = l.last.value - l.newStackSize rlimCur := by
  rw [recorded_base, if_pos hstack]
  exact sub64_of_le hroom l.bounded

lemma recorded_base_other (hstack : ¬ l.IsStack) : (l.recorded rlimCur).base = l.first.value := by
  rw [recorded_base, if_neg hstack]

lemma recorded_lt_iff (hrlim : rlimCur < 2 ^ 64) (hstack : l.IsStack) :
    (l.recorded rlimCur).base < (l.recorded rlimCur).limit ↔
      l.newStackSize rlimCur ≤ l.last.value := by
  have hsize := l.newStackSize_lt hrlim
  have hpos : 0 < l.newStackSize rlimCur := by
    have hlt := l.nonempty
    unfold newStackSize
    omega
  have hbounded := l.bounded
  rw [recorded_base, if_pos hstack, recorded_limit]
  unfold sub64
  omega

end MapsLine

/-- Below every stack there is room for the size it gets: the addresses do not run out, and no other
line ends there. -/
def StackHasRoom (rlimCur : Nat) (lines : List MapsLine) : Prop :=
  ∀ l ∈ lines, l.IsStack → l.newStackSize rlimCur ≤ l.last.value ∧
    ∀ l' ∈ lines, l'.last.value ≤ l.first.value →
      l'.last.value + l.newStackSize rlimCur ≤ l.last.value
deriving Decidable

/-- What the ranges of a listing should satisfy: each is a range around its line, they are apart,
and no range that is loaded replaces bytes of another. -/
structure WellRecorded (lines : List MapsLine) (ranges : List PageRange) : Prop where
  around : List.Forall₂ (fun l page => page.base < page.limit ∧
    page.base ≤ l.first.value ∧ l.last.value ≤ page.limit) lines ranges
  apart : ranges.Pairwise RangesApart
  loading : ∀ (files : List UInt8 → Option (List (List UInt8))) (h : Heap) (s : AddressSpace)
    (h' : Heap) (s' : AddressSpace), h.WF → s.WF h →
    (∀ l ∈ lines, l.last.value % 4096 = 0 ∧ l.last.value ≤ s.addrMask) →
    loadPageRanges files s h ranges = some (s', h') →
    ∀ page ∈ ranges, ∃ reads, files page.name = some reads ∧
      ∀ i, page.base + i < page.limit →
        i < reads.flatten.length ∧ AddressSpace.view h' s' (page.base + i) = reads.flatten[i]?

section Recorded

variable {l : MapsLine}

lemma StackHasRoom.base_le (hroom : StackHasRoom rlimCur lines) (hl : l ∈ lines) :
    (l.recorded rlimCur).base ≤ l.first.value := by
  by_cases hstack : l.IsStack
  · rw [MapsLine.recorded_base_stack hstack (hroom l hl hstack).1]
    have hlt := l.nonempty
    unfold MapsLine.newStackSize
    omega
  · rw [MapsLine.recorded_base_other hstack]

lemma StackHasRoom.le_base (hroom : StackHasRoom rlimCur lines) {l' : MapsLine} (hl : l ∈ lines)
    (hl' : l' ∈ lines) (hle : l'.last.value ≤ l.first.value) :
    l'.last.value ≤ (l.recorded rlimCur).base := by
  by_cases hstack : l.IsStack
  · obtain ⟨hfits, hbelow⟩ := hroom l hl hstack
    rw [MapsLine.recorded_base_stack hstack hfits]
    have hend := hbelow l' hl' hle
    omega
  · rwa [MapsLine.recorded_base_other hstack]

lemma StackHasRoom.apart (hroom : StackHasRoom rlimCur lines)
    (hdisjoint : lines.Pairwise MapsLine.Disjoint) :
    (lines.map (MapsLine.recorded rlimCur)).Pairwise RangesApart := by
  refine List.pairwise_map.mpr (hdisjoint.imp_of_mem fun {l l'} hl hl' hd => ?_)
  rcases hd with hle | hle
  · exact .inl (hroom.le_base hl' hl hle)
  · exact .inr (hroom.le_base hl hl' hle)

lemma StackHasRoom.loadable (hroom : StackHasRoom rlimCur lines) {s : AddressSpace}
    (hlines : ∀ l ∈ lines, l.last.value % 4096 = 0 ∧ l.last.value ≤ s.addrMask) :
    ∀ page ∈ lines.map (MapsLine.recorded rlimCur), Loadable s page := by
  intro page hpage
  obtain ⟨l, hl, rfl⟩ := List.mem_map.mp hpage
  exact ⟨(hroom.base_le hl).trans_lt l.nonempty, (hlines l hl).1, (hlines l hl).2,
    MapsLine.kind_ne_zero _⟩

lemma StackHasRoom.wellRecorded (hroom : StackHasRoom rlimCur lines)
    (hdisjoint : lines.Pairwise MapsLine.Disjoint) :
    WellRecorded lines (lines.map (MapsLine.recorded rlimCur)) where
  around := by
    rw [List.forall₂_map_right_iff, List.forall₂_same]
    intro l hl
    have hle := hroom.base_le hl
    exact ⟨hle.trans_lt l.nonempty, hle, le_rfl⟩
  apart := hroom.apart hdisjoint
  loading files h s h' s' hwf hs hlines hrun page hpage :=
    ((loadPageRanges_spec hwf hs (hroom.loadable hlines) (hroom.apart hdisjoint) hrun).1 page
      hpage).view

lemma WellRecorded.stackHasRoom (hrlim : rlimCur < 2 ^ 64)
    (hwell : WellRecorded lines (lines.map (MapsLine.recorded rlimCur))) :
    StackHasRoom rlimCur lines := by
  have haround := hwell.around
  rw [List.forall₂_map_right_iff, List.forall₂_same] at haround
  intro l hl hstack
  have hfits := (MapsLine.recorded_lt_iff hrlim hstack).mp (haround l hl).1
  refine ⟨hfits, fun l' hl' hle => ?_⟩
  have hlt := l.nonempty
  have hlt' := l'.nonempty
  have hne : l' ≠ l := by
    rintro rfl
    omega
  have hsymm : Std.Symm fun l l' : MapsLine =>
      RangesApart (l.recorded rlimCur) (l'.recorded rlimCur) := ⟨fun _ _ => Or.symm⟩
  have hapart := (List.pairwise_map.mp hwell.apart).forall hl' hl hne
  have hbase := MapsLine.recorded_base_stack hstack hfits
  have haround' := haround l' hl'
  unfold RangesApart at hapart
  rw [MapsLine.recorded_limit, MapsLine.recorded_limit, hbase] at hapart
  omega

end Recorded

/-- **Page ranges.** Every listing of disjoint, non-empty lines, for every limit of the stack, is
recorded as ranges around its lines that are apart and do not replace each other's bytes exactly if
there is room below every stack, and the paths fit. -/
theorem recorded_ranges_iff (lines : List MapsLine) (hdisjoint : lines.Pairwise MapsLine.Disjoint)
    (rlimCur : Nat) (hrlim : rlimCur < 2 ^ 64) :
    (∃ ranges, readTraceePageMaps rlimCur (lines.map MapsLine.text) = some ranges ∧
        WellRecorded lines ranges) ↔
      StackHasRoom rlimCur lines ∧ PathsFit lines := by
  constructor
  · rintro ⟨ranges, hread, hwell⟩
    obtain ⟨hfits, rfl⟩ := readTraceePageMaps_eq_some.mp hread
    exact ⟨hwell.stackHasRoom hrlim, hfits⟩
  · rintro ⟨hroom, hfits⟩
    exact ⟨_, readTraceePageMaps_eq_some.mpr ⟨hfits, rfl⟩, hroom.wellRecorded hdisjoint⟩

def codeLine : MapsLine where
  first := ⟨[52, 48, 48, 48, 48, 48], by decide, by decide⟩
  last := ⟨[52, 48, 49, 48, 48, 48], by decide, by decide⟩
  canRead := true
  canWrite := false
  canExec := true
  shared := false
  offset := ⟨[48], by decide, by decide⟩
  devMajor := ⟨[56], by decide, by decide⟩
  devMinor := ⟨[49], by decide, by decide⟩
  inode := ⟨[55], by decide, by decide⟩
  rest := [32, 47, 98, 105, 110, 47, 99, 97, 116]
  nonempty := by decide
  bounded := by decide
  spaced := by simp

def stackLine : MapsLine where
  first := ⟨[55, 102, 102, 101, 48, 48, 48, 48, 48, 48, 48, 48], by decide, by decide⟩
  last := ⟨[55, 102, 102, 101, 48, 48, 48, 50, 49, 48, 48, 48], by decide, by decide⟩
  canRead := true
  canWrite := true
  canExec := false
  shared := false
  offset := ⟨[48], by decide, by decide⟩
  devMajor := ⟨[48], by decide, by decide⟩
  devMinor := ⟨[48], by decide, by decide⟩
  inode := ⟨[48], by decide, by decide⟩
  rest := [32, 91, 115, 116, 97, 99, 107, 93]
  nonempty := by decide
  bounded := by decide
  spaced := by simp

def mappedLine : MapsLine :=
  { stackLine with
    first := ⟨[55, 102, 102, 100, 102, 102, 102, 102, 102, 48, 48, 48], by decide, by decide⟩
    last := stackLine.first
    rest := []
    nonempty := by decide
    bounded := by decide
    spaced := by simp }

/-- A stack with a limit of 8 MiB is recorded with 16 MiB, and there is room for them. -/
theorem recorded_ranges_stack :
    ∃ ranges, readTraceePageMaps (8 <<< 20) [codeLine.text, stackLine.text] = some ranges ∧
      ranges.map (fun page => (page.base, page.limit)) =
        [(0x400000, 0x401000), (0x7ffdff021000, 0x7ffe00021000)] ∧
      WellRecorded [codeLine, stackLine] ranges := by
  obtain ⟨ranges, hread, hwell⟩ := (recorded_ranges_iff [codeLine, stackLine] (by decide +kernel)
    (8 <<< 20) (by decide)).mpr ⟨by decide +kernel, by decide +kernel⟩
  refine ⟨ranges, hread, ?_, hwell⟩
  obtain ⟨_, rfl⟩ := readTraceePageMaps_eq_some.mp hread
  decide +kernel

/-- The unlimited stack, of `2 ^ 64 - 1` bytes, begins behind its end. And whatever is mapped within
16 MiB below the begin of a stack is in two ranges. -/
theorem recorded_ranges_wrong :
    (∃ ranges, readTraceePageMaps (2 ^ 64 - 1) [stackLine.text] = some ranges ∧
      ranges.map (fun page => (page.base, page.limit)) = [(0x7ffe00021001, 0x7ffe00021000)] ∧
      ¬ WellRecorded [stackLine] ranges) ∧
    ∃ ranges, readTraceePageMaps (8 <<< 20) [mappedLine.text, stackLine.text] = some ranges ∧
      ranges.map (fun page => (page.base, page.limit)) =
        [(0x7ffdfffff000, 0x7ffe00000000), (0x7ffdff021000, 0x7ffe00021000)] ∧
      ¬ WellRecorded [mappedLine, stackLine] ranges := by
  refine ⟨⟨[stackLine.recorded (2 ^ 64 - 1)], ?_, by decide +kernel, fun hwell => ?_⟩,
    ⟨[mappedLine.recorded (8 <<< 20), stackLine.recorded (8 <<< 20)], ?_, by decide +kernel,
      fun hwell => ?_⟩⟩
  · exact (@readTraceePageMaps_eq_some _ [stackLine] _).mpr ⟨by decide +kernel, rfl⟩
  · exact absurd (List.forall₂_cons.mp hwell.around).1.1 (by decide +kernel)
  · exact (@readTraceePageMaps_eq_some _ [mappedLine, stackLine] _).mpr ⟨by decide +kernel, rfl⟩
  · exact absurd hwell.apart (by decide +kernel)

lemma vacant_new (cfg : Config) (hwf : h.WF) (lo hi : Nat) :
    Vacant (AddressSpace.new cfg h).2 (AddressSpace.new cfg h).1 lo hi := by
  obtain ⟨hgrows, hs, hinvalid, _⟩ := new_spec cfg hwf
  refine ⟨fun p hp hv => absurd (hinvalid p hp).2 hv, fun a _ _ => ?_⟩
  rw [view_eq_none hgrows.wf hs]
  exact fun p ho => ho.valid (hinvalid p ho.mem).2

/-- **Snapshots.** The ranges of a listing with room below the stacks, in an address space without a
parent: if each has a file that is long enough, all of them are loaded, and every byte is the one of
its file. -/
theorem loadAddressSpaceFromSnapshot_new {cfg : Config}
    {files : List UInt8 → Option (List (List UInt8))} {addrSpaceIds : Nat → Option AddressSpace}
    (hwf : h.WF) {id : Nat} (hid : addrSpaceIds id = none)
    (hdisjoint : lines.Pairwise MapsLine.Disjoint) (hroom : StackHasRoom rlimCur lines)
    (hlines : ∀ l ∈ lines, l.last.value % 4096 = 0 ∧ l.last.value ≤ getAddressMask cfg)
    (hbacked : ∀ l ∈ lines, Backed files (l.recorded rlimCur)) :
    ∃ s' h', loadAddressSpaceFromSnapshot cfg files addrSpaceIds h
        ⟨id, none, lines.map (MapsLine.recorded rlimCur)⟩ =
          some (Function.update addrSpaceIds id (some s'), h') ∧
      ∀ l ∈ lines, InMemory files h' s' (l.recorded rlimCur) := by
  obtain ⟨hgrows, hs, _, hmask⟩ := new_spec cfg hwf
  have hload := hroom.loadable (s := (AddressSpace.new cfg h).1) (by rwa [hmask])
  have hapart := hroom.apart hdisjoint
  obtain ⟨s', h', hrun⟩ := loadPageRanges_isSome hgrows.wf hs hload
    (fun page hpage => by
      obtain ⟨l, hl, rfl⟩ := List.mem_map.mp hpage
      exact hbacked l hl)
    hapart (fun page _ => vacant_new cfg hwf _ _)
  refine ⟨s', h', ?_, fun l hl => ?_⟩
  · simp only [loadAddressSpaceFromSnapshot, hid, Option.isSome_none, Bool.false_eq_true, if_false,
      hrun, Option.map_some]
  · exact (loadPageRanges_spec hgrows.wf hs hload hapart hrun).1 _ (List.mem_map_of_mem hl)

abbrev onesEverywhere : List UInt8 → Option (List (List UInt8)) :=
  fun _ => some [List.replicate (2 ^ 64) 1]

theorem loadAddressSpaceFromSnapshot_new_stack :
    ∃ s' h', loadAddressSpaceFromSnapshot (amd64 false) onesEverywhere (fun _ => none)
        World.init.heap ⟨1, none, [codeLine, stackLine].map (MapsLine.recorded (8 <<< 20))⟩ =
          some (Function.update (fun _ => none) 1 (some s'), h') ∧
      ∀ l ∈ [codeLine, stackLine], InMemory onesEverywhere h' s' (l.recorded (8 <<< 20)) := by
  refine loadAddressSpaceFromSnapshot_new World.init_wf.heap rfl (by decide +kernel)
    (by decide +kernel) (by decide +kernel) fun l hl => ⟨?_, _, rfl, ?_⟩
  · revert l
    decide +kernel
  · simp only [List.flatten_singleton, List.length_replicate]
    revert l
    decide +kernel

end Vmill
