import Mathlib.Algebra.Group.Nat.Defs
import Mathlib.Data.List.TakeWhile

/-!
# Scanning text

The character classes of the C locale and the conversions of `sscanf`, on lists of bytes; `none` is
a matching failure.
-/

namespace Vmill.Base

variable {base : Nat} {rest : List UInt8}

def isSpace (c : UInt8) : Bool := c == 32 || decide (9 ≤ c ∧ c ≤ 13)

def isDigit (c : UInt8) : Bool := decide (48 ≤ c ∧ c ≤ 57)

def isAlnum (c : UInt8) : Bool :=
  isDigit c || decide (65 ≤ c ∧ c ≤ 90) || decide (97 ≤ c ∧ c ≤ 122)

/-- A text is searched character by character, not by going through all characters. -/
instance (priority := 2000) decidableForallMem (p : UInt8 → Prop) [DecidablePred p] (text : List UInt8) :
    Decidable (∀ c ∈ text, p c) := List.decidableBAll p text

/-- The value of a digit of the number system with base 16. -/
def hexDigit (c : UInt8) : Option Nat :=
  if isDigit c then some (c.toNat - 48)
  else if 97 ≤ c ∧ c ≤ 102 then some (c.toNat - 87)
  else if 65 ≤ c ∧ c ≤ 70 then some (c.toNat - 55)
  else none

/-- The value of a digit, for a base up to 16. -/
def digit (base : Nat) (c : UInt8) : Option Nat := (hexDigit c).filter (· < base)

/-- `strstr`: the needle occurs somewhere in the text. -/
def occursIn (needle : List UInt8) : List UInt8 → Bool
  | [] => needle.isEmpty
  | c :: text => needle.isPrefixOf (c :: text) || occursIn needle text

/-- A space in a format. -/
def skipSpace (input : List UInt8) : List UInt8 := input.dropWhile isSpace

/-- An ordinary character in a format. -/
def scanExactly (c : UInt8) : List UInt8 → Option (List UInt8)
  | [] => none
  | d :: rest => if d = c then some rest else none

/-- `%c`. -/
def scanChar : List UInt8 → Option (UInt8 × List UInt8)
  | [] => none
  | c :: rest => some (c, rest)

/-- All digits from the front of the input on. -/
def scanDigits (base : Nat) : Nat → List UInt8 → Nat × List UInt8
  | value, [] => (value, [])
  | value, c :: rest =>
    match digit base c with
    | none => (value, c :: rest)
    | some d => scanDigits base (value * base + d) rest

/-- An optional sign; whether it is a minus. -/
def scanSign : List UInt8 → Bool × List UInt8
  | [] => (false, [])
  | c :: rest =>
    if c = 45 then (true, rest) else if c = 43 then (false, rest) else (false, c :: rest)

/-- An optional `0x` in front of hexadecimal digits. -/
def skipHexPrefix : List UInt8 → List UInt8
  | c :: d :: rest => if c = 48 ∧ (d = 120 ∨ d = 88) then rest else c :: d :: rest
  | input => input

/-- What `strtoul` makes of a number. -/
def toUnsigned (negative : Bool) (value : Nat) : Nat :=
  if 2 ^ 64 ≤ value then 2 ^ 64 - 1 else if negative then (2 ^ 64 - value) % 2 ^ 64 else value

/-- `%lx` for the base 16, and `%lu` for the base 10. -/
def scanUnsigned (base : Nat) (input : List UInt8) : Option (Nat × List UInt8) :=
  let (negative, input) := scanSign (skipSpace input)
  let input := if base = 16 then skipHexPrefix input else input
  match input with
  | [] => none
  | c :: _ =>
    if (digit base c).isSome then
      let (value, rest) := scanDigits base 0 input
      some (toUnsigned negative value, rest)
    else none

/-- `%s`. -/
def scanWord (input : List UInt8) : Option (List UInt8 × List UInt8) :=
  match skipSpace input with
  | [] => none
  | word => some (word.takeWhile (!isSpace ·), word.dropWhile (!isSpace ·))

/-- A numeral to some base: at least one digit, and nothing but digits. -/
structure Numeral (base : Nat) where
  digits : List UInt8
  nonempty : digits ≠ []
  all : ∀ c ∈ digits, (digit base c).isSome = true

namespace Numeral

/-- The number that a numeral stands for. -/
def value (n : Numeral base) : Nat := (scanDigits base 0 n.digits).1

end Numeral

/-- Nothing that could belong to a numeral in front. -/
def EndsNumeral (base : Nat) : List UInt8 → Prop
  | [] => True
  | c :: _ => digit base c = none ∧ c ≠ 120 ∧ c ≠ 88

lemma scanDigits_append {digits : List UInt8} (value : Nat)
    (hall : ∀ c ∈ digits, (digit base c).isSome = true) (hrest : EndsNumeral base rest) :
    scanDigits base value (digits ++ rest) = ((scanDigits base value digits).1, rest) := by
  induction digits generalizing value with
  | nil =>
    cases rest with
    | nil => rfl
    | cons c rest =>
      simp only [List.nil_append, scanDigits, hrest.1]
  | cons c digits ih =>
  obtain ⟨d, hd⟩ := Option.isSome_iff_exists.mp (hall c (.head _))
  rw [List.cons_append, scanDigits, scanDigits, hd]
  exact ih _ fun c' hc' => hall c' (.tail _ hc')

lemma digit_facts (c : UInt8) : ∀ base, (digit base c).isSome = true →
    isSpace c = false ∧ c ≠ 45 ∧ c ≠ 43 ∧ c ≠ 120 ∧ c ≠ 88 ∧ isAlnum c = true := by
  have hhex : ∀ k : Fin 256, (hexDigit (UInt8.ofNat k.val)).isSome = true →
      isSpace (UInt8.ofNat k.val) = false ∧ UInt8.ofNat k.val ≠ 45 ∧ UInt8.ofNat k.val ≠ 43 ∧
        UInt8.ofNat k.val ≠ 120 ∧ UInt8.ofNat k.val ≠ 88 ∧ isAlnum (UInt8.ofNat k.val) = true := by
    decide +kernel
  intro base hdigit
  have hsome : (hexDigit c).isSome = true := by
    unfold digit at hdigit
    cases hc : hexDigit c with
    | none =>
      rw [hc] at hdigit
      cases hdigit
    | some d => rfl
  have h := hhex ⟨c.toNat, c.toNat_lt⟩
  rw [UInt8.ofNat_toNat] at h
  exact h hsome

lemma Numeral.isAlnum (n : Numeral base) : ∀ c ∈ n.digits, isAlnum c = true :=
  fun c hc => (digit_facts c base (n.all c hc)).2.2.2.2.2

lemma endsNumeral_of_space (base : Nat) {c : UInt8} (hc : isSpace c = true) :
    EndsNumeral base (c :: rest) := by
  refine ⟨?_, ?_, ?_⟩
  · cases hd : digit base c with
    | none => rfl
    | some d =>
    have hno := (digit_facts c base (by rw [hd]; rfl)).1
    rw [hc] at hno
    cases hno
  · rintro rfl
    exact absurd hc (by decide)
  rintro rfl
  exact absurd hc (by decide)

/-- **Numerals.** A numeral behind any spaces is read as a whole. -/
lemma scanUnsigned_numeral (n : Numeral base) {spaces : List UInt8}
    (hspaces : ∀ c ∈ spaces, isSpace c = true) (hrest : EndsNumeral base rest) :
    scanUnsigned base (spaces ++ (n.digits ++ rest)) =
      some (toUnsigned false n.value, rest) := by
  obtain ⟨digits, hne, hall⟩ := n
  obtain ⟨c, digits, rfl⟩ : ∃ c ds, digits = c :: ds := List.exists_cons_of_ne_nil hne
  have hc := hall c (.head _)
  obtain ⟨hspace, hminus, hplus, _⟩ := digit_facts c base hc
  have hskip : skipSpace (spaces ++ (c :: digits ++ rest)) = c :: digits ++ rest := by
    unfold skipSpace
    rw [List.dropWhile_append_of_pos hspaces, List.cons_append, List.dropWhile_cons_of_neg
      (by rw [hspace]; simp)]
  have hsign : scanSign (c :: digits ++ rest) = (false, c :: digits ++ rest) := by
    rw [List.cons_append, scanSign, if_neg hminus, if_neg hplus]
  -- the second character is a digit or ends the numeral
  have hprefix : skipHexPrefix (c :: digits ++ rest) = c :: digits ++ rest := by
    cases hsecond : digits ++ rest with
    | nil =>
      rw [List.cons_append, hsecond]
      rfl
    | cons d more =>
    have hd : d ≠ 120 ∧ d ≠ 88 := by
      cases digits with
      | nil =>
        rw [List.nil_append] at hsecond
        rw [hsecond] at hrest
        exact hrest.2
      | cons d' digits =>
      obtain ⟨rfl, _⟩ := List.cons.inj hsecond
      have hfacts := digit_facts d' base (hall d' (by simp))
      exact ⟨hfacts.2.2.2.1, hfacts.2.2.2.2.1⟩
    rw [List.cons_append, hsecond, skipHexPrefix, if_neg]
    rintro ⟨_, hx | hx⟩
    · exact hd.1 hx
    · exact hd.2 hx
  have hdigits := scanDigits_append 0 hall hrest
  unfold scanUnsigned
  simp only [hskip, hsign, hprefix, ite_self]
  rw [List.cons_append] at hdigits ⊢
  simp only [hc, if_true, hdigits]
  rfl

lemma toUnsigned_of_lt {value : Nat} (hlt : value < 2 ^ 64) : toUnsigned false value = value := by
  unfold toUnsigned
  rw [if_neg hlt.not_ge]
  rfl

end Vmill.Base
