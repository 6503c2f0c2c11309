import Mathlib.Algebra.Group.Nat.Defs
import Mathlib.Logic.Function.Basic

/-!
# Words in byte memory

Little-endian numbers of any width in a memory of bytes; `word` and `setWord` are the 64-bit case.
-/

namespace Vmill.Base

variable {j : Nat}

/-- Memory, by address. -/
abbrev ByteMem := Nat → UInt8

/-- The number in `n` bytes from `a` on. -/
def load (m : ByteMem) (a : Nat) : Nat → Nat
  | 0 => 0
  | n + 1 => (m a).toNat + 256 * load m (a + 1) n

/-- Store the low `n` bytes of a number from `a` on. -/
def store (m : ByteMem) (a : Nat) : Nat → Nat → ByteMem
  | 0, _ => m
  | n + 1, v => store (Function.update m a (UInt8.ofNat v)) (a + 1) n (v / 256)

/-- Bytes from `a` to `a + n` and from `b` to `b + k`, with none in common. -/
def Distinct (a n b k : Nat) : Prop := a + n ≤ b ∨ b + k ≤ a
deriving Decidable

/-- Two memories agree on `n` bytes from `a` on. -/
def Agree (m m' : ByteMem) (a n : Nat) : Prop := ∀ i < n, m (a + i) = m' (a + i)

instance (m m' : ByteMem) (a n : Nat) : Decidable (Agree m m' a n) :=
  inferInstanceAs (Decidable (∀ i < n, m (a + i) = m' (a + i)))

variable {m m' : ByteMem} {a b n k : Nat}

lemma store_of_outside (v : Nat) (hb : b < a ∨ a + n ≤ b) : store m a n v b = m b := by
  induction n generalizing m a v with
  | zero => rfl
  | succ n ih =>
  unfold store
  rw [ih _ (by omega), Function.update_of_ne (by omega)]

lemma Agree.apply (h : Agree m m' a n) (hb : a ≤ b ∧ b < a + n) : m b = m' b := by
  have hi := h (b - a) (by omega)
  rwa [Nat.add_sub_cancel' hb.1] at hi

lemma Agree.symm (h : Agree m m' a n) : Agree m' m a n := fun i hi => (h i hi).symm

lemma Agree.trans {m'' : ByteMem} (h : Agree m m' a n) (h' : Agree m' m'' a n) :
    Agree m m'' a n := fun i hi => (h i hi).trans (h' i hi)

lemma Agree.sub (h : Agree m m' a n) (hb : a ≤ b) (hk : b + k ≤ a + n) : Agree m m' b k :=
  fun _ hi => h.apply (by omega)

lemma agree_store (v : Nat) (hd : Distinct a n b k) : Agree (store m a n v) m b k := by
  intro i hi
  unfold Distinct at hd
  exact store_of_outside v (by omega)

lemma load_congr (h : Agree m m' a n) : load m a n = load m' a n := by
  induction n generalizing a with
  | zero => rfl
  | succ n ih =>
  unfold load
  rw [h.apply (by omega), ih (h.sub (by omega) (by omega))]

lemma load_lt (m : ByteMem) (a n : Nat) : load m a n < 256 ^ n := by
  induction n generalizing a with
  | zero => exact Nat.one_pos
  | succ n ih =>
  have hbyte := (m a).toNat_lt
  have hrest := ih (a + 1)
  unfold load
  rw [Nat.pow_succ]
  omega

lemma load_store (m : ByteMem) (a n v : Nat) : load (store m a n v) a n = v % 256 ^ n := by
  induction n generalizing m a v with
  | zero => exact (Nat.mod_one v).symm
  | succ n ih =>
  have hsplit : v % 256 ^ (n + 1) = v % 256 + 256 * (v / 256 % 256 ^ n) := by
    rw [Nat.pow_succ', Nat.mod_mul]
  unfold load store
  rw [ih, store_of_outside _ (by omega), Function.update_self, UInt8.toNat_ofNat', hsplit]

/-- The word at `a`. -/
def word (m : ByteMem) (a : Nat) : BitVec 64 := BitVec.ofNat 64 (load m a 8)

/-- Store a word at `a`. -/
def setWord (m : ByteMem) (a : Nat) (v : BitVec 64) : ByteMem := store m a 8 v.toNat

lemma word_congr (h : Agree m m' a 8) : word m a = word m' a := by
  unfold word
  rw [load_congr h]

lemma word_setWord (m : ByteMem) (a : Nat) (v : BitVec 64) : word (setWord m a v) a = v := by
  unfold word setWord
  rw [load_store]
  apply BitVec.eq_of_toNat_eq
  rw [BitVec.toNat_ofNat]
  have hv := v.isLt
  omega

lemma agree_setWord (v : BitVec 64) (hd : Distinct a 8 b k) : Agree (setWord m a v) m b k :=
  agree_store v.toNat hd

lemma word_setWord_of_apart (v : BitVec 64) (hd : Distinct a 8 b 8) :
    word (setWord m a v) b = word m b := word_congr (agree_setWord v hd)

lemma word_setWord_add (v : BitVec 64) (h : k + 8 ≤ j ∨ j + 8 ≤ k) :
    word (setWord m (a + k) v) (a + j) = word m (a + j) :=
  word_setWord_of_apart v (by unfold Distinct; omega)

lemma word_setWord_base (v : BitVec 64) (h : 8 ≤ j) :
    word (setWord m a v) (a + j) = word m (a + j) :=
  word_setWord_of_apart v (by unfold Distinct; omega)

lemma word_setWord_below (v : BitVec 64) (h : 8 ≤ k) : word (setWord m (a + k) v) a = word m a :=
  word_setWord_of_apart v (by unfold Distinct; omega)

end Vmill.Base
