import Vmill.Tools.DataFlowTracker

/-!
# What the taint of memory says

A load is never tainted: `TaintLoad` makes its result from an empty taint and sets the identifier
only. The cells follow the stores as long as no untainted `TaintStore` goes to a tainted byte, for
it returns without clearing anything. `TaintMemMove` copies in the wrong direction.
-/

namespace Vmill

open Base

/-- Whether the most recent store to each byte was tainted, after one more call. A copy stores the
bytes one after the other. -/
def TaintOp.stored (tainted : Nat → Bool) : TaintOp → Nat → Bool
  | .load _ _ => tainted
  | .store kNumBytes addr valTaint =>
    writeEach (fun i => wrap64 (addr + i)) (fun _ => valTaint.isTainted) (List.range kNumBytes)
      tainted
  | .memSet destAddr valTaint destSize =>
    writeEach (fun i => wrap64 (destAddr + i)) (fun _ => valTaint.isTainted)
      (List.range destSize) tainted
  | .memCopy destAddr srcAddr destSize =>
    copyEach (fun i => wrap64 (destAddr + i)) (fun i => wrap64 (srcAddr + i))
      (List.range destSize) tainted

/-- Whether the last store to an address was tainted. -/
def lastStores (ops : List TaintOp) : Nat → Bool := ops.foldl TaintOp.stored fun _ => false

namespace TaintState

variable {σ : TaintState} {n addr i : Nat} {t : Taint}

lemma taintLoad_isTainted (n : Nat) (σ : TaintState) (addr : Nat) :
    (σ.taintLoad n addr).1.isTainted = false := by
  unfold taintLoad
  simp only
  split
  · rfl
  split
  · rfl
  · rfl

lemma taintLoad_cells (n : Nat) (σ : TaintState) (addr : Nat) :
    (σ.taintLoad n addr).2.cells = σ.cells := by
  unfold taintLoad
  simp only
  split
  · rfl
  split
  · rfl
  · rfl

lemma flat_getLsbD (t : Taint) : t.flat.getLsbD 0 = t.isTainted := by
  unfold Taint.flat
  rw [BitVec.getLsbD_append, BitVec.getLsbD_ofBool]
  simp

lemma anyTainted_iff (taints : List Taint) :
    1#64 &&& taints.foldl (fun any taint => any ||| taint.flat) 0#64 = 0#64 ↔
      ∀ taint ∈ taints, taint.isTainted = false := by
  have hbit : ∀ any : BitVec 64,
      (taints.foldl (fun any taint => any ||| taint.flat) any).getLsbD 0 =
        (any.getLsbD 0 || taints.any Taint.isTainted) := by
    induction taints with
    | nil => simp
    | cons taint taints ih =>
    intro any
    rw [List.foldl_cons, ih, BitVec.getLsbD_or, flat_getLsbD, List.any_cons, Bool.or_assoc]
  have hand : ∀ w : BitVec 64, 1#64 &&& w = 0#64 ↔ w.getLsbD 0 = false := by
    intro w
    refine ⟨fun hzero => ?_, fun hlow => BitVec.eq_of_getLsbD_eq fun i hi => ?_⟩
    · have hfirst := congrArg (fun v => v.getLsbD 0) hzero
      simpa using hfirst
    rw [BitVec.getLsbD_and, BitVec.getLsbD_one, BitVec.getLsbD_zero]
    cases i with
    | zero => rw [hlow, Bool.and_false]
    | succ i => simp
  rw [hand, hbit, BitVec.getLsbD_zero, Bool.false_or, List.any_eq_false]
  simp

lemma sameValue_of_forall {val : BitVec 48} {taints : List Taint}
    (hall : ∀ j (hj : j < taints.length), taints[j].val = val ∧ taints[j].sel.toNat = i + j) :
    sameValue val i taints = true := by
  induction taints generalizing i with
  | nil => rfl
  | cons taint taints ih =>
  obtain ⟨hval, hsel⟩ : taint.val = val ∧ taint.sel.toNat = i := hall 0 (Nat.succ_pos _)
  unfold sameValue
  rw [if_neg (not_not.mpr hval), if_neg (not_not.mpr hsel)]
  refine ih fun j hj => ?_
  obtain ⟨hval', hsel'⟩ := hall (j + 1) (Nat.succ_lt_succ hj)
  exact ⟨hval', by rw [Nat.add_assoc, Nat.add_comm 1 j]; exact hsel'⟩

lemma cells_apart (addr : Nat) (hn : n ≤ 2 ^ 64) :
    (List.range n).Pairwise fun i j => wrap64 (addr + i) ≠ wrap64 (addr + j) := by
  refine List.pairwise_lt_range.imp_of_mem fun hi hj hlt => ?_
  have hi := List.mem_range.mp hi
  have hj := List.mem_range.mp hj
  unfold wrap64
  omega

lemma taintStore_cells (ht : t.isTainted = true) (hn : n ≤ 2 ^ 64) (hi : i < n) :
    (σ.taintStore n addr t).cells (wrap64 (addr + i)) = { t with sel := BitVec.ofNat 7 i } := by
  unfold taintStore
  rw [if_neg (by rw [ht]; simp)]
  exact writeEach_of_target (cells_apart addr hn) (List.mem_range.mpr hi)

/-- **Round trip of identifiers.** Loading the low bytes of a value that was stored gives its
identifier, and no new one. -/
theorem taintLoad_taintStore (ht : t.isTainted = true) (hn : n ≤ 128) {m : Nat} (hm : 0 < m)
    (hmn : m ≤ n) :
    (σ.taintStore n addr t).taintLoad m addr =
      ({ Taint.empty with val := t.val }, σ.taintStore n addr t) := by
  have htaints : (List.range m).map (fun i => (σ.taintStore n addr t).cells (wrap64 (addr + i))) =
      (List.range m).map fun i => { t with sel := BitVec.ofNat 7 i } := by
    refine List.map_congr_left fun i hi => taintStore_cells ht (by omega) ?_
    exact (List.mem_range.mp hi).trans_le hmn
  have hhead : ((List.range m).map fun i => { t with sel := BitVec.ofNat 7 i }).headD .empty =
      { t with sel := 0 } := by
    obtain ⟨k, rfl⟩ : ∃ k, m = k + 1 := ⟨m - 1, by omega⟩
    rw [List.range_succ_eq_map]
    rfl
  have hany : ¬ 1#64 &&& ((List.range m).map fun i => { t with sel := BitVec.ofNat 7 i }).foldl
      (fun any taint => any ||| taint.flat) 0#64 = 0#64 := by
    rw [anyTainted_iff]
    intro hnone
    have hfirst := hnone _ (List.mem_map.mpr ⟨0, List.mem_range.mpr hm, rfl⟩)
    rw [ht] at hfirst
    cases hfirst
  have hsame : sameValue t.val 0
      ((List.range m).map fun i => { t with sel := BitVec.ofNat 7 i }) = true := by
    refine sameValue_of_forall fun j hj => ?_
    rw [List.length_map, List.length_range] at hj
    rw [List.getElem_map, List.getElem_range]
    refine ⟨rfl, ?_⟩
    rw [BitVec.toNat_ofNat, Nat.mod_eq_of_lt (by omega), Nat.zero_add]
  unfold taintLoad
  simp only [htaints, hhead, if_neg hany, hsame, if_true]

theorem taintLoad_taintStore_half :
    ((new.taintStore 4 0x1000 ⟨true, 0, 5, 0⟩).taintLoad 2 0x1000).1.val = 5 := by
  rw [taintLoad_taintStore rfl (by decide) (by decide) (by decide)]

/-- Which addresses are tainted. -/
def flags (σ : TaintState) : Nat → Bool := Taint.isTainted ∘ σ.cells

/-- An untainted store is to untainted addresses. -/
def Clears (tainted : Nat → Bool) : TaintOp → Prop
  | .store kNumBytes addr valTaint =>
    valTaint.isTainted = false → ∀ i < kNumBytes, tainted (wrap64 (addr + i)) = false
  | _ => True

lemma apply_flags {op : TaintOp} (hclears : Clears σ.flags op) :
    (op.apply σ).flags = op.stored σ.flags := by
  cases op with
  | load n addr => exact congrArg (Taint.isTainted ∘ ·) (taintLoad_cells n σ addr)
  | store n addr t =>
    show (σ.taintStore n addr t).flags = _
    unfold taintStore
    by_cases ht : t.isTainted = false
    · -- nothing is written, and nothing is to be cleared
      rw [if_pos ht]
      have hsame : ∀ i ∈ List.range n, σ.flags (wrap64 (addr + i)) = t.isTainted :=
        fun i hi => (hclears ht i (List.mem_range.mp hi)).trans ht.symm
      exact (writeEach_of_eq hsame).symm
    rw [if_neg ht]
    exact comp_writeEach _ _
  | memSet dest t size => exact comp_writeEach _ _
  | memCopy dest src size => exact comp_copyEach _

/-- **Run lemma.** The flags of the cells say whether the most recent store was tainted, as long as
no untainted `TaintStore` goes to a tainted byte. -/
theorem flags_eq {ops : List TaintOp}
    (hclears : ∀ done op rest, ops = done ++ op :: rest → Clears (lastStores done) op) :
    (run ops).flags = lastStores ops := by
  induction ops using List.reverseRecOn with
  | nil => rfl
  | append_singleton ops op ih =>
  have hdone : (run ops).flags = lastStores ops := ih fun done op' rest heq =>
    hclears done op' (rest ++ [op]) (by rw [heq, List.append_assoc]; rfl)
  have hrun : run (ops ++ [op]) = op.apply (run ops) := List.foldl_concat ..
  have hlast : lastStores (ops ++ [op]) = op.stored (lastStores ops) := List.foldl_concat ..
  rw [hrun, hlast, ← hdone]
  exact apply_flags (hdone ▸ hclears ops op [] rfl)

theorem flags_eq_copied : (run [.store 2 0 ⟨true, 0, 5, 0⟩, .memCopy 8 0 2]).flags =
    lastStores [.store 2 0 ⟨true, 0, 5, 0⟩, .memCopy 8 0 2] := by
  refine flags_eq fun done op rest heq => ?_
  have hop : op ∈ [TaintOp.store 2 0 ⟨true, 0, 5, 0⟩, .memCopy 8 0 2] := by
    rw [heq]
    exact List.mem_append_right _ List.mem_cons_self
  rcases List.mem_pair.mp hop with rfl | rfl
  · exact nofun
  · trivial

end TaintState

open TaintState

/-- **Taint of loads.** For every history: a load inside of a value just stored is tainted as the
value was if and only if it was not tainted; and a load is tainted exactly if the most recent store
to one of its bytes was, if and only if there is no such byte. -/
theorem taint_law_iff (ops : List TaintOp) :
    (∀ (t : Taint) (n a m b : Nat), a ≤ b → b + m ≤ a + n →
      ((((run ops).taintStore n a t).taintLoad m b).1.isTainted = t.isTainted ↔
        t.isTainted = false)) ∧
    ∀ n a : Nat, (((run ops).taintLoad n a).1.isTainted = true ↔
        ∃ i < n, lastStores ops (wrap64 (a + i)) = true) ↔
      ∀ i < n, lastStores ops (wrap64 (a + i)) = false := by
  refine ⟨fun t n a m b _ _ => ?_, fun n a => ?_⟩
  · rw [taintLoad_isTainted]
    exact eq_comm
  · rw [taintLoad_isTainted]
    simp

/-- Four tainted bytes that are set to an untainted value. -/
theorem taint_law_cleared :
    (((run [.store 4 0x1000 ⟨true, 0, 7, 0⟩, .memSet 0x1000 .empty 4]).taintLoad 4
        0x1000).1.isTainted = true ↔
      ∃ i < 4, lastStores [.store 4 0x1000 ⟨true, 0, 7, 0⟩, .memSet 0x1000 .empty 4]
        (wrap64 (0x1000 + i)) = true) ∧
    (((run []).taintStore 4 0x1000 .empty).taintLoad 2 0x1001).1.isTainted =
      Taint.empty.isTainted :=
  ⟨((taint_law_iff _).2 4 0x1000).mpr (by decide +kernel),
    ((taint_law_iff []).1 .empty 4 0x1000 2 0x1001 (by decide) (by decide)).mpr rfl⟩

/-- A tainted value is stored and loaded again: the load has its identifier, but not the flag. -/
theorem tainted_load_lost :
    lastStores [.store 4 0x1000 ⟨true, 0, 7, 0⟩] 0x1000 = true ∧
      ((run [.store 4 0x1000 ⟨true, 0, 7, 0⟩]).taintLoad 4 0x1000).1 = ⟨false, 0, 7, 0⟩ ∧
      ¬ (((run [.store 4 0x1000 ⟨true, 0, 7, 0⟩]).taintLoad 4 0x1000).1.isTainted = true ↔
        ∃ i < 4, lastStores [.store 4 0x1000 ⟨true, 0, 7, 0⟩] (wrap64 (0x1000 + i)) = true) := by
  decide +kernel

/-- What a move is for: the destination has what the source had, and nothing else has changed. -/
def Moved (cells cells' : Nat → Taint) (dest src size : Nat) : Prop :=
  (∀ i < size, cells' (dest + i) = cells (src + i)) ∧
    ∀ x, ¬ (dest ≤ x ∧ x < dest + size) → cells' x = cells x

namespace TaintState

variable {σ : TaintState} {dest src size : Nat}

lemma fromEnd_eq {addr i : Nat} (haddr : addr + size ≤ 2 ^ 64) (hi : i < size) :
    fromEnd addr size i = addr + (size - i - 1) := by
  unfold fromEnd sub64 wrap64
  omega

lemma taintMemMove_settles (hd : dest + size ≤ 2 ^ 64) (hs : src + size ≤ 2 ^ 64) :
    (∀ x, ¬ (dest ≤ x ∧ x < dest + size) →
      (σ.taintMemMove dest src size).cells x = σ.cells x) ∧
    ∀ k < size, (σ.taintMemMove dest src size).cells (dest + k) =
      (σ.taintMemMove dest src size).cells (src + k) := by
  unfold taintMemMove
  by_cases hzero : size = 0
  · rw [if_pos hzero]
    exact ⟨fun _ _ => rfl, fun k hk => by omega⟩
  rw [if_neg hzero]
  split
  · rename_i hlt
    exact copyEach_window (fun k _ => by omega) (fun i hi => fromEnd_eq hd hi)
      (fun i hi => fromEnd_eq hs hi) (fun i j _ _ => by omega)
  rename_i hge
  exact @copyEach_window _ _ _ _ _ _ _ (fun k => k) (fun k hk => ⟨hk, rfl⟩)
    (fun i hi => wrap64_of_lt (by omega)) (fun i hi => wrap64_of_lt (by omega))
    (fun i j _ _ => by omega)

lemma taintMemMove_self : (σ.taintMemMove dest dest size).cells = σ.cells := by
  unfold taintMemMove
  split
  · rfl
  rw [if_neg (Nat.lt_irrefl _)]
  exact copyEach_self

end TaintState

/-- **Moves.** For all addresses and sizes without wrap-around: `TaintMemMove` copies as if through
a temporary, and changes nothing else, if and only if the taints of the source repeat themselves
with the distance of the two, where they overlap. -/
theorem taintMemMove_moves_iff (σ : TaintState) {dest src size : Nat}
    (hd : dest + size ≤ 2 ^ 64) (hs : src + size ≤ 2 ^ 64) :
    Moved σ.cells (σ.taintMemMove dest src size).cells dest src size ↔
      ∀ j, j + (max dest src - min dest src) < size →
        σ.cells (src + j) = σ.cells (src + j + (max dest src - min dest src)) := by
  unfold Moved
  rcases Nat.lt_trichotomy dest src with hlt | rfl | hgt
  · obtain ⟨hframe, hsettled⟩ := taintMemMove_settles (σ := σ) hd hs
    obtain ⟨d, rfl⟩ : ∃ d, src = dest + d := ⟨src - dest, by omega⟩
    rw [show max dest (dest + d) - min dest (dest + d) = d by omega, and_iff_left hframe]
    exact window_copied_down_iff (by omega) hframe hsettled
  · rw [taintMemMove_self]
    simp
  · obtain ⟨hframe, hsettled⟩ := taintMemMove_settles (σ := σ) hd hs
    obtain ⟨d, rfl⟩ : ∃ d, dest = src + d := ⟨dest - src, by omega⟩
    rw [show max (src + d) src - min (src + d) src = d by omega, and_iff_left hframe]
    exact window_copied_up_iff (by omega) hframe hsettled

theorem taintMemMove_moves_apart :
    Moved (run [.store 4 0x1000 ⟨true, 0, 7, 0⟩]).cells
      ((run [.store 4 0x1000 ⟨true, 0, 7, 0⟩]).taintMemMove 0x2000 0x1000 4).cells
      0x2000 0x1000 4 :=
  (taintMemMove_moves_iff _ (by decide) (by decide)).mpr fun j hj => absurd hj (by omega)

/-- A move by one byte: the second byte of the destination gets what the first one has got. -/
theorem taintMemMove_overlapping :
    (run [.store 2 0x1000 ⟨true, 0, 7, 0⟩]).cells 0x1001 = ⟨true, 1, 7, 0⟩ ∧
      ((run [.store 2 0x1000 ⟨true, 0, 7, 0⟩]).taintMemMove 0x1001 0x1000 2).cells 0x1002 =
        ⟨true, 0, 7, 0⟩ ∧
      ¬ Moved (run [.store 2 0x1000 ⟨true, 0, 7, 0⟩]).cells
        ((run [.store 2 0x1000 ⟨true, 0, 7, 0⟩]).taintMemMove 0x1001 0x1000 2).cells
        0x1001 0x1000 2 := by
  have hsource : (run [.store 2 0x1000 ⟨true, 0, 7, 0⟩]).cells 0x1001 = ⟨true, 1, 7, 0⟩ := by
    decide +kernel
  have hdest : ((run [.store 2 0x1000 ⟨true, 0, 7, 0⟩]).taintMemMove 0x1001 0x1000 2).cells 0x1002 =
      ⟨true, 0, 7, 0⟩ := by
    decide +kernel
  refine ⟨hsource, hdest, fun hmoved => ?_⟩
  have hsecond := (hmoved.1 1 (by decide)).symm.trans hdest
  rw [hsource] at hsecond
  exact absurd hsecond (by decide)

end Vmill
