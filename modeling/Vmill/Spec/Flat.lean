import Vmill.Base.Overwrite
import Vmill.Program.Page

/-!
# Flat guest memory

A partial map from guest addresses to bytes, with page permissions. A read stops at the first
unmapped byte, a write at the first page that is not writable or not mapped. `none` is an access
that does not return.
-/

namespace Vmill.Flat

open Base

variable {mem mem' : Nat → Option UInt8} {addr page endAddr fuel : Nat} {vals : List UInt8}
  {writable : Nat → Bool} {ok : Bool}

/-- Read `count` bytes: the flag, and the bytes delivered. A failing read still
stores the zero of the unmapped byte. -/
def readBytes (mem : Nat → Option UInt8) : Nat → Nat → Bool × List UInt8
  | _, 0 => (true, [])
  | addr, count + 1 =>
    match mem addr with
    | none => (false, [0])
    | some val =>
      let (ok, vals) := readBytes mem (addr + 1) count
      (ok, val :: vals)

def readLoop (mem : Nat → Option UInt8) : Nat → Nat → Nat → Nat → Option (Bool × List UInt8)
  | 0, _, _, _ => none
  | fuel + 1, page, addr, endAddr =>
    if page < endAddr then
      let pageEnd := wrap64 (page + kPageSize)
      let nextEnd := min endAddr pageEnd
      match readBytes mem addr (nextEnd - addr) with
      | (false, vals) => some (false, vals)
      | (true, vals) =>
        match readLoop mem fuel pageEnd (max addr nextEnd) endAddr with
        | none => none
        | some (ok, vals') => some (ok, vals ++ vals')
    else some (true, [])

/-- Write `vals` to `[addr, endAddr)` page by page: the flag and the memory
afterwards. -/
def writeLoop (writable : Nat → Bool) : Nat → (Nat → Option UInt8) → Nat → Nat → Nat →
    List UInt8 → Option (Bool × (Nat → Option UInt8))
  | 0, _, _, _, _, _ => none
  | fuel + 1, mem, page, addr, endAddr, vals =>
    if page < endAddr then
      if writable page then
        let pageEnd := wrap64 (page + kPageSize)
        let nextEnd := min endAddr pageEnd
        let count := nextEnd - addr
        if count = 0 ∨ (mem addr).isSome then
          writeLoop writable fuel (overwrite mem addr ((vals.take count).map some)) pageEnd
            (max addr nextEnd) endAddr (vals.drop count)
        else some (false, mem)
      else some (false, mem)
    else some (true, mem)

def tryRead (mem : Nat → Option UInt8) (addr size : Nat) : Option (Bool × List UInt8) :=
  readLoop mem kPageSteps (alignDownToPage addr) addr (wrap64 (addr + size))

/-- Read a value of `size` bytes; nothing is delivered if its first byte is not
mapped. -/
def tryReadTyped (mem : Nat → Option UInt8) (addr size : Nat) : Option (Bool × List UInt8) :=
  if (mem addr).isSome then tryRead mem addr size else some (false, [])

def tryWrite (writable : Nat → Bool) (mem : Nat → Option UInt8) (addr : Nat)
    (vals : List UInt8) : Option (Bool × (Nat → Option UInt8)) :=
  writeLoop writable kPageSteps mem (alignDownToPage addr) addr (wrap64 (addr + vals.length)) vals

lemma readBytes_of_mapped {count : Nat} (hlen : vals.length = count)
    (hmem : ∀ i (hi : i < vals.length), mem (addr + i) = some vals[i]) :
    readBytes mem addr count = (true, vals) := by
  induction vals generalizing addr count with
  | nil =>
    subst hlen
    rfl
  | cons v vals ih =>
  subst hlen
  have hfirst : mem addr = some v := hmem 0 (by simp)
  have hrest : readBytes mem (addr + 1) vals.length = (true, vals) := by
    refine ih rfl fun i hi => ?_
    have h1 := hmem (i + 1) (by simpa using hi)
    rw [List.getElem_cons_succ] at h1
    rw [← h1]
    congr 1
    omega
  show readBytes mem addr (vals.length + 1) = (true, v :: vals)
  unfold readBytes
  rw [hfirst]
  simp only [hrest]

/-- One round of a page loop: the chunk `[addr, nextEnd)` lies in the page, and
the next round starts where it ends. -/
structure Round (page addr endAddr pageEnd nextEnd : Nat) : Prop where
  chunk : addr < nextEnd → page ≤ addr
  within : nextEnd ≤ page + 4096
  below : nextEnd ≤ endAddr
  next : min pageEnd endAddr ≤ max addr nextEnd
  pageMod : pageEnd % 4096 = 0

lemma round (hpage : page % 4096 = 0) (hlt : page < endAddr) (hinv : min page endAddr ≤ addr) :
    Round page addr endAddr (wrap64 (page + kPageSize))
      (min endAddr (wrap64 (page + kPageSize))) where
  chunk _ := by omega
  within := by
    have := wrap64_add_page_le page
    omega
  below := Nat.min_le_left _ _
  next := by omega
  pageMod := wrap64_add_page_mod hpage

lemma readLoop_of_mapped (hpage : page % 4096 = 0) (hinv : min page endAddr ≤ addr)
    (hend : endAddr + 4096 ≤ 2 ^ 64) (hfuel : endAddr ≤ page + fuel * 4096)
    (hlen : vals.length = endAddr - addr)
    (hmem : ∀ i (hi : i < vals.length), mem (addr + i) = some vals[i]) :
    readLoop mem (fuel + 1) page addr endAddr = some (true, vals) := by
  induction fuel generalizing page addr vals with
  | zero =>
    have hnil : vals = [] := List.eq_nil_of_length_eq_zero (by omega)
    simp only [readLoop]
    rw [if_neg (by omega), hnil]
  | succ fuel ih =>
  rw [readLoop]
  by_cases hlt : page < endAddr
  · have hr := round hpage hlt hinv
    have hwrap := wrap64_add_page page (by omega)
    simp only [if_pos hlt]
    generalize wrap64 (page + kPageSize) = pageEnd at hr hwrap ⊢
    generalize min endAddr pageEnd = nextEnd at hr ⊢
    have hbelow := hr.below
    have hfirst : readBytes mem addr (nextEnd - addr) = (true, vals.take (nextEnd - addr)) := by
      refine readBytes_of_mapped ?_ fun i hi => ?_
      · rw [List.length_take, hlen]
        omega
      rw [List.getElem_take]
      exact hmem i (by rw [List.length_take] at hi; omega)
    have hrest : readLoop mem (fuel + 1) pageEnd (max addr nextEnd) endAddr =
        some (true, vals.drop (nextEnd - addr)) := by
      refine ih hr.pageMod hr.next (by omega) ?_ fun i hi => ?_
      · rw [List.length_drop, hlen]
        omega
      have hshift : max addr nextEnd + i = addr + (nextEnd - addr + i) := by omega
      rw [List.getElem_drop, hshift]
      exact hmem _ _
    simp only [hfirst, hrest, List.take_append_drop]
  have hnil : vals = [] := List.eq_nil_of_length_eq_zero (by omega)
  rw [if_neg hlt, hnil]

lemma tryRead_of_mapped (hend : addr + vals.length + 4096 ≤ 2 ^ 64)
    (hmem : ∀ i (hi : i < vals.length), mem (addr + i) = some vals[i]) :
    tryRead mem addr vals.length = some (true, vals) := by
  unfold tryRead kPageSteps
  have hle := alignDownToPage_le addr
  rw [wrap64_of_lt (by omega)]
  exact readLoop_of_mapped (alignDownToPage_mod addr) (by omega) hend (by omega) (by omega) hmem

lemma writeLoop_true (hpage : page % 4096 = 0) (hinv : min page endAddr ≤ addr)
    (hend : endAddr ≤ 2 ^ 64) (hlen : endAddr - addr ≤ vals.length)
    (hrun : writeLoop writable fuel mem page addr endAddr vals = some (true, mem')) :
    mem' = overwrite mem addr ((vals.take (endAddr - addr)).map some) ∧
      ∀ x, addr ≤ x → x < endAddr → writable (alignDownToPage x) = true := by
  induction fuel generalizing mem page addr vals with
  | zero => exact absurd hrun (by simp [writeLoop])
  | succ fuel ih =>
  simp only [writeLoop] at hrun
  split at hrun
  · rename_i hlt
    have hr := round hpage hlt hinv
    generalize wrap64 (page + kPageSize) = pageEnd at hr hrun
    generalize min endAddr pageEnd = nextEnd at hr hrun
    have hbelow := hr.below
    split at hrun
    · rename_i hw
      split at hrun
      · obtain ⟨hmem', hpages⟩ := ih hr.pageMod hr.next (by
          rw [List.length_drop]; omega) hrun
        constructor
        · have hsum : endAddr - addr =
              (nextEnd - addr) + (endAddr - max addr nextEnd) := by omega
          rw [hmem', hsum, List.take_add, List.map_append, overwrite_append]
          have hnext : addr + ((vals.take (nextEnd - addr)).map some).length =
              max addr nextEnd := by
            rw [List.length_map, List.length_take]
            omega
          rw [hnext]
        intro x hx hxe
        by_cases hxn : x < nextEnd
        · have hchunk := hr.chunk (by omega)
          have hwithin := hr.within
          rwa [alignDownToPage_of_mem hpage (by omega) (by omega) (by omega)]
        · exact hpages x (by omega) hxe
      · simp at hrun
    · simp at hrun
  simp only [Option.some.injEq, Prod.mk.injEq, true_and] at hrun
  have hzero : endAddr - addr = 0 := by omega
  refine ⟨?_, fun x hx hxe => by omega⟩
  rw [hzero, ← hrun]
  simp

lemma writeLoop_isSome (hlast : writable (2 ^ 64 - 4096) = false) (hpage : page % 4096 = 0)
    (hend : endAddr ≤ 2 ^ 64) (hfuel : endAddr ≤ page + fuel * 4096) :
    ∃ r, writeLoop writable (fuel + 1) mem page addr endAddr vals = some r := by
  induction fuel generalizing mem page addr vals with
  | zero =>
    simp only [writeLoop]
    rw [if_neg (by omega)]
    exact ⟨_, rfl⟩
  | succ fuel ih =>
  rw [writeLoop]
  split
  · rename_i hlt
    split
    · rename_i hw
      have hne : page ≠ 2 ^ 64 - 4096 := by
        rintro rfl
        rw [hlast] at hw
        simp at hw
      simp only
      split
      · have hwrap := wrap64_add_page page (by omega)
        rw [hwrap]
        exact ih (by omega) (by omega)
      · exact ⟨_, rfl⟩
    · exact ⟨_, rfl⟩
  · exact ⟨_, rfl⟩

lemma tryWrite_true (hend : addr + vals.length < 2 ^ 64)
    (hrun : tryWrite writable mem addr vals = some (true, mem')) :
    mem' = overwrite mem addr (vals.map some) ∧
      ∀ x, addr ≤ x → x < addr + vals.length → writable (alignDownToPage x) = true := by
  unfold tryWrite at hrun
  have hle := alignDownToPage_le addr
  rw [wrap64_of_lt hend] at hrun
  obtain ⟨hmem', hpages⟩ := writeLoop_true (alignDownToPage_mod addr) (by omega) (by omega)
    (by omega) hrun
  refine ⟨?_, hpages⟩
  rw [hmem', Nat.add_sub_cancel_left, List.take_length]

lemma tryWrite_onePage (hne : vals ≠ []) (hw : writable (alignDownToPage addr) = true)
    (hmem : (mem addr).isSome = true) (hfit : addr + vals.length ≤ alignDownToPage addr + 4096)
    (hend : alignDownToPage addr + 8192 ≤ 2 ^ 64) :
    tryWrite writable mem addr vals = some (true, overwrite mem addr (vals.map some)) := by
  have hle := alignDownToPage_le addr
  have hlen : 0 < vals.length := List.length_pos_iff.mpr hne
  have hsteps : kPageSteps = (2 ^ 52 - 1) + 1 + 1 := by decide
  have hpage := wrap64_add_page (alignDownToPage addr) (by omega)
  have hmin : min (addr + vals.length) (alignDownToPage addr + 4096) - addr = vals.length := by
    omega
  unfold tryWrite
  rw [hsteps, wrap64_of_lt (by omega), writeLoop, if_pos (by omega), if_pos hw]
  simp only [hpage, hmin]
  rw [if_pos (.inr hmem), writeLoop, if_neg (by omega), List.take_length]

lemma tryWrite_isSome (mem : Nat → Option UInt8) (addr : Nat) (vals : List UInt8)
    (hlast : writable (2 ^ 64 - 4096) = false) : ∃ r, tryWrite writable mem addr vals = some r := by
  have hlt := wrap64_lt (addr + vals.length)
  unfold tryWrite kPageSteps
  exact writeLoop_isSome hlast (alignDownToPage_mod addr) (by omega) (by omega)

lemma tryWrite_wrapped (mem : Nat → Option UInt8) (hlen : vals.length ≤ 4096)
    (hend : 2 ^ 64 ≤ addr + vals.length) (haddr : addr < 2 ^ 64) :
    tryWrite writable mem addr vals = some (true, mem) := by
  have hmod := alignDownToPage_mod addr
  have hlow := lt_alignDownToPage_add haddr
  have hwrap : wrap64 (addr + vals.length) ≤ alignDownToPage addr := by
    unfold wrap64
    omega
  unfold tryWrite kPageSteps
  rw [writeLoop, if_neg hwrap.not_gt]

/-- The page loop never ends with success if the access ends in the last page: no page is beyond it.
-/
lemma writeLoop_ne_true (hpage : page % 4096 = 0) (hlt : page < 2 ^ 64)
    (hend : 2 ^ 64 - 4096 < endAddr) :
    writeLoop writable fuel mem page addr endAddr vals ≠ some (true, mem') := by
  induction fuel generalizing mem page addr vals with
  | zero => simp [writeLoop]
  | succ fuel ih =>
  rw [writeLoop, if_pos (by omega)]
  split
  · simp only
    split
    · exact ih (wrap64_add_page_mod hpage) (wrap64_lt _)
    · simp
  · simp

/-- An access that wraps around and ends below the last page succeeds without writing anything. -/
lemma tryWrite_beyond (mem : Nat → Option UInt8) (haddr : addr < 2 ^ 64)
    (hlen : vals.length < 2 ^ 64) (hwrap : 2 ^ 64 ≤ addr + vals.length)
    (hend : wrap64 (addr + vals.length) ≤ 2 ^ 64 - 4096)
    (hw : wrap64 (addr + vals.length) ≤ alignDownToPage addr ∨ writable (alignDownToPage addr) =
      true) : tryWrite writable mem addr vals = some (true, mem) := by
  have hmod := alignDownToPage_mod addr
  have hle := alignDownToPage_le addr
  have hlow := lt_alignDownToPage_add haddr
  have hbelow : wrap64 (addr + vals.length) < addr := by
    unfold wrap64
    omega
  have hsteps : kPageSteps = (2 ^ 52 - 1) + 1 + 1 := by decide
  unfold tryWrite
  generalize wrap64 (addr + vals.length) = endAddr at hend hw hbelow ⊢
  rw [hsteps, writeLoop]
  by_cases hlt : alignDownToPage addr < endAddr
  · have hpage := wrap64_add_page (alignDownToPage addr) (by omega)
    have hzero : min endAddr (alignDownToPage addr + 4096) - addr = 0 := by omega
    rw [if_pos hlt, if_pos (hw.resolve_left (by omega))]
    simp only [hpage, hzero]
    rw [if_pos (.inl trivial), writeLoop, if_neg (by omega)]
    simp
  · rw [if_neg hlt]

def Storable (writable : Nat → Bool) (mem : Nat → Option UInt8) (x : Nat) : Prop :=
  writable (alignDownToPage x) = true ∧ (mem x).isSome = true

def Whole (mem : Nat → Option UInt8) : Prop :=
  ∀ x y, x < 2 ^ 64 → y < 2 ^ 64 → alignDownToPage x = alignDownToPage y →
    (mem x).isSome = (mem y).isSome

lemma Storable.of_page (hwhole : Whole mem) {x y : Nat} (hx : x < 2 ^ 64) (hy : y < 2 ^ 64)
    (hpage : alignDownToPage x = alignDownToPage y) (hst : Storable writable mem x) :
    Storable writable mem y :=
  ⟨hpage ▸ hst.1, hwhole x y hx hy hpage ▸ hst.2⟩

lemma isSome_overwrite (hmem : ∀ x, addr ≤ x → x < addr + vals.length → (mem x).isSome = true)
    (x : Nat) : (overwrite mem addr (vals.map some) x).isSome = (mem x).isSome := by
  by_cases hin : addr ≤ x ∧ x < addr + vals.length
  · obtain ⟨i, rfl⟩ := Nat.exists_eq_add_of_le hin.1
    have hi : i < (vals.map some).length := by
      rw [List.length_map]
      omega
    rw [overwrite_of_mem hi, List.getElem_map, hmem _ hin.1 hin.2]
    rfl
  · rw [overwrite_of_not_mem (by rw [List.length_map]; omega)]

/-- What a write stores: the bytes in front of the first one that cannot be stored. -/
structure Stores (writable : Nat → Bool) (mem : Nat → Option UInt8) (addr endAddr : Nat)
    (vals : List UInt8) (ok : Bool) (mem' : Nat → Option UInt8) (k : Nat) : Prop where
  le : k ≤ endAddr - addr
  result : mem' = overwrite mem addr ((vals.take k).map some)
  stored : ∀ x, addr ≤ x → x < addr + k → Storable writable mem x
  all : ok = true → k = endAddr - addr
  stopped : ok = false → endAddr ≤ addr ∨
    (addr + k < endAddr ∧ ¬ Storable writable mem (addr + k))

lemma Stores.none (hstop : addr < endAddr → ¬ Storable writable mem addr) :
    Stores writable mem addr endAddr vals false mem 0 where
  le := Nat.zero_le _
  result := by simp
  stored x hx hlt := absurd hlt (by omega)
  all hok := absurd hok (by simp)
  stopped _ := by
    by_cases hlt : addr < endAddr
    · exact .inr ⟨hlt, hstop hlt⟩
    · exact .inl (Nat.not_lt.mp hlt)

lemma Stores.chunk {next k : Nat} (hle : addr ≤ next) (hend : next ≤ endAddr)
    (hlen : next - addr ≤ vals.length) (hst : ∀ x, addr ≤ x → x < next → Storable writable mem x)
    (hdone : next = endAddr → ok = true)
    (hrest : Stores writable (overwrite mem addr ((vals.take (next - addr)).map some)) next endAddr
      (vals.drop (next - addr)) ok mem' k) :
    Stores writable mem addr endAddr vals ok mem' (next - addr + k) := by
  have htake : (vals.take (next - addr)).length = next - addr := by
    rw [List.length_take]
    omega
  have hsame : ∀ x, Storable writable
      (overwrite mem addr ((vals.take (next - addr)).map some)) x ↔ Storable writable mem x := by
    intro x
    unfold Storable
    rw [isSome_overwrite fun y hy hlt => (hst y hy (by omega)).2]
  have hle' := hrest.le
  refine ⟨by omega, ?_, fun x hx hlt => ?_, fun hok => ?_, fun hok => ?_⟩
  · rw [hrest.result, List.take_add, List.map_append, overwrite_append, List.length_map, htake,
      Nat.add_sub_cancel' hle]
  · by_cases hxn : x < next
    · exact hst x hx hxn
    · exact (hsame x).mp (hrest.stored x (by omega) (by omega))
  · rw [hrest.all hok]
    omega
  rcases hrest.stopped hok with hover | ⟨hlt, hno⟩
  · rw [hdone (Nat.le_antisymm hend hover)] at hok
    simp at hok
  rw [hsame] at hno
  have hshift : addr + (next - addr + k) = next + k := by omega
  rw [hshift]
  exact .inr ⟨hlt, hno⟩

lemma writeLoop_below (hover : endAddr ≤ addr)
    (hrun : writeLoop writable fuel mem page addr endAddr vals = some (ok, mem')) : mem' = mem := by
  induction fuel generalizing page vals with
  | zero => exact absurd hrun (by simp [writeLoop])
  | succ fuel ih =>
  have hzero : min endAddr (wrap64 (page + kPageSize)) - addr = 0 := by omega
  have hmax : max addr (min endAddr (wrap64 (page + kPageSize))) = addr := by omega
  simp only [writeLoop, hzero, hmax, true_or, if_true, List.take_zero, List.map_nil,
    overwrite_nil] at hrun
  split at hrun
  · split at hrun
    · exact ih hrun
    · exact (Prod.mk.inj (Option.some.inj hrun)).2.symm
  · exact (Prod.mk.inj (Option.some.inj hrun)).2.symm

lemma writeLoop_past (hpast : endAddr ≤ page)
    (hrun : writeLoop writable fuel mem page addr endAddr vals = some (ok, mem')) : ok = true := by
  cases fuel with
  | zero => exact absurd hrun (by simp [writeLoop])
  | succ fuel =>
  rw [writeLoop, if_neg hpast.not_gt] at hrun
  exact (Prod.mk.inj (Option.some.inj hrun)).1.symm

/-- **The page loop** of a write, if the last page of the 64-bit space is not writable. -/
lemma writeLoop_stores (hlast : writable (2 ^ 64 - 4096) = false) (hwhole : Whole mem)
    (hpage : page % 4096 = 0) (hin : addr < endAddr → page ≤ addr ∧ addr < page + 4096)
    (hend : endAddr < 2 ^ 64) (hlen : endAddr - addr ≤ vals.length)
    (hrun : writeLoop writable fuel mem page addr endAddr vals = some (ok, mem')) :
    ∃ k, Stores writable mem addr endAddr vals ok mem' k := by
  induction fuel generalizing mem page addr vals with
  | zero => exact absurd hrun (by simp [writeLoop])
  | succ fuel ih =>
  by_cases hover : endAddr ≤ addr
  · obtain rfl := writeLoop_below hover hrun
    exact ⟨0, Nat.zero_le _, by simp, fun x hx hlt => absurd hlt (by omega), fun _ => by omega,
      fun _ => .inl hover⟩
  rw [writeLoop] at hrun
  obtain ⟨hle, hlt⟩ := hin (by omega)
  have hat : alignDownToPage addr = page := alignDownToPage_of_mem hpage hle hlt (by omega)
  rw [if_pos (by omega)] at hrun
  split at hrun
  · rename_i hw
    have hne : page ≠ 2 ^ 64 - 4096 := by
      rintro rfl
      rw [hlast] at hw
      simp at hw
    have hwrap := wrap64_add_page page (by omega)
    simp only [hwrap] at hrun
    have hcount : min endAddr (page + 4096) - addr ≠ 0 := by omega
    have hmax : max addr (min endAddr (page + 4096)) = min endAddr (page + 4096) := by omega
    rw [hmax] at hrun
    generalize hnext : min endAddr (page + 4096) = next at hrun hcount
    split at hrun
    · rename_i hmapped
      have hst : ∀ x, addr ≤ x → x < next → Storable writable mem x := fun x hx hxn =>
        Storable.of_page hwhole (x := addr) (by omega) (by omega)
          (by rw [hat, alignDownToPage_of_mem hpage (by omega) (by omega) (by omega)])
          ⟨by rw [hat]; exact hw, hmapped.resolve_left hcount⟩
      have hwhole' : Whole (overwrite mem addr ((vals.take (next - addr)).map some)) := by
        intro x y hx hy hxy
        have hmem : ∀ z, addr ≤ z → z < addr + (vals.take (next - addr)).length →
            (mem z).isSome = true := fun z hz hzl =>
          (hst z hz (by rw [List.length_take] at hzl; omega)).2
        rw [isSome_overwrite hmem, isSome_overwrite hmem]
        exact hwhole x y hx hy hxy
      obtain ⟨k, hrest⟩ := ih hwhole' (by omega) (fun _ => by omega)
        (by rw [List.length_drop]; omega) hrun
      exact ⟨_, hrest.chunk (by omega) (by omega) (by omega) hst fun _ =>
        writeLoop_past (by omega) hrun⟩
    rename_i hno
    cases hrun
    exact ⟨0, .none fun _ hst => hno (.inr hst.2)⟩
  · rename_i hw
    cases hrun
    exact ⟨0, .none fun _ hst => hw (hat ▸ hst.1)⟩

lemma tryWrite_stores (hlast : writable (2 ^ 64 - 4096) = false) (hwhole : Whole mem)
    (haddr : addr < 2 ^ 64) (hrun : tryWrite writable mem addr vals = some (ok, mem')) :
    ∃ k, Stores writable mem addr (wrap64 (addr + vals.length)) vals ok mem' k := by
  have hwrap : wrap64 (addr + vals.length) ≤ addr + vals.length := Nat.mod_le _ _
  exact writeLoop_stores hlast hwhole (alignDownToPage_mod addr)
    (fun _ => ⟨alignDownToPage_le addr, lt_alignDownToPage_add haddr⟩) (wrap64_lt _) (by omega) hrun

end Vmill.Flat
