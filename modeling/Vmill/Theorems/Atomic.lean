import Vmill.Logic.Access
import Vmill.Logic.World

/-!
# Writes that fail

The page loop of `TryWrite` checks and stores page by page: at a page that cannot be written, the
bytes in front of it have been stored.
-/

namespace Vmill

open Base AddressSpace

namespace AddressSpace

/-- A byte can be stored at the address. -/
def Storable (h : Heap) (s : AddressSpace) (x : Nat) : Prop :=
  Flat.Storable s.pageIsWritable (view h s) x

end AddressSpace

namespace Value

/-- A write of this form that returns `false` leaves the memory of every address space as it
was. -/
def FailsClean (v : Value) (cfg : Config) (w : World) (i : Nat) (s : AddressSpace) (addr : Nat) :
    Prop :=
  ∀ s' h', v.tryWrite cfg s w.heap addr = some (false, s', h') →
    ∀ (j : Nat) (t t' : AddressSpace), w.spaces[j]? = some t →
      (w.put i s' h').spaces[j]? = some t' → view h' t' = view w.heap t

/-- If some byte cannot be stored, the bytes in front of the first such byte are already
there. -/
def PrefixStored (v : Value) (h : Heap) (s : AddressSpace) (a : Nat) : Prop :=
  ∀ k, a + k < wrap64 (a + v.bytes.length) → ¬ Storable h s (a + k) →
    (∀ j, j < k → Storable h s (a + j)) → ∀ j, j < k → view h s (a + j) = v.bytes[j]?

end Value

namespace AddressSpace

variable {h : Heap} {s : AddressSpace} {a k : Nat}

lemma tryWriteValue_stores (v : Value) (cfg : Config) (hwf : h.WF) (hs : s.WF h) (addr : Nat) :
    (∃ s' h', v.tryWrite cfg s h addr = some (true, s', h') ∧
      (addr &&& s.addrMask) + v.bytes.length ≤ alignDownToPage (addr &&& s.addrMask) + 4096) ∨
    ∃ ok s' h' mem' k, v.tryWrite cfg s h addr = some (ok, s', h') ∧ Updates h s h' s' mem' ∧
      Flat.Stores s.pageIsWritable (view h s) (addr &&& s.addrMask)
        (wrap64 ((addr &&& s.addrMask) + v.bytes.length)) v.bytes ok mem' k := by
  have halt := mask_lt hs addr
  have hmask := mask_mask s addr
  have hlast := hs.lastPage (2 ^ 64 - 4096) le_rfl
  obtain ⟨q, hc⟩ := tryWriteValue_cases v cfg hwf hs addr
  generalize addr &&& s.addrMask = a at halt hmask hc ⊢
  generalize v.tryWrite cfg s h addr = r at hc ⊢
  cases hc with
  | fast _ p s' h' _ ho _ _ hfit _ heq => exact .inl ⟨s', h', heq, hfit⟩
  | slow s1 h1 hacc _ hp _ heq =>
  right
  have hu := WriteCases.prepared_updates hwf hs hacc hp
  have hag := (tryWrite_agrees cfg (hu.heapWF hwf) (hu.wf hs) a v.bytes).after hu
  rw [← heq, hacc.canWrite, hacc.addrMask, hmask, hu.view] at hag
  obtain ⟨⟨ok, mem⟩, hflat⟩ := Flat.tryWrite_isSome (view h s) a v.bytes hlast
  rw [hflat] at hag
  rcases hag with ⟨_, hnone⟩ | ⟨ok', s', h', mem', hr, hf, hu'⟩
  · simp at hnone
  cases hf
  obtain ⟨k, hst⟩ := Flat.tryWrite_stores hlast (view_whole hwf hs) halt hflat
  exact ⟨ok, s', h', mem, k, hr, hu', hst⟩

lemma stores_same {writable : Nat → Bool} {mem mem' : Nat → Option UInt8} {e : Nat}
    {vals : List UInt8} {ok : Bool} (hst : Flat.Stores writable mem a e vals ok mem' k)
    (hsame : ∀ j, j < k → mem (a + j) = vals[j]?) : mem' = mem := by
  rw [hst.result]
  funext x
  by_cases hin : a ≤ x ∧ x < a + ((vals.take k).map some).length
  · obtain ⟨j, rfl⟩ := Nat.exists_eq_add_of_le hin.1
    have hj : j < ((vals.take k).map some).length := by omega
    have hj' := hj
    rw [List.length_map, List.length_take] at hj'
    rw [overwrite_of_mem hj, hsame j (by omega), List.getElem_map, List.getElem_take,
      List.getElem?_eq_getElem (by omega)]
  · rw [overwrite_of_not_mem (by omega)]

lemma stopped_unique {k' : Nat} (hk : ¬ Storable h s (a + k))
    (hbefore : ∀ j, j < k → Storable h s (a + j)) (hk' : ¬ Storable h s (a + k'))
    (hbefore' : ∀ j, j < k' → Storable h s (a + j)) : k = k' := by
  rcases Nat.lt_trichotomy k k' with hlt | heq | hgt
  · exact absurd (hbefore' k hlt) hk
  · exact heq
  · exact absurd (hbefore k' hgt) hk'

lemma write_false_iff {v : Value} {cfg : Config} (hwf : h.WF) (hs : s.WF h) (addr : Nat) :
    (∀ s' h', v.tryWrite cfg s h addr = some (false, s', h') → view h' s' = view h s) ↔
      v.PrefixStored h s (addr &&& s.addrMask) := by
  have halt := mask_lt hs addr
  have hcases := tryWriteValue_stores v cfg hwf hs addr
  unfold Value.PrefixStored
  generalize addr &&& s.addrMask = a at halt hcases ⊢
  have hwrap : wrap64 (a + v.bytes.length) ≤ a + v.bytes.length := Nat.mod_le _ _
  constructor
  · intro hclean k hk hno hbefore j hj
    rcases hcases with ⟨_, _, _, hfit⟩ | ⟨ok, s', h', mem', k', hrun, hu, hst⟩
    · -- a write within one page is not stopped behind its first byte
      have hend := wrap64_lt (a + v.bytes.length)
      have hle := alignDownToPage_le a
      have hpage : ∀ i, i ≤ k → alignDownToPage (a + i) = alignDownToPage a := fun i hi =>
        alignDownToPage_of_mem (alignDownToPage_mod a) (by omega) (by omega) (by omega)
      exact absurd ((hbefore j hj).of_page (view_whole hwf hs) (by omega) (by omega)
        ((hpage j (by omega)).trans (hpage k (Nat.le_refl k)).symm)) hno
    cases ok with
    | true =>
      have hall := hst.all rfl
      exact absurd (hst.stored (a + k) (by omega) (by omega)) hno
    | false =>
    have hk' : k' = k := by
      rcases hst.stopped rfl with hover | ⟨_, hno'⟩
      · omega
      exact stopped_unique hno' (fun i hi => hst.stored (a + i) (by omega) (by omega)) hno
        hbefore
    subst hk'
    have hlt : j < ((v.bytes.take k').map some).length := by
      rw [List.length_map, List.length_take]
      omega
    rw [← hclean s' h' hrun, hu.view, hst.result, overwrite_of_mem hlt, List.getElem_map,
      List.getElem_take, List.getElem?_eq_getElem]
  intro hprefix s' h' hrun
  rcases hcases with ⟨_, _, htrue, _⟩ | ⟨ok, s1, h1, mem', k, hrun', hu, hst⟩
  · rw [hrun] at htrue
    simp at htrue
  rw [hrun] at hrun'
  obtain ⟨rfl, rfl, rfl⟩ : false = ok ∧ s' = s1 ∧ h' = h1 := by simpa using hrun'
  rw [hu.view]
  refine stores_same hst fun j hj => ?_
  rcases hst.stopped rfl with hover | ⟨hlt, hno⟩
  · have := hst.le
    omega
  · exact hprefix k hlt hno (fun i hi => hst.stored (a + i) (by omega) (by omega)) j hj

end AddressSpace

/-- **Failing writes.** In every reachable address space, for every address and form of value: a
`TryWrite` that returns `false` leaves all of guest memory as it was exactly if the bytes in front
of the first one that cannot be stored are already there. -/
theorem failed_write_iff {cfg : Config} {w : World} (hw : World.Reachable cfg w) {i : Nat}
    {s : AddressSpace} (hi : w.spaces[i]? = some s) (addr : Nat) (v : Value) :
    v.FailsClean cfg w i s addr ↔ v.PrefixStored w.heap s (addr &&& s.addrMask) := by
  have hwf := hw.wf.heap
  have hs := hw.wf.space i s hi
  rw [← @write_false_iff _ _ v cfg hwf hs]
  constructor
  · intro hclean s' h' hrun
    exact hclean s' h' hrun i s s' hi (World.put_self hi)
  · intro hown s' h' hrun j t t' hj hj'
    by_cases hji : j = i
    · subst hji
      obtain rfl := Option.mem_unique hi hj
      obtain rfl := Option.mem_unique (World.put_self hi) hj'
      exact hown s' h' hrun
    · -- the other address spaces do not see the write
      rw [World.put_of_ne hji] at hj'
      obtain rfl := Option.mem_unique hj hj'
      rcases tryWriteValue_stores v cfg hwf hs addr with
        ⟨_, _, htrue, _⟩ | ⟨ok, s1, h1, mem', k, hrun', hu, _⟩
      · rw [hrun] at htrue
        simp at htrue
      · rw [hrun] at hrun'
        obtain ⟨_, rfl, rfl⟩ : false = ok ∧ s' = s1 ∧ h' = h1 := by simpa using hrun'
        exact hw.wf.view_of_ne hi hj hji hu

/-- A value at an unmapped address: the write fails, and changes nothing. -/
theorem failed_write_unmapped :
    ∃ w s, World.Reachable (amd64 false) w ∧ w.spaces[0]? = some s ∧
      (∃ s' h', (Value.typed .uint32 ⟨[1, 2, 3, 4], rfl⟩).tryWrite (amd64 false) s w.heap 0x2000 =
        some (false, s', h')) ∧
      (Value.typed .uint32 ⟨[1, 2, 3, 4], rfl⟩).FailsClean (amd64 false) w 0 s 0x2000 := by
  obtain ⟨w, s, hw, hi, hmask, hperm, hfails⟩ := World.reachable_eval (amd64 false)
    [.new, .addMap 0 0x1000 0x1000 none 0]
    (fun w s => s.addrMask = 2 ^ 64 - 1 ∧ s.pageIsWritable 0x2000 = false ∧
      (((Value.typed .uint32 ⟨[1, 2, 3, 4], rfl⟩).tryWrite (amd64 false) s w.heap 0x2000).any
        fun r => !r.1) = true)
    (by decide +kernel)
  obtain ⟨⟨ok, s', h'⟩, hwrite, hok⟩ := (Option.any_eq_true _ _).mp hfails
  obtain rfl : ok = false := by simpa using hok
  refine ⟨w, s, hw, hi, ⟨s', h', hwrite⟩, (failed_write_iff hw hi 0x2000 _).mpr ?_⟩
  -- the first byte cannot be stored, so there are none in front of it
  have haddr : 0x2000 &&& s.addrMask = 0x2000 := by rw [hmask]; decide
  rw [haddr]
  intro k _ _ hbefore j hj
  have hfirst := (hbefore 0 (by omega)).1
  exact absurd (hperm.symm.trans hfirst) (by simp)

/-- A 32-bit value across the end of a mapped page: the write fails, and two bytes have changed. -/
theorem failed_write_torn :
    ∃ w s s' h', World.Reachable (amd64 false) w ∧ w.spaces[0]? = some s ∧
      (Value.typed .uint32 ⟨[1, 2, 3, 4], rfl⟩).tryWrite (amd64 false) s w.heap 0x1ffe =
        some (false, s', h') ∧
      view w.heap s 0x1ffe = some 0 ∧ view h' s' 0x1ffe = some 1 ∧
      ¬ (Value.typed .uint32 ⟨[1, 2, 3, 4], rfl⟩).FailsClean (amd64 false) w 0 s 0x1ffe := by
  obtain ⟨w, s, hw, hi, hold, htorn⟩ := World.reachable_eval (amd64 false)
    [.new, .addMap 0 0x1000 0x1000 none 0]
    (fun w s => view w.heap s 0x1ffe = some 0 ∧
      (((Value.typed .uint32 ⟨[1, 2, 3, 4], rfl⟩).tryWrite (amd64 false) s w.heap 0x1ffe).any
        fun r => !r.1 && decide (view r.2.2 r.2.1 0x1ffe = some 1)) = true)
    (by decide +kernel)
  obtain ⟨⟨ok, s', h'⟩, hwrite, hafter⟩ := (Option.any_eq_true _ _).mp htorn
  obtain ⟨rfl, hnew⟩ : ok = false ∧ view h' s' 0x1ffe = some 1 := by simpa using hafter
  refine ⟨w, s, s', h', hw, hi, hwrite, hold, hnew, fun hclean => ?_⟩
  have hsame := congrFun (hclean s' h' hwrite 0 s s' hi (World.put_self hi)) 0x1ffe
  exact absurd (hnew.symm.trans (hsame.trans hold)) (by decide)

end Vmill
