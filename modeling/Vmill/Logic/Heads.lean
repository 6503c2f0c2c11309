import Vmill.Logic.Version

/-!
# Trace heads

Only the decoder marks trace heads. A write to code with `--version_code` drops all of them
(`Effect.heads`).
-/

namespace Vmill

open Base

namespace AddressSpace

variable {s s' : AddressSpace} {x a : Nat} {cfg : Config} {h h' : Heap} {vals : List UInt8}
  {ok : Bool}

lemma noted_heads (cfg : Config) (h : Heap) (page : Nat) (p : MemoryMapPtr)
    (hx : (noted cfg s h page p).1.traceHeads x = true) : s.traceHeads x = true := by
  unfold noted noteCodeWrite at hx
  split at hx
  · simp at hx
  · exact hx

lemma tryWrite_heads (hwf : h.WF) (hs : s.WF h)
    (hrun : s.tryWrite cfg h a vals = some (ok, s', h')) (hx : s'.traceHeads x = true) :
    s.traceHeads x = true := by
  refine tryWrite_rule cfg
    (I := fun s1 _ _ _ => s1.traceHeads x = true → s.traceHeads x = true)
    (J := fun s1 _ => s1.traceHeads x = true → s.traceHeads x = true)
    ?_ ?_ (fun _ _ _ _ _ _ hI => hI) hwf hs rfl (fun hx => hx) hrun hx
  · intro s1 h1 page addr s2 h2 v _ _ hpw hI hx
    cases hpw with
    | owned p _ vals _ _ _ _ => exact hI (noted_heads cfg h1 page p hx)
    | unowned _ _ => exact hI (noted_heads cfg h1 page s1.invalid hx)
  · intro s1 h1 page addr _ _ hI hx
    exact hI (noted_heads cfg h1 page s1.invalid hx)

lemma WriteCases.heads (hwf : h.WF) (hs : s.WF h) {quick : Bool}
    (hc : WriteCases cfg h s a vals quick (some (ok, s', h'))) (hx : s'.traceHeads x = true) :
    s.traceHeads x = true := by
  cases hc with
  | fast _ p s2 h2 _ _ _ hheads _ _ heq =>
    obtain ⟨_, rfl, _⟩ : ok = true ∧ s' = s2 ∧ h' = h2 := by simpa using heq
    rwa [← hheads]
  | slow s1 h1 hacc hheads hp _ heq =>
  have hu := prepared_updates hwf hs hacc hp
  rw [← hheads]
  exact tryWrite_heads (hu.heapWF hwf) (hu.wf hs) heq.symm hx

end AddressSpace

namespace World

open AddressSpace

variable {w : World} {j : Nat} {t : AddressSpace}

lemma put_cases {i : Nat} {s s' : AddressSpace} {h' : Heap} (hi : w.spaces[i]? = some s)
    (hj : (w.put i s' h').spaces[j]? = some t) :
    (j = i ∧ t = s') ∨ (j ≠ i ∧ w.spaces[j]? = some t) := by
  by_cases hji : j = i
  · subst hji
    rw [put_self hi] at hj
    exact .inl ⟨rfl, (Option.some.inj hj).symm⟩
  rw [put_of_ne hji] at hj
  exact .inr ⟨hji, hj⟩

/-- **No call on memory marks a trace head**: what is marked afterwards was marked before, in some
address space. -/
lemma Effect.heads {cfg : Config} {w' : World} (hw : w.WF) {op : Op}
    (hop : ∀ i pc, op ≠ .markAsTraceHead i pc) (he : Effect cfg w op w')
    (hj : w'.spaces[j]? = some t) {x : Nat} (hx : t.traceHeads x = true) :
    ∃ (i : Nat) (s : AddressSpace), w.spaces[i]? = some s ∧ s.traceHeads x = true := by
  -- a call on one address space that marks nothing
  have hput : ∀ (i : Nat) (s s' : AddressSpace) (h' : Heap), w.spaces[i]? = some s →
      (s'.traceHeads x = true → s.traceHeads x = true) →
      (w.put i s' h').spaces[j]? = some t →
      ∃ (i : Nat) (s : AddressSpace), w.spaces[i]? = some s ∧ s.traceHeads x = true := by
    intro i s s' h' hi hheads hj
    rcases put_cases hi hj with ⟨_, rfl⟩ | ⟨_, hj⟩
    · exact ⟨i, s, hi, hheads hx⟩
    · exact ⟨j, t, hj, hx⟩
  cases he with
  | read i s s' _ _ hi _ hheads => exact hput i s s' _ hi (hheads ▸ fun hx => hx) hj
  | write i s s' h' addr vals ok _ _ hi hc =>
    exact hput i s s' h' hi (fun hx => hc.heads hw.heap (hw.space i s hi) hx) hj
  | version i pc s _ hi =>
    refine hput i s _ _ hi (fun hx => ?_) hj
    unfold AddressSpace.computeCodeVersion at hx
    split at hx
    · exact hx
    · exact hx
  | mark i pc s heq _ => exact absurd heq (hop i pc)
  | replace i base size m s s' h' _ _ hi _ hrep _ _ =>
    exact hput i s s' h' hi (hrep.traceHeads ▸ fun hx => hx) hj
  | protect i base size r wr x' s _ hi =>
    refine hput i s _ _ hi (fun hx => ?_) hj
    rwa [(setPermissions_fields w.heap s base size r wr x').2.2.2.1] at hx
  | fork i s s' h' _ hi hc =>
    rcases push_cases hj with hj | ⟨_, rfl⟩
    · exact ⟨j, t, hj, hx⟩
    rw [hc.traceHeads] at hx
    exact ⟨i, s, hi, hx⟩
  | create _ =>
  rcases push_cases hj with hj | ⟨_, rfl⟩
  · exact ⟨j, t, hj, hx⟩
  simp only [AddressSpace.new, createPageToRangeMap_eq] at hx
  simp at hx

end World

end Vmill
