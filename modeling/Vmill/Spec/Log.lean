import Vmill.Util.FileBackedCache

/-!
# A log of entries

A log that keeps the entries added to it, in order. Where the process died it may have a gap, in
which any number of zero entries are read.
-/

namespace Vmill.Log

open Base

variable {size : Nat} {l : List (List UInt8)}

inductive Item (size : Nat) where
  | entry (e : Entry size)
  | gap

def zeroEntry (size : Nat) : List UInt8 := List.replicate size 0

inductive Reads : List (Item size) → List (List UInt8) → Prop
  | nil : Reads [] []
  | entry {h : List (Item size)} {l : List (List UInt8)} (e : Entry size) (rest : Reads h l) :
      Reads (.entry e :: h) (e.bytes :: l)
  | gap {h : List (Item size)} {l : List (List UInt8)} (n : Nat) (rest : Reads h l) :
      Reads (.gap :: h) (List.replicate n (zeroEntry size) ++ l)

def observe (o : CacheOut size) (h : List (Item size)) : List (Item size) :=
  match o with
  | .opened true _ => h
  | .opened false _ => []
  | .added entries => h ++ entries.map .entry
  | .closed => h
  | .died => h ++ [.gap]

def Shows (h : List (Item size)) (o : CacheOut size) : Prop :=
  match o with
  | .opened granted seen => Reads (observe (.opened granted seen) h) seen
  | _ => True

variable {h : List (Item size)}

lemma Reads.append {h' : List (Item size)} {l' : List (List UInt8)} (hl : Reads h l)
    (hl' : Reads h' l') : Reads (h ++ h') (l ++ l') := by
  induction hl with
  | nil => exact hl'
  | entry e rest ih => exact .entry e ih
  | gap n rest ih =>
  rw [List.append_assoc]
  exact .gap n ih

lemma reads_entries (entries : List (Entry size)) :
    Reads (entries.map .entry) (entries.map Entry.bytes) := by
  induction entries with
  | nil => exact .nil
  | cons e entries ih => exact .entry e ih

lemma reads_gap (n : Nat) : Reads [(.gap : Item size)] (List.replicate n (zeroEntry size)) := by
  have h : Reads [(.gap : Item size)] (List.replicate n (zeroEntry size) ++ []) := .gap n .nil
  rwa [List.append_nil] at h

lemma Reads.length_eq (hl : Reads h l) : ∀ e ∈ l, e.length = size := by
  induction hl with
  | nil => exact nofun
  | entry e rest ih =>
    exact List.forall_mem_cons.mpr ⟨e.length_eq, ih⟩
  | gap n rest ih =>
  intro e' he'
  rcases List.mem_append.mp he' with hmem | hmem
  · rw [(List.mem_replicate.mp hmem).2]
    exact List.length_replicate
  · exact ih e' hmem

lemma Reads.of_entries {entries : List (Entry size)} (hl : Reads (entries.map .entry) l) :
    l = entries.map Entry.bytes := by
  induction entries generalizing l with
  | nil =>
    cases hl
    rfl
  | cons e entries ih =>
  cases hl with
  | entry _ rest => rw [List.map_cons, ih rest]

def added (os : List (CacheOut size)) : List (Entry size) :=
  os.flatMap fun
    | .added entries => entries
    | _ => []

def Clean (o : CacheOut size) : Prop :=
  match o with
  | .opened granted _ => granted = true
  | .died => False
  | _ => True

lemma known_clean {os : List (CacheOut size)} (hclean : ∀ o ∈ os, Clean o) :
    known observe os [] = (added os).map .entry := by
  have hfrom : ∀ h : List (Item size), known observe os h = h ++ (added os).map .entry := by
    induction os with
    | nil => exact fun h => (List.append_nil h).symm
    | cons o os ih =>
    intro h
    have hstep : observe o h = h ++ (added [o]).map .entry := by
      have ho := hclean o (.head _)
      cases o with
      | opened granted seen =>
        rw [show granted = true from ho]
        exact (List.append_nil h).symm
      | added entries => simp [observe, added]
      | closed => exact (List.append_nil h).symm
      | died => exact absurd ho id
    have hcons : added (o :: os) = added [o] ++ added os := by simp [added]
    have hrest := ih (fun o' ho' => hclean o' (.tail _ ho')) (observe o h)
    rwa [hcons, List.map_append, ← List.append_assoc, ← hstep]
  exact hfrom []

end Vmill.Log
