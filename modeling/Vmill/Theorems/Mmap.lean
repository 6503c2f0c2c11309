import Vmill.Logic.MmapStep

/-!
# File-backed mappings with asynchronous reads

All `mmap` calls read through one buffer. Two tasks whose reads end one after the other before
either copies get each other's bytes (`mmap_holds_other_bytes`).
-/

namespace Vmill

open Base AddressSpace

/-- In every run that meets the condition, every call that returns an address has mapped
what its own reads returned, followed by zeroes. -/
theorem mmap_holds_own_bytes {cfg : Config} {w : World} {offsets : Offsets}
    {tasks : List (Task × Nat)} {ops : List MmapOp} {os : List MmapOut} {σ' : MmapState}
    (hw : World.Reachable cfg w)
    (hops : (mmaps cfg).RunMeets MmapState.Orderly ops (MmapState.init w offsets tasks))
    (hr : (mmaps cfg).run ops (MmapState.init w offsets tasks) = some (os, σ')) :
    Accepts Mmap.observe Mmap.Allowed os (fun _ => []) := by
  have hstep : ∀ (σ : MmapState) (φ : Mmap.Known) (op : MmapOp) (o : MmapOut) (σ' : MmapState),
      Mmap.Tracks cfg σ φ → σ.Orderly op → (mmaps cfg).step op σ = some (o, σ') →
      Mmap.Allowed φ o ∧ Mmap.Tracks cfg σ' (Mmap.observe o φ) :=
    fun σ φ op o σ' h hop hs => Mmap.good_step h hop hs
  exact (Machine.run_monitored hstep (Mmap.init_tracks (Mmap.Sound.of_reachable hw) offsets tasks)
    hops hr).1

def onePage (addr flags : Nat) (fd : Int) : MmapArgs :=
  { addr := addr, size := 100, prot := 3, flags := flags, fd := fd, offset := 0 }

def seeksOk : SeekAnswers := ⟨none, none, none, none⟩

def oneSpace (cfg : Config) : World :=
  World.init.push (AddressSpace.new cfg World.init.heap).1 (AddressSpace.new cfg World.init.heap).2

lemma oneSpace_reachable (cfg : Config) : World.Reachable cfg (oneSpace cfg) :=
  ⟨[.new], _, ⟨World.guarded_of_remaps rfl _, trivial⟩, rfl⟩

def twoTasks (cfg : Config) : MmapState :=
  MmapState.init (oneSpace cfg) (fun _ => 0) [(Task.init 0, 0), (Task.init 0, 0)]

def mappedFirst (a : Nat) (b : UInt8) : MmapOut → Bool
  | .mapped 0 0x10000 0x1000 s h => decide (view h s a = some b)
  | _ => false

lemma mappedFirst_eq {a : Nat} {b : UInt8} {o : MmapOut} (h : mappedFirst a b o = true) :
    ∃ s h, o = .mapped 0 0x10000 0x1000 s h ∧ view h s a = some b := by
  unfold mappedFirst at h
  split at h
  · exact ⟨_, _, rfl, of_decide_eq_true h⟩
  · exact nomatch h

/-- Two tasks map a page each, one where it asks to and one in a hole. The first reads two
bytes and copies them before the second reads. -/
theorem mmap_holds_own_bytes_in_turn :
    ∃ os σ', (mmaps (amd64 false)).run
        [.call 0 (some (onePage 0x10000 0x12 3)) 1 none seeksOk,
          .call 1 (some (onePage 0 0x2 4)) 1 none seeksOk, .poll 0 none, .poll 1 none,
          .deliver 0 [1, 2], .readEnds 0, .poll 0 none, .deliver 1 [7], .readEnds 1,
          .readEnds 0, .poll 0 none] (twoTasks (amd64 false)) = some (os, σ') ∧
      (∃ s h, os.getLast? = some (.mapped 0 0x10000 0x1000 s h) ∧
        view h s 0x10001 = some 2) ∧
      Accepts Mmap.observe Mmap.Allowed os (fun _ => []) := by
  have heval : ((mmaps (amd64 false)).run
      [.call 0 (some (onePage 0x10000 0x12 3)) 1 none seeksOk,
        .call 1 (some (onePage 0 0x2 4)) 1 none seeksOk, .poll 0 none, .poll 1 none,
        .deliver 0 [1, 2], .readEnds 0, .poll 0 none, .deliver 1 [7], .readEnds 1,
        .readEnds 0, .poll 0 none] (twoTasks (amd64 false))).any (fun r =>
      r.1.getLast?.any (mappedFirst 0x10001 2)) = true := by
    decide +kernel
  obtain ⟨⟨os, σ'⟩, hrun, hlast⟩ := (Option.any_eq_true _ _).mp heval
  refine ⟨os, σ', hrun, ?_, mmap_holds_own_bytes (oneSpace_reachable _) (by decide +kernel) hrun⟩
  obtain ⟨o, hlast, hmapped⟩ := (Option.any_eq_true _ _).mp hlast
  obtain ⟨s, h, rfl, hview⟩ := mappedFirst_eq hmapped
  exact ⟨s, h, hlast, hview⟩

/-- Two tasks map a page each, and both reads end before either copies: the first maps the
byte that was read for the second. -/
theorem mmap_holds_other_bytes :
    ∃ os σ', (mmaps (amd64 false)).run
        [.call 0 (some (onePage 0x10000 0x12 3)) 1 none seeksOk,
          .call 1 (some (onePage 0x20000 0x12 4)) 1 none seeksOk, .poll 0 none, .poll 1 none,
          .deliver 0 [1], .readEnds 0, .deliver 1 [2], .readEnds 1, .poll 0 none, .readEnds 0,
          .poll 0 none] (twoTasks (amd64 false)) = some (os, σ') ∧
      World.Reachable (amd64 false) (oneSpace (amd64 false)) ∧
      ¬ Accepts Mmap.observe Mmap.Allowed os (fun _ => []) := by
  have heval : ((mmaps (amd64 false)).run
      [.call 0 (some (onePage 0x10000 0x12 3)) 1 none seeksOk,
        .call 1 (some (onePage 0x20000 0x12 4)) 1 none seeksOk, .poll 0 none, .poll 1 none,
        .deliver 0 [1], .readEnds 0, .deliver 1 [2], .readEnds 1, .poll 0 none, .readEnds 0,
        .poll 0 none] (twoTasks (amd64 false))).any (fun r =>
      decide (known Mmap.observe r.1.dropLast (fun _ => []) 0 = [1]) &&
        r.1.getLast?.any (mappedFirst 0x10000 2)) = true := by
    decide +kernel
  obtain ⟨⟨os, σ'⟩, hrun, hos⟩ := (Option.any_eq_true _ _).mp heval
  obtain ⟨hknown, hlast⟩ := (Bool.and_eq_true _ _).mp hos
  obtain ⟨o, hlast, hmapped⟩ := (Option.any_eq_true _ _).mp hlast
  obtain ⟨s, h, rfl, hview⟩ := mappedFirst_eq hmapped
  refine ⟨os, σ', hrun, oneSpace_reachable _, ?_⟩
  have hsplit := List.dropLast_append_getLast? _ hlast
  have hfirst := of_decide_eq_true hknown
  simp only at hsplit hfirst
  rw [← hsplit, accepts_append]
  rintro ⟨_, hallowed, _⟩
  have hown := hallowed.2 0 (by decide)
  rw [hfirst, Nat.add_zero, hview] at hown
  exact absurd hown (by decide)

end Vmill
