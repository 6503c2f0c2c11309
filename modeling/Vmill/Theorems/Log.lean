import Vmill.Spec.Log

/-!
# File-backed caches are logs

The invariant: the file is the entries followed by zeroes, fewer of them than one more entry and a
page would take. That bound makes the limit that `Extend` computes agree with the mapping when it
does not remap.
-/

namespace Vmill

open Base Log FileBackedCache

variable {size n z len : Nat} {l : List (List UInt8)} {c : FileBackedCache} {h : List (Item size)}
  {σ : CacheFile} {op : CacheOp size}

lemma length_flatten_of (hl : ∀ e ∈ l, e.length = size) : l.flatten.length = l.length * size := by
  induction l with
  | nil => simp
  | cons e l ih =>
  rw [List.flatten_cons, List.length_append, hl e (.head _),
    ih fun e' he' => hl e' (.tail _ he'), List.length_cons, Nat.succ_mul,
    Nat.add_comm]

lemma ftruncate_zeroes (data : List UInt8) (z : Nat) (hn : data.length ≤ n) :
    ftruncate (data ++ List.replicate z 0) n = data ++ List.replicate (n - data.length) 0 := by
  unfold ftruncate
  rw [List.take_append, List.take_of_length_le hn, List.take_replicate, List.append_assoc,
    List.replicate_append_replicate, List.length_append, List.length_replicate]
  congr 2
  omega

lemma ftruncate_zero (file : List UInt8) : ftruncate file 0 = [] := by
  unfold ftruncate
  rw [List.take_zero, Nat.zero_sub, List.replicate_zero, List.append_nil]

lemma storeEntries_zeroes {mappedSize : Nat} (entries : List (Entry size)) (data : List UInt8)
    (hmapped : data.length + entries.length * size ≤ mappedSize) (hz : entries.length * size ≤ z) :
    storeEntries mappedSize data.length entries (data ++ List.replicate z 0) =
      some (data ++ (entries.map Entry.bytes).flatten ++
        List.replicate (z - entries.length * size) 0) := by
  induction entries generalizing data z with
  | nil => simp [storeEntries]
  | cons e entries ih =>
  have hlen : (e :: entries).length * size = size + entries.length * size := by
    rw [List.length_cons, Nat.succ_mul, Nat.add_comm]
  rw [hlen] at hmapped hz
  have hroom : data.length + size ≤ mappedSize ∧
      data.length + size ≤ (data ++ List.replicate z (0 : UInt8)).length := by
    rw [List.length_append, List.length_replicate]
    omega
  have hfile : (data ++ List.replicate z (0 : UInt8)).take data.length ++ e.bytes ++
      (data ++ List.replicate z (0 : UInt8)).drop (data.length + size) =
        (data ++ e.bytes) ++ List.replicate (z - size) 0 := by
    rw [List.take_left', List.drop_append, List.drop_of_length_le (by omega), List.nil_append,
      List.drop_replicate]
    · congr 2
      omega
    · rfl
  have hdata : data.length + size = (data ++ e.bytes).length := by
    rw [List.length_append, e.length_eq]
  have hleft : z - size - entries.length * size = z - (e :: entries).length * size := by
    rw [hlen]
    omega
  unfold storeEntries
  rw [if_pos hroom, hfile, hdata, ih (data ++ e.bytes) (by rw [← hdata]; omega) (by omega),
    hleft, List.map_cons, List.flatten_cons, List.append_assoc data]

lemma contents_flatten (l : List (List UInt8)) (rest : List UInt8) (hl : ∀ e ∈ l, e.length = size)
    (hc : c.numEntries = l.length) : c.contents size (l.flatten ++ rest) = l := by
  unfold contents
  rw [hc]
  clear hc
  induction l with
  | nil => rfl
  | cons e l ih =>
  have he := hl e (.head _)
  rw [List.length_cons, List.range_succ_eq_map, List.map_cons, List.map_map]
  congr 1
  · simp [he]
  refine Eq.trans (List.map_congr_left fun i _ => ?_)
    (ih fun e' he' => hl e' (.tail _ he'))
  have hskip : (i + 1) * size = e.length + i * size := by
    rw [he, Nat.succ_mul, Nat.add_comm]
  simp only [Function.comp, Nat.succ_eq_add_one, List.flatten_cons, List.append_assoc, hskip,
    List.drop_append]
  rw [List.drop_of_length_le (Nat.le_add_right _ _), List.nil_append,
    Nat.add_sub_cancel_left]

/-- The cache has `n` entries, in a file of `len` bytes. -/
structure OpenOn (size : Nat) (c : FileBackedCache) (n len : Nat) : Prop where
  num : c.numEntries = n
  available : c.availableNumEntries = len / size
  mapped : c.mappedSize = len
  paged : len % 4096 = 0
  slack : len < (n + 1) * size + 4096

/-- The file holds what the entries say, and zeros. -/
structure Keeps (σ : CacheFile) (h : List (Item size)) : Prop where
  limit : σ.file.length ≤ kMaxCacheFileSize
  holds : ∃ l z, Reads h l ∧ σ.file = l.flatten ++ List.replicate z 0 ∧
    (σ.cache = none → z < size) ∧ ∀ c, σ.cache = some c → OpenOn size c l.length σ.file.length

lemma init_keeps (hsize : 0 < size) : Keeps CacheFile.init ([] : List (Item size)) where
  limit := Nat.zero_le _
  holds := ⟨[], 0, .nil, rfl, fun _ => hsize, fun _ hc => absurd hc (by simp [CacheFile.init])⟩

lemma file_length (hl : Reads h l) :
    (l.flatten ++ List.replicate z (0 : UInt8)).length = l.length * size + z := by
  rw [List.length_append, List.length_replicate, length_flatten_of hl.length_eq]

lemma Keeps.whenOpen (hk : Keeps σ h) (hopen : σ.cache = some c) :
    ∃ l z, Reads h l ∧ σ.file = l.flatten ++ List.replicate z 0 ∧
      σ.file.length = l.length * size + z ∧ OpenOn size c l.length σ.file.length := by
  obtain ⟨l, z, hl, hfile, _, hc⟩ := hk.holds
  exact ⟨l, z, hl, hfile, by rw [hfile, file_length hl], hc c hopen⟩

lemma roundUp_bounds (hn : n ≤ kMaxCacheFileSize) :
    n ≤ roundUpToPage n ∧ roundUpToPage n < n + 4096 ∧ roundUpToPage n % 4096 = 0 ∧
      roundUpToPage n ≤ kMaxCacheFileSize := by
  rw [roundUpToPage_eq]
  unfold kMaxCacheFileSize at hn ⊢
  omega

lemma Keeps.of_open (hl : Reads h l) (hfit : l.length * size ≤ len)
    (hlimit : len ≤ kMaxCacheFileSize) (hc : OpenOn size c l.length len) :
    Keeps ⟨l.flatten ++ List.replicate (len - l.length * size) 0, some c⟩ h := by
  have hlen := file_length (z := len - l.length * size) hl
  rw [Nat.add_sub_cancel' hfit] at hlen
  refine ⟨(Nat.le_of_eq hlen).trans hlimit, l, _, hl, rfl, nofun, fun c' hc' => ?_⟩
  rwa [← Option.some.inj hc', hlen]

lemma padded_eq (hl : Reads h l) (hlen : l.length * size + z ≤ len) :
    (if len > (l.flatten ++ List.replicate z (0 : UInt8)).length then
      ftruncate (l.flatten ++ List.replicate z 0) len else l.flatten ++ List.replicate z 0) =
        l.flatten ++ List.replicate (len - l.length * size) 0 := by
  have hflat := length_flatten_of hl.length_eq
  split
  case isTrue hlt => rw [ftruncate_zeroes _ _ (by omega), hflat]
  case isFalse hle =>
      rw [file_length hl] at hle
      congr 2
      omega

/-- Opening the file again brings back what was kept. -/
lemma opened_keeps (hsize : 0 < size) (hk : Keeps σ h) (hclosed : σ.cache = none) (granted : Bool)
    (seen : List (List UInt8)) :
    Keeps ⟨(opened size granted σ.file).2, some (opened size granted σ.file).1⟩
      (observe (.opened granted seen) h) := by
  obtain ⟨l, z, hl, hfile, hz, _⟩ := hk.holds
  have hz := hz hclosed
  have hlen : σ.file.length = l.length * size + z := by rw [hfile, file_length hl]
  obtain ⟨hge, hlt, hpaged, hmax⟩ := roundUp_bounds hk.limit
  have hnum : σ.file.length / size = l.length := by
    rw [hlen, Nat.mul_comm, Nat.mul_add_div hsize, Nat.div_eq_of_lt hz, Nat.add_zero]
  have hfit : l.length * size + z ≤ roundUpToPage σ.file.length := by omega
  have hpad := padded_eq hl hfit
  rw [← hfile] at hpad
  have hnext : (l.length + 1) * size = l.length * size + size := Nat.succ_mul _ _
  unfold opened
  simp only [hpad, hnum]
  split
  case isTrue hrefused =>
      -- the cache is destroyed
      rw [hrefused.2]
      have hnone : OpenOn size ⟨0 / size, 0 / size, 0⟩ ([] : List (List UInt8)).length 0 :=
        ⟨Nat.zero_div _, rfl, rfl, rfl, Nat.lt_add_left _ (by decide)⟩
      have hkeeps := Keeps.of_open .nil (Nat.le_of_eq (Nat.zero_mul _)) (Nat.zero_le _) hnone
      rw [Nat.zero_sub] at hkeeps
      rwa [ftruncate_zero]
  case isFalse hmapped =>
      have hread : Reads (observe (.opened granted seen) h) l := by
        cases granted with
        | true => exact hl
        | false =>
        have hzero : roundUpToPage σ.file.length = 0 := by simpa using hmapped
        have hnil : l.length = 0 := by
          rw [← hnum, Nat.div_eq_of_lt (by omega)]
        rw [List.eq_nil_of_length_eq_zero hnil]
        exact .nil
      have hall : OpenOn size ⟨l.length, roundUpToPage σ.file.length / size,
          roundUpToPage σ.file.length⟩ l.length (roundUpToPage σ.file.length) :=
        ⟨rfl, rfl, rfl, hpaged, by omega⟩
      exact Keeps.of_open hread (by omega) hmax hall

lemma extend_eq (hsize : 0 < size) {entries : List (Entry size)} (hpos : entries ≠ [])
    (hlimit : (c.numEntries + entries.length) * size ≤ kMaxCacheFileSize) (file : List UInt8) :
    let num := c.numEntries + entries.length
    let len := roundUpToPage (num * size)
    let remap := num > c.availableNumEntries
    let mapped := if remap then len else c.mappedSize
    c.extend entries file =
      (storeEntries mapped (c.numEntries * size) entries
        (if remap then ftruncate file len else file)).map (⟨num, len / size, mapped⟩, ·) := by
  intro num len remap mapped
  have hnum : num ≤ num * size := Nat.le_mul_of_pos_right _ hsize
  have hsmall : kMaxCacheFileSize < 2 ^ 64 := by decide
  obtain ⟨hge, _, _, hmax⟩ := roundUp_bounds hlimit
  have hnew : wrap64 (entries.length + c.numEntries) = num := by
    rw [Nat.add_comm]
    exact wrap64_of_lt ((Nat.le_trans hnum hlimit).trans_lt hsmall)
  have hnewSize : wrap64 (num * size) = num * size :=
    wrap64_of_lt (hlimit.trans_lt hsmall)
  have hcheck : ¬(num > len / size) := by
    rwa [gt_iff_lt, Nat.not_lt, Nat.le_div_iff_mul_le hsize]
  unfold extend
  simp only [List.isEmpty_iff, hpos, if_false, hnew, hnewSize, decide_eq_true_eq]
  rw [if_neg fun hexceeds => hmax.not_gt hexceeds.2, if_neg hcheck]

/-- The entries added are kept after those there were. -/
lemma extend_keeps (hsize : 0 < size) (hk : Keeps σ h) (hopen : σ.cache = some c)
    (entries : List (Entry size))
    (hlimit : (c.numEntries + entries.length) * size ≤ kMaxCacheFileSize) :
    ∃ c' file, c.extend entries σ.file = some (c', file) ∧
      Keeps ⟨file, some c'⟩ (h ++ entries.map .entry) := by
  obtain ⟨l, z, hl, hfile, hlen, hc⟩ := hk.whenOpen hopen
  have hflat := length_flatten_of hl.length_eq
  by_cases hempty : entries = []
  · subst hempty
    refine ⟨c, σ.file, rfl, ?_⟩
    rwa [List.map_nil, List.append_nil, ← hopen]
  have hextend := extend_eq hsize hempty hlimit σ.file
  rw [hc.num] at hlimit
  obtain ⟨hge, hlt, hpaged, hmax⟩ := roundUp_bounds hlimit
  simp only [hc.num, hc.available, hc.mapped, gt_iff_lt, Nat.div_lt_iff_lt_mul hsize] at hextend
  generalize hnew : roundUpToPage ((l.length + entries.length) * size) = len at *
  have hadd : (l.length + entries.length) * size = l.length * size + entries.length * size :=
    Nat.add_mul _ _ _
  have hone : size ≤ entries.length * size :=
    Nat.le_mul_of_pos_left _ (List.length_pos_of_ne_nil hempty)
  have hslack : σ.file.length < l.length * size + size + 4096 :=
    Nat.succ_mul l.length size ▸ hc.slack
  have hpages := hc.paged
  have hnext : (l.length + entries.length + 1) * size =
    (l.length + entries.length) * size + size := Nat.succ_mul _ _
  -- without a remapping the mapping already has the size that is computed
  have hmapped : (if σ.file.length < (l.length + entries.length) * size then len
      else σ.file.length) = len := by
    split
    case isTrue hremap => rfl
    case isFalse hroom => omega
  have hgrown : (if σ.file.length < (l.length + entries.length) * size then
      ftruncate σ.file len else σ.file) =
        l.flatten ++ List.replicate (len - l.length * size) 0 := by
    rw [hfile, file_length hl]
    split
    case isTrue hremap => rw [ftruncate_zeroes _ _ (by omega), hflat]
    case isFalse hroom =>
        congr 2
        omega
  have hstored : l.flatten.length + entries.length * size ≤ len := by omega
  have hstore := storeEntries_zeroes entries l.flatten (z := len - l.length * size) hstored
    (by omega)
  rw [hflat] at hstore
  rw [hmapped, hgrown, hstore] at hextend
  refine ⟨_, _, hextend, ?_⟩
  have hl' := hl.append (reads_entries entries)
  have hlength : (l ++ entries.map Entry.bytes).length = l.length + entries.length := by
    rw [List.length_append, List.length_map]
  have hall : OpenOn size ⟨l.length + entries.length, len / size, len⟩
      (l ++ entries.map Entry.bytes).length len := by
    rw [hlength]
    exact ⟨rfl, rfl, rfl, hpaged, by omega⟩
  have hkeeps := Keeps.of_open hl' (by rwa [hlength]) hmax hall
  rwa [hlength, List.flatten_append, hadd, ← Nat.sub_sub] at hkeeps

lemma destroyed_keeps (hsize : 0 < size) (hk : Keeps σ h) (hopen : σ.cache = some c) :
    Keeps ⟨c.destroyed size σ.file, none⟩ h := by
  obtain ⟨l, z, hl, hfile, hlen, hc⟩ := hk.whenOpen hopen
  have hflat := length_flatten_of hl.length_eq
  have hlimit := hk.limit
  unfold destroyed
  rw [hc.num, hc.available, Nat.mul_comm]
  split
  case isTrue hroom =>
      have hcut : ftruncate σ.file (l.length * size) = l.flatten ++ List.replicate 0 0 := by
        rw [hfile, ftruncate_zeroes _ _ (Nat.le_of_eq hflat), hflat, Nat.sub_self]
      rw [hcut]
      refine ⟨?_, l, 0, hl, rfl, fun _ => hsize, nofun⟩
      rw [file_length hl]
      omega
  case isFalse hfull =>
      refine ⟨hlimit, l, z, hl, hfile, fun _ => ?_, nofun⟩
      rw [Nat.not_lt, ← Nat.lt_succ_iff, Nat.div_lt_iff_lt_mul hsize, Nat.succ_mul] at hfull
      omega

lemma zeroes_eq (m : Nat) (hm : m * size ≤ z) :
    List.replicate z (0 : UInt8) =
      (List.replicate m (zeroEntry size)).flatten ++ List.replicate (z - m * size) 0 := by
  unfold zeroEntry
  rw [List.flatten_replicate_replicate, List.replicate_append_replicate, Nat.add_sub_cancel' hm]

lemma died_keeps (hsize : 0 < size) (hk : Keeps σ h) :
    Keeps { σ with cache := none } (h ++ [.gap]) := by
  obtain ⟨l, z, hl, hfile, _, _⟩ := hk.holds
  have hroom : z / size * size ≤ z := Nat.div_mul_le_self z size
  refine ⟨hk.limit, l ++ List.replicate (z / size) (zeroEntry size), z - z / size * size,
    hl.append (reads_gap _), ?_, fun _ => ?_, nofun⟩
  · rw [hfile, List.flatten_append, List.append_assoc, ← zeroes_eq _ hroom]
  · have hrest := Nat.div_add_mod' z size
    have hmod := Nat.mod_lt z hsize
    omega

/-- What may be added keeps the file within `kMaxCacheFileSize`. -/
def WithinLimit (σ : CacheFile) (op : CacheOp size) : Prop :=
  match op, σ.cache with
  | .append _, some c => (c.numEntries + 1) * size ≤ kMaxCacheFileSize
  | .extend entries, some c => (c.numEntries + entries.length) * size ≤ kMaxCacheFileSize
  | _, _ => True

instance (σ : CacheFile) (op : CacheOp size) : Decidable (WithinLimit σ op) := by
  unfold WithinLimit
  split <;> infer_instance

/-- A call that fits the state: a session is opened when there is none, and all else
happens in a session. -/
def Proper (σ : CacheFile) (op : CacheOp size) : Prop :=
  match op with
  | .opens _ => σ.cache = none
  | _ => σ.cache ≠ none

lemma Keeps.contents (hk : Keeps σ h) (hopen : σ.cache = some c) :
    Reads h (c.contents size σ.file) := by
  obtain ⟨l, z, hl, hfile, _, hc⟩ := hk.holds
  rwa [hfile, contents_flatten l _ hl.length_eq (hc c hopen).num]

lemma cacheFile_step (hsize : 0 < size) (hk : Keeps σ h) (hlimit : WithinLimit σ op)
    (hproper : Proper σ op) :
    ∃ o σ', CacheFile.step op σ = some (o, σ') ∧ Shows h o ∧ Keeps σ' (observe o h) := by
  unfold Proper at hproper
  unfold WithinLimit at hlimit
  unfold CacheFile.step
  cases hcache : σ.cache with
  | none =>
    rw [hcache] at hproper
    cases op with
    | opens granted =>
      have hkeeps := opened_keeps hsize hk hcache granted
      exact ⟨_, _, rfl, (hkeeps _).contents rfl, hkeeps _⟩
    | append entry => exact absurd rfl hproper
    | extend entries => exact absurd rfl hproper
    | close => exact absurd rfl hproper
    | die => exact absurd rfl hproper
  | some c =>
  rw [hcache] at hproper hlimit
  cases op with
  | opens granted => exact absurd hproper nofun
  | append entry =>
    obtain ⟨c', file, hext, hkeeps⟩ := extend_keeps hsize hk hcache [entry] hlimit
    simp only [hext, Option.map_some]
    exact ⟨_, _, rfl, trivial, hkeeps⟩
  | extend entries =>
    obtain ⟨c', file, hext, hkeeps⟩ := extend_keeps hsize hk hcache entries hlimit
    simp only [hext, Option.map_some]
    exact ⟨_, _, rfl, trivial, hkeeps⟩
  | close => exact ⟨_, _, rfl, trivial, destroyed_keeps hsize hk hcache⟩
  | die => exact ⟨_, _, rfl, trivial, died_keeps hsize hk⟩

lemma proper_of_step {σ' : CacheFile} {o : CacheOut size}
    (hs : CacheFile.step op σ = some (o, σ')) : Proper σ op := by
  unfold CacheFile.step at hs
  unfold Proper
  split at hs
  case h_6 => exact nomatch hs
  all_goals simp_all

lemma Keeps.limits (hsize : 0 < size) (hk : Keeps σ h) (hopen : σ.cache = some c) :
    c.numEntries ≤ c.availableNumEntries ∧ c.numEntries * size ≤ c.mappedSize ∧
      c.mappedSize ≤ σ.file.length := by
  obtain ⟨l, z, hl, hfile, hlen, hc⟩ := hk.whenOpen hopen
  rw [hc.num, hc.available, hc.mapped, Nat.le_div_iff_mul_le hsize]
  omega

/-- In every run of sessions within the limit, what is found after each `Open` is what the log says.
The entries of an open cache are within its limits and the mapped part of the file; if no session
was cut off, they are those that were added; and the next call within the limit returns. -/
theorem cache_round_trip (hsize : 0 < size) {ops : List (CacheOp size)} {σ : CacheFile}
    {os : List (CacheOut size)} (hlimit : (cacheFile size).RunMeets WithinLimit ops .init)
    (hrun : (cacheFile size).run ops .init = some (os, σ)) :
    Accepts observe Shows os [] ∧
      (∀ c, σ.cache = some c →
        c.numEntries ≤ c.availableNumEntries ∧ c.numEntries * size ≤ c.mappedSize ∧
          c.mappedSize ≤ σ.file.length ∧
          Reads (known observe os []) (c.contents size σ.file) ∧
          ((∀ o ∈ os, Clean o) → c.contents size σ.file = (added os).map Entry.bytes)) ∧
      ∀ op : CacheOp size, Proper σ op → WithinLimit σ op →
        ((cacheFile size).step op σ).isSome := by
  have hstep : ∀ (σ : CacheFile) (h : List (Item size)) (op : CacheOp size) (o : CacheOut size)
      (σ' : CacheFile), Keeps σ h → WithinLimit σ op → (cacheFile size).step op σ = some (o, σ') →
        Shows h o ∧ Keeps σ' (observe o h) := by
    intro σ h op o σ' hk hlimit hs
    obtain ⟨o', σ'', hs', hres⟩ := cacheFile_step hsize hk hlimit (proper_of_step hs)
    obtain ⟨rfl, rfl⟩ : o' = o ∧ σ'' = σ' := by
      simpa using hs'.symm.trans hs
    exact hres
  obtain ⟨haccepts, hk⟩ := Machine.run_monitored hstep (init_keeps hsize) hlimit hrun
  refine ⟨haccepts, fun c hopen => ?_, fun op hproper hin => ?_⟩
  · obtain ⟨hnum, hmapped, hfile⟩ := hk.limits hsize hopen
    have hreads := hk.contents hopen
    refine ⟨hnum, hmapped, hfile, hreads, fun hclean => ?_⟩
    rw [known_clean hclean] at hreads
    exact hreads.of_entries
  · obtain ⟨o, σ', hs, _⟩ := cacheFile_step hsize hk hin hproper
    exact Option.isSome_iff_exists.mpr ⟨_, hs⟩

/-- A session that is cut off after one entry of 1500 bytes: the page has room for another
one, which the next session finds as a zero entry. -/
theorem cache_round_trip_cut_off :
    ∃ (os : List (CacheOut 1500)) (σ : CacheFile) (c : FileBackedCache),
      (cacheFile 1500).run
        [.opens true, .append ⟨List.replicate 1500 7, List.length_replicate⟩, .die, .opens true]
        .init = some (os, σ) ∧ σ.cache = some c ∧ c.numEntries = 2 ∧
      Accepts observe Shows os [] ∧ c.numEntries ≤ c.availableNumEntries := by
  let ops : List (CacheOp 1500) :=
    [.opens true, .append ⟨List.replicate 1500 7, List.length_replicate⟩, .die, .opens true]
  have hlimit : (cacheFile 1500).RunMeets WithinLimit ops .init := by decide +kernel
  have hrun : ((cacheFile 1500).run ops .init).any
      (fun r => r.2.cache.any (fun c => decide (c.numEntries = 2))) = true := by decide +kernel
  obtain ⟨⟨os, σ⟩, hr, hcache⟩ := (Option.any_eq_true _ _).mp hrun
  obtain ⟨c, hopen, hnum⟩ := (Option.any_eq_true _ _).mp hcache
  have htrip := cache_round_trip (by decide) hlimit hr
  exact ⟨os, σ, c, hr, hopen, of_decide_eq_true hnum, htrip.1, (htrip.2.1 c hopen).1⟩

end Vmill
