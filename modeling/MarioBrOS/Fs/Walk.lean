import MarioBrOS.Fs.File
import MarioBrOS.Fs.Lookup

/-!
# Following a path

What `find_inode` reads while it follows a path, on any contents of the disk. A scan is one round of
its outer loop: a directory is read into `std_buf` and the entries are compared with a component.
The loop reads the inode of an entry before it looks where the entry lies, so a component that no
entry matches is always followed out of the block; an entry of size 0 is looked at for ever; and
neither an entry with inode 0 nor an inode that is no directory ends the search. `find_inode_safe`
says when none of this happens.
-/

namespace MarioBrOS.Fs

variable {buf : Bytes} {size e e' n : Nat} {a : List UInt8} {r : Option Nat}

/-! ## One scan -/

/-- The offsets in `std_buf` that a scan reads from entry `e` on, in `n` rounds at most: the inode
of an entry, the bytes of its name up to where the comparison stops, the length of the name if it is
asked for, and the size if the entry does not match. -/
def scanReads (buf : Bytes) (size : Nat) (name : List UInt8) : Nat → Nat → List Nat
  | 0, _ => []
  | n + 1, e =>
    let stop := skipEqual buf (e + NAME) name
    List.range' e 4 ++
      if entryInode buf e ≠ 0 ∧ e < size then
        List.range' (e + NAME) (stop.1 + 1 - (e + NAME)) ++
          (if stop.2.headD 0 ≠ buf stop.1 ∧ stop.2 = [] then [e + 6] else []) ++
          if nameMatches buf e name then []
          else List.range' (e + 4) 2 ++ scanReads buf size name n (e + entrySize buf e)
      else []

/-- From entry `e` on, the scan stops at entry `e'` with result `r`, inside the block: at an entry
that matches, or at one with inode 0. The entries before have a size. -/
inductive Stops (buf : Bytes) (size : Nat) (a : List UInt8) : Nat → Nat → Option Nat → Prop
  | found {e : Nat} (hi : entryInode buf e ≠ 0) (hs : (skipEqual buf (e + NAME) a).1 < size)
      (hm : nameMatches buf e a = true) : Stops buf size a e e (some (entryInode buf e))
  | free {e : Nat} (hi : entryInode buf e = 0) (hs : e + 4 ≤ size) : Stops buf size a e e none
  | next {e e' : Nat} {r : Option Nat} (hi : entryInode buf e ≠ 0) (hs : (skipEqual buf (e + NAME) a).1 < size)
      (hm : nameMatches buf e a = false) (hz : entrySize buf e ≠ 0)
      (h : Stops buf size a (e + entrySize buf e) e' r) : Stops buf size a e e' r

variable (buf a) in
lemma le_skipEqual (p : Nat) : p ≤ (skipEqual buf p a).1 := by
  induction a generalizing p with
  | nil => exact le_refl p
  | cons c a ih =>
    rw [skipEqual]
    split
    · have := ih (p + 1)
      omega
    · exact le_refl p

/-- The comparison stops behind the header of the entry. -/
lemma header_lt (hs : (skipEqual buf (e + NAME) a).1 < size) : e + 8 < size := by
  have := le_skipEqual buf a (e + NAME)
  unfold NAME at this hs
  omega

/-- A scan that stops inside the block does not stop at its end, and finds an inode if any. -/
lemma Stops.inside (h : Stops buf size a e e' r) : e' < size ∧ r ≠ some 0 := by
  induction h with
  | found hi hs hm =>
    have := header_lt hs
    exact ⟨by omega, fun h => hi (Option.some.inj h)⟩
  | free hi hs => exact ⟨by omega, nofun⟩
  | next hi hs hm hz h ih => exact ih

/-- A round reads inside the block if the inode of its entry and, where names are compared, the byte
on which the comparison stops lie there. -/
lemma scanReads_succ (h : ∀ x ∈ scanReads buf size a (n + 1) e, x < size) :
    e + 4 ≤ size ∧ (entryInode buf e ≠ 0 → (skipEqual buf (e + NAME) a).1 < size ∧
      (nameMatches buf e a = false → ∀ x ∈ scanReads buf size a n (e + entrySize buf e), x < size)) := by
  rw [scanReads] at h
  have h4 : e + 4 ≤ size := by
    have := h (e + 3) (List.mem_append_left _ (List.mem_range'_1.mpr (by omega)))
    omega
  refine ⟨h4, fun hi => ?_⟩
  have hle := le_skipEqual buf a (e + NAME)
  rw [if_pos ⟨hi, by omega⟩] at h
  refine ⟨h _ (List.mem_append_right _ (List.mem_append_left _ (List.mem_append_left _
    (List.mem_range'_1.mpr (by omega))))), fun hm x hx => h x ?_⟩
  rw [hm]
  exact List.mem_append_right _ (List.mem_append_right _ (List.mem_append_right _ hx))

/-- The reads of a round on which names are compared. -/
lemma mem_scanReads {x : Nat} (hx : x ∈ scanReads buf size a (n + 1) e)
    (hs : (skipEqual buf (e + NAME) a).1 < size) :
    x < size ∨ nameMatches buf e a = false ∧ x ∈ scanReads buf size a n (e + entrySize buf e) := by
  have hle := le_skipEqual buf a (e + NAME)
  unfold NAME at hle hs
  rw [scanReads] at hx
  rcases List.mem_append.mp hx with hx | hx
  · rw [List.mem_range'_1] at hx
    omega
  split at hx
  · rcases List.mem_append.mp hx with hx | hx
    · rcases List.mem_append.mp hx with hx | hx
      · unfold NAME at hx
        rw [List.mem_range'_1] at hx
        omega
      · split at hx
        · rw [List.mem_singleton] at hx
          omega
        · cases hx
    · split at hx
      · cases hx
      · rename_i hm
        rcases List.mem_append.mp hx with hx | hx
        · rw [List.mem_range'_1] at hx
          omega
        · exact .inr ⟨eq_false_of_ne_true hm, hx⟩
  · cases hx

/-- What the scan computes and reads if it stops inside the block. -/
lemma Stops.scan (h : Stops buf size a e e' r) (hn : size < e + n) :
    scanDir buf size a n e = some (e', r) ∧ ∀ x ∈ scanReads buf size a n e, x < size := by
  induction h generalizing n with
  | @found e hi hs hm =>
    have hlt := header_lt hs
    obtain ⟨n, rfl⟩ := Nat.exists_eq_succ_of_ne_zero (show n ≠ 0 by omega)
    refine ⟨?_, fun x hx => (mem_scanReads hx hs).resolve_right fun h => ?_⟩
    · rw [scanDir, if_pos ⟨hi, by omega⟩, if_pos hm]
    · rw [hm] at h
      cases h.1
  | @free e hi hs =>
    obtain ⟨n, rfl⟩ := Nat.exists_eq_succ_of_ne_zero (show n ≠ 0 by omega)
    refine ⟨?_, fun x hx => ?_⟩
    · rw [scanDir, if_neg fun h => h.1 hi]
    · rw [scanReads] at hx
      rw [if_neg fun h => h.1 hi, List.append_nil, List.mem_range'_1] at hx
      omega
  | @next e e' r hi hs hm hz h ih =>
    have hlt := header_lt hs
    obtain ⟨n, rfl⟩ := Nat.exists_eq_succ_of_ne_zero (show n ≠ 0 by omega)
    rcases ih (n := n) (by omega) with ⟨h1, h2⟩
    refine ⟨?_, fun x hx => (mem_scanReads hx hs).elim id fun h => h2 x h.2⟩
    rw [scanDir, if_pos ⟨hi, by omega⟩, hm, if_neg (by decide), h1]

/-- An entry of size 0 that does not match is looked at for ever. -/
lemma scanDir_stuck (hi : entryInode buf e ≠ 0) (he : e < size) (hm : nameMatches buf e a = false)
    (hz : entrySize buf e = 0) : scanDir buf size a n e = none := by
  induction n with
  | zero => rfl
  | succ n ih => rw [scanDir, if_pos ⟨hi, he⟩, hm, if_neg (by decide), hz, Nat.add_zero, ih]

/-- A scan that ends and reads inside the block only stops there. -/
lemma stops_of_scan (h : scanDir buf size a n e = some (e', r))
    (hx : ∀ x ∈ scanReads buf size a n e, x < size) : Stops buf size a e e' r := by
  induction n generalizing e with
  | zero => cases h
  | succ n ih =>
    rcases scanReads_succ hx with ⟨h4, hin⟩
    by_cases hi : entryInode buf e = 0
    · rw [scanDir, if_neg fun h => h.1 hi] at h
      cases h
      exact .free hi h4
    · rcases hin hi with ⟨hs, hrest⟩
      cases hm : nameMatches buf e a with
      | true =>
        rw [scanDir, if_pos ⟨hi, by omega⟩, if_pos hm] at h
        cases h
        exact .found hi hs hm
      | false =>
        by_cases hz : entrySize buf e = 0
        · rw [scanDir_stuck hi (by omega) hm hz] at h
          cases h
        · rw [scanDir, if_pos ⟨hi, by omega⟩, hm, if_neg (by decide)] at h
          exact .next hi hs hm hz (ih h (hrest hm))

/-! ## The path -/

/-- One scan: the directory, the volume once it is read, and the component looked for. -/
structure Scan where
  dir : Nat
  volume : Volume
  name : List UInt8

/-- The offsets in `std_buf` that a scan reads. -/
def Scan.reads (s : Scan) : List Nat :=
  scanReads s.volume.stdBuf s.volume.blockSize s.name (s.volume.blockSize + 1) 0

/-- A scan goes through a directory, whose inode `read_inode_data` has left in `std_inode`, and
reads inside its block. -/
def Scan.Safe (s : Scan) : Prop :=
  s.volume.type &&& 0xf000 = Volume.TYPE_DIR ∧ ∀ x ∈ s.reads, x < s.volume.blockSize

instance (s : Scan) : Decidable s.Safe := inferInstanceAs (Decidable (_ ∧ _))

namespace Volume

variable (v : Volume)

/-- The scans of the loop of `find_inode`. -/
def scans : List (List UInt8) → Volume → Nat → List Scan
  | [], _, _ => []
  | name :: path, v, inode =>
    if name = [] ∧ path = [] then []
    else (v.readDir inode).elim [] fun w =>
      ⟨inode, w, name⟩ ::
        (scanDir w.stdBuf w.blockSize name (w.blockSize + 1) 0).elim [] fun stop =>
          if stop.2 = none ∧ stop.1 = w.blockSize then []
          else if path = [] then []
          else scans path w (stop.2.getD inode)

/-- The directory in which `find_inode` starts. -/
def startDir (path : List UInt8) (root : Nat) : Nat := if path.head? = some SLASH then 2 else root

/-- From directory `inode` on, every scan goes through a directory and stops inside its block. -/
def Walk : List (List UInt8) → Volume → Nat → Prop
  | [], _, _ => True
  | name :: path, v, inode =>
    (name = [] ∧ path = []) ∨ ∃ w, v.readDir inode = some w ∧ w.type &&& 0xf000 = TYPE_DIR ∧
      ∃ e r, Stops w.stdBuf w.blockSize name 0 e r ∧ (path = [] ∨ Walk path w (r.getD inode))

end Volume

/-- Entry `e` can be reached from the first one. -/
inductive OnChain (buf : Bytes) (size : Nat) : Nat → Prop
  | zero : OnChain buf size 0
  | next {e : Nat} (h : OnChain buf size e) (he : e + NAME ≤ size) (hi : entryInode buf e ≠ 0) :
    OnChain buf size (e + entrySize buf e)

namespace Volume

/-- Directory `dir` has an entry of this name, inside its block, for the directory `inode`. -/
def NamesDir (v : Volume) (dir : Nat) (name : List UInt8) (inode : Nat) : Prop :=
  (∃ w, v.readDir dir = some w ∧ ∃ e, OnChain w.stdBuf w.blockSize e ∧
    e + NAME + nameLength w.stdBuf e ≤ w.blockSize ∧ entryName w.stdBuf e = name ∧
      entryInode w.stdBuf e = inode) ∧
    inode ≠ 0 ∧ ∃ w, v.setInode inode = some w ∧ w.type &&& 0xf000 = TYPE_DIR

/-- From directory `dir` on, every component but the last names a directory. -/
def Resolves (v : Volume) : Nat → List (List UInt8) → Prop
  | _, [] => True
  | _, [_] => True
  | dir, name :: path => ∃ inode, v.NamesDir dir name inode ∧ Resolves v inode path

/-- What is asked of `find_inode`: it returns, reads entries inside `std_buf` only, goes through
directories only, and returns 0 if a component other than the last names no directory. -/
structure PathSafe (v : Volume) (path : List UInt8) (root : Nat) : Prop where
  returns : (v.findInode path root).isSome
  safe : ∀ s ∈ scans (components path) v (startDir path root), s.Safe
  refused : ¬ v.Resolves (startDir path root) (components path) →
    ∃ w, v.findInode path root = some (w, 0)

variable {v w : Volume} {inode result : Nat} {path : List (List UInt8)}

lemma scans_cons (h : ¬ (a = [] ∧ path = [])) : scans (a :: path) v inode =
    (v.readDir inode).elim [] fun w =>
      ⟨inode, w, a⟩ ::
        (scanDir w.stdBuf w.blockSize a (w.blockSize + 1) 0).elim [] fun stop =>
          if stop.2 = none ∧ stop.1 = w.blockSize then []
          else if path = [] then []
          else scans path w (stop.2.getD inode) := by
  rw [scans, if_neg h]

lemma walk_cons (h : ¬ (a = [] ∧ path = [])) : Walk (a :: path) v inode ↔
    ∃ w, v.readDir inode = some w ∧ w.type &&& 0xf000 = TYPE_DIR ∧
      ∃ e r, Stops w.stdBuf w.blockSize a 0 e r ∧ (path = [] ∨ Walk path w (r.getD inode)) := by
  rw [Walk]
  exact or_iff_right h

/-- The walk is what a safe search goes through. -/
lemma walk_iff : Walk path v inode ↔
    (findLoop path v inode).isSome ∧ ∀ s ∈ scans path v inode, s.Safe := by
  induction path generalizing v inode with
  | nil => exact ⟨fun _ => ⟨rfl, fun s hs => by cases hs⟩, fun _ => trivial⟩
  | cons a path ih =>
    by_cases h : a = [] ∧ path = []
    · rcases h with ⟨rfl, rfl⟩
      exact ⟨fun _ => ⟨rfl, fun s hs => by cases hs⟩, fun _ => .inl ⟨rfl, rfl⟩⟩
    rw [walk_cons h, findLoop_cons h, scans_cons h]
    cases hw : v.readDir inode with
    | none =>
      refine ⟨fun h => ?_, fun h => ?_⟩
      · rcases h with ⟨w, h, _⟩
        cases h
      · cases h.1
    | some w =>
      dsimp only [Option.bind_some, Option.elim]
      constructor
      · rintro ⟨w', hw', ht, e, r, hst, hrest⟩
        cases hw'
        rcases hst.inside with ⟨hlt, _⟩
        rcases hst.scan (n := w.blockSize + 1) (by omega) with ⟨h1, h2⟩
        rw [h1]
        dsimp only [Option.bind_some]
        have hend : ¬ (r = none ∧ e = w.blockSize) := fun h => by omega
        rw [if_neg hend, if_neg hend]
        by_cases hp : path = []
        · rw [if_pos hp, if_pos hp]
          refine ⟨rfl, fun s hs => ?_⟩
          cases List.mem_singleton.mp hs
          exact ⟨ht, h2⟩
        · rw [if_neg hp, if_neg hp]
          rcases ih.mp (hrest.resolve_left hp) with ⟨h3, h4⟩
          refine ⟨h3, fun s hs => ?_⟩
          rcases List.mem_cons.mp hs with rfl | hs
          · exact ⟨ht, h2⟩
          · exact h4 s hs
      · rintro ⟨hr, hs⟩
        rcases hs _ List.mem_cons_self with ⟨ht, hx⟩
        cases hsc : scanDir w.stdBuf w.blockSize a (w.blockSize + 1) 0 with
        | none =>
          rw [hsc] at hr
          cases hr
        | some stop =>
          rcases stop with ⟨e, r⟩
          -- a safe scan that ends has stopped inside the block
          have hst := stops_of_scan hsc hx
          rw [hsc] at hr hs
          dsimp only [Option.bind_some, Option.elim] at hr hs
          have hend : ¬ (r = none ∧ e = w.blockSize) := fun h => by
            have := hst.inside.1
            omega
          rw [if_neg hend] at hr hs
          refine ⟨w, rfl, ht, e, r, hst, or_iff_not_imp_left.mpr fun hp => ?_⟩
          rw [if_neg hp] at hr hs
          exact ih.mpr ⟨hr, fun s h => hs s (List.mem_cons_of_mem _ h)⟩

/-- A safe search finds an inode. -/
lemma Walk.ne_zero (h : Walk path v inode) (h0 : inode ≠ 0)
    (hr : findLoop path v inode = some (w, result)) : result ≠ 0 := by
  induction path generalizing v inode with
  | nil =>
    cases hr
    exact h0
  | cons a path ih =>
    by_cases hp : a = [] ∧ path = []
    · rcases hp with ⟨rfl, rfl⟩
      cases hr
      exact h0
    rcases (walk_cons hp).mp h with ⟨u, hu, _, e, r, hst, hrest⟩
    rcases hst.inside with ⟨hlt, hne⟩
    have hend : ¬ (r = none ∧ e = u.blockSize) := fun h => by omega
    have hget : r.getD inode ≠ 0 := by
      cases r with
      | none => exact h0
      | some j => exact fun h => hne (congrArg some h)
    rw [findLoop_cons hp, hu, Option.bind_some, (hst.scan (by omega)).1, Option.bind_some] at hr
    dsimp only at hr
    rw [if_neg hend] at hr
    split at hr
    · cases hr
      exact hget
    · rename_i hpath
      exact ih (hrest.resolve_left hpath) hget hr

/-- **Path resolution.** On any disk, a search is safe exactly if every scan goes through a
directory and stops inside its block, at an entry that matches or has inode 0, and every component
but the last names a directory. -/
theorem find_inode_safe (v : Volume) (path : List UInt8) (root : Nat) (h0 : root ≠ 0) :
    v.PathSafe path root ↔
      Walk (components path) v (startDir path root) ∧
        v.Resolves (startDir path root) (components path) := by
  have hstart : startDir path root ≠ 0 := by
    unfold startDir
    split
    · decide
    · exact h0
  constructor
  · rintro ⟨h1, h2, h3⟩
    have hw : Walk (components path) v (startDir path root) := walk_iff.mpr ⟨h1, h2⟩
    refine ⟨hw, ?_⟩
    by_contra hn
    rcases h3 hn with ⟨w, hr⟩
    exact hw.ne_zero hstart hr rfl
  · rintro ⟨hw, hr⟩
    rcases walk_iff.mp hw with ⟨h1, h2⟩
    exact ⟨h1, h2, fun hn => absurd hr hn⟩

/-! ### Two lookups -/

/-- The path "../ab". -/
def upPath : List UInt8 := [46, 46, 47, 97, 98]

lemma dirVolume_namesUp : dirVolume.NamesDir 2 [46, 46] 2 := by
  have hsize : 12 = 0 + entrySize dirVolumeRead.stdBuf 0 := by decide +kernel
  have hchain : OnChain dirVolumeRead.stdBuf dirVolumeRead.blockSize 12 := by
    rw [hsize]
    exact OnChain.zero.next (by decide +kernel) (by decide +kernel)
  have ht : (dirVolume.setInode 2).map (fun w => w.type &&& 0xf000) = some TYPE_DIR := by
    decide +kernel
  rcases Option.map_eq_some_iff.mp ht with ⟨w, hw, ht⟩
  exact ⟨⟨dirVolumeRead, dirVolume_readDir, 12, hchain, by decide +kernel, by decide +kernel,
    by decide +kernel⟩, by decide, w, hw, ht⟩

theorem find_inode_safe_sample : dirVolume.PathSafe upPath 2 := by
  refine (find_inode_safe dirVolume upPath 2 (by decide)).mpr ⟨walk_iff.mpr ?_, ?_⟩
  · exact ⟨by decide +kernel, by decide +kernel⟩
  · have hc : components upPath = [[46, 46], [97, 98]] := by decide
    rw [hc]
    exact ⟨2, dirVolume_namesUp, trivial⟩

/-- A search for "/z", a name that is not in the root directory, reads behind its block. -/
theorem findInode_reads_behind : ¬ dirVolume.PathSafe [47, 122] 2 := by
  intro h
  have hx : ¬ ∀ s ∈ scans (components [47, 122]) dirVolume (startDir [47, 122] 2), s.Safe := by
    decide +kernel
  exact hx h.safe

end Volume

end MarioBrOS.Fs
