import MarioBrOS.Fs.Directory
import MarioBrOS.Fs.Lookup

/-!
# The tree of directories

A well-formed tree on the disk: each directory is one block that starts with "." and "..", and each
inode has one entry apart from these. `find_inode` goes down from the root by the names on the way
(`At.findLoop`), and an absolute path is split into these names again (`components_slashed`).

Directories are read into `std_buf`, and what is behind the block stays there (`SameDisk`); so a
directory is always read with the same bytes.
-/

namespace MarioBrOS.Fs

namespace Volume

variable {v u w : Volume} {d b x : Nat}

/-- The bytes of `std_buf` once the directory `d` has been read. -/
def dirBytes (v : Volume) (d : Nat) : Bytes := (v.dirRead d (v.diskDbp d 0)).stdBuf

/-- The volume after reads: only the inode in `std_inode` and the block in `std_buf` change. -/
structure SameDisk (v w : Volume) : Prop where
  eq : w = { v with stdBuf := w.stdBuf, stdInode := w.stdInode }
  behind : ∀ x, v.blockSize ≤ x → w.stdBuf x = v.stdBuf x

lemma SameDisk.refl (v : Volume) : v.SameDisk v := ⟨rfl, fun _ _ => rfl⟩

lemma SameDisk.blockSize (h : v.SameDisk w) : w.blockSize = v.blockSize := by
  rw [h.eq]
  rfl

lemma SameDisk.trans (h : v.SameDisk w) (h' : w.SameDisk u) : v.SameDisk u where
  eq := by
    rw [h'.eq, h.eq]
  behind x hx := by
    have hx' : w.blockSize ≤ x := h.blockSize ▸ hx
    rw [h'.behind x hx', h.behind x hx]

lemma SameDisk.isDir (h : v.SameDisk w) (hd : v.IsDir d b) : w.IsDir d b := by
  rw [h.eq]
  exact ⟨hd.layout, hd.inode, hd.block, hd.data⟩

/-- A directory is read as before. -/
lemma SameDisk.readDir (h : v.SameDisk w) (hd : v.IsDir d (v.diskDbp d 0)) :
    ∃ u, w.readDir d = some u ∧ v.SameDisk u ∧ u.stdBuf = v.dirBytes d := by
  refine ⟨_, (h.isDir hd).readDir, ?_, ?_⟩
  · refine ⟨?_, fun x hx => ?_⟩
    · unfold dirRead
      rw [h.eq]
    · refine (Bytes.blit_apply_of_outside (.inr ?_)).trans (h.behind x hx)
      rw [h.blockSize, Nat.zero_add]
      exact hx
  · funext x
    have hg : w.geometry = v.geometry := by
      rw [h.eq]
      rfl
    have hdisk : w.disk = v.disk := by rw [h.eq]
    by_cases hx : x < v.blockSize
    · unfold dirBytes
      rw [dirRead_stdBuf hx, dirRead_stdBuf (h.blockSize.symm ▸ hx), hg, hdisk]
    · have hx := Nat.not_lt.mp hx
      have e1 : (w.dirRead d (v.diskDbp d 0)).stdBuf x = w.stdBuf x :=
        Bytes.blit_apply_of_outside (.inr (by rw [h.blockSize, Nat.zero_add]; exact hx))
      have e2 : v.dirBytes d x = v.stdBuf x :=
        Bytes.blit_apply_of_outside (.inr (by rw [Nat.zero_add]; exact hx))
      rw [e1, e2, h.behind x hx]

end Volume

/-! ## Trees -/

/-- A well-formed tree of directories: the directories `dirs` and the entries of each, without "."
and "..". -/
structure Tree (v : Volume) where
  dirs : Set Nat
  entries : Nat → List Nat
  root : 2 ∈ dirs
  isDir : ∀ d ∈ dirs, v.IsDir d (v.diskDbp d 0)
  block : ∀ d ∈ dirs, DirBlock (v.dirBytes d) v.blockSize (0 :: 12 :: entries d)
  dot : ∀ d ∈ dirs, entryName (v.dirBytes d) 0 = [46] ∧ entryInode (v.dirBytes d) 0 = d
  dotdot : ∀ d ∈ dirs, entryName (v.dirBytes d) 12 = [46, 46]
  named : ∀ d ∈ dirs, ∀ p ∈ 0 :: 12 :: entries d, nameLength (v.dirBytes d) p < 128 ∧
    NAME + nameLength (v.dirBytes d) p < entrySize (v.dirBytes d) p ∧
      v.dirBytes d (p + NAME + nameLength (v.dirBytes d) p) = 0
  single : ∀ d ∈ dirs, ∀ p ∈ entries d, ∀ d' ∈ dirs, ∀ p' ∈ entries d',
    entryInode (v.dirBytes d) p = entryInode (v.dirBytes d') p' → d = d' ∧ p = p'
  orphan : ∀ d ∈ dirs, ∀ p ∈ entries d, entryInode (v.dirBytes d) p ≠ 2
  parent : ∀ d ∈ dirs, ∀ p ∈ entries d, entryInode (v.dirBytes d) p ∈ dirs →
    entryInode (v.dirBytes (entryInode (v.dirBytes d) p)) 12 = d

namespace Tree

variable {v u : Volume} {T : Tree v} {d c p q : Nat} {name : List UInt8} {names : List (List UInt8)}

/-- The directory `d` is reached from the root by the names. -/
inductive At (T : Tree v) : List (List UInt8) → Nat → Prop where
  | root : At T [] 2
  | child {names : List (List UInt8)} {d p : Nat} : At T names d → p ∈ T.entries d →
      entryInode (v.dirBytes d) p ∈ T.dirs →
      At T (names ++ [entryName (v.dirBytes d) p]) (entryInode (v.dirBytes d) p)

lemma At.mem (h : T.At names d) : d ∈ T.dirs := by
  cases h with
  | root => exact T.root
  | child _ _ hc => exact hc

/-- The names on the way are proper. -/
lemma properName (hd : d ∈ T.dirs) (hp : p ∈ 0 :: 12 :: T.entries d) :
    ProperName (entryName (v.dirBytes d) p) := by
  obtain ⟨h1, h2, h3⟩ := (T.block d hd).names p hp
  refine ⟨h1, h2, h3, ?_⟩
  rw [entryName_length]
  exact (T.named d hd p hp).1

/-! ## Looking up one name -/

/-- A name with a NUL behind it is matched exactly. -/
lemma nameMatches_iff (hd : d ∈ T.dirs) (hq : q ∈ 0 :: 12 :: T.entries d)
    (h0 : (0 : UInt8) ∉ name) :
    nameMatches (v.dirBytes d) q name = true ↔ entryName (v.dirBytes d) q = name := by
  rw [nameMatches_iff_of_name h0 (T.properName hd hq).no_nul]
  refine or_iff_left ?_
  rintro ⟨hlt, hs, _⟩
  have hz := (T.named d hd q hq).2.2
  rw [hs _ hlt] at hz
  exact h0 (hz ▸ List.getElem_mem hlt)

/-- What the scan of a directory for a name stops at. -/
lemma scanDir_eq (hd : d ∈ T.dirs) (h0 : (0 : UInt8) ∉ name) :
    (∃ p ∈ 0 :: 12 :: T.entries d, entryName (v.dirBytes d) p = name ∧
      scanDir (v.dirBytes d) v.blockSize name (v.blockSize + 1) 0 =
        some (p, some (entryInode (v.dirBytes d) p))) ∨
    ((∀ p ∈ 0 :: 12 :: T.entries d, entryName (v.dirBytes d) p ≠ name) ∧
      scanDir (v.dirBytes d) v.blockSize name (v.blockSize + 1) 0 =
        some (v.blockSize, none)) := by
  rw [scanDir_tiled (T.block d hd).tiled (by omega)]
  cases h : (0 :: 12 :: T.entries d).find? fun p => nameMatches (v.dirBytes d) p name with
  | none =>
    refine .inr ⟨fun p hp e => ?_, rfl⟩
    exact List.find?_eq_none.mp h p hp ((nameMatches_iff hd hp h0).mpr e)
  | some p =>
    have hp := List.mem_of_find?_eq_some h
    have hm : nameMatches (v.dirBytes d) p name = true := by
      simpa using List.find?_some h
    exact .inl ⟨p, hp, (nameMatches_iff hd hp h0).mp hm, rfl⟩

/-- A name of an entry is found there. -/
lemma scanDir_entry (hd : d ∈ T.dirs) (hp : p ∈ 0 :: 12 :: T.entries d) :
    scanDir (v.dirBytes d) v.blockSize (entryName (v.dirBytes d) p) (v.blockSize + 1) 0 =
      some (p, some (entryInode (v.dirBytes d) p)) := by
  obtain ⟨q, hq, e, h⟩ | ⟨hno, _⟩ := scanDir_eq hd (T.properName hd hp).no_nul
  · obtain rfl := (T.block d hd).eq_of_name hq hp e
    exact h
  · exact absurd rfl (hno p hp)

/-- One step down. -/
lemma findLoop_entry (names : List (List UInt8)) (hu : v.SameDisk u) (hd : d ∈ T.dirs)
    (hp : p ∈ 0 :: 12 :: T.entries d) :
    ∃ w, v.SameDisk w ∧ Volume.findLoop (entryName (v.dirBytes d) p :: names) u d =
      if names = [] then some (w, entryInode (v.dirBytes d) p)
      else Volume.findLoop names w (entryInode (v.dirBytes d) p) := by
  obtain ⟨w, hr, hw, e⟩ := hu.readDir (T.isDir d hd)
  have hne := (T.properName hd hp).ne_nil
  refine ⟨w, hw, ?_⟩
  rw [Volume.findLoop_cons fun h => hne h.1, hr, Option.bind_some, e, hw.blockSize,
    scanDir_entry hd hp]
  rfl

/-- A name of no entry leads nowhere. -/
lemma findLoop_missing (names : List (List UInt8)) (hu : v.SameDisk u) (hd : d ∈ T.dirs)
    (hn : ProperName name)
    (hno : ∀ p ∈ 0 :: 12 :: T.entries d, entryName (v.dirBytes d) p ≠ name) :
    ∃ w, Volume.findLoop (name :: names) u d = some (w, 0) := by
  obtain ⟨w, hr, hw, e⟩ := hu.readDir (T.isDir d hd)
  obtain ⟨p, hp, e', _⟩ | ⟨_, h⟩ := scanDir_eq hd hn.no_nul
  · exact absurd e' (hno p hp)
  · refine ⟨w, ?_⟩
    rw [Volume.findLoop_cons fun h => hn.ne_nil h.1, hr, Option.bind_some, e, hw.blockSize, h,
      Option.bind_some, if_pos ⟨rfl, rfl⟩]

/-! ## The way down -/

/-- The names on the way to a directory are gone through one by one. -/
lemma At.findLoop {rest : List (List UInt8)} (h : T.At names d) (hu : v.SameDisk u)
    (hrest : rest ≠ []) : ∃ w, v.SameDisk w ∧
      Volume.findLoop (names ++ rest) u 2 = Volume.findLoop rest w d := by
  induction h generalizing rest with
  | root => exact ⟨u, hu, rfl⟩
  | @child names d p hd hp _ ih =>
    obtain ⟨w, hw, e⟩ := @ih (entryName (v.dirBytes d) p :: rest) (List.cons_ne_nil _ _)
    have hmem := List.mem_cons_of_mem 0 (List.mem_cons_of_mem 12 hp)
    obtain ⟨w', hw', e'⟩ := findLoop_entry rest hw hd.mem hmem
    refine ⟨w', hw', ?_⟩
    rw [List.append_assoc, List.singleton_append, e, e', if_neg hrest]

/-- The last name is found. -/
lemma At.findLoop_last (h : T.At names d) (hu : v.SameDisk u) (hne : names ≠ []) :
    ∃ w, Volume.findLoop names u 2 = some (w, d) := by
  cases h with
  | root => exact absurd rfl hne
  | @child names d p hd hp _ =>
    obtain ⟨w, hw, e⟩ := hd.findLoop hu (List.cons_ne_nil (entryName (v.dirBytes d) p) [])
    have hmem := List.mem_cons_of_mem 0 (List.mem_cons_of_mem 12 hp)
    obtain ⟨w', _, e'⟩ := findLoop_entry [] hw hd.mem hmem
    refine ⟨w', ?_⟩
    rw [e, e', if_pos rfl]

end Tree

/-! ## Paths -/

/-- Each name with a slash before it. -/
def slashed (names : List (List UInt8)) : List UInt8 := names.flatMap fun name => SLASH :: name

lemma slashed_append (a b : List (List UInt8)) : slashed (a ++ b) = slashed a ++ slashed b :=
  List.flatMap_append

lemma slashed_singleton (name : List UInt8) : slashed [name] = SLASH :: name := by
  unfold slashed
  rw [List.flatMap_singleton]

/-- A separator ends a component. -/
lemma strSplit_append {c : UInt8} {s r buffer : List UInt8} (h : c ∉ s) :
    strSplit c true (s ++ c :: r) buffer = (buffer ++ s) :: strSplit c true r [] := by
  induction s generalizing buffer with
  | nil =>
    rw [List.nil_append, strSplit, if_pos ⟨rfl, fun h => by cases h.2⟩, List.append_nil]
  | cons x s ih =>
    have hx : x ≠ c := fun e => h (e ▸ List.mem_cons_self)
    rw [List.cons_append, strSplit, if_neg fun h => hx h.1, if_neg hx,
      ih fun h' => h (List.mem_cons_of_mem _ h'), List.append_assoc, List.singleton_append]

/-- The path is split into the names. -/
lemma components_slashed {names : List (List UInt8)} (hne : names ≠ [])
    (h : ∀ name ∈ names, SLASH ∉ name) : components (slashed names) = names := by
  induction names with
  | nil => exact absurd rfl hne
  | cons name names ih =>
    have hname := h name List.mem_cons_self
    unfold slashed components
    rw [List.flatMap_cons, List.cons_append, List.head?_cons, if_pos rfl, List.tail_cons]
    cases names with
    | nil => rw [List.flatMap_nil, List.append_nil, strSplit_of_not_mem hname, List.nil_append]
    | cons b names =>
      have ih := ih (List.cons_ne_nil _ _) fun n hn => h n (List.mem_cons_of_mem _ hn)
      unfold slashed components at ih
      rw [List.flatMap_cons, List.cons_append, List.head?_cons, if_pos rfl, List.tail_cons] at ih
      rw [List.flatMap_cons, List.cons_append, strSplit_append hname, ih, List.nil_append]

end MarioBrOS.Fs
