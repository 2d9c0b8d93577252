import MarioBrOS.Fs.Tree

/-!
# The path of the working directory

`get_cwd` of `shell.c` climbs from the working directory to the root by the entries "..", and puts
the names together from the back. In each parent it looks for the inode it came from with a scan of
its own, from byte 24 on: it takes ".." to be 12 bytes long. But `remove_file` makes ".." longer
when it removes the entry behind it, and the removed record stays there, with its inode.

A block of `mem_alloc` is the list of its bytes; a byte that was not written yet cannot be read. An
access outside a block makes the function return `none`, as does a loop that would never end. The
calls of `mem_free` leave no trace, also the second one of `path` on the error path, which frees a
block that is free already.
-/

namespace MarioBrOS.Shell

open Fs

/-! ## Blocks -/

/-- The bytes of a block, `none` before they are written. -/
abbrev Block := List (Option UInt8)

def memAlloc (n : Nat) : Block := List.replicate n none

/-- `block[i] = c`. -/
def put (block : Block) (i : Nat) (c : UInt8) : Option Block :=
  if i < block.length then some (block.set i (some c)) else none

/-- `for(int i = 0; i < len; i++) block[i] = ((char*) ((u_int32) entry + 8))[i]`. -/
def copyEntryName (buf : Bytes) (entry : Nat) : Nat → Block → Option Block
  | 0, block => some block
  | n + 1, block => do
    let block ← copyEntryName buf entry n block
    put block n (buf (entry + NAME + n))

/-- `string.c`, `str_copy`, of what is left of the source to the destination from `pos` on. -/
def strCopy : Block → Nat → Block → Option Block
  | [], _, _ => none
  | none :: _, _, _ => none
  | some c :: source, pos, dest => do
    let dest ← put dest pos c
    if c = 0 then some dest else strCopy source (pos + 1) dest

/-- `path = "/"`. -/
def rootPath : Option Block := do
  let path ← put (memAlloc 2) 0 SLASH
  put path 1 0

/-! ## `get_cwd` -/

/-- The globals `curr_dir` and `path` of `shell.c`, and the volume. -/
structure Cwd where
  vol : Volume
  currDir : Nat
  path : Block

/-- The loop that looks for an inode, from `entry` on, in `n` rounds at most. -/
def scanInode (buf : Bytes) (size inode : Nat) : Nat → Nat → Option Nat
  | 0, _ => none
  | n + 1, entry =>
    if entry < size ∧ entryInode buf entry ≠ inode then
      scanInode buf size inode n (entry + entrySize buf entry)
    else
      some entry

/-- Reads the parent and looks for the inode in it. -/
def findChild (v : Volume) (parent inode : Nat) : Option (Volume × Nat) := do
  let v ← v.readDir parent
  let entry ← scanInode v.stdBuf v.blockSize inode (v.blockSize + 1) 24
  some (v, entry)

/-- The second part of `get_cwd`, in `fuel` rounds at most: `while(inode != 2)` and what follows. -/
def climb (currDir : Nat) : Nat → Volume → Nat → Nat → Block → Option Cwd
  | 0, _, _, _, _ => none
  | fuel + 1, v, inode, size, path =>
    if inode ≠ 2 then do
      let parent := entryInode v.stdBuf 12
      let (v, entry) ← findChild v parent inode
      if v.blockSize ≤ entry then
        rootPath.map fun path => ⟨v, 2, path⟩
      else
        let len := nameLength v.stdBuf entry
        let tmp ← copyEntryName v.stdBuf entry len (memAlloc (len + 1 + size))
        let tmp ← put tmp len SLASH
        let tmp ← strCopy path (len + 1) tmp
        climb currDir fuel v parent (size + (len + 1)) tmp
    else do
      let tmp ← put (memAlloc (size + 1)) 0 SLASH
      let tmp ← strCopy path 1 tmp
      some ⟨v, currDir, tmp⟩

/-- `shell.c`, `get_cwd`. -/
def getCwd (fuel : Nat) (v : Volume) (currDir : Nat) : Option Cwd :=
  if currDir = 2 then
    rootPath.map fun path => ⟨v, currDir, path⟩
  else do
    let (v, buf, _) ← v.readInodeData currDir v.stdBuf 0 0 512
    let v := v.setStdBuf buf
    let parent := entryInode v.stdBuf 12
    let (v, entry) ← findChild v parent currDir
    if v.blockSize ≤ entry then
      rootPath.map fun path => ⟨v, 2, path⟩
    else
      let len := nameLength v.stdBuf entry
      let path ← copyEntryName v.stdBuf entry len (memAlloc (len + 1))
      let path ← put path len 0
      climb currDir fuel v parent (len + 1) path

/-! ## What is written -/

variable {a b block : Block} {buf : Bytes} {c : UInt8} {e q i n inode size : Nat}
  {text : List UInt8}

lemma put_append {x : Option UInt8} (h : i = a.length) :
    put (a ++ x :: b) i c = some (a ++ some c :: b) := by
  subst h
  unfold put
  rw [if_pos (by simp), List.set_append_right _ _ (le_refl _), Nat.sub_self, List.set_cons_zero]

/-- The name is copied to the front. -/
lemma copyEntryName_eq (h : n ≤ block.length) : copyEntryName buf e n block =
    some ((List.range n).map (fun i => some (buf (e + NAME + i))) ++ block.drop n) := by
  induction n with
  | zero => rfl
  | succ n ih =>
    have hlt : n < block.length := h
    rw [copyEntryName, ih hlt.le, Option.bind_eq_bind, Option.bind_some,
      List.drop_eq_getElem_cons hlt, put_append (by simp), List.range_succ, List.map_append,
      List.append_assoc]
    rfl

lemma copyEntryName_name (buf : Bytes) {e m : Nat} (h : nameLength buf e ≤ m) :
    copyEntryName buf e (nameLength buf e) (memAlloc m) =
      some ((entryName buf e).map some ++ memAlloc (m - nameLength buf e)) := by
  unfold memAlloc
  rw [copyEntryName_eq (by simpa using h), List.drop_replicate]
  unfold entryName
  rw [List.map_map]
  rfl

/-- A string is copied with its NUL. -/
lemma strCopy_eq (h0 : (0 : UInt8) ∉ text) (hlen : text.length < b.length) (hn : n = a.length) :
    strCopy (text.map some ++ [some 0]) n (a ++ b) =
      some (a ++ text.map some ++ some 0 :: b.drop (text.length + 1)) := by
  induction text generalizing a b n with
  | nil =>
    cases b with
    | nil => cases hlen
    | cons x b =>
      rw [List.map_nil, List.nil_append, strCopy, put_append hn, Option.bind_eq_bind,
        Option.bind_some, if_pos rfl, List.append_nil]
      rfl
  | cons c text ih =>
    cases b with
    | nil => cases hlen
    | cons x b =>
      have hc : c ≠ 0 := fun e => h0 (e ▸ List.mem_cons_self)
      have ih := @ih (a ++ [some c]) b (n + 1) (fun h => h0 (List.mem_cons_of_mem _ h))
        (Nat.lt_of_succ_lt_succ hlen) (by rw [List.length_append, hn]; rfl)
      rw [List.append_assoc, List.singleton_append] at ih
      rw [List.map_cons, List.cons_append, strCopy, put_append hn, Option.bind_eq_bind,
        Option.bind_some, if_neg hc, ih]
      simp

/-- A NUL ends a string in one way only. -/
lemma string_unique {text' : List UInt8} (h : (0 : UInt8) ∉ text) (h' : (0 : UInt8) ∉ text')
    (e : text.map some ++ some 0 :: a = text'.map some ++ some 0 :: b) : text = text' := by
  induction text generalizing text' with
  | nil =>
    cases text' with
    | nil => rfl
    | cons c text' =>
      injection e with e _
      injection e with e
      exact absurd (e ▸ List.mem_cons_self) h'
  | cons c text ih =>
    cases text' with
    | nil =>
      injection e with e _
      injection e with e
      exact absurd (e ▸ List.mem_cons_self) h
    | cons c' text' =>
      injection e with e1 e2
      injection e1 with e1
      rw [e1, ih (fun h1 => h (List.mem_cons_of_mem _ h1))
        (fun h1 => h' (List.mem_cons_of_mem _ h1)) e2]

/-! ## What is found -/

/-- The records that follow each other from `e` on lead to `q`, the first one with that inode. -/
inductive Leads (buf : Bytes) (inode : Nat) : Nat → Nat → Prop where
  | here {q : Nat} : entryInode buf q = inode → Leads buf inode q q
  | next {e q : Nat} : entryInode buf e ≠ inode → Leads buf inode (e + entrySize buf e) q →
      Leads buf inode e q

lemma Leads.le (h : Leads buf inode e q) : e ≤ q := by
  induction h with
  | here => exact le_refl _
  | next _ _ ih => omega

lemma Leads.inode_eq (h : Leads buf inode e q) : entryInode buf q = inode := by
  induction h with
  | here h => exact h
  | next _ _ ih => exact ih

/-- A record of size 0 leads nowhere. -/
lemma Leads.size_pos (h : Leads buf inode e q) (hi : entryInode buf e ≠ inode) :
    0 < entrySize buf e := by
  induction h with
  | here h => exact absurd h hi
  | @next e q h _ ih =>
    apply Nat.pos_of_ne_zero
    intro h0
    rw [h0, Nat.add_zero] at ih
    have := ih h
    omega

/-- The loop follows the records. -/
lemma Leads.scanInode (h : Leads buf inode e q) (hq : q < size) (hn : q < e + n) :
    scanInode buf size inode n e = some q := by
  induction h generalizing n with
  | here h =>
    cases n with
    | zero => omega
    | succ n => rw [Shell.scanInode, if_neg fun h' => h'.2 h]
  | @next e q hi h ih =>
    have hle := h.le
    have hpos := (Leads.next hi h).size_pos hi
    cases n with
    | zero => omega
    | succ n =>
      rw [Shell.scanInode, if_pos ⟨by omega, hi⟩]
      exact ih hq (by omega)

/-- Where the loop stops inside the block, the records have led it. -/
lemma leads_of_scanInode (h : scanInode buf size inode n e = some q) (hq : q < size) :
    Leads buf inode e q := by
  induction n generalizing e with
  | zero => cases h
  | succ n ih =>
    rw [scanInode] at h
    split at h
    · rename_i hc
      exact .next hc.2 (ih h)
    · rename_i hc
      cases h
      apply Leads.here
      by_contra hi
      exact hc ⟨hq, hi⟩

variable {v u w : Volume} {T : Tree v} {d c : Nat} {name : List UInt8}
  {names : List (List UInt8)}

/-- The inode in the entry "..". -/
def parent (v : Volume) (c : Nat) : Nat := entryInode (v.dirBytes c) 12

/-- The directories from `d` up to the root. -/
inductive Above (v : Volume) (d : Nat) : Nat → Prop where
  | self : Above v d d
  | up {c : Nat} : Above v d c → c ≠ 2 → Above v d (parent v c)

/-- The first record with the inode `c` in its parent, from byte 24 on, has this name. -/
def ReadAs (v : Volume) (c : Nat) (name : List UInt8) : Prop :=
  ∃ q < v.blockSize, Leads (v.dirBytes (parent v c)) c 24 q ∧
    entryName (v.dirBytes (parent v c)) q = name

/-- The directory `c` has this name in its parent. -/
def HasName (T : Tree v) (c : Nat) (name : List UInt8) : Prop :=
  ∃ p ∈ T.entries (parent v c), entryInode (v.dirBytes (parent v c)) p = c ∧
    entryName (v.dirBytes (parent v c)) p = name

/-- The condition: for `d` and every directory above it but the root, the first record with its
inode in its parent, from byte 24 on, has its name. -/
def Clear (T : Tree v) (d : Nat) : Prop :=
  ∀ c, Above v d c → c ≠ 2 → ∃ name, HasName T c name ∧ ReadAs v c name

/-- The names of the records that are found are names that a file can have. -/
def FileNames (v : Volume) (d : Nat) : Prop :=
  ∀ c, Above v d c → c ≠ 2 → ∀ name, ReadAs v c name →
    ProperName name ∧ name ≠ [46] ∧ name ≠ [46, 46]

/-- No file looks like a directory from which names lead to `d`. -/
def NoDecoy (T : Tree v) (d : Nat) : Prop :=
  ∀ f, f ∉ T.dirs → ∀ u, v.SameDisk u → ∀ names w, Volume.findLoop names u f ≠ some (w, d)

/-- What is said of the working directory `d`: `get_cwd` ends with an absolute path and a NUL behind
it in `path`, and `find_inode` finds `d` by this path. -/
def CwdExact (v : Volume) (d : Nat) : Prop :=
  ∃ n, ∀ fuel, n ≤ fuel → ∃ r text rest, getCwd fuel v d = some r ∧
    r.path = text.map some ++ some 0 :: rest ∧ (0 : UInt8) ∉ text ∧ text.head? = some SLASH ∧
      ∃ w, r.vol.findInode text 2 = some (w, d)

/-- The names that are read on the way up. -/
inductive Shows (v : Volume) : List (List UInt8) → Nat → Prop where
  | root : Shows v [] 2
  | child {names : List (List UInt8)} {name : List UInt8} {c : Nat} : c ≠ 2 →
      Shows v names (parent v c) → ReadAs v c name → Shows v (names ++ [name]) c

/-! ## The way up -/

lemma Above.trans {x : Nat} (h : Above v d c) (h' : Above v c x) : Above v d x := by
  induction h' with
  | self => exact h
  | up _ hne ih => exact .up ih hne

/-- The name of an entry is the name of its directory. -/
lemma hasName_entry {p : Nat} (hd : d ∈ T.dirs) (hp : p ∈ T.entries d)
    (hmem : entryInode (v.dirBytes d) p ∈ T.dirs) :
    parent v (entryInode (v.dirBytes d) p) = d ∧
      HasName T (entryInode (v.dirBytes d) p) (entryName (v.dirBytes d) p) := by
  have e : parent v (entryInode (v.dirBytes d) p) = d := T.parent d hd p hp hmem
  refine ⟨e, p, ?_⟩
  rw [e]
  exact ⟨hp, rfl, rfl⟩

/-- A directory below the root has a parent, which is on the way too. -/
lemma At.inv (h : T.At names c) (hc : c ≠ 2) : ∃ ns, T.At ns (parent v c) ∧
    ∃ name, names = ns ++ [name] ∧ HasName T c name := by
  cases h with
  | root => exact absurd rfl hc
  | @child ns d p hd hp hmem =>
    obtain ⟨e, hname⟩ := hasName_entry hd.mem hp hmem
    exact ⟨ns, e.symm ▸ hd, _, rfl, hname⟩

/-- The parent is read and searched. -/
lemma findChild_eq {q : Nat} (hu : v.SameDisk u) (hd : d ∈ T.dirs) (hq : q < v.blockSize)
    (h : Leads (v.dirBytes d) inode 24 q) :
    ∃ w, findChild u d inode = some (w, q) ∧ v.SameDisk w ∧ w.stdBuf = v.dirBytes d := by
  obtain ⟨w, hr, hw, e⟩ := hu.readDir (T.isDir d hd)
  refine ⟨w, ?_, hw, e⟩
  unfold findChild
  rw [hr, Option.bind_eq_bind, Option.bind_some, e, hw.blockSize,
    h.scanInode hq (by omega), Option.bind_eq_bind, Option.bind_some]

/-- What has been found, the search of the parent has led to. -/
lemma findChild_inv {q : Nat} (hu : v.SameDisk u) (hd : d ∈ T.dirs)
    (h : findChild u d inode = some (w, q)) :
    v.SameDisk w ∧ w.stdBuf = v.dirBytes d ∧
      (q < v.blockSize → Leads (v.dirBytes d) inode 24 q) := by
  obtain ⟨w', hr, hw, e⟩ := hu.readDir (T.isDir d hd)
  unfold findChild at h
  rw [hr, Option.bind_eq_bind, Option.bind_some] at h
  obtain ⟨q', hs, h⟩ := Option.bind_eq_some_iff.mp h
  cases h
  rw [e] at hs
  exact ⟨hw, e, fun hq => leads_of_scanInode hs (hw.blockSize.symm ▸ hq)⟩

/-- One name is put before the path. -/
lemma prepend_eq (buf : Bytes) (e : Nat) (h0 : (0 : UInt8) ∉ text) : ∃ t t',
    copyEntryName buf e (nameLength buf e) (memAlloc (nameLength buf e + 1 + (text.length + 1))) =
      some t ∧ put t (nameLength buf e) SLASH = some t' ∧
        strCopy (text.map some ++ [some 0]) (nameLength buf e + 1) t' =
          some ((entryName buf e ++ SLASH :: text).map some ++ [some 0]) := by
  have hl : nameLength buf e = ((entryName buf e).map some).length := by
    rw [List.length_map, entryName_length]
  have hm : memAlloc (nameLength buf e + 1 + (text.length + 1) - nameLength buf e) =
      none :: memAlloc (text.length + 1) := by
    unfold memAlloc
    rw [← List.replicate_succ]
    congr 1
    omega
  have hc := strCopy_eq (a := (entryName buf e).map some ++ [some SLASH])
    (b := memAlloc (text.length + 1)) (n := nameLength buf e + 1) h0
    (by unfold memAlloc; simp) (by simp [entryName_length])
  refine ⟨_, _, copyEntryName_name buf (by omega), ?_, hc.trans ?_⟩
  · rw [hm, put_append hl, List.append_assoc, List.singleton_append]
  · unfold memAlloc
    simp

/-- The slash at the front. -/
lemma finish_eq (h0 : (0 : UInt8) ∉ text) : ∃ t, put (memAlloc (text.length + 1 + 1)) 0 SLASH =
    some t ∧ strCopy (text.map some ++ [some 0]) 1 t =
      some ((SLASH :: text).map some ++ [some 0]) := by
  have hc := strCopy_eq (a := [some SLASH]) (b := memAlloc (text.length + 1)) (n := 1) h0
    (by unfold memAlloc; simp) rfl
  refine ⟨_, put_append (a := []) (x := none) rfl, hc.trans ?_⟩
  unfold memAlloc
  simp

/-- From the directory `c` on, the names are put before the path. -/
lemma Shows.climb {ns : List (List UInt8)} (fuel : Nat) (h : Shows v names c)
    (hat : T.At ns c) (hu : v.SameDisk u) (hbuf : u.stdBuf = v.dirBytes c)
    (hn : ∀ name ∈ names, (0 : UInt8) ∉ name) (h0 : (0 : UInt8) ∉ text)
    (hf : names.length < fuel) : ∃ w, v.SameDisk w ∧
      climb d fuel u c (text.length + 1) (text.map some ++ [some 0]) =
        some ⟨w, d, (slashed names ++ SLASH :: text).map some ++ [some 0]⟩ := by
  induction h generalizing fuel ns text u with
  | root =>
    obtain ⟨t, ht, hc⟩ := finish_eq h0
    cases fuel with
    | zero => cases hf
    | succ fuel =>
      refine ⟨u, hu, ?_⟩
      rw [Shell.climb, if_neg fun h => h rfl, ht, Option.bind_eq_bind, Option.bind_some, hc]
      rfl
  | @child names name c hc _ hread ih =>
    obtain ⟨ns, hat, _⟩ := At.inv hat hc
    obtain ⟨q, hq, hl, rfl⟩ := hread
    obtain ⟨w, hfind, hw, hbuf'⟩ := findChild_eq hu hat.mem hq hl
    obtain ⟨t, t', h1, h2, h3⟩ := prepend_eq (v.dirBytes (parent v c)) q h0
    have h0' : (0 : UInt8) ∉ entryName (v.dirBytes (parent v c)) q ++ SLASH :: text := by
      intro h
      rcases List.mem_append.mp h with h | h
      · exact hn _ (List.mem_append_right _ (List.mem_singleton_self _)) h
      · rcases List.mem_cons.mp h with h | h
        · cases h
        · exact h0 h
    cases fuel with
    | zero => cases hf
    | succ fuel =>
      rw [List.length_append, List.length_singleton] at hf
      obtain ⟨w', hw', ih⟩ := ih fuel hat hw hbuf'
        (fun name h => hn name (List.mem_append_left _ h)) h0' (by omega)
      refine ⟨w', hw', ?_⟩
      rw [Shell.climb, if_pos hc]
      dsimp only
      rw [hbuf]
      change (findChild u (parent v c) c >>= _) = _
      rw [hfind, Option.bind_eq_bind, Option.bind_some]
      dsimp only
      rw [hw.blockSize, if_neg (Nat.not_le.mpr hq), hbuf']
      simp only [h1, h2, h3, Option.bind_eq_bind, Option.bind_some]
      change Shell.climb d fuel w (parent v c) _ _ = _
      have e : text.length + 1 + (nameLength (v.dirBytes (parent v c)) q + 1) =
          (entryName (v.dirBytes (parent v c)) q ++ SLASH :: text).length + 1 := by
        rw [List.length_append, entryName_length, List.length_cons]
        omega
      rw [e, ih, slashed_append, slashed_singleton, List.append_assoc, List.cons_append]

/-- The first read finds the entry "..". -/
lemma readHead (hd : v.IsDir d (v.diskDbp d 0)) : ∃ w buf n,
    v.readInodeData d v.stdBuf 0 0 512 = some (w, buf, n) ∧ v.SameDisk (w.setStdBuf buf) ∧
      entryInode buf 12 = parent v d := by
  have hw := Volume.setInode_inode hd.layout hd.inode
  have hslot : inodeSlot v.blockSize (0 / v.blockSize) = some (.direct 0) := by
    rw [Nat.zero_div]
    rfl
  obtain ⟨buf, hread⟩ := Volume.readInodeData_of_slot v.stdBuf 0 512 hd.layout.supported hw
    (Nat.dvd_zero _) hslot (Nat.succ_pos 11)
  have hdbp : ∀ w : Volume, v.setInode d = some w → w.storedBlock (.direct 0) = v.diskDbp d 0 :=
    fun w hw => Volume.setInode_dbp hd.layout hd.inode hw 0 (by omega)
  have hle : 512 ≤ v.blockSize := by
    have := v.blockFactor_pos
    rw [Volume.blockSize_eq]
    omega
  rw [hdbp _ hw, Volume.blockByte_eq hd.layout hd.data.1, Nat.min_eq_left hle] at hread
  refine ⟨_, _, _, hread, ⟨rfl, fun x hx => ?_⟩, Bytes.get32_congr fun x h1 h2 => ?_⟩
  · exact Bytes.blit_apply_of_outside (.inr (by omega))
  · rw [Volume.dirBytes, Volume.dirRead_stdBuf (by omega)]
    refine (Bytes.blit_apply_of_inside (by omega)).trans ?_
    rw [Nat.sub_zero]

/-- `get_cwd` puts together the names that are read. -/
lemma Shows.getCwd {ns : List (List UInt8)} (fuel : Nat) (h : Shows v names d)
    (hat : T.At ns d) (hd : d ≠ 2) (hn : ∀ name ∈ names, (0 : UInt8) ∉ name)
    (hf : names.length ≤ fuel) : ∃ w, v.SameDisk w ∧
      getCwd fuel v d = some ⟨w, d, (slashed names).map some ++ [some 0]⟩ := by
  cases h with
  | root => exact absurd rfl hd
  | @child names name _ _ hs hread =>
    obtain ⟨u, buf, n, hhead, hu, hpar⟩ := readHead (T.isDir d hat.mem)
    obtain ⟨ns, hat, _⟩ := At.inv hat hd
    obtain ⟨q, hq, hl, rfl⟩ := hread
    obtain ⟨w, hfind, hw, hbuf⟩ := findChild_eq hu hat.mem hq hl
    have h0 := hn _ (List.mem_append_right _ (List.mem_singleton_self _))
    rw [List.length_append, List.length_singleton] at hf
    obtain ⟨w', hw', hclimb⟩ := hs.climb (d := d) fuel hat hw hbuf
      (fun name h => hn name (List.mem_append_left _ h)) h0 (by omega)
    have hcopy := copyEntryName_name (v.dirBytes (parent v d)) (e := q)
      (Nat.le_succ (nameLength (v.dirBytes (parent v d)) q))
    have hput : put ((entryName (v.dirBytes (parent v d)) q).map some ++
        memAlloc (nameLength (v.dirBytes (parent v d)) q + 1 -
          nameLength (v.dirBytes (parent v d)) q)) (nameLength (v.dirBytes (parent v d)) q) 0 =
        some ((entryName (v.dirBytes (parent v d)) q).map some ++ [some 0]) := by
      rw [Nat.add_sub_cancel_left]
      exact put_append (by rw [List.length_map, entryName_length])
    refine ⟨w', hw', ?_⟩
    unfold Shell.getCwd
    rw [if_neg hd, hhead, Option.bind_eq_bind, Option.bind_some]
    dsimp only
    have hpar' : entryInode (u.setStdBuf buf).stdBuf 12 = parent v d := hpar
    rw [hpar', hfind, Option.bind_eq_bind, Option.bind_some]
    dsimp only
    rw [hw.blockSize, if_neg (Nat.not_le.mpr hq), hbuf]
    simp only [hcopy, hput, Option.bind_eq_bind, Option.bind_some]
    rw [entryName_length] at hclimb
    rw [hclimb, slashed_append, slashed_singleton]

/-- A climb that ends has read all the names, or gives up. -/
lemma climb_inv {fuel : Nat} {ns : List (List UInt8)} {path : Block} {r : Cwd}
    (hat : T.At ns c) (hu : v.SameDisk u) (hbuf : u.stdBuf = v.dirBytes c)
    (h : climb d fuel u c size path = some r) :
    (∃ names, Shows v names c) ∨ r.path = [some SLASH, some 0] := by
  induction fuel generalizing ns u c size path with
  | zero => cases h
  | succ fuel ih =>
    rw [climb] at h
    split at h
    · rename_i hc
      obtain ⟨ns, hat, _⟩ := At.inv hat hc
      dsimp only at h
      rw [hbuf] at h
      change (findChild u (parent v c) c >>= _) = _ at h
      obtain ⟨⟨w, q⟩, hfind, h⟩ := Option.bind_eq_some_iff.mp h
      obtain ⟨hw, hbuf', hleads⟩ := findChild_inv hu hat.mem hfind
      dsimp only at h
      split at h
      · cases h
        exact .inr rfl
      · rename_i hq
        rw [hw.blockSize, Nat.not_le] at hq
        obtain ⟨t, _, h⟩ := Option.bind_eq_some_iff.mp h
        obtain ⟨t', _, h⟩ := Option.bind_eq_some_iff.mp h
        obtain ⟨t'', _, h⟩ := Option.bind_eq_some_iff.mp h
        obtain ⟨names, hs⟩ | hr := ih hat hw hbuf' h
        · exact .inl ⟨_, .child hc hs ⟨q, hq, hleads hq, rfl⟩⟩
        · exact .inr hr
    · rename_i hc
      obtain rfl := not_not.mp hc
      exact .inl ⟨[], .root⟩

/-- So does the whole function. -/
lemma getCwd_inv {fuel : Nat} {ns : List (List UInt8)} {r : Cwd} (hat : T.At ns d) (hd : d ≠ 2)
    (h : getCwd fuel v d = some r) :
    (∃ names, Shows v names d) ∨ r.path = [some SLASH, some 0] := by
  obtain ⟨u, buf, n, hhead, hu, hpar⟩ := readHead (T.isDir d hat.mem)
  obtain ⟨ns, hat, _⟩ := At.inv hat hd
  unfold getCwd at h
  rw [if_neg hd, hhead, Option.bind_eq_bind, Option.bind_some] at h
  dsimp only at h
  have hpar' : entryInode (u.setStdBuf buf).stdBuf 12 = parent v d := hpar
  rw [hpar'] at h
  obtain ⟨⟨w, q⟩, hfind, h⟩ := Option.bind_eq_some_iff.mp h
  obtain ⟨hw, hbuf, hleads⟩ := findChild_inv hu hat.mem hfind
  dsimp only at h
  split at h
  · cases h
    exact .inr rfl
  · rename_i hq
    rw [hw.blockSize, Nat.not_le] at hq
    obtain ⟨t, _, h⟩ := Option.bind_eq_some_iff.mp h
    obtain ⟨t', _, h⟩ := Option.bind_eq_some_iff.mp h
    obtain ⟨names, hs⟩ | hr := climb_inv hat hw hbuf h
    · exact .inl ⟨_, .child hd hs ⟨q, hq, hleads hq, rfl⟩⟩
    · exact .inr hr

/-! ## Up and down again -/

/-- What is above a directory is the directory itself or above its parent. -/
lemma Above.inv {x : Nat} (h : Above v c x) : x = c ∨ c ≠ 2 ∧ Above v (parent v c) x := by
  induction h with
  | self => exact .inl rfl
  | up _ hne ih =>
    obtain rfl | ⟨hc, h⟩ := ih
    · exact .inr ⟨hne, .self⟩
    · exact .inr ⟨hc, .up h hne⟩

lemma Clear.parent (h : Clear T c) (hc : c ≠ 2) : Clear T (parent v c) := fun _ hx =>
  h _ ((Above.up .self hc).trans hx)

lemma FileNames.parent (h : FileNames v c) (hc : c ≠ 2) : FileNames v (Shell.parent v c) :=
  fun _ hx => h _ ((Above.up .self hc).trans hx)

/-- A directory below the root has one name. -/
lemma HasName.unique {ns : List (List UInt8)} {a b : List UInt8} (hat : T.At ns (parent v c))
    (ha : HasName T c a) (hb : HasName T c b) : a = b := by
  obtain ⟨p, hp, hi, rfl⟩ := ha
  obtain ⟨q, hq, hj, rfl⟩ := hb
  obtain rfl := (T.single _ hat.mem p hp _ hat.mem q hq (hi.trans hj.symm)).2
  rfl

/-- Under the condition, the names that are read are those on the way. -/
lemma Clear.shows (h : Clear T c) (hat : T.At names c) : Shows v names c := by
  induction hat with
  | root => exact .root
  | @child names d p hd hp hmem ih =>
    have hc := T.orphan d hd.mem p hp
    obtain ⟨e, hname⟩ := hasName_entry hd.mem hp hmem
    obtain ⟨name, hname', hread⟩ := h _ .self hc
    obtain rfl := HasName.unique (e.symm ▸ hd) hname' hname
    refine .child hc ?_ hread
    rw [e]
    exact ih (e ▸ h.parent hc)

/-- The entries lie in the block. -/
lemma lt_of_tiled {ps : List Nat} {p : Nat} (h : Tiled buf size e ps) (hp : p ∈ ps) :
    p < size := by
  induction ps generalizing e with
  | nil => exact absurd hp List.not_mem_nil
  | cons q ps ih =>
    obtain ⟨rfl, hlt, _, _, _, ht⟩ := h
    rcases List.mem_cons.mp hp with rfl | hp
    · exact hlt
    · exact ih ht hp

/-- The entries lead to the only one with its inode. -/
lemma leads_of_tiled {ps : List Nat} {p : Nat} (h : Tiled buf size e ps) (hp : p ∈ ps)
    (honly : ∀ q ∈ ps, entryInode buf q = entryInode buf p → q = p) :
    Leads buf (entryInode buf p) e p := by
  induction ps generalizing e with
  | nil => exact absurd hp List.not_mem_nil
  | cons q ps ih =>
    obtain ⟨rfl, _, _, _, _, ht⟩ := h
    by_cases hq : entryInode buf q = entryInode buf p
    · obtain rfl := honly q List.mem_cons_self hq
      exact .here rfl
    · have hp : p ∈ ps := by
        rcases List.mem_cons.mp hp with rfl | hp
        · exact absurd rfl hq
        · exact hp
      exact .next hq (ih ht hp fun q hq => honly q (List.mem_cons_of_mem _ hq))

/-- The condition holds where nothing was removed behind "..". -/
lemma clear_of_dotdot (hat : T.At names d)
    (h : ∀ c, Above v d c → c ≠ 2 → entrySize (v.dirBytes (parent v c)) 12 = 12) :
    Clear T d := by
  induction hat with
  | root =>
    intro c hc hc2
    obtain rfl | ⟨hne, _⟩ := hc.inv
    · exact absurd rfl hc2
    · exact absurd rfl hne
  | @child names d p hd hp hmem ih =>
    obtain ⟨e, hname⟩ := hasName_entry hd.mem hp hmem
    have hc := T.orphan d hd.mem p hp
    intro x hx hx2
    obtain rfl | ⟨_, hx⟩ := hx.inv
    · have ht := (T.block d hd.mem).tiled.2.2.2.2.2
      have hsize := h _ .self hc
      rw [e] at hsize
      obtain ⟨h12, _, _, _, _, ht⟩ := ht
      rw [← h12, hsize] at ht
      have hlt : p < v.blockSize := lt_of_tiled (T.block d hd.mem).tiled
        (List.mem_cons_of_mem _ (List.mem_cons_of_mem _ hp))
      refine ⟨_, hname, p, hlt, ?_, ?_⟩
      · rw [e]
        exact leads_of_tiled ht hp fun q hq hi =>
          (T.single d hd.mem q hq d hd.mem p hp hi).2
      · rw [e]
    · rw [e] at hx
      exact ih (fun c hc' hc2 => h c ((e ▸ Above.up .self hc).trans hc') hc2) x hx hx2

/-- Where the names that are read lead down to the directory, the condition holds. -/
lemma Shows.clear (hs : Shows v names c) (hat : T.At names c) : Clear T c := by
  induction hs with
  | root =>
    intro c h hc
    obtain rfl | ⟨hne, _⟩ := h.inv
    · exact absurd rfl hc
    · exact absurd rfl hne
  | child hc _ hread ih =>
    obtain ⟨ns, hat, name, e, hname⟩ := At.inv hat hc
    obtain ⟨rfl, e'⟩ := List.append_inj' e rfl
    injection e' with e' _
    intro x hx hx2
    obtain rfl | ⟨_, hx⟩ := hx.inv
    · exact ⟨_, hname, e' ▸ hread⟩
    · exact ih hat x hx hx2

/-- Names that lead to a directory lead down the tree. -/
lemma at_of_findLoop {ns : List (List UInt8)} (hat : T.At ns c) (hd : d ∈ T.dirs)
    (hn : ∀ name ∈ names, ProperName name ∧ name ≠ [46] ∧ name ≠ [46, 46])
    (hdecoy : NoDecoy T d) (hne : names ≠ []) (hu : v.SameDisk u)
    (h : Volume.findLoop names u c = some (w, d)) : T.At (ns ++ names) d := by
  induction names generalizing ns u c with
  | nil => exact absurd rfl hne
  | cons name names ih =>
    obtain ⟨hproper, hdot, hdotdot⟩ := hn name List.mem_cons_self
    by_cases hex : ∃ p ∈ 0 :: 12 :: T.entries c, entryName (v.dirBytes c) p = name
    · obtain ⟨p, hp, rfl⟩ := hex
      obtain ⟨u', hu', e⟩ := Tree.findLoop_entry names hu hat.mem hp
      rw [e] at h
      have hp : p ∈ T.entries c := by
        rcases List.mem_cons.mp hp with rfl | hp
        · exact absurd (T.dot c hat.mem).1 hdot
        rcases List.mem_cons.mp hp with rfl | hp
        · exact absurd (T.dotdot c hat.mem) hdotdot
        · exact hp
      cases names with
      | nil =>
        rw [if_pos rfl] at h
        have e : entryInode (v.dirBytes c) p = d := congrArg Prod.snd (Option.some.inj h)
        rw [← e]
        exact .child hat hp (e ▸ hd)
      | cons b names =>
        rw [if_neg (List.cons_ne_nil _ _)] at h
        by_cases hmem : entryInode (v.dirBytes c) p ∈ T.dirs
        · have hat' := ih (.child hat hp hmem) (fun n hn' => hn n (List.mem_cons_of_mem _ hn'))
            (List.cons_ne_nil _ _) hu' h
          rwa [List.append_assoc, List.singleton_append] at hat'
        · exact absurd h (hdecoy _ hmem u' hu' _ w)
    · push Not at hex
      obtain ⟨w', e⟩ := Tree.findLoop_missing names hu hat.mem hproper hex
      have e := Option.some.inj (e.symm.trans h)
      exact absurd (congrArg Prod.snd e).symm (T.isDir d hd).ne_zero

/-- The names on the way are proper. -/
lemma At.proper (hat : T.At names c) : ∀ name ∈ names, ProperName name := by
  induction hat with
  | root => exact fun _ h => absurd h List.not_mem_nil
  | @child names d p hd hp hmem ih =>
    intro name h
    rcases List.mem_append.mp h with h | h
    · exact ih name h
    · obtain rfl := List.mem_singleton.mp h
      exact Tree.properName hd.mem (List.mem_cons_of_mem _ (List.mem_cons_of_mem _ hp))

/-- So are the names that are read, if the old ones are. -/
lemma Shows.proper (hs : Shows v names c) (hf : FileNames v c) :
    ∀ name ∈ names, ProperName name ∧ name ≠ [46] ∧ name ≠ [46, 46] := by
  induction hs with
  | root => exact fun _ h => absurd h List.not_mem_nil
  | child hc hs hread ih =>
    intro name h
    rcases List.mem_append.mp h with h | h
    · exact ih (hf.parent hc) name h
    · obtain rfl := List.mem_singleton.mp h
      exact hf _ .self hc _ hread

lemma head?_slashed (hne : names ≠ []) : (slashed names).head? = some SLASH := by
  cases names with
  | nil => exact absurd rfl hne
  | cons name names => rfl

lemma not_mem_slashed (h : ∀ name ∈ names, ProperName name) : (0 : UInt8) ∉ slashed names := by
  intro h0
  obtain ⟨name, hname, h0⟩ := List.mem_flatMap.mp h0
  rcases List.mem_cons.mp h0 with h0 | h0
  · cases h0
  · exact (h name hname).no_nul h0

/-- `find_inode` on the path of some names. -/
lemma findInode_slashed (hne : names ≠ []) (h : ∀ name ∈ names, ProperName name) :
    u.findInode (slashed names) 2 = Volume.findLoop names u 2 := by
  unfold Volume.findInode
  rw [components_slashed hne fun name hn => (h name hn).no_slash, ite_self]

/-- `get_cwd` in the root. -/
lemma cwdExact_root (v : Volume) : CwdExact v 2 :=
  ⟨0, fun _ _ => ⟨⟨v, 2, [some SLASH, some 0]⟩, [SLASH], [], rfl, rfl, by decide, rfl, v, rfl⟩⟩

/-- Where the condition holds, the path leads back. -/
lemma Clear.cwdExact (h : Clear T d) (hat : T.At names d) : CwdExact v d := by
  by_cases hd : d = 2
  · subst hd
    exact cwdExact_root v
  have hproper := At.proper hat
  have hne : names ≠ [] := by
    obtain ⟨ns, _, name, rfl, _⟩ := At.inv hat hd
    exact List.append_ne_nil_of_right_ne_nil _ (List.cons_ne_nil _ _)
  refine ⟨names.length, fun fuel hf => ?_⟩
  obtain ⟨w, hw, e⟩ := (h.shows hat).getCwd fuel hat hd (fun name hn => (hproper name hn).no_nul) hf
  obtain ⟨w', hfind⟩ := hat.findLoop_last hw hne
  refine ⟨_, slashed names, [], e, rfl, not_mem_slashed hproper, head?_slashed hne, w', ?_⟩
  rw [findInode_slashed hne hproper]
  exact hfind

/-- The path of the working directory leads back to it if no old record with the inode of a
directory on the way, and another name, comes before the entry itself. Where old records have names
of files, and no file looks like a directory, it leads back only then. -/
theorem getCwd_exact (v : Volume) (T : Tree v) (d : Nat) (names : List (List UInt8))
    (hat : T.At names d) :
    (Clear T d → CwdExact v d) ∧ (FileNames v d → NoDecoy T d → (CwdExact v d ↔ Clear T d)) := by
  refine ⟨fun h => h.cwdExact hat, fun hf hdecoy => ⟨?_, fun h => h.cwdExact hat⟩⟩
  rintro ⟨n, h⟩
  by_cases hd : d = 2
  · subst hd
    exact Shows.root.clear .root
  obtain ⟨r, text, rest, hr, hpath, h0, hslash, w, hfind⟩ := h n (le_refl _)
  obtain ⟨names', hs⟩ | hroot := getCwd_inv hat hd hr
  · have hproper := hs.proper hf
    have hproper' : ∀ name ∈ names', ProperName name := fun name hn => (hproper name hn).1
    have hne : names' ≠ [] := by
      cases hs with
      | root => exact absurd rfl hd
      | child _ _ _ => exact List.append_ne_nil_of_right_ne_nil _ (List.cons_ne_nil _ _)
    obtain ⟨r, text, rest, hr, hpath, h0, hslash, w, hfind⟩ := h (n + names'.length) (by omega)
    obtain ⟨u, hu, e⟩ := hs.getCwd (n + names'.length) hat hd
      (fun name hn => (hproper' name hn).no_nul) (Nat.le_add_left _ n)
    rw [e] at hr
    cases hr
    have htext := string_unique (not_mem_slashed hproper') h0 hpath
    rw [← htext, findInode_slashed hne hproper'] at hfind
    exact hs.clear (at_of_findLoop .root hat.mem hproper hdecoy hne hu hfind)
  · -- the path of the root
    rw [hroot] at hpath
    have htext : [SLASH] = text := string_unique (a := []) (by decide) h0 hpath
    rw [← htext] at hfind
    have e2 : r.vol.findInode [SLASH] 2 = some (r.vol, 2) := rfl
    have e0 := Option.some.inj (e2.symm.trans hfind)
    exact absurd (congrArg Prod.snd e0).symm hd

/-! ### Volumes with a few directories -/

/-- The words of a volume on which the inodes 2, 11 and 13 are directories, in the blocks 14, 15 and
16; the words of the first two blocks are given, and 13 has no entries but "." and "..". -/
def dirsWord (root first : List Nat) (n i : Nat) : Nat :=
  if n = 6 then
    if i = 32 then 0x4000 else if i = 42 then 14 else 0
  else if n = 7 then
    if i = 64 ∨ i = 128 then 0x4000 else if i = 74 then 15 else if i = 138 then 16 else 0
  else if n = 14 then
    root.getD i 0
  else if n = 15 then
    first.getD i 0
  else if n = 16 then
    [13, 0x0201000c, 0x2e, 11, 0x020203f4, 0x2e2e].getD i 0
  else 0

/-- The root has the entry "a", with the inode 11, which has the entry "b", with the inode 13. -/
def newVolume : Volume := sampleVolume
  (dirsWord [2, 0x0201000c, 0x2e, 2, 0x0202000c, 0x2e2e, 11, 0x020103e8, 0x61]
    [11, 0x0201000c, 0x2e, 2, 0x0202000c, 0x2e2e, 13, 0x020103e8, 0x62]) (fun _ => 0) 0 0 65

/-- The root had the entry "a", with the inode 11, and has a file "x" and the entry "b", which has
the inode 11 now. -/
def oldVolume : Volume := sampleVolume
  (dirsWord [2, 0x0201000c, 0x2e, 2, 0x02020018, 0x2e2e, 11, 0x0201000c, 0x61, 12, 0x0101000c,
    0x78, 11, 0x020103d0, 0x62] [11, 0x0201000c, 0x2e, 2, 0x020203f4, 0x2e2e]) (fun _ => 0) 0 0 65

instance (buf : Bytes) (size : Nat) (ps : List Nat) : Decidable (DirBlock buf size ps) :=
  decidable_of_iff (Tiled buf size 0 ps ∧ (∀ p ∈ ps, entryName buf p ≠ [] ∧
      (0 : UInt8) ∉ entryName buf p ∧ SLASH ∉ entryName buf p) ∧
      ps.Pairwise fun p q => entryName buf p ≠ entryName buf q)
    ⟨fun h => ⟨h.1, h.2.1, h.2.2⟩, fun h => ⟨h.tiled, h.names, h.distinct⟩⟩

/-- What the bytes of such a volume show of the directories `ds`, which have the entries `es`. -/
structure FewDirs (v : Volume) (ds : List Nat) (es : Nat → List Nat) : Prop where
  root : 2 ∈ ds
  inode : ∀ d ∈ ds, (0 < d ∧ d ≤ 64) ∧ 14 ≤ v.diskDbp d 0 ∧ v.diskDbp d 0 < 64
  block : ∀ d ∈ ds, DirBlock (v.dirBytes d) v.blockSize (0 :: 12 :: es d)
  dots : ∀ d ∈ ds, (entryName (v.dirBytes d) 0 = [46] ∧ entryInode (v.dirBytes d) 0 = d) ∧
    entryName (v.dirBytes d) 12 = [46, 46]
  named : ∀ d ∈ ds, ∀ p ∈ 0 :: 12 :: es d,
    nameLength (v.dirBytes d) p < 128 ∧
      NAME + nameLength (v.dirBytes d) p < entrySize (v.dirBytes d) p ∧
        v.dirBytes d (p + NAME + nameLength (v.dirBytes d) p) = 0
  single : ∀ d ∈ ds, ∀ p ∈ es d, ∀ d' ∈ ds, ∀ p' ∈ es d',
    entryInode (v.dirBytes d) p = entryInode (v.dirBytes d') p' → d = d' ∧ p = p'
  orphan : ∀ d ∈ ds, ∀ p ∈ es d, entryInode (v.dirBytes d) p ≠ 2
  parent : ∀ d ∈ ds, ∀ p ∈ es d, entryInode (v.dirBytes d) p ∈ ds →
    entryInode (v.dirBytes (entryInode (v.dirBytes d) p)) 12 = d

/-- The tree of such a volume. -/
def FewDirs.tree {word : Nat → Nat → Nat} {ds : List Nat} {es : Nat → List Nat}
    (h : FewDirs (sampleVolume word (fun _ => 0) 0 0 65) ds es) :
    Tree (sampleVolume word (fun _ => 0) 0 0 65) where
  dirs := {d | d ∈ ds}
  entries := es
  root := h.root
  isDir d hd := by
    obtain ⟨hi, h14, h64⟩ := h.inode d hd
    refine ⟨?_, ?_, rfl, ?_⟩
    · rw [sampleVolume_geometry]
      exact sampleGeometry_layout
    · unfold Volume.HasInode
      rw [sampleVolume_geometry, sampleGeometry_groups]
      exact hi
    · rw [sampleVolume_geometry]
      exact sampleGeometry_isData h14 h64
  block := h.block
  dot d hd := (h.dots d hd).1
  dotdot d hd := (h.dots d hd).2
  named := h.named
  single := h.single
  orphan := h.orphan
  parent := h.parent

lemma newVolume_fewDirs :
    FewDirs newVolume [2, 11, 13] fun d => if d = 13 then [] else [24] where
  root := by decide
  inode := by decide +kernel
  block := by decide +kernel
  dots := by decide +kernel
  named := by decide +kernel
  single := by decide +kernel
  orphan := by decide +kernel
  parent := by decide +kernel

lemma oldVolume_fewDirs :
    FewDirs oldVolume [2, 11] fun d => if d = 2 then [36, 48] else [] where
  root := by decide
  inode := by decide +kernel
  block := by decide +kernel
  dots := by decide +kernel
  named := by decide +kernel
  single := by decide +kernel
  orphan := by decide +kernel
  parent := by decide +kernel

/-- The tree with "a" and "b" in it. -/
def newTree : Tree newVolume := newVolume_fewDirs.tree

/-- The tree with "x" and "b". -/
def oldTree : Tree oldVolume := oldVolume_fewDirs.tree

/-- A directory, from its entry in the one above it. -/
lemma at_child {c p : Nat} {name : List UInt8} (hat : T.At names d) (hp : p ∈ T.entries d)
    (hc : c ∈ T.dirs) (ei : entryInode (v.dirBytes d) p = c)
    (en : entryName (v.dirBytes d) p = name) : T.At (names ++ [name]) c := by
  subst ei en
  exact .child hat hp hc

lemma newTree_at : newTree.At [[97], [98]] 13 := by
  have ha : newTree.At [[97]] 11 := at_child .root (List.mem_singleton_self 24)
    (by decide : 11 ∈ [2, 11, 13]) (by decide +kernel) (by decide +kernel)
  exact at_child ha (List.mem_singleton_self 24) (by decide : 13 ∈ [2, 11, 13]) (by decide +kernel)
    (by decide +kernel)

lemma oldTree_at : oldTree.At [[98]] 11 :=
  at_child .root (List.mem_cons_of_mem _ (List.mem_singleton_self 48)) (by decide : 11 ∈ [2, 11])
    (by decide +kernel) (by decide +kernel)

/-- "/a/b" leads back. -/
theorem getCwd_exact_new : CwdExact newVolume 13 := by
  apply (getCwd_exact newVolume newTree 13 [[97], [98]] newTree_at).1
  apply clear_of_dotdot newTree_at
  have hb : parent newVolume 13 = 11 := by decide +kernel
  have ha : parent newVolume 11 = 2 := by decide +kernel
  intro c hc hc2
  -- the directories on the way are 13, 11 and 2
  obtain rfl | ⟨_, hc⟩ := hc.inv
  · rw [hb]
    decide +kernel
  rw [hb] at hc
  obtain rfl | ⟨_, hc⟩ := hc.inv
  · rw [ha]
    decide +kernel
  rw [ha] at hc
  obtain rfl | ⟨hne, _⟩ := hc.inv
  · exact absurd rfl hc2
  · exact absurd rfl hne

/-- In the other tree `get_cwd` still says "/a", and there is no such entry. -/
theorem getCwd_stale : oldTree.At [[98]] 11 ∧ ¬ CwdExact oldVolume 11 := by
  refine ⟨oldTree_at, ?_⟩
  rintro ⟨n, h⟩
  have hpar : parent oldVolume 11 = 2 := by decide +kernel
  have ei : entryInode (oldVolume.dirBytes 2) 24 = 11 := by decide +kernel
  have en : entryName (oldVolume.dirBytes 2) 24 = [97] := by decide +kernel
  have hno : ∀ p ∈ [0, 12, 36, 48], entryName (oldVolume.dirBytes 2) p ≠ [97] := by decide +kernel
  have hname : ProperName [97] := ⟨by decide, by decide, by decide, by decide⟩
  have hread : ReadAs oldVolume 11 [97] := by
    refine ⟨24, by decide, ?_, ?_⟩
    · rw [hpar]
      exact .here ei
    · rw [hpar]
      exact en
  have hs : Shows oldVolume ([] ++ [[97]]) 11 := by
    refine .child (by decide) ?_ hread
    rw [hpar]
    exact .root
  have hproper : ∀ name ∈ [[97]], ProperName name := by
    intro name hn
    rw [List.mem_singleton.mp hn]
    exact hname
  obtain ⟨r, text, rest, hr, hpath, h0, hslash, w, hfind⟩ := h (n + 1) (Nat.le_succ n)
  obtain ⟨u, hu, e⟩ := hs.getCwd (n + 1) oldTree_at (by decide) (by decide)
    (Nat.le_add_left 1 n)
  rw [e] at hr
  cases hr
  have htext := string_unique (not_mem_slashed hproper) h0 hpath
  rw [← htext, findInode_slashed (List.cons_ne_nil _ _) hproper] at hfind
  obtain ⟨w', e'⟩ := Tree.findLoop_missing [] hu oldTree.root hname hno
  have e0 := Option.some.inj (e'.symm.trans hfind)
  exact absurd (congrArg Prod.snd e0) (by dsimp only; omega)

end MarioBrOS.Shell
