import MarioBrOS.Fs.FileSet
import MarioBrOS.Fs.Opening
import MarioBrOS.Fs.Session

/-!
# Sessions on files

A session together with the files that are there. Each open descriptor is one of a file, no two are
of the same file, and it knows the size of it (`Storage.Sane`). A call on a descriptor keeps that,
if the blocks that a `write` needs go into the right inode, and it touches no file but the one it is
on (`Sane.step`).
-/

namespace MarioBrOS.Fs

/-- A call to `write` on the entry `e` stays within the direct blocks, and there are free blocks for
it. -/
structure Inter.Fits (s : Inter) (e : FdtEntry) (offset length : Nat) : Prop where
  direct : e.pos + length ≤ 12 * s.volume.blockSize
  buffer : offset + length ≤ 2 ^ 32
  blocks : ∃ w last, Volume.Allocates (s.blocksToUse e length - s.blocksUsed e) s.volume 1
    (s.blocksUsed e) w last

/-- A session and the inodes of the files. -/
structure Storage where
  session : Session
  files : Set Nat

/-- The steps of a session. A file that is created becomes one of the files. -/
def FileStep (a : Storage) (c : Call) (b : Storage) : Prop :=
  Step a.session c b.session ∧
    b.files = a.files ∪ {i | ∃ e ∈ b.session.opened, e.inode = i}

namespace Storage

/-- The volume. -/
def volume (a : Storage) : Volume := a.session.inter.volume

/-- Each open descriptor is the only one of one of the files, and knows its size. -/
structure Sane (a : Storage) : Prop where
  described : a.session.Described
  files : a.volume.FileSet a.files
  listed : ∀ e ∈ a.session.opened, e.inode ∈ a.files
  size : ∀ e ∈ a.session.opened, a.volume.diskSize e.inode = e.size
  single : ∀ e ∈ a.session.opened, ∀ e' ∈ a.session.opened, e.inode = e'.inode → e = e'

/-- `openfile` finds a file that is not open, or finds nothing and is to create a regular file in a
directory apart from the files. -/
def Opens (a : Storage) (path : List UInt8) (oflag fperm : Nat) : Prop :=
  ∀ v i, a.volume.findInode path 2 = some (v, i) →
    (i ≠ 0 → oflag &&& O_EXCL = 0 → i ∈ a.files ∧ ∀ e ∈ a.session.opened, e.inode ≠ i) ∧
      (i = 0 → oflag &&& O_CREAT ≠ 0 → (TYPE_FILE ||| fperm) &&& Volume.TYPE_DIR = 0 ∧
        ∃ b, v.NewFile a.files (v.stdBuf.get32 0) b)

/-- What is supposed of a call: it is on an open descriptor, or on a file of which there is none. -/
def InDomain (a : Storage) (c : Call) : Prop :=
  a.session.OnOpen c ∧
    match c with
    | .openfile path oflag fperm _ _ => a.Opens path oflag fperm
    | .refused path oflag fperm _ _ => a.Opens path oflag fperm
    | .write f _ offset length =>
      ∀ e ∈ a.session.opened, e.this = f → e.mode &&& O_WRONLY ≠ 0 → length ≠ 0 →
        a.session.inter.Fits e offset length
    | .other volume _ => volume = a.volume
    | _ => True

/-- The condition on a call: a `write` that needs blocks finds the inode of its file in `std_inode`,
and a `close` that shrinks the table finds clear memory. -/
def Ready (a : Storage) (c : Call) : Prop :=
  a.session.Clean c ∧
    match c with
    | .write f _ _ length =>
      ∀ e ∈ a.session.opened, e.this = f → e.mode &&& O_WRONLY ≠ 0 → length ≠ 0 →
        a.session.inter.blocksUsed e < a.session.inter.blocksToUse e length →
          a.volume.InodeLoaded e.inode
    | _ => True

/-- The call may change file `i`: it writes to it, or opens and erases it. -/
def Changes (a : Storage) (c : Call) (i : Nat) : Prop :=
  match c with
  | .openfile path oflag _ _ _ =>
    oflag &&& O_TRUNC ≠ 0 ∧ ∃ v, a.volume.findInode path 2 = some (v, i)
  | .write f _ _ _ => ∃ e ∈ a.session.opened, e.this = f ∧ e.inode = i
  | _ => False

/-- What a step keeps. -/
structure Kept (a : Storage) (c : Call) (b : Storage) : Prop where
  sane : b.Sane
  files : a.files ⊆ b.files
  same : ∀ j ∈ a.files, ¬ a.Changes c j → a.volume.SameFile b.volume j

end Storage

/-- A call to `write` is one on an open descriptor. -/
lemma Step.write {s t : Session} {f offset length : Nat} {buffer : Bytes}
    (st : Step s (.write f buffer offset length) t)
    (ho : s.OnOpen (.write f buffer offset length)) :
    ∃ e ∈ s.opened, e.this = f ∧ ∃ r,
      s.inter.write f buffer offset length = some (t.inter, r) := by
  obtain ⟨s, opened, lost⟩ := s
  obtain ⟨t, opened', lost'⟩ := t
  cases st with
  | own he hc hn hp =>
    obtain ⟨⟨u, r⟩, hu, rfl⟩ := Option.map_eq_some_iff.mp hp
    exact ⟨_, he, (Option.some.inj hc).symm, r, hu⟩
  | stale hc h0 hf hp => exact absurd (ho _ hc) hf

/-! ## Opening -/

section Opening

variable {s t : Inter} {path : List UInt8} {oflag fperm f r : Nat} {memory : Nat → FdtEntry}

/-- What a call to `openfile` has done to the volume: it has looked for the path, and created the
file or not, and erased it or not. -/
structure Opened (s t : Inter) (path : List UInt8) (oflag fperm f r : Nat) (v : Volume) (i : Nat)
    (u : Volume) (j : Nat) : Prop where
  find : s.volume.findInode path 2 = some (v, i)
  excl : i ≠ 0 → oflag &&& O_EXCL = 0 ∧ u = v ∧ j = i
  create : i = 0 → oflag &&& O_CREAT ≠ 0 ∧ ∃ name, v.createFile (v.stdBuf.get32 0) name
    (TYPE_FILE ||| fperm) FILE_REGULAR = some (u, j)
  fail : j = 0 → t.volume = u ∧ r = 0
  fill : j ≠ 0 → r = f ∧ ∃ w,
    (if oflag &&& O_TRUNC ≠ 0 then u.eraseFileData j else some u) = some w ∧
      w.setInode j = some t.volume ∧ t.fdt (t.deref f) = Inter.newEntry t.volume j oflag f

lemma Inter.fill_opened {j : Nat} (h : s.fill j oflag f = some (t, r)) :
    r = f ∧ ∃ w, (if oflag &&& O_TRUNC ≠ 0 then s.volume.eraseFileData j else some s.volume) =
      some w ∧ w.setInode j = some t.volume ∧
        t.fdt (t.deref f) = Inter.newEntry t.volume j oflag f := by
  have key : ∀ w x : Volume, w.setInode j = some x →
      some ((s.withVolume x).setEntry (s.deref f) (Inter.newEntry x j oflag f), f) = some (t, r) →
      r = f ∧ w.setInode j = some t.volume ∧
        t.fdt (t.deref f) = Inter.newEntry t.volume j oflag f := by
    rintro w x hx h
    cases h
    exact ⟨rfl, hx, Function.update_self ..⟩
  unfold Inter.fill at h
  split at h
  all_goals
    rename_i hc
    obtain ⟨w, hw, h⟩ := Option.bind_eq_some_iff.mp h
    obtain ⟨x, hx, h⟩ := Option.bind_eq_some_iff.mp h
    obtain ⟨h1, h2, h3⟩ := key w x hx h
    refine ⟨h1, w, ?_, h2, h3⟩
  · rw [if_pos hc]
    exact hw
  · rw [if_neg hc]
    exact hw

/-- A call to `openfile` is refused after it has looked for the path, or goes on. -/
lemma Inter.openfile_opened (h : s.openfile path oflag fperm f memory = some (t, r)) :
    (∃ i, s.volume.findInode path 2 = some (t.volume, i) ∧ r = 0) ∨
      ∃ v i u j, Opened s t path oflag fperm f r v i u j := by
  unfold Inter.openfile at h
  obtain ⟨⟨v, i⟩, hfind, h⟩ := Option.bind_eq_some_iff.mp h
  dsimp only at h
  split at h
  · cases h
    exact .inl ⟨i, hfind, rfl⟩
  rename_i hcreat
  split at h
  · cases h
    exact .inl ⟨i, hfind, rfl⟩
  rename_i hexcl
  right
  rw [Inter.withVolume_reserve] at h
  by_cases hi : i ≠ 0
  · rw [if_pos hi, Option.bind_eq_bind, Option.bind_some] at h
    dsimp only at h
    rw [if_neg hi] at h
    have hex : oflag &&& O_EXCL = 0 := by
      by_contra hne
      exact hexcl ⟨hne, hi⟩
    have hfill := Inter.fill_opened h
    exact ⟨v, i, v, i, hfind, fun _ => ⟨hex, rfl, rfl⟩, fun h => absurd h hi, fun h => absurd h hi,
      fun _ => hfill⟩
  · rw [if_neg hi] at h
    have hi := not_not.mp hi
    have hc : oflag &&& O_CREAT ≠ 0 := fun h => hcreat ⟨h, hi⟩
    obtain ⟨⟨x, j⟩, hx, h⟩ := Option.bind_eq_some_iff.mp h
    obtain ⟨name, _, hx⟩ := Option.bind_eq_some_iff.mp hx
    obtain ⟨⟨u, k⟩, hu, hx⟩ := Option.bind_eq_some_iff.mp hx
    cases hx
    refine ⟨v, i, u, j, hfind, fun h => absurd hi h, fun _ => ⟨hc, name, hu⟩, fun hj => ?_,
      fun hj => ?_⟩
    · dsimp only at h
      rw [if_pos hj] at h
      cases h
      exact ⟨rfl, rfl⟩
    · dsimp only at h
      rw [if_neg hj] at h
      have hfill := Inter.fill_opened h
      exact hfill

/-- The files after a call to `openfile` that got past its tests. -/
lemma Opened.files {a : Storage} {v u : Volume} {i j : Nat} (h : a.Sane)
    (ho : a.Opens path oflag fperm) (O : Opened a.session.inter t path oflag fperm f r v i u j) :
    a.volume.FilesKept u a.files ∧ (j ≠ 0 → u.FileSet (insert j a.files) ∧
      (∀ e ∈ a.session.opened, e.inode ≠ j ∧ e.inode ≠ i) ∧ (j ∈ a.files → i = j)) := by
  have hread := Volume.findInode_onlyRead O.find
  have Kv := hread.kept a.files
  have Fv := hread.fileSet h.files
  obtain ⟨h1, h2⟩ := ho v i O.find
  by_cases hi : i = 0
  · obtain ⟨hc, name, hu⟩ := O.create hi
    obtain ⟨htype, b, N⟩ := h2 hi hc
    obtain ⟨Ku, hnew⟩ := Fv.createFile N htype hu
    refine ⟨Kv.trans Ku, fun hj => ?_⟩
    obtain ⟨hno, D, hsize⟩ := hnew hj
    refine ⟨(Fv.kept Ku).insert D hsize, fun e he => ⟨fun hej => hno (hej ▸ h.listed e he), ?_⟩,
      fun hj' => absurd hj' hno⟩
    rw [hi]
    exact h.described.inode_ne e he
  · obtain ⟨hex, rfl, rfl⟩ := O.excl hi
    obtain ⟨hmem, hclosed⟩ := h1 hi hex
    refine ⟨Kv, fun _ => ⟨?_, fun e he => ⟨hclosed e he, hclosed e he⟩, fun _ => rfl⟩⟩
    rw [Set.insert_eq_of_mem hmem]
    exact Fv

/-- The new entry, and the files once it is filled. -/
lemma Opened.entry {a : Storage} {v u : Volume} {i j : Nat} (h : a.Sane)
    (ho : a.Opens path oflag fperm) (O : Opened a.session.inter t path oflag fperm f r v i u j)
    (hj : j ≠ 0) : t.volume.FileSet (insert j a.files) ∧ (t.fdt (t.deref f)).inode = j ∧
      t.volume.diskSize j = (t.fdt (t.deref f)).size ∧
      ∀ l ∈ a.files, (oflag &&& O_TRUNC ≠ 0 → l ≠ i) → a.volume.SameFile t.volume l := by
  obtain ⟨Ku, hset⟩ := O.files h ho
  obtain ⟨Fu, _, hij⟩ := hset hj
  obtain ⟨_, w, hw, hload, hentry⟩ := O.fill hj
  have herase : w.FileSet (insert j a.files) ∧
      ∀ l ∈ a.files, (oflag &&& O_TRUNC ≠ 0 → l ≠ i) → u.SameFile w l := by
    by_cases hc : oflag &&& O_TRUNC ≠ 0
    · rw [if_pos hc] at hw
      obtain ⟨w', hw', Fw, _, _, hsame⟩ := Fu.erase (Set.mem_insert j a.files)
      cases hw.symm.trans hw'
      refine ⟨Fw, fun l hl hli => hsame l (Set.mem_insert_of_mem _ hl) ?_⟩
      rintro rfl
      exact hli hc (hij hl).symm
    · rw [if_neg hc] at hw
      cases hw
      exact ⟨Fu, fun l _ _ => .refl u l⟩
  obtain ⟨Fw, hsame⟩ := herase
  have D := Fw.file j (Set.mem_insert j a.files)
  obtain ⟨x, hx, hread, hloaded⟩ := Volume.setInode_loaded D.layout D.inode
  cases Option.some.inj (hload.symm.trans hx)
  have hsize : t.volume.sizeLow = t.volume.diskSize j := (hloaded.get32 (by omega)).symm
  refine ⟨hread.fileSet Fw, ?_, ?_, fun l hl hli => ?_⟩
  · rw [hentry]
    rfl
  · rw [hentry, ← hsize]
    rfl
  · exact ((Ku.file l hl).trans (hsame l hl hli)).trans (hread.sameFile l)

end Opening

/-! ## Steps -/

namespace Storage

variable {a b : Storage} {c : Call} {s t : Inter} {opened : List FdtEntry} {lost : List Nat}
  {files : Set Nat} {e : FdtEntry} {f : Nat} {memory : Nat → FdtEntry}

lemma FileStep.files_eq (h : a.Sane) (st : FileStep a c b)
    (hb : ∀ e ∈ b.session.opened, ∃ e' ∈ a.session.opened, e.inode = e'.inode) :
    b.files = a.files := by
  rw [st.2, Set.union_eq_left]
  rintro i ⟨e, he, rfl⟩
  obtain ⟨e', he', heq⟩ := hb e he
  exact heq ▸ h.listed e' he'

/-- A successful call to `openfile`. -/
lemma Sane.openfile {path : List UInt8} {oflag fperm : Nat} (h : Sane ⟨⟨s, opened, lost⟩, files⟩)
    (ho : Opens ⟨⟨s, opened, lost⟩, files⟩ path oflag fperm)
    (hs : s.openfile path oflag fperm f memory = some (t, f)) (h0 : 0 < f ∧ f < 2 ^ 32)
    (hf : f ∉ opened.map FdtEntry.this ++ lost) :
    ∃ j, Sane ⟨⟨t, t.fdt (t.deref f) :: opened, lost⟩, insert j files⟩ ∧
      (t.fdt (t.deref f)).inode = j ∧
      ∀ l ∈ files, ¬ Changes ⟨⟨s, opened, lost⟩, files⟩ (.openfile path oflag fperm f memory) l →
        s.volume.SameFile t.volume l := by
  have D := Described.openfile h.described hs h0 hf
  obtain ⟨_, _, hr⟩ | ⟨v, i, u, j, O⟩ := Inter.openfile_opened hs
  · omega
  have hj : j ≠ 0 := fun hj => by
    have := (O.fail hj).2
    omega
  obtain ⟨_, hset⟩ := O.files h ho
  obtain ⟨_, hclosed, _⟩ := hset hj
  obtain ⟨Ft, hinode, hsize, hsame⟩ := O.entry h ho hj
  generalize t.fdt (t.deref f) = e at D hinode hsize
  have hkept : ∀ l ∈ files,
      ¬ Changes ⟨⟨s, opened, lost⟩, files⟩ (.openfile path oflag fperm f memory) l →
        s.volume.SameFile t.volume l := by
    intro l hl hno
    refine hsame l hl fun hc hli => hno ⟨hc, v, ?_⟩
    rw [hli]
    exact O.find
  refine ⟨j, ⟨D, Ft, ?_, ?_, ?_⟩, hinode, hkept⟩
  · intro e' he'
    obtain rfl | he' := List.mem_cons.mp he'
    · exact hinode ▸ Set.mem_insert ..
    · exact Set.mem_insert_of_mem _ (h.listed e' he')
  · intro e' he'
    obtain rfl | he' := List.mem_cons.mp he'
    · exact hinode ▸ hsize
    · have hs := hsame _ (h.listed e' he') fun _ => (hclosed e' he').2
      exact hs.inode.size.trans (h.size e' he')
  · intro e1 h1 e2 h2 heq
    obtain h1' | h1' := List.mem_cons.mp h1
    · obtain h2' | h2' := List.mem_cons.mp h2
      · exact h1'.trans h2'.symm
      · exact absurd (heq.symm.trans (h1' ▸ hinode)) (hclosed e2 h2').1
    · obtain h2' | h2' := List.mem_cons.mp h2
      · exact absurd (heq.trans (h2' ▸ hinode)) (hclosed e1 h1').1
      · exact h.single e1 h1' e2 h2' heq

/-- A call on the entry `e` that keeps the files, and the sizes of the others. -/
lemma Sane.own (h : Sane ⟨⟨s, opened, lost⟩, files⟩) (he : e ∈ opened)
    (T : Inter.Touched s t (s.deref e.this)) (F : t.volume.FileSet files)
    (hsize : t.volume.diskSize e.inode = (t.fdt (t.deref e.this)).size)
    (hsame : ∀ j ∈ files, j ≠ e.inode → s.volume.SameInode t.volume j) :
    Sane ⟨⟨t, t.fdt (t.deref e.this) :: opened.erase e, lost⟩, files⟩ := by
  have D : Described s opened lost := h.described
  have hinode : (t.fdt (t.deref e.this)).inode = e.inode := by
    rw [T.deref, T.inode, D.entry e he]
  have hin : ∀ e' ∈ opened.erase e, e' ∈ opened ∧ e'.inode ≠ e.inode := by
    intro e' he'
    obtain ⟨hne, hm⟩ := D.nodup.mem_erase_iff.mp he'
    exact ⟨hm, fun heq => hne (h.single e' hm e he heq)⟩
  refine ⟨Described.touched D he T, F, ?_, ?_, ?_⟩
  · intro e' he'
    obtain rfl | he' := List.mem_cons.mp he'
    · exact hinode ▸ h.listed e he
    · exact h.listed e' (hin e' he').1
  · intro e' he'
    obtain rfl | he' := List.mem_cons.mp he'
    · exact hinode ▸ hsize
    · obtain ⟨hm, hne⟩ := hin e' he'
      exact ((hsame _ (h.listed e' hm) hne).size).trans (h.size e' hm)
  · intro e1 h1 e2 h2 heq
    obtain h1' | h1' := List.mem_cons.mp h1
    · obtain h2' | h2' := List.mem_cons.mp h2
      · exact h1'.trans h2'.symm
      · exact absurd (heq.symm.trans (h1' ▸ hinode)) (hin e2 h2').2
    · obtain h2' | h2' := List.mem_cons.mp h2
      · exact absurd (heq.trans (h2' ▸ hinode)) (hin e1 h1').2
      · exact h.single e1 (hin e1 h1').1 e2 (hin e2 h2').1 heq

end Storage

/-- The check of `read` and `write` finds the entry of an open descriptor. -/
lemma Described.checkFd {s : Inter} {opened : List FdtEntry} {lost : List Nat} {e : FdtEntry}
    (D : Described s opened lost) (he : e ∈ opened) : s.checkFd e.this = some (some e) := by
  have h0 := (D.bounded e.this (List.mem_append_left _ (List.mem_map_of_mem he))).1
  have hlt := D.index_lt e he
  unfold Inter.checkFd Inter.entryAt
  rw [if_neg (by omega), if_pos hlt, D.entry e he, Option.bind_eq_bind, Option.bind_some, if_neg]
  exact fun h => h.elim (fun h => h rfl) (D.inode_ne e he)

namespace Storage

variable {a b : Storage} {c : Call} {s t : Inter} {opened : List FdtEntry} {lost : List Nat}
  {files : Set Nat} {e : FdtEntry} {f r offset length : Nat} {buffer buffer' : Bytes}

lemma setPos_size (s : Inter) (i pos : Nat) : ((s.setPos i pos).fdt i).size = (s.fdt i).size := by
  have h : (s.setPos i pos).fdt i = { s.fdt i with pos := pos } := Function.update_self ..
  rw [h]

/-- `lseek` leaves the volume and the size. -/
lemma lseek_keeps {d : Int} {seek : Nat} (h : s.lseek f d seek = some (t, r)) :
    t.volume = s.volume ∧ (t.fdt (t.deref f)).size = (s.fdt (s.deref f)).size := by
  unfold Inter.lseek at h
  split at h
  · cases h
    exact ⟨rfl, rfl⟩
  · obtain ⟨e, _, h⟩ := Option.bind_eq_some_iff.mp h
    cases h
    exact ⟨rfl, setPos_size ..⟩

/-- `read` leaves the disk and the size. -/
lemma read_keeps (h : s.read f buffer offset length = some (t, buffer', r)) :
    s.volume.OnlyRead t.volume ∧ (t.fdt (t.deref f)).size = (s.fdt (s.deref f)).size := by
  unfold Inter.read at h
  obtain ⟨o, _, h⟩ := Option.bind_eq_some_iff.mp h
  cases o with
  | none =>
    cases h
    exact ⟨rfl, rfl⟩
  | some e =>
    dsimp only at h
    split at h
    · cases h
      exact ⟨rfl, rfl⟩
    split at h
    · cases h
      exact ⟨rfl, rfl⟩
    obtain ⟨⟨v, b, done⟩, hv, h⟩ := Option.bind_eq_some_iff.mp h
    cases h
    exact ⟨Volume.readInodeData_onlyRead hv, setPos_size ..⟩

/-- The blocks for a call to `write` are there. -/
lemma Sane.writable (h : Sane ⟨⟨s, opened, lost⟩, files⟩) (he : e ∈ opened)
    (hw : e.mode &&& O_WRONLY ≠ 0) (hf : s.Fits e offset length)
    (hr : s.blocksUsed e < s.blocksToUse e length → s.volume.InodeLoaded e.inode) :
    Inter.Writable s e.this e length (s.volume.sizeBlocks (s.volume.diskSize e.inode)) := by
  have hi := h.listed e he
  have hused : s.blocksUsed e = s.volume.sizeBlocks (s.volume.diskSize e.inode) := by
    rw [show s.volume.diskSize e.inode = e.size from h.size e he]
    rfl
  refine ⟨Described.checkFd h.described he, hw, h.files.file _ hi, h.files.taken _ hi,
    h.files.free, ?_⟩
  rw [← hused]
  by_cases hlt : s.blocksUsed e < s.blocksToUse e length
  · exact .inr ⟨rfl, hr hlt, hf.blocks⟩
  · exact .inl ⟨Nat.not_lt.mp hlt, Nat.not_lt.mp hlt⟩

/-- `read` leaves the inode of its file in `std_inode`. -/
lemma read_loaded (hc : s.checkFd f = some (some e)) (L : s.volume.geometry.Layout)
    (hi : s.volume.HasInode e.inode) (hl : s.volume.InodeLoaded e.inode)
    (h : s.read f buffer offset length = some (t, buffer', r)) :
    t.volume.InodeLoaded e.inode := by
  unfold Inter.read at h
  rw [hc, Option.bind_eq_bind, Option.bind_some] at h
  dsimp only at h
  split at h
  · cases h
    exact hl
  split at h
  · cases h
    exact hl
  obtain ⟨⟨v, b, done⟩, hv, h⟩ := Option.bind_eq_some_iff.mp h
  cases h
  exact Volume.readInodeData_loaded L hi hv

/-- A call to `write` that goes through. -/
lemma Sane.write (h : Sane ⟨⟨s, opened, lost⟩, files⟩) (he : e ∈ opened)
    (hw : e.mode &&& O_WRONLY ≠ 0) (hl : 1 ≤ length)
    (hf : s.Fits e offset length)
    (hr : s.blocksUsed e < s.blocksToUse e length → s.volume.InodeLoaded e.inode)
    (buffer : Bytes) : ∃ t n n', s.write e.this buffer offset length = some (t, length) ∧
      Inter.Written s t e.this e buffer offset length n n' ∧
      n = s.volume.sizeBlocks (s.volume.diskSize e.inode) ∧
      t.volume.diskSize e.inode = max e.size (e.pos + length) ∧
      Sane ⟨⟨t, t.fdt (t.deref e.this) :: opened.erase e, lost⟩, files⟩ ∧
      ∀ j ∈ files, j ≠ e.inode → s.volume.SameFile t.volume j := by
  have hi := h.listed e he
  have hD : s.volume.diskSize e.inode = e.size := h.size e he
  obtain ⟨t, hwrite, W⟩ := (h.writable he hw hf hr).write buffer hl hf.direct hf.buffer
  have hsize : t.volume.diskSize e.inode = max e.size (e.pos + length) := by
    rw [W.size, hD]
    split <;> omega
  have hblocks := Inter.sizeBlocks_max e.size (h.files.file _ hi).layout
    W.geometry hl hf.direct
  obtain ⟨Ft, hsame⟩ := W.fileSet h.files hi rfl (by rw [hsize, hblocks, ← hD])
  have T := Inter.write_touched hwrite
  refine ⟨t, _, _, hwrite, W, rfl, hsize, h.own he T Ft ?_ fun j hj hij => (hsame j hj hij).inode,
    hsame⟩
  rw [hsize, T.deref, W.entry]

/-- A call to `write` that stores nothing leaves everything as it is. -/
lemma write_refused (he : s.checkFd f = some (some e))
    (hno : e.mode &&& O_WRONLY = 0 ∨ length = 0)
    (h : s.write f buffer offset length = some (t, r)) : t = s := by
  unfold Inter.write at h
  rw [he, Option.bind_eq_bind, Option.bind_some] at h
  dsimp only at h
  obtain hno | hno := hno
  · rw [if_pos hno] at h
    exact (Prod.mk.inj (Option.some.inj h)).1.symm
  · split at h
    · exact (Prod.mk.inj (Option.some.inj h)).1.symm
    · exact (Prod.mk.inj (Option.some.inj h)).1.symm

/-- A call on an open descriptor other than `close`. -/
lemma Sane.call (h : Sane ⟨⟨s, opened, lost⟩, files⟩) (he : e ∈ opened)
    (hc : c.target = some e.this) (hn : ¬ c.Closes) (hp : c.perform s = some t)
    (hd : InDomain ⟨⟨s, opened, lost⟩, files⟩ c) (hr : Ready ⟨⟨s, opened, lost⟩, files⟩ c) :
    Sane ⟨⟨t, t.fdt (t.deref e.this) :: opened.erase e, lost⟩, files⟩ ∧
      ∀ j ∈ files, ¬ Changes ⟨⟨s, opened, lost⟩, files⟩ c j → s.volume.SameFile t.volume j := by
  have D : Described s opened lost := h.described
  have T := Call.perform_touched hc hn hp
  have hsize : s.volume.diskSize e.inode = e.size := h.size e he
  have hkeep : s.volume.OnlyRead t.volume →
      (t.fdt (t.deref e.this)).size = (s.fdt (s.deref e.this)).size →
        Sane ⟨⟨t, t.fdt (t.deref e.this) :: opened.erase e, lost⟩, files⟩ ∧
          ∀ j ∈ files, ¬ Changes ⟨⟨s, opened, lost⟩, files⟩ c j →
            s.volume.SameFile t.volume j := by
    intro hread hs
    refine ⟨h.own he T (hread.fileSet h.files) ?_ fun j _ _ => (hread.sameFile j).inode,
      fun j _ _ => hread.sameFile j⟩
    rw [hs, D.entry e he, ← hsize]
    exact (hread.sameFile e.inode).inode.size
  cases c with
  | close => exact absurd trivial hn
  | lseek f d seek =>
    cases hc
    obtain ⟨⟨u, r⟩, hu, rfl⟩ := Option.map_eq_some_iff.mp hp
    obtain ⟨hv, hs⟩ := lseek_keeps hu
    exact hkeep (by rw [Volume.OnlyRead, hv]) hs
  | read f buffer offset length =>
    cases hc
    obtain ⟨⟨u, b, r⟩, hu, rfl⟩ := Option.map_eq_some_iff.mp hp
    obtain ⟨hv, hs⟩ := read_keeps hu
    exact hkeep hv hs
  | write f buffer offset length =>
    cases hc
    obtain ⟨⟨u, r⟩, hu, rfl⟩ := Option.map_eq_some_iff.mp hp
    by_cases hno : e.mode &&& O_WRONLY = 0 ∨ length = 0
    · obtain rfl := write_refused (D.checkFd he) hno hu
      exact hkeep (.refl _) rfl
    · obtain ⟨hw, hl⟩ := not_or.mp hno
      obtain ⟨t', n, n', hw', W, _, _, hsane, hsame⟩ := h.write he hw (Nat.pos_of_ne_zero hl)
        (hd.2 e he rfl hw hl) (hr.2 e he rfl hw hl) buffer
      cases hu.symm.trans hw'
      exact ⟨hsane, fun j hj hno => hsame j hj fun hji => hno ⟨e, he, rfl, hji.symm⟩⟩
  | _ => cases hc

/-- A call that leaves the files, and no descriptor more. -/
lemma Sane.kept {opened' : List FdtEntry} {lost' : List Nat}
    (h : Sane ⟨⟨s, opened, lost⟩, files⟩) (D : Described t opened' lost') (hsub : opened' ⊆ opened)
    (K : s.volume.FilesKept t.volume files) : Sane ⟨⟨t, opened', lost'⟩, files⟩ where
  described := D
  files := h.files.kept K
  listed e he := h.listed e (hsub he)
  size e he := (K.file _ (h.listed e (hsub he))).inode.size.trans (h.size e (hsub he))
  single e he e' he' := h.single e (hsub he) e' (hsub he')

/-- `close` leaves the volume. -/
lemma close_volume (D : Described s opened lost) (he : e ∈ opened) {memory : Nat → FdtEntry}
    (h : s.close e.this memory = some t) : t.volume = s.volume := by
  rw [D.close_eq he] at h
  split at h
  · rw [← Option.some.inj h]
    rfl
  · rw [← Option.some.inj h]
    rfl

/-- A call to `openfile` that fails leaves the files. -/
lemma Sane.refused {path : List UInt8} {oflag fperm : Nat} {memory : Nat → FdtEntry}
    (h : Sane ⟨⟨s, opened, lost⟩, files⟩) (ho : Opens ⟨⟨s, opened, lost⟩, files⟩ path oflag fperm)
    (h0 : 0 < f) (hs : s.openfile path oflag fperm f memory = some (t, 0)) :
    s.volume.FilesKept t.volume files := by
  obtain ⟨i, hfind, _⟩ | ⟨v, i, u, j, O⟩ := Inter.openfile_opened hs
  · exact (Volume.findInode_onlyRead hfind).kept files
  · by_cases hj : j = 0
    · rw [(O.fail hj).1]
      exact (O.files h ho).1
    · have := (O.fill hj).1
      omega

/-- What one step keeps. -/
lemma Sane.step (h : a.Sane) (hd : a.InDomain c) (hr : a.Ready c) (st : FileStep a c b) :
    a.Kept c b := by
  have hfiles := FileStep.files_eq h st
  obtain ⟨⟨s, opened, lost⟩, files⟩ := a
  obtain ⟨⟨t, opened', lost'⟩, files'⟩ := b
  obtain ⟨st, hunion⟩ := st
  have hsub : files ⊆ files' := by
    intro i hi
    rw [show files' = _ from hunion]
    exact .inl hi
  -- what the steps that open no file and write to none have in common
  have hkept : files' = files → Described t opened' lost' → opened' ⊆ opened →
      s.volume.FilesKept t.volume files →
        Kept ⟨⟨s, opened, lost⟩, files⟩ c ⟨⟨t, opened', lost'⟩, files'⟩ := by
    rintro rfl D hop K
    exact ⟨h.kept D hop K, hsub, fun j hj _ => K.file j hj⟩
  have D' : Described t opened' lost' := by
    refine st.described h.described ⟨hr.1, fun f hf hno => absurd (hd.1 f hf) hno⟩
  cases st with
  | @openfile s t opened lost path oflag fperm f memory ho h0 hf =>
    obtain ⟨j, hsane, hinode, hsame⟩ := h.openfile hd.2 ho h0 hf
    have hset : files' = insert j files := by
      rw [show files' = _ from hunion]
      ext i
      constructor
      · rintro (hi | ⟨e, he, rfl⟩)
        · exact Set.mem_insert_of_mem _ hi
        · exact hsane.listed e he
      · rintro (rfl | hi)
        · exact .inr ⟨_, List.mem_cons_self, hinode⟩
        · exact .inl hi
    subst hset
    exact ⟨hsane, hsub, hsame⟩
  | refused ho h0 hf =>
    exact hkept (hfiles fun e he => ⟨e, he, rfl⟩) D' (List.Subset.refl _) (h.refused hd.2 h0.1 ho)
  | close he hcl =>
    refine hkept (hfiles fun e he => ⟨e, List.mem_of_mem_erase he, rfl⟩) D'
      (List.erase_subset ..) ?_
    rw [close_volume h.described he hcl]
    exact (Volume.OnlyRead.refl _).kept files
  | @own s t opened lost e c he hc hn hp =>
    obtain ⟨hsane, hsame⟩ := h.call he hc hn hp hd hr
    have hset : files' = files := by
      refine hfiles fun e' he' => ?_
      obtain rfl | he' := List.mem_cons.mp he'
      · have T := Call.perform_touched hc hn hp
        refine ⟨e, he, ?_⟩
        rw [T.deref, T.inode]
        exact congrArg FdtEntry.inode (Described.entry h.described e he)
      · exact ⟨e', List.mem_of_mem_erase he', rfl⟩
    subst hset
    exact ⟨hsane, hsub, hsame⟩
  | stale hc h0 hf hp => exact absurd (hd.1 _ hc) hf
  | other hx =>
    refine hkept (hfiles fun e he => ⟨e, he, rfl⟩) D' (List.Subset.refl _) ?_
    have hv := hd.2
    dsimp only at hv ⊢
    rw [hv]
    exact (Volume.OnlyRead.refl _).kept files

end Storage

end MarioBrOS.Fs
