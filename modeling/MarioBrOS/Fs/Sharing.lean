import MarioBrOS.Fs.Isolation

/-!
# Several descriptors on one file

Each descriptor keeps the size its file had when it was opened, and follows its own writes only.
From that size `write` computes how many blocks are there, and whether the size in the inode is to
change. As long as each `write` goes to blocks that its descriptor knows of, or to the end of the
file, the file is one array of bytes (`shared_file`); otherwise `size_low` shrinks, or blocks are
allocated again.
-/

namespace MarioBrOS.Fs

namespace Session

variable {s t u : Session} {c : Call} {cs : List Call} {e : FdtEntry} {i x offset length : Nat}
  {buffer : Bytes} {y : UInt8}

/-- The descriptors are all on file `i`, whose inode is in `std_inode`; none knows of more bytes
than there are. -/
structure Shared (s : Session) (i : Nat) : Prop where
  described : s.Described
  file : s.inter.volume.FileSet {i}
  all : ∀ e ∈ s.opened, e.inode = i
  loaded : s.inter.volume.InodeLoaded i
  known : ∀ e ∈ s.opened, e.size ≤ s.inter.volume.diskSize i

/-- What is supposed of a call: it is a read, a write or a seek on an open descriptor, within the
direct blocks and with free blocks left. -/
def OnFile (s : Session) (c : Call) : Prop :=
  s.OnOpen c ∧
    match c with
    | .lseek _ _ _ => True
    | .read _ _ _ _ => True
    | .write f _ offset length =>
      ∀ e ∈ s.opened, e.this = f → e.mode &&& O_WRONLY ≠ 0 → length ≠ 0 →
        s.inter.Fits e offset length
    | _ => False

/-- The condition on a `write`: it needs no blocks, or the file has as many as the descriptor
counts; and it ends within the size the descriptor knows, or not before the end of the file. -/
def Agrees (s : Session) (c : Call) : Prop :=
  match c with
  | .write f _ _ length =>
    ∀ e ∈ s.opened, e.this = f → e.mode &&& O_WRONLY ≠ 0 → length ≠ 0 →
      (s.inter.blocksToUse e length ≤ s.inter.blocksUsed e ∨
        s.inter.blocksUsed e = s.inter.volume.sizeBlocks (s.inter.volume.diskSize e.inode)) ∧
        (e.pos + length ≤ e.size ∨ s.inter.volume.diskSize e.inode ≤ e.pos + length)
  | _ => True

/-- A call that meets the condition. -/
def Shares (s : Session) (c : Call) : Prop := s.OnFile c ∧ s.Agrees c

/-- The call does not overwrite byte `x`. -/
def Spares (x : Nat) (s : Session) (c : Call) : Prop :=
  match c with
  | .write f _ _ length =>
    ∀ e ∈ s.opened, e.this = f → x < e.pos ∨ e.pos + length ≤ x
  | _ => True

/-- A call to `read` through a descriptor that knows of byte `x`, from a position that is at most
`x` and in the same block, returns byte `x`, and it is `y`. -/
def ReadsBack (s : Session) (x : Nat) (y : UInt8) : Prop :=
  ∀ e ∈ s.opened, e.mode &&& O_RDONLY ≠ 0 → x < e.size →
    ∀ (buffer : Bytes) (offset length : Nat), e.pos ≤ x →
      x < e.pos + min length (s.inter.volume.blockSize - e.pos % s.inter.volume.blockSize) →
        ∃ t buffer' done, s.inter.read e.this buffer offset length = some (t, buffer', done) ∧
          x < e.pos + done ∧ buffer' (offset + (x - e.pos)) = y

/-- What is said of a call to `write` on the entry `e`: `size_low` does not decrease, the blocks
stay where they are, and what is stored is what a later `read` returns through any of the
descriptors. -/
structure WritesShared (s : Session) (e : FdtEntry) (buffer : Bytes) (offset length : Nat) :
    Prop where
  returns : e.mode &&& O_WRONLY ≠ 0 → 1 ≤ length →
    ∃ t, s.inter.write e.this buffer offset length = some (t, length)
  size : ∀ t, Step s (.write e.this buffer offset length) t →
    s.inter.volume.diskSize e.inode ≤ t.inter.volume.diskSize e.inode
  blocks : ∀ t, Step s (.write e.this buffer offset length) t → ∀ k,
    k < s.inter.volume.sizeBlocks (s.inter.volume.diskSize e.inode) →
      t.inter.volume.diskDbp e.inode k = s.inter.volume.diskDbp e.inode k
  later : ∀ t, Step s (.write e.this buffer offset length) t → e.mode &&& O_WRONLY ≠ 0 →
    ∀ x, e.pos ≤ x → x < e.pos + length → ∀ cs u,
      Run (Guarded (fun s c => s.Shares c ∧ s.Spares x c) Step) t cs u →
        u.ReadsBack x (buffer (offset + (x - e.pos)))

/-! ## Writing -/

/-- The blocks for a call to `write` are there. -/
lemma Shared.writable (h : s.Shared i) (he : e ∈ s.opened) (hw : e.mode &&& O_WRONLY ≠ 0)
    (hl : length ≠ 0) (hd : s.OnFile (.write e.this buffer offset length))
    (hc : s.Agrees (.write e.this buffer offset length)) :
    Inter.Writable s.inter e.this e length
      (s.inter.volume.sizeBlocks (s.inter.volume.diskSize i)) := by
  obtain rfl := h.all e he
  have hi : e.inode ∈ ({e.inode} : Set Nat) := rfl
  have hused : s.inter.blocksUsed e ≤
      s.inter.volume.sizeBlocks (s.inter.volume.diskSize e.inode) :=
    Volume.sizeBlocks_mono (h.known e he)
  refine ⟨Described.checkFd h.described he, hw, h.file.file _ hi, h.file.taken _ hi, h.file.free, ?_⟩
  obtain hle | heq := (hc e he rfl hw hl).1
  · exact .inl ⟨hle, hle.trans hused⟩
  · have hb := (hd.2 e he rfl hw hl).blocks
    rw [heq] at hb
    exact .inr ⟨heq, h.loaded, hb⟩

/-- A call to `write` that goes through. -/
lemma Shared.write (h : s.Shared i) (he : e ∈ s.opened) (hw : e.mode &&& O_WRONLY ≠ 0)
    (hl : length ≠ 0) (hd : s.OnFile (.write e.this buffer offset length))
    (hc : s.Agrees (.write e.this buffer offset length)) :
    ∃ t n n', s.inter.write e.this buffer offset length = some (t, length) ∧
      Inter.Written s.inter t e.this e buffer offset length n n' ∧
      n = s.inter.volume.sizeBlocks (s.inter.volume.diskSize i) ∧
      t.volume.diskSize i = max (s.inter.volume.diskSize i) (e.pos + length) ∧
      t.volume.FileSet {i} := by
  have W := h.writable he hw hl hd hc
  obtain rfl := h.all e he
  have hi : e.inode ∈ ({e.inode} : Set Nat) := rfl
  have hf := hd.2 e he rfl hw hl
  have hknown := h.known e he
  have hends := (hc e he rfl hw hl).2
  obtain ⟨t, hwrite, W⟩ := W.write buffer (Nat.pos_of_ne_zero hl) hf.direct hf.buffer
  have hsize : t.volume.diskSize e.inode =
      max (s.inter.volume.diskSize e.inode) (e.pos + length) := by
    rw [W.size]
    split <;> omega
  have hblocks := Inter.sizeBlocks_max (s.inter.volume.diskSize e.inode)
    (h.file.file _ hi).layout W.geometry (Nat.pos_of_ne_zero hl) hf.direct
  refine ⟨t, _, _, hwrite, W, rfl, hsize, (W.fileSet h.file hi rfl ?_).1⟩
  rw [hsize, hblocks]

/-! ## Steps -/

/-- A call on one of the descriptors keeps them on their file. -/
lemma Shared.own {t : Inter} (h : s.Shared i) (he : e ∈ s.opened)
    (T : Inter.Touched s.inter t (s.inter.deref e.this)) (F : t.volume.FileSet {i})
    (hl : t.volume.InodeLoaded i)
    (hle : s.inter.volume.diskSize i ≤ t.volume.diskSize i)
    (hsize : (t.fdt (t.deref e.this)).size ≤ t.volume.diskSize i) :
    Shared ⟨t, t.fdt (t.deref e.this) :: s.opened.erase e, s.lost⟩ i := by
  have D : Fs.Described s.inter s.opened s.lost := h.described
  refine ⟨Described.touched D he T, F, fun e' he' => ?_, hl, fun e' he' => ?_⟩
  · obtain rfl | he' := List.mem_cons.mp he'
    · rw [T.deref, T.inode, D.entry e he]
      exact h.all e he
    · exact h.all e' (List.mem_of_mem_erase he')
  · obtain rfl | he' := List.mem_cons.mp he'
    · exact hsize
    · exact (h.known e' (List.mem_of_mem_erase he')).trans hle

/-- What a step keeps: the descriptors stay on their file, which does not shrink, and the bytes that
are spared stay. -/
structure StepKept (s : Session) (c : Call) (t : Session) (i : Nat) : Prop where
  shared : t.Shared i
  size : s.inter.volume.diskSize i ≤ t.inter.volume.diskSize i
  blocks : ∀ k, k < s.inter.volume.sizeBlocks (s.inter.volume.diskSize i) →
    t.inter.volume.diskDbp i k = s.inter.volume.diskDbp i k
  bytes : ∀ x, x < s.inter.volume.diskSize i → s.Spares x c →
    t.inter.volume.fileByte i x = s.inter.volume.fileByte i x

/-- What one step keeps. -/
lemma Shared.step (h : s.Shared i) (hd : s.OnFile c) (hc : s.Agrees c) (st : Step s c t) :
    s.StepKept c t i := by
  have D : Fs.Described s.inter s.opened s.lost := h.described
  obtain ⟨s, opened, lost⟩ := s
  cases st with
  | @own s t opened lost e c he htarget hn hp =>
    obtain rfl := h.all e he
    have T := Call.perform_touched htarget hn hp
    have F := h.file.file e.inode rfl
    -- what the calls that only read have in common
    have hkeep : s.volume.OnlyRead t.volume → t.volume.InodeLoaded e.inode →
        (t.fdt (t.deref e.this)).size = (s.fdt (s.deref e.this)).size →
          StepKept ⟨s, opened, lost⟩ c
            ⟨t, t.fdt (t.deref e.this) :: opened.erase e, lost⟩ e.inode := by
      intro hread hl hs
      have S := hread.sameFile e.inode
      refine ⟨h.own he T (hread.fileSet h.file) hl S.inode.size.ge ?_, S.inode.size.ge,
        fun k hk => S.inode.dbp (hk.trans_le F.slots), fun x hx _ => S.bytes x hx⟩
      rw [hs, D.entry e he, S.inode.size]
      exact h.known e he
    cases c with
    | lseek f d seek =>
      cases htarget
      obtain ⟨⟨u, r⟩, hu, rfl⟩ := Option.map_eq_some_iff.mp hp
      obtain ⟨hv, hs⟩ := Storage.lseek_keeps hu
      refine hkeep (by rw [Volume.OnlyRead, hv]) ?_ hs
      rw [hv]
      exact h.loaded
    | read f buffer offset length =>
      cases htarget
      obtain ⟨⟨u, b, r⟩, hu, rfl⟩ := Option.map_eq_some_iff.mp hp
      obtain ⟨hv, hs⟩ := Storage.read_keeps hu
      exact hkeep hv (Storage.read_loaded (D.checkFd he) F.layout F.inode h.loaded hu) hs
    | write f buffer offset length =>
      cases htarget
      obtain ⟨⟨u, r⟩, hu, rfl⟩ := Option.map_eq_some_iff.mp hp
      by_cases hno : e.mode &&& O_WRONLY = 0 ∨ length = 0
      · obtain rfl := Storage.write_refused (D.checkFd he) hno hu
        exact hkeep (.refl _) h.loaded rfl
      · obtain ⟨hw, hl⟩ := not_or.mp hno
        obtain ⟨t', n, n', hw', W, hn, ht, Ft⟩ := h.write he hw hl hd hc
        cases hu.symm.trans hw'
        have hle := (Nat.le_max_left ..).trans ht.ge
        refine ⟨h.own he T Ft W.loaded hle ?_, hle, fun k hk => W.slots k (hn ▸ hk),
          fun x hx hs => W.kept x ?_ (hs e he rfl)⟩
        · have hknown := h.known e he
          dsimp only at hknown ht ⊢
          rw [T.deref, W.entry, ht]
          dsimp only
          omega
        · rw [hn]
          exact Volume.lt_sizeBlocks hx
    | _ => exact hd.2.elim
  | stale htarget h0 hf hp => exact absurd (hd.1 _ htarget) hf
  | _ => exact hd.2.elim

/-! ## Reading -/

/-- Byte `x` of the file is `y`. -/
structure Holds (s : Session) (i x : Nat) (y : UInt8) : Prop where
  inside : x < s.inter.volume.diskSize i
  byte : s.inter.volume.fileByte i x = y

/-- The file holds what a `read` returns. -/
lemma Shared.readsBack (h : s.Shared i) (H : s.Holds i x y) : s.ReadsBack x y := by
  intro e he hr hlt buffer offset length hpos hx
  obtain rfl := h.all e he
  have hknown := h.known e he
  have h32 : s.inter.volume.diskSize e.inode < 2 ^ 32 := Bytes.get32_lt _ _
  have hn := hknown.trans (s.inter.volume.le_sizeBlocks (s.inter.volume.diskSize e.inode))
  obtain ⟨t, b, done, hread, hd, hy⟩ := Inter.read_direct (Described.checkFd h.described he) hr
    (h.file.file _ rfl) hn (by omega) hpos hlt hx buffer offset
  exact ⟨t, b, done, hread, hd, hy.trans H.byte⟩

/-- A call to `write` stores its range. -/
lemma Shared.stores (h : s.Shared i) (he : e ∈ s.opened) (hw : e.mode &&& O_WRONLY ≠ 0)
    (hd : s.OnFile (.write e.this buffer offset length))
    (hc : s.Agrees (.write e.this buffer offset length))
    (st : Step s (.write e.this buffer offset length) t) (h1 : e.pos ≤ x)
    (h2 : x < e.pos + length) : t.Holds i x (buffer (offset + (x - e.pos))) := by
  obtain ⟨e', he', hthis, r, hwrite⟩ := st.write hd.1
  have D : Fs.Described s.inter s.opened s.lost := h.described
  obtain rfl := D.this_inj he' he hthis
  have hi := h.all e' he
  obtain ⟨t', n, n', hw', W, _, ht, _⟩ := h.write he hw (by omega) hd hc
  obtain ⟨rfl, _⟩ := Prod.mk.inj (Option.some.inj (hwrite.symm.trans hw'))
  have hlt : x < max (s.inter.volume.diskSize i) (e'.pos + length) := by omega
  exact ⟨hlt.trans_eq ht.symm, hi ▸ W.stored x h1 h2⟩

/-! ## Runs -/

lemma shared_of_run (h : s.Shared i) (r : Run (Guarded Shares Step) s cs t) : t.Shared i :=
  r.invariant (I := fun s => s.Shared i) (fun _ _ _ h st => (h.step st.1.1 st.1.2 st.2).shared) h

/-- Calls that spare a byte leave it. -/
lemma Holds.run (H : s.Holds i x y) (h : s.Shared i)
    (r : Run (Guarded (fun s c => s.Shares c ∧ s.Spares x c) Step) s cs t) :
    t.Shared i ∧ t.Holds i x y := by
  refine r.invariant (I := fun s => s.Shared i ∧ s.Holds i x y) ?_ ⟨h, H⟩
  rintro s c t ⟨hs, H⟩ ⟨⟨hc, hsp⟩, st⟩
  have K := hs.step hc.1 hc.2 st
  exact ⟨K.shared, H.inside.trans_le K.size, (K.bytes x H.inside hsp).trans H.byte⟩

/-- **Several descriptors.** In every run of reads, writes and seeks on one file in which each
`write` meets the condition, the size does not decrease, the blocks stay, and a `read` through any
of the descriptors returns what was written last. -/
theorem shared_file (s t : Session) (cs : List Call) (i : Nat) (h : s.Shared i)
    (r : Run (Guarded Shares Step) s cs t) (e : FdtEntry) (he : e ∈ t.opened) (buffer : Bytes)
    (offset length : Nat) (hc : t.Shares (.write e.this buffer offset length)) :
    t.WritesShared e buffer offset length := by
  have ht := shared_of_run h r
  have hi := ht.all e he
  refine ⟨fun hw hl => ?_, fun u st => ?_, fun u st k hk => ?_,
    fun u st hw x h1 h2 cs v r' => ?_⟩
  · obtain ⟨u, _, _, hwrite, _⟩ := ht.write he hw (Nat.ne_of_gt hl) hc.1 hc.2
    exact ⟨u, hwrite⟩
  · rw [hi]
    exact (ht.step hc.1 hc.2 st).size
  · rw [hi] at hk ⊢
    exact (ht.step hc.1 hc.2 st).blocks k hk
  · have H := ht.stores he hw hc.1 hc.2 st h1 h2
    obtain ⟨hv, Hv⟩ := H.run (ht.step hc.1 hc.2 st).shared r'
    exact hv.readsBack Hv

/-! ### A file that is open twice -/

lemma perform_write {s t : Inter} {f offset length r : Nat} {buffer : Bytes}
    (h : s.write f buffer offset length = some (t, r)) :
    (Call.write f buffer offset length).perform s = some t :=
  congrArg (Option.map Prod.fst) h

/-- Opening without creating or erasing only reads. -/
lemma openfile_onlyRead {s t : Inter} {path : List UInt8} {oflag fperm f r : Nat}
    {memory : Nat → FdtEntry} (h : s.openfile path oflag fperm f memory = some (t, r))
    (hc : oflag &&& O_CREAT = 0) (ht : oflag &&& O_TRUNC = 0) : s.volume.OnlyRead t.volume := by
  obtain ⟨i, hfind, _⟩ | ⟨v, i, u, j, O⟩ := Inter.openfile_opened h
  · exact Volume.findInode_onlyRead hfind
  · have hv := Volume.findInode_onlyRead O.find
    have hi : i ≠ 0 := fun hi => (O.create hi).1 hc
    obtain ⟨_, rfl, rfl⟩ := O.excl hi
    obtain ⟨_, w, hw, hload, _⟩ := O.fill hi
    rw [if_neg (not_not.mpr ht)] at hw
    cases hw
    exact hv.trans (Volume.setInode_onlyRead hload)

lemma opening_again : (Storage.opening Storage.openA.session.inter 97 8).isSome := by
  decide +kernel

/-- "a" is open twice. -/
def openTwice : Session :=
  (Storage.openA.afterOpening
    ((Storage.opening Storage.openA.session.inter 97 8).get opening_again).1 8).session

/-- The second descriptor. -/
def secondA : FdtEntry := ⟨12, 0, 1, O_RDWR, 8⟩

/-- What is read once "a" is open twice: the second of the two writes sets the size to two. -/
lemma openTwice_reads :
    ((Storage.opening Storage.openA.session.inter 97 8).get opening_again).2 = 8 ∧
      openTwice.opened = [secondA, Storage.entryA] ∧ Storage.OneLeft openTwice.inter.volume ∧
      openTwice.inter.volume.InodeLoaded 12 ∧ openTwice.inter.volume.diskSize 12 = 1 ∧
      ((openTwice.inter.write 4 (fun _ => 7) 0 1025).bind fun r =>
        (r.1.write 8 (fun _ => 8) 0 2).map fun r' =>
          (r.1.volume.blockSize, r.1.volume.diskSize 12, r'.1.volume.diskSize 12)) =
        some (1024, 1025, 2) := by
  decide +kernel

lemma openTwice_opened : openTwice.opened = [secondA, Storage.entryA] := openTwice_reads.2.1

lemma openTwice_eq : Storage.opening Storage.openA.session.inter 97 8 =
    some (openTwice.inter, 8) :=
  Storage.eq_some_get opening_again openTwice_reads.1

lemma openTwice_shared : openTwice.Shared 12 where
  described := by
    have hnew : 8 ∉ Storage.openA.session.opened.map FdtEntry.this ++
        Storage.openA.session.lost := by
      rw [Storage.openA_opened]
      decide
    have st : Step Storage.openA.session
        (.openfile [SLASH, 97] O_RDWR 0 8 fun _ => ⟨0, 0, 0, 0, 0⟩) openTwice :=
      .openfile openTwice_eq (by decide) hnew
    exact st.described Storage.openA_sane.described ⟨trivial, nofun⟩
  file := by
    have hread := openfile_onlyRead openTwice_eq (by decide) (by decide)
    refine hread.fileSet (Storage.openA_sane.files.mono ?_)
    rintro _ rfl
    exact .inl rfl
  all := by
    rw [openTwice_opened]
    decide
  loaded := openTwice_reads.2.2.2.1
  known := by
    rw [openTwice_opened]
    intro e he
    rw [openTwice_reads.2.2.2.2.1]
    revert e
    decide

lemma openTwice_onFile :
    openTwice.OnFile (.write Storage.entryA.this (fun _ => 7) 0 1025) := by
  refine ⟨fun f hf => ?_, fun e he hthis _ _ => ?_⟩
  · cases hf
    rw [openTwice_opened]
    decide
  · rw [openTwice_opened] at he
    obtain rfl | rfl : e = secondA ∨ e = Storage.entryA := by simpa using he
    · exact absurd hthis (by decide)
    · exact Storage.fits_one openTwice_reads.2.2.1 rfl rfl

/-- A write within the block of the file needs no blocks. -/
lemma fits_secondA {s : Inter} {length : Nat} (hb : s.volume.blockSize = 1024) (h1 : 1 ≤ length)
    (h2 : length ≤ 1024) : s.Fits secondA 0 length := by
  have huse : s.blocksToUse secondA length - s.blocksUsed secondA = 0 := by
    unfold Inter.blocksToUse Inter.blocksUsed
    rw [hb, if_pos (by decide)]
    simp only [secondA, add32, sub32]
    omega
  have hd : secondA.pos + length ≤ 12 * s.volume.blockSize := by
    rw [hb]
    simp only [secondA]
    omega
  refine ⟨hd, by omega, ?_⟩
  rw [huse]
  exact ⟨_, _, .done⟩

lemma writing_again : (openTwice.inter.write secondA.this (fun _ => 9) 0 1).isSome := by
  decide +kernel

/-- The byte of the file has been written through the second descriptor. -/
def writtenOnce : Session :=
  let u := ((openTwice.inter.write secondA.this (fun _ => 9) 0 1).get writing_again).1
  ⟨u, u.fdt (u.deref secondA.this) :: openTwice.opened.erase secondA, openTwice.lost⟩

lemma writtenOnce_reads :
    ((openTwice.inter.write secondA.this (fun _ => 9) 0 1).get writing_again).2 = 1 ∧
      writtenOnce.opened = [⟨12, 1, 1, O_RDWR, 8⟩, Storage.entryA] ∧
      Storage.OneLeft writtenOnce.inter.volume ∧ 
      writtenOnce.inter.blocksUsed Storage.entryA =
        writtenOnce.inter.volume.sizeBlocks (writtenOnce.inter.volume.diskSize 12) ∧
      writtenOnce.inter.volume.diskSize 12 = 1 := by
  decide +kernel

lemma openTwice_mem : secondA ∈ openTwice.opened := by
  rw [openTwice_opened]
  exact List.mem_cons_self

lemma writtenOnce_step :
    Guarded Shares Step openTwice (.write secondA.this (fun _ => 9) 0 1) writtenOnce := by
  have hw := Storage.eq_some_get writing_again writtenOnce_reads.1
  refine ⟨⟨⟨fun f hf => ?_, fun e he hthis _ _ => ?_⟩, fun e he hthis _ _ => ?_⟩,
    .own openTwice_mem rfl id (perform_write hw)⟩
  · cases hf
    exact List.mem_map_of_mem openTwice_mem
  · rw [openTwice_opened] at he
    obtain rfl | rfl : e = secondA ∨ e = Storage.entryA := by simpa using he
    · exact fits_secondA openTwice_reads.2.2.1.1 (by decide) (by decide)
    · cases hthis
  · rw [openTwice_opened] at he
    obtain rfl | rfl : e = secondA ∨ e = Storage.entryA := by simpa using he
    · exact ⟨.inl (by decide +kernel), .inl (by decide)⟩
    · cases hthis

/-- A write to the end of the file through the first descriptor, after one within it through the
second. -/
theorem shared_file_both :
    ∃ cs, Run (Guarded Shares Step) openTwice cs writtenOnce ∧
      writtenOnce.WritesShared Storage.entryA (fun _ => 7) 0 1025 := by
  obtain ⟨_, hopen, hleft, hblocks, hsize⟩ := writtenOnce_reads
  have hmem : Storage.entryA ∈ writtenOnce.opened := by
    rw [hopen]
    exact List.mem_cons_of_mem _ List.mem_cons_self
  have honly : ∀ e ∈ writtenOnce.opened, e.this = Storage.entryA.this → e = Storage.entryA := by
    rw [hopen]
    decide
  refine ⟨_, .single writtenOnce_step, shared_file openTwice writtenOnce _ 12 openTwice_shared
    (.single writtenOnce_step) Storage.entryA hmem _ 0 1025
    ⟨⟨fun f hf => ?_, fun e he hthis _ _ => ?_⟩, fun e he hthis _ _ => ?_⟩⟩
  · cases hf
    exact List.mem_map_of_mem hmem
  · obtain rfl := honly e he hthis
    exact Storage.fits_one hleft rfl rfl
  · obtain rfl := honly e he hthis
    exact ⟨.inr hblocks, .inr (hsize.trans_le (by decide))⟩

/-- Once the file has grown through one descriptor, a write of two bytes through the other one sets
its size to two. -/
theorem write_shrinks_file :
    openTwice.Shared 12 ∧ ∃ cs t, Run (Guarded OnFile Step) openTwice cs t ∧
      secondA ∈ t.opened ∧ t.OnFile (.write secondA.this (fun _ => 8) 0 2) ∧
      ¬ t.WritesShared secondA (fun _ => 8) 0 2 := by
  obtain ⟨_, _, _, _, _, hw⟩ := openTwice_reads
  obtain ⟨⟨u, r⟩, hu, hw⟩ := Option.bind_eq_some_iff.mp hw
  obtain ⟨⟨u', r'⟩, hu', hw⟩ := Option.map_eq_some_iff.mp hw
  obtain ⟨hb, hsizes⟩ := Prod.mk.inj hw
  obtain ⟨h1, h2⟩ := Prod.mk.inj hsizes
  dsimp only at hb h1 h2 hu'
  have hmem : Storage.entryA ∈ openTwice.opened := by
    rw [openTwice_opened]
    exact List.mem_cons_of_mem _ List.mem_cons_self
  have st : Step openTwice (.write Storage.entryA.this (fun _ => 7) 0 1025)
      ⟨u, u.fdt (u.deref Storage.entryA.this) :: openTwice.opened.erase Storage.entryA,
        openTwice.lost⟩ := .own hmem rfl id (perform_write hu)
  have hsecond : secondA ∈ u.fdt (u.deref Storage.entryA.this) ::
      openTwice.opened.erase Storage.entryA := by
    rw [openTwice_opened]
    exact List.mem_cons_of_mem _ List.mem_cons_self
  have D := st.described openTwice_shared.described ⟨trivial, fun f hf hno => absurd
    (openTwice_onFile.1 f hf) hno⟩
  refine ⟨openTwice_shared, _, _, .single ⟨openTwice_onFile, st⟩, hsecond,
    ⟨fun f hf => ?_, fun e he hthis _ _ => ?_⟩, fun h => ?_⟩
  · cases hf
    exact List.mem_map_of_mem hsecond
  · obtain rfl := Fs.Described.this_inj D he hsecond hthis
    exact fits_secondA hb (by decide) (by decide)
  · have hle := h.size _ (.own hsecond rfl id (perform_write hu'))
    have hle : u.volume.diskSize 12 ≤ u'.volume.diskSize 12 := hle
    omega

end Session

end MarioBrOS.Fs
