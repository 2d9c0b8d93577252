import MarioBrOS.Fs.Storage

/-!
# File isolation

`write` passes the inode of its file through `std_inode`: `prepare_blocks` puts the blocks it
allocates into the inode that is there, and stores it as that of the file. A run in which every
`write` that needs blocks finds the right inode there keeps the files apart (`file_isolation`);
opening another file in between is enough for the two to share a block (`write_damages_other`).
-/

namespace MarioBrOS.Fs

namespace Storage

variable {a b c d : Storage} {cl : Call} {cs : List Call} {e : FdtEntry} {f i x : Nat} {y : UInt8}

/-- A call in the domain that meets the condition. -/
def Allowed (a : Storage) (cl : Call) : Prop := a.InDomain cl ∧ a.Ready cl

/-- The call does not overwrite byte `x` of file `i`. -/
def Spares (i x : Nat) (a : Storage) (cl : Call) : Prop :=
  match cl with
  | .openfile path oflag _ _ _ =>
    oflag &&& O_TRUNC ≠ 0 → ∀ v, a.volume.findInode path 2 ≠ some (v, i)
  | .write f _ _ length =>
    ∀ e ∈ a.session.opened, e.this = f → e.inode = i → x < e.pos ∨ e.pos + length ≤ x
  | _ => True

/-- Byte `x` of file `i` is `y`. -/
structure Holds (a : Storage) (i x : Nat) (y : UInt8) : Prop where
  file : i ∈ a.files
  inside : x < a.volume.diskSize i
  byte : a.volume.fileByte i x = y

/-- A call to `read` from a position of file `i` that is at most `x`, and in the same block, returns
byte `x`, and it is `y`. -/
def ReadsBack (a : Storage) (i x : Nat) (y : UInt8) : Prop :=
  ∀ e ∈ a.session.opened, e.inode = i → e.mode &&& O_RDONLY ≠ 0 →
    ∀ (buffer : Bytes) (offset length : Nat), e.pos ≤ x →
      x < e.pos + min length (a.volume.blockSize - e.pos % a.volume.blockSize) →
        ∃ t buffer' done, a.session.inter.read e.this buffer offset length =
            some (t, buffer', done) ∧
          x < e.pos + done ∧ buffer' (offset + (x - e.pos)) = y

/-- What is said of a call to `write` on the entry `e`: it changes its file only, and only within
the range, and what it stores is what a later `read` returns. -/
structure WritesOnly (a : Storage) (e : FdtEntry) (buffer : Bytes) (offset length : Nat) :
    Prop where
  returns : e.mode &&& O_WRONLY ≠ 0 → 1 ≤ length →
    ∃ t, a.session.inter.write e.this buffer offset length = some (t, length)
  others : ∀ b, FileStep a (.write e.this buffer offset length) b →
    ∀ j ∈ a.files, j ≠ e.inode → a.volume.SameFile b.volume j
  outside : ∀ b, FileStep a (.write e.this buffer offset length) b →
    ∀ x, x < e.size → x < e.pos ∨ e.pos + length ≤ x →
      b.volume.fileByte e.inode x = a.volume.fileByte e.inode x
  later : ∀ b, FileStep a (.write e.this buffer offset length) b →
    e.mode &&& O_WRONLY ≠ 0 → ∀ x, e.pos ≤ x → x < e.pos + length → ∀ cs d,
      Run (Guarded (fun a cl => a.Allowed cl ∧ a.Spares e.inode x cl) FileStep) b cs d →
        d.ReadsBack e.inode x (buffer (offset + (x - e.pos)))

/-! ## Reading -/

/-- The files hold what a `read` returns. -/
lemma Sane.readsBack (h : a.Sane) (H : a.Holds i x y) : a.ReadsBack i x y := by
  rintro e he rfl hr buffer offset length hpos hx
  have hsize : a.volume.diskSize e.inode = e.size := h.size e he
  have hin : x < e.size := hsize ▸ H.inside
  have h32 : e.size < 2 ^ 32 := hsize ▸ Bytes.get32_lt _ _
  have hn := a.volume.le_sizeBlocks (a.volume.diskSize e.inode)
  rw [hsize] at hn
  obtain ⟨t, b, done, hread, hd, hy⟩ := Inter.read_direct (Described.checkFd h.described he) hr
    (hsize ▸ h.files.file _ (h.listed e he)) hn h32 hpos hin hx buffer offset
  exact ⟨t, b, done, hread, hd, hy.trans H.byte⟩

/-! ## Writing -/

/-- A call to `write` stores the range and keeps the rest of the file. -/
lemma Sane.writes {buffer : Bytes} {offset length : Nat} (h : a.Sane) (he : e ∈ a.session.opened)
    (hc : a.Allowed (.write e.this buffer offset length))
    (st : FileStep a (.write e.this buffer offset length) b) :
    (∀ x, x < e.size → x < e.pos ∨ e.pos + length ≤ x →
      b.volume.fileByte e.inode x = a.volume.fileByte e.inode x) ∧
    e.size ≤ b.volume.diskSize e.inode ∧
    (e.mode &&& O_WRONLY ≠ 0 → ∀ x, e.pos ≤ x → x < e.pos + length →
      b.Holds e.inode x (buffer (offset + (x - e.pos)))) := by
  have hfiles := (h.step hc.1 hc.2 st).files (h.listed e he)
  obtain ⟨e', he', hthis, r, hw⟩ := st.1.write hc.1.1
  have D : Described a.session.inter a.session.opened a.session.lost := h.described
  obtain rfl := D.this_inj he' he hthis
  have hsize : a.volume.diskSize e'.inode = e'.size := h.size e' he
  by_cases hno : e'.mode &&& O_WRONLY = 0 ∨ length = 0
  · have hv : b.volume = a.volume := by
      unfold volume
      rw [write_refused (D.checkFd he) hno hw]
    rw [hv]
    refine ⟨fun _ _ _ => rfl, hsize.ge, fun hm x h1 h2 => ?_⟩
    obtain hno | hno := hno
    · exact absurd hno hm
    · omega
  · obtain ⟨hm, hl⟩ := not_or.mp hno
    obtain ⟨⟨s, opened, lost⟩, files⟩ := a
    obtain ⟨t, n, n', hw', W, hn, ht, _⟩ := h.write he hm (Nat.pos_of_ne_zero hl)
      (hc.1.2 e' he rfl hm hl) (hc.2.2 e' he rfl hm hl) buffer
    obtain ⟨rfl, _⟩ := Prod.mk.inj (Option.some.inj (hw.symm.trans hw'))
    refine ⟨fun x hx hr => W.kept x ?_ hr, ?_, fun _ x h1 h2 => ⟨hfiles, ?_, W.stored x h1 h2⟩⟩
    · rw [hn]
      exact Volume.lt_sizeBlocks (hsize ▸ hx)
    · exact (Nat.le_max_left ..).trans ht.ge
    · exact (show x < max e'.size (e'.pos + length) by omega).trans_eq ht.symm

/-- A call that spares a byte leaves it. -/
lemma Holds.step (H : a.Holds i x y) (h : a.Sane) (hc : a.Allowed cl) (hs : a.Spares i x cl)
    (st : FileStep a cl b) : b.Holds i x y := by
  have K := h.step hc.1 hc.2 st
  by_cases hch : a.Changes cl i
  · cases cl with
    | openfile path oflag fperm f memory =>
      obtain ⟨ht, v, hv⟩ := hch
      exact absurd hv (hs ht v)
    | write f buffer offset length =>
      obtain ⟨e, he, rfl, rfl⟩ := hch
      have hsize : a.volume.diskSize e.inode = e.size := h.size e he
      obtain ⟨hout, hle, _⟩ := h.writes he hc st
      have hin := H.inside
      refine ⟨K.files H.file, by omega, ?_⟩
      rw [hout x (by omega) (hs e he rfl rfl)]
      exact H.byte
    | _ => exact hch.elim
  · have S := K.same i H.file hch
    refine ⟨K.files H.file, ?_, ?_⟩
    · rw [S.inode.size]
      exact H.inside
    · rw [S.bytes x H.inside]
      exact H.byte

/-! ## Runs -/

/-- A run of calls that meet the condition keeps the files apart. -/
lemma sane_of_run (h : a.Sane) (r : Run (Guarded Allowed FileStep) a cs b) : b.Sane :=
  r.invariant (fun _ _ _ h st => (h.step st.1.1 st.1.2 st.2).sane) h

/-- Calls that spare a byte leave it. -/
lemma Holds.run (H : a.Holds i x y) (h : a.Sane)
    (r : Run (Guarded (fun a cl => a.Allowed cl ∧ a.Spares i x cl) FileStep) a cs b) :
    b.Sane ∧ b.Holds i x y := by
  refine r.invariant (I := fun a => a.Sane ∧ a.Holds i x y) ?_ ⟨h, H⟩
  rintro s cl t ⟨hs, Hs⟩ ⟨⟨hc, hsp⟩, st⟩
  exact ⟨(hs.step hc.1 hc.2 st).sane, Hs.step hs hc hsp st⟩

/-- **File isolation.** In every run in which each `write` that needs blocks finds the inode of its
file in `std_inode`, and each `close` that shrinks the table finds clear memory, every `write`
changes its own file only. -/
theorem file_isolation (a b : Storage) (cs : List Call) (h : a.Sane)
    (r : Run (Guarded Allowed FileStep) a cs b) (e : FdtEntry) (he : e ∈ b.session.opened)
    (buffer : Bytes) (offset length : Nat)
    (hc : b.Allowed (.write e.this buffer offset length)) :
    b.WritesOnly e buffer offset length := by
  have hb := sane_of_run h r
  refine ⟨fun hm hl => ?_, fun c st j hj hne => ?_, fun c st => (hb.writes he hc st).1,
    fun c st hm x h1 h2 cs d r' => ?_⟩
  · obtain ⟨⟨s, opened, lost⟩, files⟩ := b
    obtain ⟨t, _, _, hw, _⟩ := hb.write he hm hl (hc.1.2 e he rfl hm (Nat.ne_of_gt hl))
      (hc.2.2 e he rfl hm (Nat.ne_of_gt hl)) buffer
    exact ⟨t, hw⟩
  · refine (hb.step hc.1 hc.2 st).same j hj ?_
    rintro ⟨e', he', hthis, rfl⟩
    exact hne (congrArg FdtEntry.inode (Described.this_inj hb.described he' he hthis))
  · have hsane := (hb.step hc.1 hc.2 st).sane
    obtain ⟨hd, Hd⟩ := ((hb.writes he hc st).2.2 hm x h1 h2).run hsane r'
    exact hd.readsBack Hd

/-! ### Two files -/

/-- The words of a volume with two files of one byte in the root directory: "a", inode 12, in block
15 and "b", inode 13, in block 16. Block 17 is the only free one. -/
def twoFilesWord (n i : Nat) : Nat :=
  if n = 2 ∧ i = 0 then 2 ^ 32 - 1 - 2 ^ 17
  else if n < 6 ∧ i = 0 then 2 ^ 32 - 1
  else if n = 6 then
    if i = 32 then 0x4000 else if i = 42 then 14 else 0
  else if n = 7 then
    if i = 96 ∨ i = 128 then 0x8000
    else if i = 97 ∨ i = 129 then 1
    else if i = 106 then 15
    else if i = 138 then 16
    else 0
  else if n = 14 then
    [2, 0x0201000c, 0x2e, 2, 0x0202000c, 0x2e2e, 12, 0x0101000c, 0x61, 13, 0x010103dc,
      0x62].getD i 0
  else 0

/-- That volume. -/
def twoFiles : Volume := sampleVolume twoFilesWord (fun k => 1 - k) 1 0 65

lemma twoFiles_geometry : twoFiles.geometry = sampleGeometry := sampleVolume_geometry _ _ _ _ _

lemma twoFiles_hasInode {i : Nat} (h0 : 0 < i) (h : i ≤ 64) : twoFiles.HasInode i := by
  unfold Volume.HasInode
  rw [twoFiles_geometry, sampleGeometry_groups]
  exact ⟨h0, h⟩

/-- What is read on that volume. -/
lemma twoFiles_reads :
    (∀ b, b < 64 → twoFiles.bitmapBit (.blockBitmap (b / 32)) (b % 32) = false → b = 17) ∧
      ∀ i ∈ [12, 13], twoFiles.sizeBlocks (twoFiles.diskSize i) = 1 ∧
        twoFiles.diskDbp i 0 = i + 3 := by
  decide +kernel

lemma twoFiles_blockFree (b : Nat) (h : twoFiles.BlockFree b) : b = 17 :=
  twoFiles_reads.1 b h.1 h.2

/-- Each of the files has one block, 15 or 16. -/
lemma twoFiles_file {i : Nat} (hi : i ∈ ({12, 13} : Set Nat)) :
    twoFiles.sizeBlocks (twoFiles.diskSize i) = 1 ∧ twoFiles.diskDbp i 0 = i + 3 ∧
      twoFiles.HasInode i := by
  have hmem : i ∈ [12, 13] := by
    obtain rfl | rfl := hi <;> decide
  obtain ⟨hn, hd⟩ := twoFiles_reads.2 i hmem
  refine ⟨hn, hd, ?_⟩
  obtain rfl | rfl := hi
  · exact twoFiles_hasInode (by decide) (by decide)
  · exact twoFiles_hasInode (by decide) (by decide)

lemma twoFiles_fileSet : twoFiles.FileSet {12, 13} where
  file i hi := by
    obtain ⟨hn, hd, h⟩ := twoFiles_file hi
    have hlt : 14 ≤ i + 3 ∧ i + 3 < 64 := by
      obtain rfl | rfl := hi <;> decide
    rw [hn]
    refine ⟨twoFiles_geometry.symm ▸ sampleGeometry_layout, h, by decide, fun k hk => ?_,
      fun k j hk hj _ => by omega⟩
    rw [Nat.lt_one_iff.mp hk, hd, twoFiles_geometry]
    exact sampleGeometry_isData hlt.1 hlt.2
  taken i hi k hk hfree := by
    obtain ⟨hn, hd, _⟩ := twoFiles_file hi
    rw [hn] at hk
    have h := twoFiles_blockFree _ hfree
    rw [Nat.lt_one_iff.mp hk, hd] at h
    obtain rfl | rfl := hi <;> omega
  apart i hi j hj hij k hk l hl h := by
    obtain ⟨hn, hd, _⟩ := twoFiles_file hi
    obtain ⟨hn', hd', _⟩ := twoFiles_file hj
    rw [hn] at hk
    rw [hn'] at hl
    rw [Nat.lt_one_iff.mp hk, Nat.lt_one_iff.mp hl, hd, hd'] at h
    omega
  free b hb := by
    rw [twoFiles_geometry, twoFiles_blockFree b hb]
    exact sampleGeometry_isData (by decide) (by decide)

/-- The session at boot on that volume. -/
def twoFilesBoot : Storage :=
  ⟨Session.boot twoFiles (fun _ => ⟨0, 0, 0, 0, 0⟩) fun _ => 0, {12, 13}⟩

lemma twoFilesBoot_sane : twoFilesBoot.Sane where
  described := Described.install _ _ _
  files := twoFiles_fileSet
  listed _ he := absurd he List.not_mem_nil
  size _ he := absurd he List.not_mem_nil
  single _ he := absurd he List.not_mem_nil

/-- Opening a file that is there. -/
def opening (s : Inter) (name : UInt8) (f : Nat) : Option (Inter × Nat) :=
  s.openfile [SLASH, name] O_RDWR 0 f fun _ => ⟨0, 0, 0, 0, 0⟩

lemma eq_some_get {o : Option (Inter × Nat)} {f : Nat} (h : o.isSome) (hf : (o.get h).2 = f) :
    o = some ((o.get h).1, f) := by
  subst hf
  exact (Option.some_get h).symm

/-- The session once `openfile` has returned the descriptor `f`. -/
def afterOpening (a : Storage) (t : Inter) (f : Nat) : Storage :=
  ⟨⟨t, t.fdt (t.deref f) :: a.session.opened, a.session.lost⟩, a.files⟩

/-- Opening one of the files that is not open. -/
lemma afterOpening_step (a : Storage) {t : Inter} {name : UInt8} {f i : Nat}
    (ht : opening a.session.inter name f = some (t, f)) (h0 : 0 < f ∧ f < 2 ^ 32)
    (hnew : f ∉ a.session.opened.map FdtEntry.this ++ a.session.lost)
    (hfind : (a.volume.findInode [SLASH, name] 2).map Prod.snd = some i) (hi : i ∈ a.files)
    (hentry : (t.fdt (t.deref f)).inode = i) (hs : a.Sane)
    (hclosed : ∀ e ∈ a.session.opened, e.inode ≠ i) :
    Guarded Allowed FileStep a
      (.openfile [SLASH, name] O_RDWR 0 f fun _ => ⟨0, 0, 0, 0, 0⟩) (a.afterOpening t f) := by
  have hne := Nat.ne_of_gt (hs.files.file i hi).inode.1
  refine ⟨⟨⟨nofun, fun v j hv => ?_⟩, trivial, trivial⟩, .openfile ht h0 hnew, ?_⟩
  · rw [hv] at hfind
    obtain rfl : j = i := Option.some.inj hfind
    exact ⟨fun _ _ => ⟨hi, hclosed⟩, fun h => absurd h hne⟩
  · refine (Set.union_eq_left.mpr ?_).symm
    rintro _ ⟨e, he, rfl⟩
    obtain rfl | he := List.mem_cons.mp he
    · rw [hentry]
      exact hi
    · exact hs.listed e he

lemma opening_a : (opening twoFilesBoot.session.inter 97 4).isSome := by decide +kernel

/-- "a" is open. -/
def openA : Storage :=
  twoFilesBoot.afterOpening ((opening twoFilesBoot.session.inter 97 4).get opening_a).1 4

/-- The descriptor of "a". -/
def entryA : FdtEntry := ⟨12, 0, 1, O_RDWR, 4⟩

/-- The descriptor of "b". -/
def entryB : FdtEntry := ⟨13, 0, 1, O_RDWR, 8⟩

/-- Block 17 is the one that is left. -/
def OneLeft (v : Volume) : Prop :=
  v.blockSize = 1024 ∧ (v.allocateBlock 1).map Prod.snd = some 17 ∧ v.BlockFree 17

instance (v : Volume) : Decidable (OneLeft v) := inferInstanceAs (Decidable (_ ∧ _ ∧ _))

/-- What is read once "a" is open. -/
lemma openA_reads :
    ((opening twoFilesBoot.session.inter 97 4).get opening_a).2 = 4 ∧
      (twoFilesBoot.volume.findInode [SLASH, 97] 2).map Prod.snd = some 12 ∧
      openA.session.opened = [entryA] ∧
      (openA.volume.findInode [SLASH, 98] 2).map Prod.snd = some 13 := by
  decide +kernel

lemma openA_opened : openA.session.opened = [entryA] := openA_reads.2.2.1

lemma openA_step : Guarded Allowed FileStep twoFilesBoot
    (.openfile [SLASH, 97] O_RDWR 0 4 fun _ => ⟨0, 0, 0, 0, 0⟩) openA := by
  obtain ⟨h4, hfind, hopen, _⟩ := openA_reads
  have hentry : FdtEntry.inode _ = 12 := congrArg FdtEntry.inode (List.cons.inj hopen).1
  exact afterOpening_step twoFilesBoot (eq_some_get opening_a h4) (by decide) List.not_mem_nil
    hfind (.inl rfl) hentry twoFilesBoot_sane fun _ he => absurd he List.not_mem_nil

lemma openA_sane : openA.Sane := sane_of_run twoFilesBoot_sane (.single openA_step)

lemma opening_b : (opening openA.session.inter 98 8).isSome := by decide +kernel

/-- "b" is open as well. -/
def openB : Storage := openA.afterOpening ((opening openA.session.inter 98 8).get opening_b).1 8

/-- What is read once "b" is open as well: the write to "a" stores a 7 in "b". -/
lemma openB_reads :
    ((opening openA.session.inter 98 8).get opening_b).2 = 8 ∧
      openB.session.opened = [entryB, entryA] ∧ OneLeft openB.volume ∧
      openB.volume.InodeLoaded 13 ∧ openB.volume.diskSize 13 = 1 ∧ openB.volume.fileByte 13 0 = 0 ∧
      (openB.session.inter.write 4 (fun _ => 7) 0 1025).map
        (fun r => r.1.volume.fileByte 13 0) = some 7 := by
  decide +kernel

lemma openB_opened : openB.session.opened = [entryB, entryA] := openB_reads.2.1

lemma openB_step : Guarded Allowed FileStep openA
    (.openfile [SLASH, 98] O_RDWR 0 8 fun _ => ⟨0, 0, 0, 0, 0⟩) openB := by
  obtain ⟨_, _, _, hfind⟩ := openA_reads
  have hentry : FdtEntry.inode _ = 13 := congrArg FdtEntry.inode (List.cons.inj openB_opened).1
  refine afterOpening_step openA (eq_some_get opening_b openB_reads.1) (by decide) ?_ hfind
    (.inr rfl) hentry openA_sane ?_
  · rw [openA_opened]
    decide
  · rw [openA_opened]
    decide

/-- A call to `write` on a file of one byte that needs the free block. -/
lemma fits_one {s : Inter} {e : FdtEntry} (h : OneLeft s.volume) (hpos : e.pos = 0)
    (hsize : e.size = 1) : s.Fits e 0 1025 := by
  obtain ⟨hb, ha, hfree⟩ := h
  have huse : s.blocksToUse e 1025 = 2 := by
    unfold Inter.blocksToUse
    rw [hb, hpos]
    norm_num [add32, sub32]
  have hused : s.blocksUsed e = 1 := by
    unfold Inter.blocksUsed
    rw [hb, hsize]
    norm_num
  obtain ⟨⟨w, b⟩, hw, h17⟩ := Option.map_eq_some_iff.mp ha
  obtain rfl : b = 17 := h17
  refine ⟨by rw [hb, hpos]; decide, by decide, ?_⟩
  rw [huse, hused]
  exact ⟨_, _, .next hw (by decide) hfree .done⟩

lemma write_inDomain {a : Storage} {e : FdtEntry} (hm : e ∈ a.session.opened) (hs : a.Sane)
    (hf : a.session.inter.Fits e 0 1025) : a.InDomain (.write e.this (fun _ => 7) 0 1025) := by
  refine ⟨fun f hf => ?_, fun e' he hthis _ _ => ?_⟩
  · cases hf
    exact List.mem_map_of_mem hm
  · obtain rfl := Described.this_inj hs.described he hm hthis
    exact hf

lemma entryA_mem : entryA ∈ openB.session.opened := by
  rw [openB_opened]
  exact List.mem_cons_of_mem _ List.mem_cons_self

lemma entryB_mem : entryB ∈ openB.session.opened := by
  rw [openB_opened]
  exact List.mem_cons_self

lemma openB_sane : openB.Sane := sane_of_run openA_sane (.single openB_step)

/-- Both files are open, and the inode of "b" is the one in `std_inode`: a write to "b". -/
theorem file_isolation_twoFiles :
    ∃ cs, Run (Guarded Allowed FileStep) twoFilesBoot cs openB ∧ entryA ∈ openB.session.opened ∧
      openB.WritesOnly entryB (fun _ => 7) 0 1025 := by
  obtain ⟨_, _, hleft, hload, _⟩ := openB_reads
  have hrun : Run (Guarded Allowed FileStep) twoFilesBoot ([_] ++ [_]) openB :=
    (Run.single openA_step).snoc openB_step
  have hd : openB.InDomain (.write entryB.this (fun _ => 7) 0 1025) :=
    write_inDomain entryB_mem openB_sane (fits_one hleft rfl rfl)
  refine ⟨_, hrun, entryA_mem, file_isolation twoFilesBoot openB _ twoFilesBoot_sane hrun entryB
    entryB_mem _ 0 1025 ⟨hd, trivial, fun e he hthis _ _ _ => ?_⟩⟩
  obtain rfl := Described.this_inj openB_sane.described he entryB_mem hthis
  exact hload

/-- The same write to "a": `prepare_blocks` puts the new block into the inode of "b" and stores it as
that of "a", so that what is written to "a" goes to the block of "b". -/
theorem write_damages_other :
    twoFilesBoot.Sane ∧ ∃ cs, Run (Guarded InDomain FileStep) twoFilesBoot cs openB ∧
      entryA ∈ openB.session.opened ∧ openB.InDomain (.write entryA.this (fun _ => 7) 0 1025) ∧
      ¬ openB.WritesOnly entryA (fun _ => 7) 0 1025 := by
  obtain ⟨_, _, hleft, _, h1, h0, hw⟩ := openB_reads
  have hd : openB.InDomain (.write entryA.this (fun _ => 7) 0 1025) :=
    write_inDomain entryA_mem openB_sane (fits_one hleft rfl rfl)
  have hrun : Run (Guarded InDomain FileStep) twoFilesBoot ([_] ++ [_]) openB :=
    (Run.single openA_step).snoc openB_step |>.mono fun _ _ _ st => ⟨st.1.1, st.2⟩
  refine ⟨twoFilesBoot_sane, _, hrun, entryA_mem, hd, fun h => ?_⟩
  obtain ⟨⟨t, r⟩, ht, h7⟩ := Option.map_eq_some_iff.mp hw
  have hp : (Call.write entryA.this (fun _ => 7) 0 1025).perform openB.session.inter = some t :=
    congrArg (Option.map Prod.fst) ht
  have st : Step openB.session (.write entryA.this (fun _ => 7) 0 1025)
      ⟨t, t.fdt (t.deref entryA.this) :: openB.session.opened.erase entryA, openB.session.lost⟩ :=
    .own entryA_mem rfl id hp
  have hsame := h.others ⟨_, openB.files ∪ {i | ∃ e ∈ _, FdtEntry.inode e = i}⟩ ⟨st, rfl⟩ 13
    (.inr rfl) (by decide)
  have hb := hsame.bytes 0 (by rw [h1]; decide)
  rw [h0] at hb
  have h7 : t.volume.fileByte 13 0 = 7 := h7
  exact absurd (h7.symm.trans hb) (by decide)

end Storage

end MarioBrOS.Fs
