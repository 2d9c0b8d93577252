import MarioBrOS.Fs.SingleWrite

/-!
# Writing when the blocks run out

`write` gives up with -3 if `prepare_blocks` could not allocate all the blocks. The blocks it has
allocated by then are in the inode, but the size does not count them: `erase_file_data` does not
free them, and the next `write` fills their slots again. So nothing is lost if no block was
allocated at all (`failed_write_keeps`), and within the direct blocks only then.
-/

namespace MarioBrOS.Fs

namespace Volume

variable {v w u : Volume} {b c i k n used toUse : Nat}

/-! ## Freeing blocks -/

/-- `unallocate_block` frees its block and no other. -/
lemma unallocateBlock_free (L : v.geometry.Layout) (hb : b < v.spb.blockNum) :
    (v.unallocateBlock b).1.geometry = v.geometry ∧
      (v.unallocateBlock b).1.stdInode = v.stdInode ∧
      (∀ m x, v.geometry.InBlock m x → ¬ v.geometry.AllocByte x →
        (v.unallocateBlock b).1.disk x = v.disk x) ∧
      ∀ c, c ≠ b → ((v.unallocateBlock b).1.BlockFree c ↔ v.BlockFree c) := by
  have hp : 0 < v.spb.blockPerGroup := L.blockPerGroup_pos
  obtain ⟨_, buf, e⟩ | ⟨_, w, e, hm, _, _⟩ := unallocateBlock_spec L hb
  · rw [e]
    exact ⟨geometry_congr rfl rfl, rfl, fun _ _ _ _ => rfl, fun c _ => Iff.rfl⟩
  · rw [e]
    refine ⟨hm.geometry, hm.stdInode, fun m x hin hx => ?_, fun c hc => ?_⟩
    · refine hm.other m x hin (fun e => hx (.inl ⟨_, L.group_lt hb, ?_⟩))
        fun hd => hx (.inr ⟨m, hin, hd⟩)
      subst e
      exact hin
    · have hd := Nat.div_add_mod b v.spb.blockPerGroup
      rw [Nat.mul_comm] at hd
      have hne : c ≠ b / v.spb.blockPerGroup * v.spb.blockPerGroup + b % v.spb.blockPerGroup := by
        omega
      exact (blockFree_of_marked L (L.group_lt hb) (Nat.mod_lt _ hp) hm c).trans
        (iff_of_eq (if_neg hne))

/-- `erase_file_data` writes nothing else there. -/
lemma freeDirect_outside (L : v.geometry.Layout)
    (hs : ∀ k, i ≤ k → k < i + n → v.dbp k < v.spb.blockNum) :
    (v.freeDirect n i).geometry = v.geometry ∧
      (v.freeDirect n i).stdInode = v.stdInode ∧
      ∀ m x, v.geometry.InBlock m x → ¬ v.geometry.AllocByte x →
        (v.freeDirect n i).disk x = v.disk x := by
  induction n generalizing v i with
  | zero => exact ⟨rfl, rfl, fun _ _ _ _ => rfl⟩
  | succ n ih =>
    rw [freeDirect]
    obtain ⟨hg, hi, hout, _⟩ := unallocateBlock_free L (hs i (le_refl i) (by omega))
    have hnum : (v.unallocateBlock (v.dbp i)).1.spb.blockNum = v.spb.blockNum :=
      congrArg Geometry.blockNum hg
    have hdbp : ∀ k, (v.unallocateBlock (v.dbp i)).1.dbp k = v.dbp k := fun k =>
      congrArg (Bytes.get32 · (40 + 4 * k)) hi
    obtain ⟨h1, h2, h3⟩ := ih (v := (v.unallocateBlock (v.dbp i)).1) (i := i + 1) (hg.symm ▸ L)
      fun k hk hk' => by rw [hnum, hdbp]; exact hs k (by omega) (by omega)
    refine ⟨h1.trans hg, h2.trans hi, fun m x hin hx => ?_⟩
    rw [h3 m x (by rwa [hg]) (by rwa [hg]), hout m x hin hx]

/-- `erase_file_data` frees the blocks of the direct slots and no others. -/
lemma freeDirect_taken (L : v.geometry.Layout)
    (hs : ∀ k, i ≤ k → k < i + n → v.dbp k < v.spb.blockNum ∧ c ≠ v.dbp k)
    (hc : ¬ v.BlockFree c) : ¬ (v.freeDirect n i).BlockFree c := by
  induction n generalizing v i with
  | zero => exact hc
  | succ n ih =>
    rw [freeDirect]
    obtain ⟨h1, h2⟩ := hs i (le_refl i) (by omega)
    obtain ⟨hg, hi, _, hfree⟩ := unallocateBlock_free L h1
    have hdbp : ∀ k, (v.unallocateBlock (v.dbp i)).1.dbp k = v.dbp k := fun k =>
      congrArg (Bytes.get32 · (40 + 4 * k)) hi
    have hnum : (v.unallocateBlock (v.dbp i)).1.spb.blockNum = v.spb.blockNum :=
      congrArg Geometry.blockNum hg
    refine ih (hg.symm ▸ L) (fun k hk hk' => ?_) fun h => hc ((hfree c h2).mp h)
    rw [hdbp, hnum]
    exact hs k (by omega) (by omega)

/-- The number of blocks that `size` bytes take. -/
def sizeBlocks (v : Volume) (size : Nat) : Nat :=
  if size ≠ 0 then 1 + (size - 1) / v.blockSize else 0

/-- `erase_file_data` on a file with data: the size in the inode is cleared, then the blocks are
freed. -/
lemma eraseFileData_split (L : v.geometry.Layout) (hi : v.HasInode i) (h0 : v.diskSize i ≠ 0) :
    ∃ u, v.eraseFileData i = some (if v.sizeBlocks (v.diskSize i) ≤ 12 then
          u.freeDirect (v.sizeBlocks (v.diskSize i)) 0
        else (u.freeDirect 12 0).freeIndirect (v.sizeBlocks (v.diskSize i) - 12)) ∧
      Spoiled v u ∧ (∀ x, (∀ y, y < 128 → x ≠ v.inodeByte i + y) → u.disk x = v.disk x) ∧
      u.diskSize i = 0 ∧
      ∀ j, 8 ≤ j → j + 4 ≤ 128 → u.stdInode.get32 j = v.disk.get32 (v.inodeByte i + j) := by
  obtain ⟨u, hload⟩ := v.setInode_isSome i
  obtain ⟨hu1, hu2⟩ := setInode_kept hload
  have hword : ∀ j, j + 4 ≤ 128 → u.stdInode.get32 j = v.disk.get32 (v.inodeByte i + j) :=
    fun j hj => setInode_word L hi hload hj
  have hsize : u.sizeLow = v.diskSize i := hword 4 (by omega)
  have hg0 : (u.setSizeLow 0).geometry = v.geometry := (geometry_congr rfl rfl).trans hu1
  have S0 : Spoiled v (u.setSizeLow 0) := ⟨hg0, fun _ x _ _ => congrFun hu2 x⟩
  have S := S0.updateInode L hi
  obtain ⟨hg, _, hstd, hd⟩ := updateInode_spec (hg0.symm ▸ L) (hi.congr hg0)
  have hbyte := inodeByte_congr (i := i) hg0
  rw [hbyte] at hd
  refine ⟨(u.setSizeLow 0).updateInode i, ?_, S, ?_⟩
  · unfold eraseFileData sizeBlocks
    rw [if_neg (Nat.ne_of_gt hi.1), hload, Option.bind_eq_bind, Option.bind_some, hsize, if_neg h0,
      if_pos h0]
    dsimp only
    rw [blockSize_congr hu1]
    split <;> rfl
  · generalize (u.setSizeLow 0).updateInode i = w at S hg hstd hd
    have hd : w.disk = v.disk.blit (v.inodeByte i) (u.stdInode.set32 4 0) 0 128 := by
      rw [← hu2]
      exact hd
    refine ⟨fun x hx => ?_, ?_, fun j h8 hj => ?_⟩
    · rw [hd]
      have := hx (x - v.inodeByte i)
      exact Bytes.blit_apply_of_outside (by omega)
    · unfold diskSize
      rw [inodeByte_congr S.geometry, hd, Bytes.get32_blit_of_inside (by omega), Nat.zero_add]
      exact Bytes.get32_set32 (by omega)
    · rw [hstd]
      exact (Bytes.get32_set32_of_disjoint (by omega)).trans (hword j hj)

/-- `erase_file_data` on a file within its direct blocks. -/
lemma DirectFile.erase (D : v.DirectFile i n) (hn : v.sizeBlocks (v.diskSize i) ≤ n) :
    ∃ u, v.eraseFileData i = some (u.freeDirect (v.sizeBlocks (v.diskSize i)) 0) ∧ Spoiled v u ∧
      (∀ x, (∀ y, y < 128 → x ≠ v.inodeByte i + y) → u.disk x = v.disk x) ∧
      u.diskSize i = 0 ∧ ∀ k, k < 12 → u.dbp k = v.diskDbp i k := by
  by_cases h0 : v.diskSize i = 0
  · obtain ⟨u, hload⟩ := v.setInode_isSome i
    have hword : ∀ j, j + 4 ≤ 128 → u.stdInode.get32 j = v.disk.get32 (v.inodeByte i + j) :=
      fun j hj => setInode_word D.layout D.inode hload hj
    have hsize : u.sizeLow = 0 := (hword 4 (by omega)).trans h0
    obtain ⟨hu1, hu2⟩ := setInode_kept hload
    refine ⟨u, ?_, ⟨hu1, fun _ x _ _ => congrFun hu2 x⟩, fun x _ => congrFun hu2 x, ?_,
      fun k hk => hword _ (by omega)⟩
    · unfold eraseFileData sizeBlocks
      rw [if_neg (Nat.ne_of_gt D.inode.1), hload, Option.bind_eq_bind, Option.bind_some,
        if_pos hsize, if_neg (not_not.mpr h0)]
      rfl
    · unfold diskSize
      rw [hu2, inodeByte_congr hu1]
      exact h0
  · obtain ⟨u, herase, S, hout, hsize, hword⟩ := eraseFileData_split D.layout D.inode h0
    rw [if_pos (hn.trans D.slots)] at herase
    exact ⟨u, herase, S, hout, hsize, fun k hk => hword _ (by omega) (by omega)⟩

/-- The blocks of other files stay taken. -/
lemma eraseFileData_taken (D : v.DirectFile i n) (hn : v.sizeBlocks (v.diskSize i) ≤ n)
    (hs : ∀ k, k < v.sizeBlocks (v.diskSize i) → c ≠ v.diskDbp i k) (hc : ¬ v.BlockFree c) :
    ∃ w, v.eraseFileData i = some w ∧ ¬ w.BlockFree c := by
  obtain ⟨u, herase, S, _, _, hdbp⟩ := D.erase hn
  have h12 := D.slots
  have hnum : u.spb.blockNum = v.spb.blockNum := congrArg Geometry.blockNum S.geometry
  refine ⟨_, herase, freeDirect_taken (S.geometry.symm ▸ D.layout) (fun k _ hk => ?_)
    fun h => hc ((S.blockFree D.layout c).mp h)⟩
  rw [hdbp k (by omega), hnum]
  exact ⟨(D.data k (by omega)).1, hs k (by omega)⟩

/-! ## Running out of blocks -/

/-- `allocate_block` returns free blocks until it returns 0, as far as `prepare_blocks` asks it for
direct slots. -/
def AllocatesHonestly (v : Volume) (used toUse : Nat) : Prop :=
  ∃ m w last, Allocates m v 1 used w last ∧ used + m ≤ toUse ∧
    (used + m ≠ toUse → ∃ u, w.allocateBlock last = some (u, 0))

lemma allocateOr_zero {addr count : Nat} {full : Volume → Volume}
    (h : v.allocateBlock addr = some (w, 0)) :
    v.allocateOr addr count full = throw (full w, count) := by
  unfold allocateOr
  rw [h]
  rfl

/-- `prepare_blocks` within the direct slots, when the blocks run out behind slot `used + m`. -/
lemma prepareBlocks_runsOut {inode m last : Nat} (h0 : inode ≠ 0) (h12 : toUse ≤ 12)
    (hA : Allocates m v 1 used w last) (hm : used + m < toUse)
    (hz : w.allocateBlock last = some (u, 0)) :
    v.prepareBlocks inode used toUse = some (u.updateInode inode, m) := by
  have hbound := twelve_le_bound v
  have hrun := growDirect_allocates inode (12 - used - m) hA hm.le 0
  have hrounds : m + (12 - used - m) = 12 - used := by omega
  obtain ⟨r, hr⟩ : ∃ r, 12 - used - m = r + 1 := ⟨11 - used - m, by omega⟩
  rw [hrounds, if_neg (by omega), hr, growDirect, allocateOr_zero hz, throw_bind, Nat.zero_add]
    at hrun
  unfold prepareBlocks
  dsimp only
  rw [if_neg (by omega), if_neg (by omega)]
  unfold grow
  dsimp only
  rw [hrun, throw_bind]
  rfl

/-- The block numbers that the inode `i` holds. -/
def blockOf (v : Volume) (i : Nat) (slot : Slot) : Option Nat :=
  (v.setInode i).map fun w => w.storedBlock slot

end Volume

namespace Inter

variable {s : Inter} {e : FdtEntry} {f length : Nat}

/-- A `write` that gives up with -3: `prepare_blocks` leaves the volume `v` without having allocated
all the blocks. -/
structure WriteFails (s : Inter) (f : Nat) (e : FdtEntry) (length : Nat) (v : Volume) : Prop where
  valid : s.checkFd f = some (some e)
  writable : e.mode &&& O_WRONLY ≠ 0
  length_ne : length ≠ 0
  short : s.blocksUsed e < s.blocksToUse e length
  prepare : ∃ alloc, s.volume.prepareBlocks e.inode (s.blocksUsed e) (s.blocksToUse e length) =
    some (v, alloc) ∧ alloc ≠ s.blocksToUse e length - s.blocksUsed e

lemma WriteFails.write {v : Volume} (h : WriteFails s f e length v) (buffer : Bytes)
    (offset : Nat) : s.write f buffer offset length = some (s.withVolume v, NO_BLOCKS) := by
  obtain ⟨alloc, hprep, hne⟩ := h.prepare
  unfold Inter.write
  rw [h.valid, Option.bind_eq_bind, Option.bind_some]
  dsimp only
  rw [if_neg h.writable, if_neg h.length_ne, hprep, Option.bind_eq_bind, Option.bind_some]
  dsimp only
  rw [if_pos ⟨h.short, hne⟩]

/-- What is said of a `write` that leaves the volume `v`: no block has been allocated; or those that
have are freed by `erase_file_data`, and are still the blocks of the file after another `write`. -/
def LosesNothing (s : Inter) (f : Nat) (e : FdtEntry) (length : Nat) (v : Volume) : Prop :=
  (∀ b, v.BlockFree b ↔ s.volume.BlockFree b) ∨
    (∃ u, v.eraseFileData e.inode = some u ∧ ∀ b, s.volume.BlockFree b → u.BlockFree b) ∧
      ∀ buffer offset t r, (s.withVolume v).write f buffer offset length = some (t, r) →
        ∀ slot, v.blockOf e.inode slot ≠ s.volume.blockOf e.inode slot →
          t.volume.blockOf e.inode slot = v.blockOf e.inode slot

/-- The condition on the state: more blocks are asked for than an inode can hold; or none is left,
and the next block belongs to a table whose number lies in the part of its parent that is loaded. -/
def NoneTaken (s : Inter) (e : FdtEntry) (length : Nat) : Prop :=
  let a := s.volume.addrPerBlock
  (a * a * a + a * a + a + 12) % 2 ^ 32 < s.blocksToUse e length ∨
    s.volume.Full ∧ (a ≤ 512 ∨ s.blocksUsed e ≤ 12 + a + 512 * a)

/-- The volume has the layout of the driver, the inode of the descriptor is one of its inodes, and
the tables of the inode in `std_inode`, which is the one that is written, are data blocks. -/
structure Consistent (s : Inter) (e : FdtEntry) : Prop where
  layout : s.volume.geometry.Layout
  inode : s.volume.HasInode e.inode
  tree : s.volume.TreeData (s.blocksUsed e)

/-- Nothing is taken under the condition. -/
lemma NoneTaken.blockFree {v : Volume} (h : NoneTaken s e length) (hf : WriteFails s f e length v)
    (hc : Consistent s e) (b : Nat) : v.BlockFree b ↔ s.volume.BlockFree b := by
  obtain ⟨alloc, hprep, _⟩ := hf.prepare
  have hshort := hf.short
  have h0 : e.inode ≠ 0 := Nat.ne_of_gt hc.inode.1
  unfold Volume.prepareBlocks at hprep
  dsimp only at hprep
  rw [if_neg (by omega)] at hprep
  by_cases hbound : (s.volume.addrPerBlock * s.volume.addrPerBlock * s.volume.addrPerBlock +
      s.volume.addrPerBlock * s.volume.addrPerBlock + s.volume.addrPerBlock + 12) % 2 ^ 32 <
        s.blocksToUse e length
  · rw [if_pos hbound] at hprep
    rw [(Prod.mk.inj (Option.some.inj hprep)).1]
  · obtain ⟨hfull, h512⟩ := h.resolve_left hbound
    rw [if_neg hbound] at hprep
    obtain ⟨r, hr, hv⟩ := Option.bind_eq_some_iff.mp hprep
    have hS := Volume.grow_full hfull hc.layout hc.inode hc.tree h512 r hr
    cases r with
    | error r =>
      cases hv
      exact hS.blockFree hc.layout b
    | ok r =>
      cases hv
      exact hS.blockFree hc.layout b

/-- The inode in `std_inode` is the one of the descriptor, with the size in the descriptor. The file
is within its direct blocks, which are not free, and so are those that are asked for; the free
blocks hold no data of the driver, and `allocate_block` returns them until it returns 0. -/
structure Direct (s : Inter) (e : FdtEntry) (length : Nat) : Prop where
  loaded : s.volume.InodeLoaded e.inode
  size : s.volume.diskSize e.inode = e.size
  slots : s.blocksToUse e length ≤ 12
  file : s.volume.DirectFile e.inode (s.blocksUsed e)
  taken : ∀ k, k < s.blocksUsed e → ¬ s.volume.BlockFree (s.volume.diskDbp e.inode k)
  free : ∀ b, s.volume.BlockFree b → s.volume.geometry.IsData b
  allocates : s.volume.AllocatesHonestly (s.blocksUsed e) (s.blocksToUse e length)

/-- Within the direct blocks, a block that has been allocated is lost. -/
lemma Direct.full {v : Volume} (D : Direct s e length) (hf : WriteFails s f e length v)
    (hc : Consistent s e) (h : LosesNothing s f e length v) : s.volume.Full := by
  obtain ⟨m, w, last, hA, hle, hz⟩ := D.allocates
  obtain ⟨alloc, hprep, hne⟩ := hf.prepare
  have hshort := hf.short
  have h12 := D.slots
  have h0 : e.inode ≠ 0 := Nat.ne_of_gt hc.inode.1
  have hlt : s.blocksUsed e + m ≠ s.blocksToUse e length := by
    intro heq
    have hm : m = s.blocksToUse e length - s.blocksUsed e := by omega
    rw [hm] at hA
    rw [Volume.prepareBlocks_allocates h0 hshort h12 hA] at hprep
    exact hne (Prod.mk.inj (Option.some.inj hprep)).2.symm
  obtain ⟨u, hu⟩ := hz hlt
  have G := hA.grown (.refl ..) hc.layout (le_refl _)
  have Lw : w.geometry.Layout := G.geometry.symm ▸ hc.layout
  obtain ⟨hfull, buf, hset⟩ := Volume.allocateBlock_zero Lw hu
  by_cases hm0 : m = 0
  · subst hm0
    cases hA
    exact hfull
  · -- the first of the new blocks is neither free nor freed
    have G' : s.volume.Grown u (s.blocksUsed e) (s.blocksUsed e + m) := by
      rw [hset]
      exact ⟨G.geometry, G.outside, G.stdInode, G.free, G.apart, G.taken⟩
    have P := G'.prepared (Nat.le_add_right ..) (by omega) D.file D.loaded D.free D.taken
    rw [Volume.prepareBlocks_runsOut h0 h12 hA (by omega) hu] at hprep
    rw [← (Prod.mk.inj (Option.some.inj hprep)).1] at h
    obtain ⟨hold, hnew⟩ := P.fresh (s.blocksUsed e) (le_refl _) (by omega)
    obtain hsame | ⟨⟨t, ht, hfreed⟩, _⟩ := h
    · exact absurd ((hsame _).mpr hold) hnew
    · have hblocks : (u.updateInode e.inode).sizeBlocks ((u.updateInode e.inode).diskSize e.inode) =
          s.blocksUsed e := by
        unfold Volume.sizeBlocks blocksUsed
        rw [P.size, D.size, Volume.blockSize_congr P.geometry]
      obtain ⟨t', ht', hkept⟩ := Volume.eraseFileData_taken P.file (by omega)
        (fun k hk e' => by
          have := P.file.apart _ _ (by omega) (by omega) e'
          omega) hnew
      rw [ht] at ht'
      exact absurd (hfreed _ hold) (Option.some.inj ht' ▸ hkept)

/-- **Failed writes.** For every `write` that gives up with -3: it loses nothing under the
condition, and for a file within its direct blocks only then. -/
theorem failed_write_keeps (s : Inter) (f : Nat) (e : FdtEntry) (length : Nat) (v : Volume)
    (hf : WriteFails s f e length v) (hc : Consistent s e) :
    (NoneTaken s e length → LosesNothing s f e length v) ∧
      (Direct s e length → (LosesNothing s f e length v ↔ NoneTaken s e length)) := by
  have hkeeps : NoneTaken s e length → LosesNothing s f e length v := fun h =>
    .inl fun b => h.blockFree hf hc b
  refine ⟨hkeeps, fun D => ⟨fun h => .inr ⟨D.full hf hc h, ?_⟩, hkeeps⟩⟩
  have := hf.short
  have := D.slots
  omega

/-! ### An empty file on a full disk -/

lemma fails_of_alloc {alloc used toUse : Nat} (hv : s.checkFd f = some (some e))
    (hw : e.mode &&& O_WRONLY ≠ 0) (hl : length ≠ 0) (hs : s.blocksUsed e = used)
    (hu : s.blocksToUse e length = toUse)
    (hp : (s.volume.prepareBlocks e.inode used toUse).map Prod.snd = some alloc)
    (hlt : used < toUse) (hne : alloc ≠ toUse - used) : ∃ v, WriteFails s f e length v := by
  subst hs hu
  obtain ⟨⟨v, alloc'⟩, hv', rfl⟩ := Option.map_eq_some_iff.mp hp
  exact ⟨v, hv, hw, hl, hlt, _, hv', hne⟩

/-- The descriptor of the empty file, on a disk without free blocks. -/
def fullFile : Inter :=
  emptyFile.withVolume
    (sampleVolume (fun n i => if n < 6 ∧ i = 0 then 2 ^ 32 - 1 else 0) (fun _ => 0) 0 0 65)

/-- What a write to it reads. -/
lemma fullFile_reads :
    fullFile.blocksUsed emptyEntry = 0 ∧ fullFile.blocksToUse emptyEntry 3 = 1 ∧
      (fullFile.volume.prepareBlocks 13 0 1).map Prod.snd = some 0 ∧
      fullFile.volume.spb.unallocBlockNum = 0 ∧ fullFile.volume.addrPerBlock ≤ 512 := by
  decide +kernel

lemma fullFile_consistent : Consistent fullFile emptyEntry where
  layout := (sampleVolume_geometry _ _ _ _ _).symm ▸ sampleGeometry_layout
  inode := by
    have hg : fullFile.volume.geometry = sampleGeometry := sampleVolume_geometry _ _ _ _ _
    unfold Volume.HasInode
    rw [hg, sampleGeometry_groups]
    decide
  tree := by
    rw [fullFile_reads.1]
    constructor <;> intros <;> omega

/-- Nothing is allocated there, so nothing is lost. -/
theorem failed_write_keeps_full :
    ∃ v, WriteFails fullFile 1 emptyEntry 3 v ∧ LosesNothing fullFile 1 emptyEntry 3 v := by
  obtain ⟨hused, huse, hp, hfull, haddr⟩ := fullFile_reads
  obtain ⟨v, hf⟩ := fails_of_alloc (s := fullFile) (f := 1) (e := emptyEntry) rfl (by decide)
    (by decide) hused huse hp (by decide) (by decide)
  exact ⟨v, hf, (failed_write_keeps fullFile 1 emptyEntry 3 v hf fullFile_consistent).1
    (.inr ⟨hfull, .inl haddr⟩)⟩

lemma emptyFile_used : emptyFile.blocksUsed emptyEntry = 0 := emptyFile_reads.2.2.2.2.1

lemma emptyFile_use : emptyFile.blocksToUse emptyEntry 2000 = 2 := emptyFile_reads.2.2.2.2.2.2

lemma emptyFile_consistent : Consistent emptyFile emptyEntry where
  layout := emptyFile_ready.file.layout
  inode := emptyFile_ready.file.inode
  tree := by
    rw [emptyFile_used]
    constructor <;> intros <;> omega

lemma emptyFile_direct : Direct emptyFile emptyEntry 2000 where
  loaded := emptyFile_ready.loaded
  size := emptyFile_ready.size
  slots := by
    rw [emptyFile_use]
    decide
  file := emptyFile_used ▸ emptyFile_ready.file
  taken k hk := by
    rw [emptyFile_used] at hk
    omega
  free := emptyFile_ready.free
  allocates := by
    obtain ⟨w, hw, hfull⟩ := emptyFile_allocateBlock
    rw [emptyFile_use, emptyFile_used]
    exact ⟨1, _, _, .next hw (by decide) emptyFile_reads.2.1 .done, by omega,
      fun _ => ⟨_, Volume.allocateBlock_full (v := w.setDbp 0 14) hfull⟩⟩

/-- Two blocks are asked for and one is left: it is allocated, and lost. -/
theorem failed_write_leaks : ∃ v, WriteFails emptyFile 1 emptyEntry 2000 v ∧
    Consistent emptyFile emptyEntry ∧ ¬ LosesNothing emptyFile 1 emptyEntry 2000 v := by
  have h : (emptyFile.volume.prepareBlocks 13 0 2).map Prod.snd = some 1 ∧
      emptyFile.volume.spb.unallocBlockNum ≠ 0 := by
    decide +kernel
  obtain ⟨hp, hfull⟩ := h
  obtain ⟨v, hf⟩ := fails_of_alloc (s := emptyFile) (f := 1) (e := emptyEntry) rfl (by decide)
    (by decide) emptyFile_used emptyFile_use hp (by decide) (by decide)
  exact ⟨v, hf, emptyFile_consistent, fun h =>
    hfull (emptyFile_direct.full hf emptyFile_consistent h)⟩

end Inter

end MarioBrOS.Fs
