import MarioBrOS.Fs.FullDisk
import MarioBrOS.Fs.Sample
import MarioBrOS.Fs.Transfer

/-!
# Writing to one file

`write` on a file that stays within the direct blocks. Its blocks are prepared first (`Prepared`);
then each round of the loop stores one piece of the buffer, as far as the block of the position
reaches, and the pieces add up to the whole range (`writeLoop_direct`); at last the size follows the
position. What the file holds afterwards is what it held, with the range replaced, and nothing else
on the disk has changed but what the allocator keeps there and the inode (`write_spec`).
-/

namespace MarioBrOS.Fs

namespace Volume

variable {v w u : Volume} {i n k x used toUse : Nat}

/-! ## Preparing the blocks -/

/-- What `prepare_blocks` leaves for the file `i`: its first `n` slots are filled, the first `used`
of them as before, and only the inode and the bytes of the allocator are written. -/
structure Prepared (v w : Volume) (i used n : Nat) : Prop where
  geometry : w.geometry = v.geometry
  file : w.DirectFile i n
  slots : ∀ k, k < used → k < 12 → w.diskDbp i k = v.diskDbp i k
  size : w.diskSize i = v.diskSize i
  outside : ∀ x, ¬ v.geometry.AllocByte x → (∀ y, y < 128 → x ≠ v.inodeByte i + y) →
    w.disk x = v.disk x
  fresh : ∀ k, used ≤ k → k < n → v.BlockFree (w.diskDbp i k) ∧ ¬ w.BlockFree (w.diskDbp i k)

lemma InodeLoaded.get32 (h : v.InodeLoaded i) {j : Nat} (hj : j + 4 ≤ 128) :
    v.disk.get32 (v.inodeByte i + j) = v.stdInode.get32 j := by
  unfold Bytes.get32
  rw [h j (by omega), h (j + 1) (by omega), h (j + 2) (by omega), h (j + 3) (by omega)]
  rfl

/-- After `update_inode`, the slots on the disk are those of `std_inode`. -/
lemma updateInode_dbp (L : v.geometry.Layout) (hi : v.HasInode i) (hk : k < 12) :
    (v.updateInode i).diskDbp i k = v.dbp k := by
  obtain ⟨hg, _, _, hd⟩ := updateInode_spec L hi
  unfold diskDbp
  rw [inodeByte_congr hg, hd, Bytes.get32_blit_of_inside (by omega), Nat.zero_add]
  rfl

/-- The blocks that are free once the inode is written. -/
lemma Grown.updateInode_free {c : Nat} (G : Grown v w used n) (L : v.geometry.Layout)
    (hi : v.HasInode i) (h12 : n ≤ 12) : (w.updateInode i).BlockFree c ↔
      v.BlockFree c ∧ ∀ k, used ≤ k → k < n → (w.updateInode i).diskDbp i k ≠ c := by
  have Lw : w.geometry.Layout := G.geometry.symm ▸ L
  have hiw := hi.congr G.geometry
  rw [Spoiled.blockFree (.updateInode (.refl w) Lw hiw) Lw, G.taken]
  refine and_congr_right fun _ => forall_congr' fun k => forall_congr' fun h1 =>
    forall_congr' fun h2 => ?_
  rw [updateInode_dbp Lw hiw (by omega)]

/-- The file after its missing slots have been filled with free blocks. -/
lemma Grown.prepared (G : Grown v w used n) (hn : used ≤ n) (h12 : n ≤ 12)
    (hf : v.DirectFile i used) (hl : v.InodeLoaded i)
    (hfree : ∀ b, v.BlockFree b → v.geometry.IsData b)
    (htaken : ∀ k, k < used → ¬ v.BlockFree (v.diskDbp i k)) :
    Prepared v (w.updateInode i) i used n := by
  have Lw : w.geometry.Layout := G.geometry.symm ▸ hf.layout
  have S := Spoiled.updateInode (.refl w) Lw (hf.inode.congr G.geometry)
  obtain ⟨hg, _, _, hd⟩ := updateInode_spec Lw (hf.inode.congr G.geometry)
  have hdbp : ∀ k, k < 12 → (w.updateInode i).diskDbp i k = w.dbp k := fun k hk =>
    updateInode_dbp Lw (hf.inode.congr G.geometry) hk
  rw [inodeByte_congr G.geometry] at hd
  generalize w.updateInode i = u at S hg hd hdbp
  rw [G.geometry] at hg
  have hb := inodeByte_congr (i := i) hg
  -- the inode was loaded, so the slots in use are those on the disk
  have hold : ∀ k, k < used → u.diskDbp i k = v.diskDbp i k := by
    intro k hk
    rw [hdbp k (by omega)]
    unfold diskDbp
    rw [hl.get32 (by omega)]
    exact Bytes.get32_congr fun x h1 h2 => G.stdInode x (by omega)
  have hnew : ∀ k, used ≤ k → k < n → v.BlockFree (u.diskDbp i k) := by
    intro k h1 h2
    rw [hdbp k (by omega)]
    exact G.free k h1 h2
  refine ⟨hg, ⟨hg.symm ▸ hf.layout, hf.inode.congr hg, h12, fun k hk => ?_, fun k j hk hj e => ?_⟩,
    fun k hk _ => hold k hk, ?_, fun x hx hi => ?_, fun k h1 h2 => ⟨hnew k h1 h2, fun h => ?_⟩⟩
  · rw [hg]
    by_cases h : k < used
    · rw [hold k h]
      exact hf.data k h
    · exact hfree _ (hnew k (by omega) hk)
  · by_cases h : k < used
    · by_cases h' : j < used
      · rw [hold k h, hold j h'] at e
        exact hf.apart k j h h' e
      · rw [hold k h] at e
        exact absurd (e ▸ hnew j (by omega) hj) (htaken k h)
    · by_cases h' : j < used
      · rw [hold j h'] at e
        exact absurd (e ▸ hnew k (by omega) hk) (htaken j h')
      · rw [hdbp k (by omega), hdbp j (by omega)] at e
        exact G.apart k j (by omega) hk (by omega) hj e
  · unfold diskSize
    rw [hb, hd, Bytes.get32_blit_of_inside (by omega), hl.get32 (by omega), Nat.zero_add]
    exact Bytes.get32_congr fun x h1 h2 => G.stdInode x (by omega)
  · rw [hd, Bytes.blit_apply_of_outside, G.outside x hx]
    have := hi (x - v.inodeByte i)
    omega
  · have hw := (S.blockFree Lw _).mp h
    rw [hdbp k (by omega)] at hw
    exact ((G.taken _).mp hw).2 k h1 h2 rfl

/-- The file when nothing is to be prepared. -/
lemma DirectFile.prepared (hf : v.DirectFile i n) (hn : n ≤ used) : Prepared v v i used n where
  geometry := rfl
  file := hf
  slots _ _ _ := rfl
  size := rfl
  outside _ _ _ := rfl
  fresh _ h1 h2 := by omega

/-- The old bytes of the file are where they were. -/
lemma Prepared.fileByte (h : Prepared v w i used n) (hf : v.DirectFile i (min used 12))
    (hx : x < used * v.blockSize) (h12 : x < 12 * v.blockSize) :
    w.fileAddr i x = v.fileAddr i x ∧ w.disk (v.fileAddr i x) = v.disk (v.fileAddr i x) := by
  have hk := slot_lt hx
  have hk' := slot_lt h12
  have hmin : x / v.blockSize < min used 12 := by omega
  have hin := inBlock_fileAddr (v := v) (i := i) (x := x)
  refine ⟨?_, h.outside _ (not_allocByte (hf.data _ hmin) hin) fun y hy => ?_⟩
  · unfold fileAddr
    rw [blockSize_congr h.geometry, h.geometry, h.slots _ hk hk']
  · have hap := data_apart hf.layout (hf.data _ hmin) hf.inode
    unfold Geometry.InBlock at hin
    rw [geometry_bytes] at hin
    omega

end Volume

namespace Inter

variable {s : Inter} {e : FdtEntry} {f i length n offset pos rounds written m x : Nat}

/-! ## The rounds -/

/-- The loop of `write` stores the `m` bytes that are left. -/
lemma writeLoop_direct {v : Volume} (buffer : Bytes) (h : v.DirectFile (s.fdt i).inode n)
    (hw : written + m = length) (hl : length < 2 ^ 32) (hx : pos + m ≤ n * v.blockSize)
    (ho : offset + m ≤ 2 ^ 32) (hr : m < rounds) :
    ∃ w, writeLoop buffer i length rounds (s.during i v pos) offset written =
        some (s.during i w (pos + m), length) ∧
      Volume.SameInode v w (s.fdt i).inode ∧
      (v.InodeLoaded (s.fdt i).inode ∨ 0 < m → w.InodeLoaded (s.fdt i).inode) ∧
      Bytes.Scattered (v.fileAddr (s.fdt i).inode) v.disk w.disk pos m buffer offset := by
  have hsmall : n * v.blockSize ≤ 12 * 2 ^ 17 :=
    Nat.mul_le_mul h.slots (Volume.blockSize_le h.layout.supported)
  have h12 := Nat.mul_le_mul_right v.blockSize h.slots
  induction rounds generalizing v offset pos written m with
  | zero => omega
  | succ rounds ih =>
    rw [writeLoop]
    by_cases h0 : m = 0
    · have hdone : written = length := by omega
      rw [if_pos hdone, hdone, h0]
      exact ⟨v, rfl, ⟨rfl, fun _ _ => rfl⟩, fun h => h.resolve_right (by omega), .refl⟩
    · rw [if_neg (by omega), during_fdt]
      dsimp only
      obtain ⟨w, hwrite, hsame, hload, hscat⟩ := h.write (x := pos) (by omega) buffer offset m
      rw [sub32_of_le (by omega) hl, ← hw, Nat.add_sub_cancel_left]
      have hmod := Nat.mod_lt pos v.blockSize_pos
      generalize hd : min m (v.blockSize - pos % v.blockSize) = d at hwrite hscat
      have hbs := Volume.blockSize_congr hsame.geometry
      -- the offset only wraps when nothing is left to write
      have hoffset : add32 offset d + (m - d) ≤ 2 ^ 32 := by
        unfold add32
        omega
      have hfit : pos + d + (m - d) ≤ n * w.blockSize := by
        rw [hbs]
        omega
      obtain ⟨u, hloop, hsame', hload', hscat'⟩ := ih (h.same hsame)
        (by omega : written + d + (m - d) = length) hfit hoffset
        (by omega) (by rw [hbs]; exact hsmall)
        (by rw [hbs]; exact h12)
      rw [show (s.during i v pos).volume = v from rfl, hwrite, Option.bind_eq_bind,
        Option.bind_some]
      dsimp only
      have hpos : (((s.during i v pos).withVolume w).fdt i).pos = pos :=
        congrArg FdtEntry.pos during_fdt
      have hp : add32 pos d = pos + d := add32_of_lt (by omega)
      have hd' : add32 written d = written + d := add32_of_lt (by omega)
      rw [if_neg (by omega), hpos, during_during, hp, hd', hw]
      refine ⟨u, ?_, hsame.trans hsame', fun _ => hload' (.inl hload), ?_⟩
      · have hend : pos + d + (m - d) = pos + m := by omega
        rwa [hend] at hloop
      · have hback : Bytes.Scattered (v.fileAddr (s.fdt i).inode) w.disk u.disk (pos + d) (m - d)
            buffer (offset + d) := by
          have hsc : Bytes.Scattered (v.fileAddr (s.fdt i).inode) w.disk u.disk (pos + d) (m - d)
              buffer (add32 offset d) := hscat'.congr fun x hx' => hsame.addr (by omega)
          by_cases hm : m - d = 0
          · rw [hm] at hsc ⊢
            exact ⟨fun x hx => absurd hx (Nat.not_lt_zero x), hsc.outside⟩
          · rwa [add32_of_lt (by omega)] at hsc
        have hm : m = d + (m - d) := by omega
        rw [hm]
        exact hscat.trans hback h.addr_apart (by omega)

/-! ## The size -/

/-- What the end of `write` changes of the volume. -/
structure Extended (v w : Volume) (i size : Nat) : Prop where
  geometry : w.geometry = v.geometry
  size_eq : w.diskSize i = size
  slots : ∀ k, k < 12 → w.diskDbp i k = v.diskDbp i k
  outside : ∀ x, (∀ y, y < 128 → x ≠ v.inodeByte i + y) → w.disk x = v.disk x

/-- The inode of the file gets its new size. -/
lemma extended_updateInode {v : Volume} {size : Nat} (L : v.geometry.Layout) (hi : v.HasInode i)
    (hl : v.InodeLoaded i) (hs : size < 2 ^ 32) :
    Extended v ((v.setSizeLow size).updateInode i) i size := by
  have hg : (v.setSizeLow size).geometry = v.geometry := Volume.geometry_congr rfl rfl
  obtain ⟨h1, _, _, h3⟩ := Volume.updateInode_spec (v := v.setSizeLow size) (hg.symm ▸ L) (hi.congr hg)
  generalize (v.setSizeLow size).updateInode i = w at h1 h3
  have hb := Volume.inodeByte_congr (i := i) (h1.trans hg)
  rw [Volume.inodeByte_congr hg] at h3
  have hd : w.disk = v.disk.blit (v.inodeByte i) (v.stdInode.set32 4 size) 0 128 := h3
  refine ⟨h1.trans hg, ?_, fun k hk => ?_, fun x hx => ?_⟩
  · unfold Volume.diskSize
    rw [hb, hd, Bytes.get32_blit_of_inside (by omega), Nat.zero_add]
    exact Bytes.get32_set32 hs
  · unfold Volume.diskDbp
    rw [hb, hd, Bytes.get32_blit_of_inside (by omega), Nat.zero_add,
      Bytes.get32_set32_of_disjoint (by omega)]
    exact (hl.get32 (by omega)).symm
  · rw [hd]
    have := hx (x - v.inodeByte i)
    exact Bytes.blit_apply_of_outside (by omega)

/-- The end of `write`, at position `pos` of the file. -/
lemma extend_during {v : Volume} (he : s.fdt i = e) (L : v.geometry.Layout)
    (hi : v.HasInode e.inode) (hl : v.InodeLoaded e.inode) (hp : pos < 2 ^ 32) :
    ((s.during i v pos).extend i).fdt i = { e with size := max e.size pos, pos := pos } ∧
      ((s.during i v pos).extend i).volume.InodeLoaded e.inode ∧
      Extended v ((s.during i v pos).extend i).volume e.inode
        (if e.size < pos then pos else v.diskSize e.inode) := by
  unfold extend
  dsimp only
  rw [during_fdt, he]
  dsimp only
  by_cases hlt : e.size < pos
  · rw [if_pos hlt, if_pos hlt, Nat.max_eq_right hlt.le]
    refine ⟨Function.update_self .., ?_, extended_updateInode L hi hl hp⟩
    have hg : (v.setSizeLow pos).geometry = v.geometry := Volume.geometry_congr rfl rfl
    exact Volume.inodeLoaded_updateInode (hg.symm ▸ L) (hi.congr hg)
  · rw [if_neg hlt, if_neg hlt, Nat.max_eq_left (Nat.not_lt.mp hlt), during_fdt, he]
    exact ⟨rfl, hl, rfl, rfl, fun _ _ => rfl, fun _ _ => rfl⟩

/-! ## The whole write -/

/-- Byte `x` of the disk lies in a direct block of the file `i`, which has `size` bytes. -/
def OwnByte (v : Volume) (i size x : Nat) : Prop :=
  ∃ k, k < 12 ∧ k * v.blockSize < size ∧ v.geometry.InBlock (v.diskDbp i k) x

/-- A descriptor with the entry `e`, open for writing and not behind the end of its file. Its inode
is the one in `std_inode`, and has the size and the blocks of the file, which are not free. The free
blocks hold no data of the driver, and `allocate_block` returns one of them at each call. -/
structure WriteReady (s : Inter) (f : Nat) (e : FdtEntry) (length : Nat) : Prop where
  valid : s.checkFd f = some (some e)
  writable : e.mode &&& O_WRONLY ≠ 0
  pos_le : e.pos ≤ e.size
  loaded : s.volume.InodeLoaded e.inode
  size : s.volume.diskSize e.inode = e.size
  file : s.volume.DirectFile e.inode (min (s.blocksUsed e) 12)
  taken : ∀ k, k < min (s.blocksUsed e) 12 → ¬ s.volume.BlockFree (s.volume.diskDbp e.inode k)
  free : ∀ b, s.volume.BlockFree b → s.volume.geometry.IsData b
  allocates : ∃ w last, Volume.Allocates (s.blocksToUse e length - s.blocksUsed e) s.volume 1
    (s.blocksUsed e) w last

/-- What is said of `write`: it returns the length; the file holds its old bytes with the range
replaced; the size and the position follow; and nothing else changes on the disk but the inode and
what the allocator writes. -/
def WritesRange (s : Inter) (f : Nat) (e : FdtEntry) (buffer : Bytes) (offset length : Nat) : Prop :=
  ∃ t, s.write f buffer offset length = some (t, length) ∧
    (∀ x, x < max e.size (e.pos + length) → x < 12 * s.volume.blockSize →
      t.volume.fileByte e.inode x =
        if e.pos ≤ x ∧ x < e.pos + length then buffer (offset + (x - e.pos))
        else s.volume.fileByte e.inode x) ∧
    t.fdt (s.deref f) = { e with size := max e.size (e.pos + length), pos := e.pos + length } ∧
    t.volume.diskSize e.inode = max e.size (e.pos + length) ∧
    t.volume.geometry = s.volume.geometry ∧
    ∀ x, ¬ s.volume.geometry.AllocByte x → (∀ y, y < 128 → x ≠ s.volume.inodeByte e.inode + y) →
      ¬ OwnByte t.volume e.inode (max e.size (e.pos + length)) x → t.volume.disk x = s.volume.disk x

/-- The blocks that a write within the direct blocks needs. -/
lemma blocksToUse_spec (L : s.volume.geometry.Layout) (hl : 1 ≤ length)
    (hm : e.pos + length ≤ 12 * s.volume.blockSize) :
    s.blocksToUse e length = 1 + (e.pos + length - 1) / s.volume.blockSize ∧
      s.blocksToUse e length ≤ 12 ∧
      e.pos + length ≤ s.blocksToUse e length * s.volume.blockSize := by
  have hbs : s.volume.blockSize ≤ 2 ^ 17 := Volume.blockSize_le L.supported
  have hp := s.volume.blockSize_pos
  have huse : s.blocksToUse e length = 1 + (e.pos + length - 1) / s.volume.blockSize := by
    unfold blocksToUse
    rw [add32_of_lt (by omega), sub32_of_le (by omega) (by omega)]
  have hlt : (e.pos + length - 1) / s.volume.blockSize < 12 :=
    (Nat.div_lt_iff_lt_mul hp).mpr (by omega)
  have hmul := Nat.lt_mul_div_succ (e.pos + length - 1) hp
  refine ⟨huse, by omega, ?_⟩
  rw [huse, Nat.mul_comm, Nat.add_comm 1]
  omega

/-- The bytes of a file lie in the blocks it has. -/
lemma lt_blocksUsed (hx : x < e.size) : x < s.blocksUsed e * s.volume.blockSize := by
  have hp := s.volume.blockSize_pos
  have hmul := Nat.lt_mul_div_succ (e.size - 1) hp
  unfold blocksUsed
  rw [if_pos (by omega), Nat.mul_comm, Nat.add_comm 1]
  omega

/-- A descriptor with the entry `e`, open for writing, whose file has `n` direct blocks, which are
not free. The write needs no more blocks than these, for the descriptor as well; or the inode is the
one in `std_inode`, the descriptor knows of all the blocks, and `allocate_block` returns free ones.
-/
structure Writable (s : Inter) (f : Nat) (e : FdtEntry) (length n : Nat) : Prop where
  valid : s.checkFd f = some (some e)
  writable : e.mode &&& O_WRONLY ≠ 0
  file : s.volume.DirectFile e.inode n
  taken : ∀ k, k < n → ¬ s.volume.BlockFree (s.volume.diskDbp e.inode k)
  free : ∀ b, s.volume.BlockFree b → s.volume.geometry.IsData b
  ready : s.blocksToUse e length ≤ s.blocksUsed e ∧ s.blocksToUse e length ≤ n ∨
    s.blocksUsed e = n ∧ s.volume.InodeLoaded e.inode ∧
      ∃ w last, Volume.Allocates (s.blocksToUse e length - n) s.volume 1 n w last

/-- What `write` does to the file behind the entry `e`, which had `n` blocks and has `n'` now, and
that it does nothing else. -/
structure Written (s t : Inter) (f : Nat) (e : FdtEntry) (buffer : Bytes) (offset length n n' : Nat) :
    Prop where
  entry : t.fdt (s.deref f) = { e with size := max e.size (e.pos + length), pos := e.pos + length }
  geometry : t.volume.geometry = s.volume.geometry
  file : t.volume.DirectFile e.inode n'
  loaded : t.volume.InodeLoaded e.inode
  size : t.volume.diskSize e.inode =
    if e.size < e.pos + length then e.pos + length else s.volume.diskSize e.inode
  slots : ∀ k, k < n → t.volume.diskDbp e.inode k = s.volume.diskDbp e.inode k
  fresh : ∀ k, n ≤ k → k < n' → s.volume.BlockFree (t.volume.diskDbp e.inode k)
  taken : ∀ c, t.volume.BlockFree c ↔
    s.volume.BlockFree c ∧ ∀ k, n ≤ k → k < n' → t.volume.diskDbp e.inode k ≠ c
  stored : ∀ x, e.pos ≤ x → x < e.pos + length →
    t.volume.fileByte e.inode x = buffer (offset + (x - e.pos))
  kept : ∀ x, x < n * s.volume.blockSize → x < e.pos ∨ e.pos + length ≤ x →
    t.volume.fileByte e.inode x = s.volume.fileByte e.inode x
  outside : ∀ x, ¬ s.volume.geometry.AllocByte x →
    (∀ y, y < 128 → x ≠ s.volume.inodeByte e.inode + y) →
    (∀ k, k < n' → ¬ s.volume.geometry.InBlock (t.volume.diskDbp e.inode k) x) →
    t.volume.disk x = s.volume.disk x

/-- The blocks of the file are there before the first round. -/
lemma Writable.prepare (h : Writable s f e length n) (hl : 1 ≤ length)
    (hm : e.pos + length ≤ 12 * s.volume.blockSize) :
    ∃ v alloc, s.volume.prepareBlocks e.inode (s.blocksUsed e) (s.blocksToUse e length) =
        some (v, alloc) ∧
      ¬ (s.blocksUsed e < s.blocksToUse e length ∧
        alloc ≠ s.blocksToUse e length - s.blocksUsed e) ∧
      Volume.Prepared s.volume v e.inode n (max n (s.blocksToUse e length)) ∧
      ∀ c, v.BlockFree c ↔ s.volume.BlockFree c ∧ ∀ k, n ≤ k →
        k < max n (s.blocksToUse e length) → v.diskDbp e.inode k ≠ c := by
  obtain ⟨_, h12, _⟩ := blocksToUse_spec h.file.layout hl hm
  have h0 : e.inode ≠ 0 := Nat.ne_of_gt h.file.inode.1
  by_cases hlt : s.blocksUsed e < s.blocksToUse e length
  · obtain ⟨rfl, hload, w, last, hA⟩ := h.ready.resolve_left fun h => by omega
    have hprep := Volume.prepareBlocks_allocates h0 hlt h12 hA
    have G := hA.grown (Volume.Grown.refl ..) h.file.layout (le_refl _)
    rw [Nat.add_sub_cancel' hlt.le] at G
    rw [Nat.max_eq_right hlt.le]
    refine ⟨_, _, hprep, fun h => h.2 rfl, G.prepared hlt.le h12 h.file hload h.free h.taken, ?_⟩
    exact fun c => G.updateInode_free h.file.layout h.file.inode h12
  · have hn : s.blocksToUse e length ≤ n := by
      rcases h.ready with h | h
      · exact h.2
      · omega
    rw [Nat.max_eq_left hn]
    refine ⟨s.volume, 0, ?_, fun h => hlt h.1, h.file.prepared (le_refl _), fun c => ?_⟩
    · unfold Volume.prepareBlocks
      dsimp only
      rw [if_pos (.inr (Nat.not_lt.mp hlt))]
    · exact ⟨fun h => ⟨h, fun k h1 h2 => absurd h1 (Nat.not_le.mpr h2)⟩, fun h => h.1⟩

/-- `write` on such a descriptor. -/
lemma Writable.write (h : Writable s f e length n) (buffer : Bytes) (hl : 1 ≤ length)
    (hm : e.pos + length ≤ 12 * s.volume.blockSize) (ho : offset + length ≤ 2 ^ 32) :
    ∃ t, s.write f buffer offset length = some (t, length) ∧
      Written s t f e buffer offset length n (max n (s.blocksToUse e length)) := by
  obtain ⟨huse, h12, hend⟩ := blocksToUse_spec h.file.layout hl hm
  obtain ⟨v, alloc, hprep, halloc, P, hfree⟩ := h.prepare hl hm
  have he := checkFd_entry h.valid
  have hbs : s.volume.blockSize ≤ 2 ^ 17 := Volume.blockSize_le h.file.layout.supported
  have hvbs := Volume.blockSize_congr P.geometry
  have hn : n ≤ max n (s.blocksToUse e length) := Nat.le_max_left ..
  have hfit : e.pos + length ≤ max n (s.blocksToUse e length) * v.blockSize := by
    rw [hvbs]
    exact hend.trans (Nat.mul_le_mul_right _ (Nat.le_max_right ..))
  generalize max n (s.blocksToUse e length) = n' at P hfit hfree hn
  have hfile : v.DirectFile (s.fdt (s.deref f)).inode n' := he.symm ▸ P.file
  obtain ⟨w, hloop, hsame, hloaded, hscat⟩ := writeLoop_direct buffer hfile
    (Nat.zero_add length) (by omega) hfit ho (Nat.lt_succ_self _)
  rw [he] at hsame hloaded hscat
  have Lw : w.geometry.Layout := hsame.geometry.symm ▸ P.file.layout
  have Hw : w.HasInode e.inode := P.file.inode.congr hsame.geometry
  have hpos : e.pos + length < 2 ^ 32 := by omega
  obtain ⟨hentry, hload, X⟩ := extend_during he Lw Hw (hloaded (.inr hl)) hpos
  generalize ht : (s.during (s.deref f) w (e.pos + length)).extend (s.deref f) = t
    at hentry hload X
  have hgeo : t.volume.geometry = v.geometry := X.geometry.trans hsame.geometry
  have hslot : ∀ k, k < 12 → t.volume.diskDbp e.inode k = v.diskDbp e.inode k := fun k hk =>
    (X.slots k hk).trans (hsame.dbp hk)
  have hn12 := P.file.slots
  -- only the inode and the blocks of the file are written
  have hout : ∀ x, (∀ y, y < 128 → x ≠ v.inodeByte e.inode + y) →
      (∀ k, k < n' → ¬ v.geometry.InBlock (v.diskDbp e.inode k) x) → t.volume.disk x = v.disk x := by
    intro x h1 h2
    rw [X.outside x (by rwa [Volume.inodeByte_congr hsame.geometry]), hscat.outside]
    intro k hk e'
    exact h2 _ (Volume.slot_lt (by omega)) (e' ▸ Volume.inBlock_fileAddr)
  -- the blocks of the file are apart, so that each byte is read where it was written
  have hbyte : ∀ x, x < n' * v.blockSize → t.volume.fileByte e.inode x =
      if e.pos ≤ x ∧ x < e.pos + length then buffer (offset + (x - e.pos))
      else v.fileByte e.inode x := by
    intro x hx
    have haddr : t.volume.fileAddr e.inode x = v.fileAddr e.inode x := by
      unfold Volume.fileAddr
      rw [Volume.blockSize_congr hgeo, hgeo, hslot _ ((Volume.slot_lt hx).trans_le hn12)]
    unfold Volume.fileByte
    rw [haddr, X.outside _ fun y hy e' => ?_, hscat.read P.file.addr_apart hfit hx]
    rw [Volume.inodeByte_congr hsame.geometry] at e'
    exact P.file.addr_inode hx P.file.inode hy e'.symm
  refine ⟨t, ?_, hentry, hgeo.trans P.geometry, ?_, hload, ?_, fun k hk => ?_, fun k h1 h2 => ?_,
    fun c => ?_, fun x h1 h2 => ?_, fun x hx hr => ?_, fun x h1 h2 h3 => ?_⟩
  · unfold Inter.write
    rw [h.valid, Option.bind_eq_bind, Option.bind_some]
    dsimp only
    rw [if_neg h.writable, if_neg (by omega), hprep, Option.bind_eq_bind, Option.bind_some]
    dsimp only
    rw [if_neg halloc]
    have hstart : s.during (s.deref f) v e.pos = s.withVolume v := by
      rw [← he]
      exact during_pos
    rw [hstart] at hloop
    rw [show (s.withVolume v).deref f = s.deref f from rfl, hloop, Option.bind_eq_bind,
      Option.bind_some, ← ht]
    rfl
  · refine ⟨hgeo.symm ▸ P.file.layout, P.file.inode.congr hgeo, hn12, fun k hk => ?_,
      fun k j hk hj e' => ?_⟩
    · rw [hslot k (by omega), hgeo]
      exact P.file.data k hk
    · rw [hslot k (by omega), hslot j (by omega)] at e'
      exact P.file.apart k j hk hj e'
  · rw [X.size_eq, hsame.size, P.size]
  · rw [hslot k (by omega), P.slots k hk (by omega)]
  · rw [hslot k (by omega)]
    exact (P.fresh k h1 h2).1
  · -- the bitmaps are not touched
    have S : Volume.Spoiled v t.volume := by
      refine ⟨hgeo, fun k x hk hx => hout x (Volume.bitmap_ne_inode P.file.layout P.file.inode hk hx)
        fun j hj hin => ?_⟩
      exact Volume.not_allocByte (P.file.data j hj) hin (.inl ⟨k, hk, hx⟩)
    rw [S.blockFree P.file.layout c, hfree c]
    refine and_congr_right fun _ => forall_congr' fun k => forall_congr' fun h1 =>
      forall_congr' fun h2 => ?_
    rw [hslot k (by omega)]
  · rw [hbyte x (by omega), if_pos ⟨h1, h2⟩]
  · have hmul := Nat.mul_le_mul_right s.volume.blockSize hn
    have h12' := Nat.mul_le_mul_right s.volume.blockSize h.file.slots
    have hmin : s.volume.DirectFile e.inode (min n 12) := by
      rw [Nat.min_eq_left h.file.slots]
      exact h.file
    have hold := P.fileByte hmin hx (by omega)
    rw [hbyte x (by rw [hvbs]; omega), if_neg (by omega)]
    unfold Volume.fileByte
    rw [hold.1, hold.2]
  · rw [hout x (by rwa [Volume.inodeByte_congr P.geometry]) fun k hk => ?_, P.outside x h1 h2]
    rw [← hslot k (by omega), P.geometry]
    exact h3 k hk

/-- **Single-file write.** For every descriptor and length whose range stays within the direct
blocks, `write` does what is said of it. -/
theorem write_spec (s : Inter) (f : Nat) (e : FdtEntry) (buffer : Bytes) (offset length : Nat)
    (h : WriteReady s f e length) (hl : 1 ≤ length)
    (hm : e.pos + length ≤ 12 * s.volume.blockSize) (ho : offset + length ≤ 2 ^ 32) :
    WritesRange s f e buffer offset length := by
  obtain ⟨huse, h12, hend⟩ := blocksToUse_spec h.file.layout hl hm
  have hready : Writable s f e length (min (s.blocksUsed e) 12) := by
    refine ⟨h.valid, h.writable, h.file, h.taken, h.free, ?_⟩
    by_cases hlt : s.blocksUsed e < s.blocksToUse e length
    · have hmin : min (s.blocksUsed e) 12 = s.blocksUsed e := by omega
      rw [hmin]
      exact .inr ⟨rfl, h.loaded, h.allocates⟩
    · exact .inl ⟨by omega, by omega⟩
  obtain ⟨t, hw, W⟩ := hready.write buffer hl hm ho
  have hp := h.pos_le
  have hbs := s.volume.blockSize_pos
  refine ⟨t, hw, fun x hx hx12 => ?_, W.entry, ?_, W.geometry, fun x h1 h2 h3 => ?_⟩
  · by_cases hin : e.pos ≤ x ∧ x < e.pos + length
    · rw [if_pos hin]
      exact W.stored x hin.1 hin.2
    · rw [if_neg hin]
      refine W.kept x ?_ (by omega)
      have h1 := lt_blocksUsed (s := s) (e := e) (x := x) (by omega)
      rw [← Nat.mul_min_mul_right]
      omega
  · rw [W.size, h.size]
    split <;> omega
  · refine W.outside x h1 h2 fun k hk hin => h3 ⟨k, by omega, ?_, ?_⟩
    · rw [Volume.blockSize_congr W.geometry]
      rcases Nat.lt_or_ge k (s.blocksToUse e length) with hk' | hk'
      · have hd := Nat.div_mul_le_self (e.pos + length - 1) s.volume.blockSize
        have hle := Nat.mul_le_mul_right s.volume.blockSize
          (show k ≤ (e.pos + length - 1) / s.volume.blockSize by omega)
        omega
      · have hk : k < s.blocksUsed e := by omega
        unfold blocksUsed at hk
        split at hk
        · have hd := Nat.div_mul_le_self (e.size - 1) s.volume.blockSize
          have hle := Nat.mul_le_mul_right s.volume.blockSize
            (show k ≤ (e.size - 1) / s.volume.blockSize by omega)
          omega
        · omega
    · rw [W.geometry]
      exact hin

/-! ### An empty file -/

/-- The words of a volume on which the blocks of `free` are the only free ones, as the bits of the
first bitmap, and no inode is used. -/
def emptyWord (free n i : Nat) : Nat :=
  if n = 2 ∧ i = 0 then 2 ^ 32 - 1 - free else if n < 6 ∧ i = 0 then 2 ^ 32 - 1 else 0

/-- The entry of a descriptor for inode 13, an empty file. -/
def emptyEntry : FdtEntry := ⟨13, 0, 0, O_RDWR, 1⟩

/-- That descriptor on that volume, which has `count` free blocks. -/
def emptyOn (free count : Nat) : Inter where
  volume := sampleVolume (emptyWord free) (fun k => count * (1 - k)) count 0 65
  fdt _ := emptyEntry
  fdtSize := 256
  fdtNum := 1
  deref _ := 0

lemma emptyOn_geometry (free count : Nat) : (emptyOn free count).volume.geometry = sampleGeometry :=
  sampleVolume_geometry _ _ _ _ _

/-- The file is ready to be written. -/
lemma emptyOn_ready {free count length : Nat} (hi : (emptyOn free count).volume.InodeLoaded 13)
    (h0 : (emptyOn free count).volume.diskSize 13 = 0)
    (hfree : ∀ b, (emptyOn free count).volume.BlockFree b → 14 ≤ b ∧ b < 64)
    (hA : ∃ w last, Volume.Allocates ((emptyOn free count).blocksToUse emptyEntry length)
      (emptyOn free count).volume 1 0 w last) :
    WriteReady (emptyOn free count) 1 emptyEntry length where
  valid := rfl
  writable := by decide
  pos_le := le_refl _
  loaded := hi
  size := h0
  file :=
    { layout := by rw [emptyOn_geometry]; exact sampleGeometry_layout
      inode := by
        unfold Volume.HasInode
        rw [emptyOn_geometry, sampleGeometry_groups]
        exact ⟨by decide, show 13 ≤ 2 * 32 by decide⟩
      slots := Nat.min_le_right ..
      data := fun _ hk => absurd (hk.trans_le (Nat.min_le_left ..)) (Nat.not_lt_zero _)
      apart := fun _ _ hk => absurd (hk.trans_le (Nat.min_le_left ..)) (Nat.not_lt_zero _) }
  taken _ hk := absurd (hk.trans_le (Nat.min_le_left ..)) (Nat.not_lt_zero _)
  free b hb := by
    rw [emptyOn_geometry]
    exact sampleGeometry_isData (hfree b hb).1 (hfree b hb).2
  allocates := hA

/-- With one free block. -/
def emptyFile : Inter := emptyOn (2 ^ 14) 1

/-- What a write to it reads. -/
lemma emptyFile_reads :
    (∀ b, b < 64 → emptyFile.volume.bitmapBit (.blockBitmap (b / 32)) (b % 32) = false →
        b = 14) ∧
      emptyFile.volume.BlockFree 14 ∧ emptyFile.volume.InodeLoaded 13 ∧
      emptyFile.volume.diskSize 13 = 0 ∧ emptyFile.blocksUsed emptyEntry = 0 ∧
      emptyFile.blocksToUse emptyEntry 3 = 1 ∧ emptyFile.blocksToUse emptyEntry 2000 = 2 := by
  decide +kernel

/-- Its one free block is allocated. -/
lemma emptyFile_allocateBlock : ∃ w, emptyFile.volume.allocateBlock 1 = some (w, 14) ∧
    w.spb.unallocBlockNum = 0 := by
  have h : (emptyFile.volume.allocateBlock 1).map (fun r => (r.2, r.1.spb.unallocBlockNum)) =
      some (14, 0) := by
    decide +kernel
  obtain ⟨⟨w, b⟩, hw, hb⟩ := Option.map_eq_some_iff.mp h
  obtain ⟨hb, hfull⟩ := Prod.mk.inj hb
  have hb : b = 14 := hb
  rw [hb] at hw
  exact ⟨w, hw, hfull⟩

lemma emptyFile_ready : WriteReady emptyFile 1 emptyEntry 3 := by
  obtain ⟨honly, hfree, hload, hsize, _, huse, _⟩ := emptyFile_reads
  refine emptyOn_ready hload hsize (fun b hb => ?_) ?_
  · obtain rfl := honly b hb.1 hb.2
    decide
  · obtain ⟨w, hw, _⟩ := emptyFile_allocateBlock
    rw [emptyFile] at huse
    rw [huse]
    exact ⟨_, _, .next hw (by decide) hfree .done⟩

/-- With two free blocks. -/
def roomyFile : Inter := emptyOn (2 ^ 14 + 2 ^ 15) 2

/-- What a write to it reads. -/
lemma roomyFile_reads :
    (∀ b, b < 64 → roomyFile.volume.bitmapBit (.blockBitmap (b / 32)) (b % 32) = false →
        14 ≤ b ∧ b < 64) ∧
      roomyFile.volume.BlockFree 14 ∧ roomyFile.volume.InodeLoaded 13 ∧
      roomyFile.volume.diskSize 13 = 0 ∧ roomyFile.blocksToUse emptyEntry 2000 = 2 ∧
      (roomyFile.volume.allocateBlock 1).bind (fun r =>
        ((r.1.setDbp 0 r.2).allocateBlock r.2).map fun r' =>
          (r.2, r'.2, decide ((r.1.setDbp 0 r.2).BlockFree 15))) = some (14, 15, true) := by
  decide +kernel

/-- Two thousand bytes are written to it, in two blocks. -/
theorem write_spec_empty :
    WritesRange roomyFile 1 emptyEntry (fun x => UInt8.ofNat x) 7 2000 := by
  obtain ⟨honly, hfree, hload, hsize, huse, halloc⟩ := roomyFile_reads
  have hready : WriteReady roomyFile 1 emptyEntry 2000 := by
    refine emptyOn_ready hload hsize (fun b hb => honly b hb.1 hb.2) ?_
    obtain ⟨⟨w, b⟩, hw, halloc⟩ := Option.bind_eq_some_iff.mp halloc
    obtain ⟨⟨w', b'⟩, hw', hb⟩ := Option.map_eq_some_iff.mp halloc
    simp only [Prod.mk.injEq, decide_eq_true_eq] at hb
    obtain ⟨rfl, rfl, hfree'⟩ := hb
    rw [roomyFile] at huse
    rw [huse]
    exact ⟨_, _, .next hw (by decide) hfree (.next hw' (by decide) hfree' .done)⟩
  exact write_spec roomyFile 1 emptyEntry (fun x => UInt8.ofNat x) 7 2000 hready (by decide)
    (by decide +kernel) (by decide)

end Inter

end MarioBrOS.Fs
