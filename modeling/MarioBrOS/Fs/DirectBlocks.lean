import MarioBrOS.Fs.BlockAlloc
import MarioBrOS.Fs.Grow
import MarioBrOS.Fs.InodeTable
import MarioBrOS.Lib.Scatter

/-!
# The direct blocks of a file

The first twelve blocks of a file are named by its inode itself. Byte `x` of the file lies at
`fileAddr`, so a write to the file is a write through that map. `prepare_blocks` fills the slots
from the first unused one on, and `Grown` is what it has done after some of them: it has taken free
blocks and written nothing but bitmaps and group descriptors.
-/

namespace MarioBrOS.Fs

/-- Byte `x` of the disk is one that `allocate_block` may write: it belongs to a block bitmap or to
the group descriptors. -/
def Geometry.AllocByte (g : Geometry) (x : Nat) : Prop :=
  (∃ k, k < g.groups ∧ g.InBlock (g.blockBitmap k) x) ∨
    ∃ m, g.InBlock m x ∧ g.InRegion .descriptors m

namespace Volume

variable {v w w' : Volume} {b c i k n m x used toUse prec : Nat}

/-! ## Taking a block -/

lemma not_allocByte {g : Geometry} (hd : g.IsData n) (hx : g.InBlock n x) :
    ¬ g.AllocByte x := by
  intro h
  obtain ⟨k, hk, hb⟩ | ⟨m, hb, hr⟩ := h
  · have e := Geometry.inBlock_unique hx hb
    exact hd.2 (.blockBitmap k) hk ⟨e.ge, Nat.lt_succ_of_le e.le⟩
  · have e := Geometry.inBlock_unique hx hb
    exact hd.2 .descriptors trivial (e ▸ hr)

/-- The bytes of an inode are not among those either. -/
lemma inode_not_allocByte (L : v.geometry.Layout) (hi : v.HasInode i) (hx : x < 128) :
    ¬ v.geometry.AllocByte (v.inodeByte i + x) := by
  intro h
  have hr := inodeBlock_inRegion (i := i) L
  obtain ⟨k, hk, hb⟩ | ⟨m, hb, hm⟩ := h
  · have e := Geometry.inBlock_unique (inBlock_inode hx) hb
    have hk' : v.geometry.InRegion (.blockBitmap k) (v.inodeBlock i) :=
      ⟨e.ge, Nat.lt_succ_of_le e.le⟩
    have hr' : Region.inodeTable _ = Region.blockBitmap k :=
      L.region_unique (hi.group_lt L) hk hr hk'
    cases hr'
  · have e := Geometry.inBlock_unique (inBlock_inode hx) hb
    have hr' : Region.inodeTable _ = Region.descriptors :=
      L.region_unique (hi.group_lt L) trivial hr (e ▸ hm)
    cases hr'

/-- Taking a block writes its bitmap and the descriptors. -/
lemma takeBlock_outside (L : v.geometry.Layout) (hk : k < v.geometry.groups)
    (hx : ¬ v.geometry.AllocByte x) (pos : Nat) : (v.takeBlock k pos).disk x = v.disk x := by
  unfold takeBlock commitBitmap
  dsimp only
  rw [writeDescriptors_outside L (fun m hb hd => hx (.inr ⟨m, hb, hd⟩))]
  exact writeBlock_outside L (L.bitmap_lt hk) (fun hb => hx (.inl ⟨k, hk, hb⟩)) _ _

/-- Marking a block concerns no other block. -/
lemma blockFree_of_marked {pos : Nat} {value : Bool} (L : v.geometry.Layout)
    (hk : k < v.geometry.groups) (hpos : pos < v.spb.blockPerGroup)
    (hm : Marked v w (.blockBitmap k) pos value) (c : Nat) :
    w.BlockFree c ↔ if c = k * v.spb.blockPerGroup + pos then c < v.spb.blockNum ∧ value = false
      else v.BlockFree c := by
  have hnum : w.spb.blockNum = v.spb.blockNum := congrArg Geometry.blockNum hm.geometry
  have hgroup : w.spb.blockPerGroup = v.spb.blockPerGroup :=
    congrArg Geometry.blockPerGroup hm.geometry
  have hp : 0 < v.spb.blockPerGroup := L.blockPerGroup_pos
  have hper : v.spb.blockPerGroup ≤ 8 * v.geometry.bytes := L.blockPerGroup_le
  have hlt := Nat.mod_lt c hp
  have hd := Nat.div_add_mod c v.spb.blockPerGroup
  rw [Nat.mul_comm] at hd
  unfold BlockFree
  rw [hnum, hgroup]
  by_cases hc : c < v.spb.blockNum
  · by_cases hg : c / v.spb.blockPerGroup = k
    · rw [hg, hm.bit _ (hlt.trans_le hper)]
      rw [hg] at hd
      by_cases hi : c % v.spb.blockPerGroup = pos
      · rw [if_pos hi, if_pos (by omega)]
      · rw [if_neg hi, if_neg (by omega)]
    · have hcg : c / v.spb.blockPerGroup < v.geometry.groups := L.group_lt hc
      have hne : c ≠ k * v.spb.blockPerGroup + pos := by
        intro e
        apply hg
        rw [e, Nat.mul_comm, Nat.mul_add_div hp, Nat.div_eq_of_lt hpos, Nat.add_zero]
      have hstart : v.geometry.start (.blockBitmap (c / v.spb.blockPerGroup)) ≠
          v.geometry.start (.blockBitmap k) :=
        L.start_ne hcg hk rfl rfl fun e => hg (Region.blockBitmap.inj e)
      rw [if_neg hne, hm.bit_of_ne hstart (L.blockBitmap_not_descriptors hcg) (hlt.trans_le hper)]
  · split
    · exact ⟨fun h => absurd h.1 hc, fun h => absurd h.1 hc⟩
    · exact ⟨fun h => absurd h.1 hc, fun h => absurd h.1 hc⟩

/-- What `allocate_block` does when it returns a free block: the block is no longer free, and only
bitmaps and descriptors are written. -/
lemma allocateBlock_takes (L : v.geometry.Layout) (h : v.allocateBlock prec = some (w, b))
    (h0 : b ≠ 0) (hb : v.BlockFree b) :
    w.geometry = v.geometry ∧ w.stdInode = v.stdInode ∧
      (∀ x, ¬ v.geometry.AllocByte x → w.disk x = v.disk x) ∧
      ∀ c, w.BlockFree c ↔ v.BlockFree c ∧ c ≠ b := by
  obtain ⟨_, buf, e⟩ | ⟨_, _, buf, k, pos, hf, hl, e⟩ | ⟨_, _, _, e⟩ | ⟨_, _, _, buf, e⟩ :=
    allocateBlock_cases L prec
  · rw [h] at e
    exact absurd (Prod.mk.inj (Option.some.inj e)).2 h0
  · rw [h] at e
    obtain ⟨hw, rfl⟩ := Prod.mk.inj (Option.some.inj e)
    have hm : Marked v w (.blockBitmap k) pos true := hw ▸ hf.marked L hl
    refine ⟨hm.geometry, hm.stdInode, fun x hx => ?_, fun c => ?_⟩
    · rw [hw]
      exact takeBlock_outside (v := v.setStdBuf buf) L hf.group hx pos
    · rw [blockFree_of_marked L hf.group hf.pos_lt hm c]
      split
      · rename_i hc
        exact ⟨fun h => Bool.noConfusion h.2, fun h => absurd hc h.2⟩
      · rename_i hc
        exact ⟨fun h => ⟨h, hc⟩, fun h => h.1⟩
  · rw [h] at e
    cases e
  · rw [h] at e
    obtain ⟨_, rfl⟩ := Prod.mk.inj (Option.some.inj e)
    exact absurd hb.1 (Nat.not_lt.mpr L.blockNum_le)

/-! ## Filling the slots -/

lemma allocateOr_some {addr count : Nat} {full : Volume → Volume}
    (h : v.allocateBlock addr = some (w, b)) (h0 : b ≠ 0) :
    v.allocateOr addr count full = pure (w, b) := by
  unfold allocateOr
  rw [h]
  exact if_neg h0

/-- Where `prepare_blocks` stands when the slots from `used` to `n` are filled: they name different
blocks that were free in `v`, which are taken, and only bitmaps and descriptors are written. -/
structure Grown (v w : Volume) (used n : Nat) : Prop where
  geometry : w.geometry = v.geometry
  outside : ∀ x, ¬ v.geometry.AllocByte x → w.disk x = v.disk x
  stdInode : ∀ x, x < 40 + 4 * used ∨ 40 + 4 * n ≤ x → w.stdInode x = v.stdInode x
  free : ∀ k, used ≤ k → k < n → v.BlockFree (w.dbp k)
  apart : ∀ k j, used ≤ k → k < n → used ≤ j → j < n → w.dbp k = w.dbp j → k = j
  taken : ∀ c, w.BlockFree c ↔ v.BlockFree c ∧ ∀ k, used ≤ k → k < n → w.dbp k ≠ c

lemma Grown.refl (v : Volume) (used : Nat) : Grown v v used used where
  geometry := rfl
  outside _ _ := rfl
  stdInode _ _ := rfl
  free _ h1 h2 := absurd h1 (Nat.not_le.mpr h2)
  apart _ _ h1 h2 := absurd h1 (Nat.not_le.mpr h2)
  taken _ := ⟨fun h => ⟨h, fun _ h1 h2 => absurd h1 (Nat.not_le.mpr h2)⟩, fun h => h.1⟩

/-- Block numbers are 32-bit words. -/
lemma BlockFree.lt (L : v.geometry.Layout) (hb : v.BlockFree b) : b < 2 ^ 32 := by
  have hr : 2 * 2 ^ v.spb.blockSize * v.spb.blockNum + 0x800 ≤ 2 ^ 28 := L.reach
  have hn : v.spb.blockNum ≤ 2 * 2 ^ v.spb.blockSize * v.spb.blockNum :=
    Nat.le_mul_of_pos_left _ (Nat.mul_pos (by omega) (Nat.two_pow_pos _))
  have := hb.1
  omega

lemma setDbp_dbp (hb : b < 2 ^ 32) :
    (v.setDbp n b).dbp k = if k = n then b else v.dbp k := by
  split
  · rename_i h
    rw [h]
    exact Bytes.get32_set32 hb
  · exact Bytes.get32_set32_of_disjoint (by omega)

/-- One slot more. -/
lemma Grown.step (G : Grown v w used n) (L : v.geometry.Layout) (hn : used ≤ n)
    (h : w.allocateBlock prec = some (w', b)) (h0 : b ≠ 0) (hb : w.BlockFree b) :
    Grown v (w'.setDbp n b) used (n + 1) := by
  have Lw : w.geometry.Layout := G.geometry.symm ▸ L
  obtain ⟨t1, t2, t3, t4⟩ := allocateBlock_takes Lw h h0 hb
  have hdbp : ∀ k, (w'.setDbp n b).dbp k = if k = n then b else w.dbp k := by
    intro k
    rw [setDbp_dbp (hb.lt Lw)]
    unfold dbp
    rw [t2]
  -- the block was free, so that it is in none of the slots filled so far
  have hold := (G.taken b).mp hb
  refine ⟨t1.trans G.geometry, fun x hx => ?_, fun x hx => ?_, fun k h1 h2 => ?_,
    fun k j h1 h2 h3 h4 e => ?_, fun c => ?_⟩
  · exact (t3 x (G.geometry.symm ▸ hx)).trans (G.outside x hx)
  · unfold setDbp setField
    dsimp only
    rw [Bytes.set32_apply_of_outside (by omega), t2]
    exact G.stdInode x (by omega)
  · rw [hdbp]
    split
    · exact hold.1
    · exact G.free k h1 (by omega)
  · rw [hdbp, hdbp] at e
    split at e
    · split at e
      · omega
      · exact absurd e.symm (hold.2 j h3 (by omega))
    · split at e
      · exact absurd e (hold.2 k h1 (by omega))
      · exact G.apart k j h1 (by omega) h3 (by omega) e
  · refine (t4 c).trans ?_
    rw [G.taken c]
    constructor
    · rintro ⟨⟨hc, hall⟩, hne⟩
      refine ⟨hc, fun k h1 h2 => ?_⟩
      rw [hdbp]
      split
      · exact hne.symm
      · exact hall k h1 (by omega)
    · rintro ⟨hc, hall⟩
      refine ⟨⟨hc, fun k h1 h2 => ?_⟩, ?_⟩
      · have := hall k h1 (by omega)
        rwa [hdbp, if_neg (by omega)] at this
      · have := hall n hn (by omega)
        rw [hdbp, if_pos rfl] at this
        exact this.symm

/-- The next `m` calls of `allocate_block` that `prepare_blocks` makes for direct slots, from slot
`used` on and after block `addr`, return free blocks, the last of them `last`. -/
inductive Allocates : Nat → Volume → Nat → Nat → Volume → Nat → Prop where
  | done {v : Volume} {addr used : Nat} : Allocates 0 v addr used v addr
  | next {m : Nat} {v w u : Volume} {addr used b last : Nat}
      (h : v.allocateBlock addr = some (w, b)) (h0 : b ≠ 0) (hb : v.BlockFree b)
      (hA : Allocates m (w.setDbp used b) b (used + 1) u last) :
      Allocates (m + 1) v addr used u last

/-- Several slots more. -/
lemma Allocates.grown {addr last m : Nat} (hA : Allocates m w addr n w' last)
    (G : Grown v w used n) (L : v.geometry.Layout) (hn : used ≤ n) :
    Grown v w' used (n + m) := by
  induction hA with
  | done => exact G
  | @next m v w u addr n b last h h0 hb _ ih =>
    have G' := ih (G.step L hn h h0 hb) (by omega)
    rwa [Nat.add_assoc, Nat.add_comm 1] at G'

/-- The loop over the direct slots goes on behind them, or ends with the last one wanted. -/
lemma growDirect_allocates (inode rounds : Nat) {m addr last : Nat}
    (hA : Allocates m v addr n w last) (hle : n + m ≤ toUse) (count : Nat) :
    growDirect inode toUse (m + rounds) ⟨v, addr, n, count⟩ =
      if m ≠ 0 ∧ n + m = toUse then throw (w.updateInode inode, count + m)
      else growDirect inode toUse rounds ⟨w, last, n + m, count + m⟩ := by
  induction hA generalizing count with
  | done => rw [if_neg fun h => h.1 rfl, Nat.zero_add, Nat.add_zero, Nat.add_zero]
  | @next m v w u addr n b last h h0 hb hA ih =>
    rw [Nat.add_right_comm, growDirect, allocateOr_some h h0, pure_bind]
    dsimp only
    by_cases he : n + 1 = toUse
    · -- there is no slot behind this one
      cases hA with
      | done =>
        rw [if_pos he, if_pos ⟨by omega, he⟩]
        rfl
      | next => omega
    · have e1 : n + 1 + m = n + (m + 1) := by omega
      have e2 : count + 1 + m = count + (m + 1) := by omega
      rw [if_neg he, ih (by omega), e1, e2]
      by_cases hend : n + (m + 1) = toUse
      · rw [if_pos ⟨by omega, hend⟩, if_pos ⟨by omega, hend⟩]
      · rw [if_neg fun h => hend h.2, if_neg fun h => hend h.2]

/-- The bound of `prepare_blocks` never excludes the direct blocks. -/
lemma twelve_le_bound (v : Volume) : 12 ≤ (v.addrPerBlock * v.addrPerBlock * v.addrPerBlock +
    v.addrPerBlock * v.addrPerBlock + v.addrPerBlock + 12) % 2 ^ 32 := by
  obtain ⟨c, hc⟩ : 16 ∣ v.addrPerBlock := ⟨16 * 2 ^ v.spb.blockSize, by
    unfold addrPerBlock blockSize
    omega⟩
  generalize ha : v.addrPerBlock = a at *
  have hdvd : 16 ∣ a * a * a + a * a + a :=
    Nat.dvd_add (Nat.dvd_add (Dvd.dvd.mul_left ⟨c, hc⟩ _) (Dvd.dvd.mul_left ⟨c, hc⟩ _)) ⟨c, hc⟩
  omega

lemma throw_bind {α β : Type} (e : Volume × Nat) (k : α → Growing β) :
    ((throw e : Growing α) >>= k) = throw e := rfl

/-- `prepare_blocks` for a file that stays within the direct slots. -/
lemma prepareBlocks_allocates {inode last : Nat} (h0 : inode ≠ 0) (hu : used < toUse)
    (h12 : toUse ≤ 12) (hA : Allocates (toUse - used) v 1 used w last) :
    v.prepareBlocks inode used toUse = some (w.updateInode inode, toUse - used) := by
  have hbound := twelve_le_bound v
  have hrun := growDirect_allocates inode (12 - toUse) hA (show used + (toUse - used) ≤ toUse by omega) 0
  have hrounds : toUse - used + (12 - toUse) = 12 - used := by omega
  rw [hrounds, if_pos ⟨by omega, by omega⟩, Nat.zero_add] at hrun
  unfold prepareBlocks
  dsimp only
  rw [if_neg (by omega), if_neg (by omega)]
  unfold grow
  dsimp only
  rw [hrun, throw_bind]
  rfl

/-! ## The bytes of a file -/

/-- Where byte `x` of the file `i` lies, as far as the direct blocks go. -/
def fileAddr (v : Volume) (i x : Nat) : Nat :=
  v.geometry.blockByte (v.diskDbp i (x / v.blockSize)) + x % v.blockSize

/-- Byte `x` of the file `i`. -/
def fileByte (v : Volume) (i x : Nat) : UInt8 := v.disk (v.fileAddr i x)

/-- The first `n` slots of the file `i`, direct ones, name different data blocks. -/
structure DirectFile (v : Volume) (i n : Nat) : Prop where
  layout : v.geometry.Layout
  inode : v.HasInode i
  slots : n ≤ 12
  data : ∀ k, k < n → v.geometry.IsData (v.diskDbp i k)
  apart : ∀ k j, k < n → j < n → v.diskDbp i k = v.diskDbp i j → k = j

lemma slot_lt (hx : x < n * v.blockSize) : x / v.blockSize < n :=
  (Nat.div_lt_iff_lt_mul v.blockSize_pos).mpr hx

/-- A byte of the file lies in its block. -/
lemma inBlock_fileAddr : v.geometry.InBlock (v.diskDbp i (x / v.blockSize)) (v.fileAddr i x) := by
  have hlt := Nat.mod_lt x v.blockSize_pos
  unfold Geometry.InBlock fileAddr
  rw [geometry_bytes]
  omega

/-- No two bytes of the file lie at the same place. -/
lemma DirectFile.addr_apart (h : v.DirectFile i n) :
    Bytes.Apart (v.fileAddr i) (n * v.blockSize) := by
  intro x y hx hy e
  have hb := Geometry.inBlock_unique (inBlock_fileAddr (v := v) (i := i) (x := x))
    (e ▸ inBlock_fileAddr (v := v) (i := i) (x := y))
  have hk := h.apart _ _ (slot_lt hx) (slot_lt hy) hb
  unfold fileAddr at e
  rw [hb, Nat.add_left_cancel_iff] at e
  rw [← Nat.div_add_mod x v.blockSize, ← Nat.div_add_mod y v.blockSize, hk, e]

/-- The file lies apart from all inodes. -/
lemma DirectFile.addr_inode (h : v.DirectFile i n) (hx : x < n * v.blockSize) {j y : Nat}
    (hj : v.HasInode j) (hy : y < 128) : v.inodeByte j + y ≠ v.fileAddr i x := by
  have hap := data_apart h.layout (h.data _ (slot_lt hx)) hj
  have hin := inBlock_fileAddr (v := v) (i := i) (x := x)
  unfold Geometry.InBlock at hin
  rw [geometry_bytes] at hin
  omega

/-- A volume of the same layout whose inode `i` has the same bytes. -/
structure SameInode (v w : Volume) (i : Nat) : Prop where
  geometry : w.geometry = v.geometry
  bytes : ∀ x, x < 128 → w.disk (v.inodeByte i + x) = v.disk (v.inodeByte i + x)

lemma SameInode.trans (h : SameInode v w i) (h' : SameInode w w' i) : SameInode v w' i where
  geometry := h'.geometry.trans h.geometry
  bytes x hx := by
    have e := h'.bytes x hx
    rw [inodeByte_congr h.geometry] at e
    exact e.trans (h.bytes x hx)

lemma SameInode.dbp (h : SameInode v w i) (hk : k < 12) : w.diskDbp i k = v.diskDbp i k := by
  unfold diskDbp
  rw [inodeByte_congr h.geometry]
  apply Bytes.get32_congr
  intro x h1 h2
  have := h.bytes (x - v.inodeByte i) (by omega)
  rwa [Nat.add_sub_cancel' (by omega)] at this

lemma SameInode.size (h : SameInode v w i) : w.diskSize i = v.diskSize i := by
  unfold diskSize
  rw [inodeByte_congr h.geometry]
  apply Bytes.get32_congr
  intro x h1 h2
  have := h.bytes (x - v.inodeByte i) (by omega)
  rwa [Nat.add_sub_cancel' (by omega)] at this

lemma SameInode.addr (h : SameInode v w i) (hx : x < 12 * v.blockSize) :
    w.fileAddr i x = v.fileAddr i x := by
  unfold fileAddr
  rw [blockSize_congr h.geometry, h.dbp (slot_lt hx), h.geometry]

lemma DirectFile.same (h : v.DirectFile i n) (s : SameInode v w i) : w.DirectFile i n where
  layout := s.geometry.symm ▸ h.layout
  inode := h.inode.congr s.geometry
  slots := h.slots
  data k hk := by
    rw [s.dbp (hk.trans_le h.slots), s.geometry]
    exact h.data k hk
  apart k j hk hj e := by
    rw [s.dbp (hk.trans_le h.slots), s.dbp (hj.trans_le h.slots)] at e
    exact h.apart k j hk hj e

/-- `std_inode` holds inode `i` as it is on the disk. -/
def InodeLoaded (v : Volume) (i : Nat) : Prop :=
  ∀ x, x < 128 → v.stdInode x = v.disk (v.inodeByte i + x)

instance (v : Volume) (i : Nat) : Decidable (v.InodeLoaded i) :=
  inferInstanceAs (Decidable (∀ x, x < 128 → _))

/-- After `update_inode`, `std_inode` is as it is on the disk. -/
lemma inodeLoaded_updateInode (L : v.geometry.Layout) (hi : v.HasInode i) :
    (v.updateInode i).InodeLoaded i := by
  obtain ⟨h1, _, h2, h3⟩ := updateInode_spec L hi
  intro x hx
  rw [inodeByte_congr h1, h2, h3, Bytes.blit_apply_of_inside (by omega), Nat.zero_add,
    Nat.add_sub_cancel_left]

lemma inodeSlot_direct (h : k < 12) : inodeSlot n k = some (.direct k) := if_pos h

/-- The bytes of a file up to the end of a block lie in one piece. -/
lemma fileAddr_add (h : x % v.blockSize + k < v.blockSize) :
    v.fileAddr i (x + k) = v.fileAddr i x + k := by
  have hd := Nat.div_add_mod x v.blockSize
  have e : x + k = v.blockSize * (x / v.blockSize) + (x % v.blockSize + k) := by omega
  have h1 : (x + k) / v.blockSize = x / v.blockSize := by
    rw [e, Nat.mul_add_div v.blockSize_pos, Nat.div_eq_of_lt h, Nat.add_zero]
  have h2 : (x + k) % v.blockSize = x % v.blockSize + k := by
    rw [e, Nat.mul_add_mod, Nat.mod_eq_of_lt h]
  unfold fileAddr
  rw [h1, h2, Nat.add_assoc]

/-- A round of a write: it stores what fits in the block of its offset. -/
lemma DirectFile.write (h : v.DirectFile i n) (hx : x < n * v.blockSize) (buffer : Bytes)
    (start length : Nat) :
    ∃ w, v.writeInodeData i buffer start x length =
        some (w, min length (v.blockSize - x % v.blockSize)) ∧
      SameInode v w i ∧ w.InodeLoaded i ∧
      Bytes.Scattered (v.fileAddr i) v.disk w.disk x
        (min length (v.blockSize - x % v.blockSize)) buffer start := by
  have hset := setInode_inode h.layout h.inode
  generalize hu : ({ v with stdInode := v.stdInode.blit 0 v.disk (v.inodeByte i) 128 } : Volume) = u
    at hset
  have hslot := slot_lt hx
  have hk : x / v.blockSize < 12 := hslot.trans_le h.slots
  have hu1 : u.geometry = v.geometry := by rw [← hu]; rfl
  have hu2 : u.disk = v.disk := by rw [← hu]
  have hu3 : u.stdInode = v.stdInode.blit 0 v.disk (v.inodeByte i) 128 := by rw [← hu]
  have hbs := blockSize_congr hu1
  have hdbp : u.dbp (x / v.blockSize) = v.diskDbp i (x / v.blockSize) :=
    setInode_word h.layout h.inode hset (by omega)
  have hmod := Nat.mod_lt x v.blockSize_pos
  have hdata := h.data _ hslot
  have hlayout : u.geometry.Layout := hu1.symm ▸ h.layout
  have hbyte : lbaByte (u.block (v.diskDbp i (x / v.blockSize))) + x % v.blockSize =
      v.fileAddr i x := by
    have e : u.blockByte (v.diskDbp i (x / v.blockSize)) =
        u.geometry.blockByte (v.diskDbp i (x / v.blockSize)) :=
      blockByte_eq hlayout (hu1.symm ▸ hdata).1
    rw [hu1] at e
    unfold fileAddr
    rw [← e]
    rfl
  generalize hm : min length (v.blockSize - x % v.blockSize) = m
  obtain ⟨buf, hupd⟩ := updateBlock_eq (v := u.setStdBuf u.stdBuf) hlayout.supported buffer start
    (u.block_lt (v.diskDbp i (x / v.blockSize)))
    (show x % v.blockSize < u.blockSize by omega) (show x % v.blockSize + m ≤ u.blockSize by omega)
  generalize hw : (u.setStdBuf u.stdBuf).updateBlock buffer start (x % v.blockSize) m
    (u.block (v.diskDbp i (x / v.blockSize))) = w at hupd
  have hw1 : w.geometry = v.geometry := by rw [hupd]; exact hu1
  have hw2 : w.disk = v.disk.blit (v.fileAddr i x) buffer start m := by
    rw [hupd, ← hbyte, ← hu2]
    rfl
  have hw3 : w.stdInode = u.stdInode := by rw [hupd]; rfl
  -- a block of the file does not overlap its inode
  have hin : ∀ y, y < 128 → w.disk (v.inodeByte i + y) = v.disk (v.inodeByte i + y) := by
    intro y hy
    have hap := data_apart h.layout hdata h.inode
    have ha : v.fileAddr i x = v.geometry.blockByte (v.diskDbp i (x / v.blockSize)) +
      x % v.blockSize := rfl
    rw [hw2, ha]
    exact Bytes.blit_apply_of_outside (by omega)
  refine ⟨w, ?_, ⟨hw1, hin⟩, fun y hy => ?_, ?_⟩
  · unfold writeInodeData
    rw [hset, Option.bind_eq_bind, Option.bind_some, hbs, inodeSlot_direct hk, Option.bind_eq_bind,
      Option.bind_some]
    unfold slotBlock
    rw [Option.bind_eq_bind, Option.bind_some, hdbp, width_eq, hbs, hm, ← hw]
    dsimp only
    rw [setStdBuf_blockSize, hbs, setStdBuf_block]
  · rw [inodeByte_congr hw1, hin y hy, hw3, hu3, Bytes.blit_apply_of_inside (by omega),
      Nat.sub_zero]
  · rw [hw2]
    exact Bytes.Scattered.of_blit fun y hy => fileAddr_add (by omega)

end Volume

end MarioBrOS.Fs
