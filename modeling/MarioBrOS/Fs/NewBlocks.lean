import MarioBrOS.Fs.OneBlockMap
import MarioBrOS.Fs.Supply

/-!
# The blocks that a file grows by

`prepare_blocks` fills the tables of an inode in `std_buf`, into which `allocate_block` loads a
bitmap at every call. A table comes out right if only one of its entries is filled and it is new.
`prepareBlocks_grows` says that it does for the direct slots, the first block below `sibp` and, on
its own, the first block below `dibp` or `tibp`.
-/

namespace MarioBrOS.Fs

namespace Volume

variable {v u w : Volume} {b c i k n addr used toUse : Nat}

/-! ## What is said of `prepare_blocks` -/

/-- The tables on the way to a slot. -/
def slotTables (v : Volume) : Slot → List Nat
  | .direct _ => []
  | .single _ => [v.sibp]
  | .double i _ => [v.dibp, v.entry v.dibp i]
  | .triple i j _ => [v.tibp, v.entry v.tibp i, v.entry (v.entry v.tibp i) j]

/-- The number of tables of `a` entries that begin with the `n`-th block of a file. -/
def newTables (a n : Nat) : Nat :=
  if n < 12 then 0
  else if n - 12 < a then (n = 12 : Bool).toNat
  else if n - 12 - a < a * a then
    (n - 12 - a = 0 : Bool).toNat + ((n - 12 - a) % a = 0 : Bool).toNat
  else
    (n - 12 - a - a * a = 0 : Bool).toNat + ((n - 12 - a - a * a) % (a * a) = 0 : Bool).toNat +
      ((n - 12 - a - a * a) % a = 0 : Bool).toNat

/-- The calls of `allocate_block` for the blocks of a file from `used` to `toUse`. -/
def allocations (a used toUse : Nat) : Nat :=
  ((List.range' used (toUse - used)).map fun n => newTables a n + 1).sum

/-- Inode `i` is in `std_inode`, and its tables for `used` blocks are data blocks that are not free.
Free blocks hold no data of the driver, and every call of `allocate_block` returns one of them. -/
structure GrowReady (v : Volume) (i used toUse : Nat) : Prop where
  layout : v.geometry.Layout
  inode : v.HasInode i
  loaded : v.InodeLoaded i
  tables : ∀ n, n < used → ∀ t ∈ v.slotTables (prepareSlot v.addrPerBlock n),
    v.geometry.IsData t ∧ ¬ v.BlockFree t
  free : ∀ b, v.BlockFree b → v.geometry.IsData b
  supply : Supply (allocations v.addrPerBlock used toUse) v 1

/-- Between `v` and `u`, the inode in `std_inode` has kept its first `used` blocks and got different
free blocks for those up to `toUse`; its tables were there before or were free. -/
structure Grows (v u : Volume) (used toUse : Nat) : Prop where
  kept : ∀ n, n < used → u.storedBlock (prepareSlot v.addrPerBlock n) =
    v.storedBlock (prepareSlot v.addrPerBlock n)
  fresh : ∀ n, used ≤ n → n < toUse → v.BlockFree (u.storedBlock (prepareSlot v.addrPerBlock n))
  apart : ∀ n m, used ≤ n → n < toUse → used ≤ m → m < toUse →
    u.storedBlock (prepareSlot v.addrPerBlock n) = u.storedBlock (prepareSlot v.addrPerBlock m) →
      n = m
  tables : ∀ n, n < toUse → ∀ t ∈ u.slotTables (prepareSlot v.addrPerBlock n), v.BlockFree t ∨
    ∃ m, m < used ∧ t ∈ v.slotTables (prepareSlot v.addrPerBlock m)

/-- What is said of `prepare_blocks`: when it returns `to_use - used`, the file has grown so. -/
def GrowsFile (v : Volume) (i used toUse : Nat) : Prop :=
  ∀ w, v.prepareBlocks i used toUse = some (w, toUse - used) →
    ∃ u, w.setInode i = some u ∧ Grows v u used toUse

/-- The condition: no table gets more than its first entry, and none that is loaded or stored in
four sectors is shorter than these. -/
def FirstEntries (v : Volume) (used toUse : Nat) : Prop :=
  toUse ≤ 13 ∨ toUse = used + 1 ∧ 2048 ≤ v.blockSize ∧
    (used = 12 + v.addrPerBlock ∨ used = 12 + v.addrPerBlock + v.addrPerBlock * v.addrPerBlock)

/-! ## Between two calls -/

/-- A byte of inode `i`, or of one of the blocks `bs`. -/
def OfFile (v : Volume) (i : Nat) (bs : List Nat) (x : Nat) : Prop :=
  (∃ y, y < 128 ∧ x = v.inodeByte i + y) ∨ ∃ b ∈ bs, v.geometry.InBlock b x

/-- Where `prepare_blocks` stands when it has taken the blocks `bs`, the last of them `addr`, and
makes `n` more calls: besides bitmaps and descriptors it has written to the inode and to these. -/
structure Stage (v w : Volume) (i : Nat) (bs : List Nat) (n addr : Nat) : Prop where
  geometry : w.geometry = v.geometry
  outside : ∀ x, ¬ v.geometry.AllocByte x → ¬ v.OfFile i bs x → w.disk x = v.disk x
  taken : ∀ b ∈ bs, v.BlockFree b
  free : ∀ c, w.BlockFree c ↔ v.BlockFree c ∧ c ∉ bs
  supply : Supply n w addr

section Stage

variable {bs : List Nat}

/-- The bytes of the file are none that `allocate_block` writes. -/
lemma OfFile.not_allocByte (L : v.geometry.Layout) (hi : v.HasInode i)
    (hd : ∀ b ∈ bs, v.geometry.IsData b) {x : Nat} (h : v.OfFile i bs x) :
    ¬ v.geometry.AllocByte x := by
  rcases h with ⟨y, hy, rfl⟩ | ⟨b, hb, hx⟩
  · exact inode_not_allocByte L hi hy
  · exact Volume.not_allocByte (hd b hb) hx

/-- A store to the file. -/
lemma Stage.store (S : Stage v w i bs n addr) (L : v.geometry.Layout) (hi : v.HasInode i)
    (hd : ∀ b ∈ bs, v.geometry.IsData b) (hs : u.spb = w.spb) (hb : u.bgpt = w.bgpt)
    (hx : ∀ x, ¬ v.OfFile i bs x → u.disk x = w.disk x) : Stage v u i bs n addr := by
  have A : Alike w u := by
    refine ⟨hs, hb, fun x ha => hx x fun hf => ?_⟩
    exact hf.not_allocByte L hi hd (S.geometry ▸ ha)
  have Lw : w.geometry.Layout := S.geometry.symm ▸ L
  exact ⟨A.geometry.trans S.geometry, fun x h1 h2 => (hx x h2).trans (S.outside x h1 h2), S.taken,
    fun c => (A.spoiled.blockFree Lw c).trans (S.free c), S.supply.alike A Lw⟩

/-- A call of `allocate_block`. -/
lemma Stage.allocate (S : Stage v w i bs (n + 1) addr) (L : v.geometry.Layout) :
    ∃ u b, w.allocateBlock addr = some (u, b) ∧ b ≠ 0 ∧ v.BlockFree b ∧ b ∉ bs ∧
      Stage v u i (b :: bs) n b ∧ u.stdInode = w.stdInode ∧
      ∀ x, ¬ v.geometry.AllocByte x → u.disk x = w.disk x := by
  have Lw : w.geometry.Layout := S.geometry.symm ▸ L
  cases S.supply with
  | @next _ _ u _ b h h0 hb rest =>
    obtain ⟨h1, h2, h3, h4⟩ := allocateBlock_takes Lw h h0 hb
    obtain ⟨hfree, hnew⟩ := (S.free b).mp hb
    have hdisk : ∀ x, ¬ v.geometry.AllocByte x → u.disk x = w.disk x := fun x hx =>
      h3 x (S.geometry.symm ▸ hx)
    refine ⟨u, b, h, h0, hfree, hnew,
      ⟨h1.trans S.geometry, fun x ha hf => ?_, ?_, fun c => ?_, rest⟩, h2, hdisk⟩
    · refine (hdisk x ha).trans (S.outside x ha fun hx => hf ?_)
      exact hx.imp_right fun ⟨c, hc, hin⟩ => ⟨c, List.mem_cons_of_mem _ hc, hin⟩
    · exact List.forall_mem_cons.mpr ⟨hfree, S.taken⟩
    · rw [h4, S.free, List.mem_cons, not_or, and_assoc, and_congr_right_iff]
      exact fun _ => and_comm

/-- Loading anything into `std_buf`. -/
lemma Stage.setStdBuf (S : Stage v w i bs n addr) (L : v.geometry.Layout) (hi : v.HasInode i)
    (hd : ∀ b ∈ bs, v.geometry.IsData b) (buf : Bytes) : Stage v (w.setStdBuf buf) i bs n addr :=
  S.store L hi hd rfl rfl fun _ _ => rfl

/-- Between `w` and `u`, a new block `b'` has become the first entry of the block `b`. -/
structure Linked (v w u : Volume) (i : Nat) (bs : List Nat) (b b' n : Nat) : Prop where
  stage : Stage v u i (b' :: bs) n b'
  free : v.BlockFree b'
  new : b' ∉ bs
  stdInode : u.stdInode = w.stdInode
  entry : u.entry b 0 = b'
  other : ∀ x, ¬ v.geometry.AllocByte x → ¬ v.geometry.InBlock b x → u.disk x = w.disk x

/-- A call of `allocate_block` whose result is stored as the first entry of a block taken before. -/
lemma Stage.link (S : Stage v w i bs (n + 1) addr) (L : v.geometry.Layout) (hi : v.HasInode i)
    (hfree : ∀ b, v.BlockFree b → v.geometry.IsData b) (hb : b ∈ bs) {m : Nat}
    (hm : 512 * sectors m ≤ v.blockSize) :
    ∃ u b', w.allocateBlock addr = some (u, b') ∧ b' ≠ 0 ∧ (u.setBufEntry 0 b').bufEntry 0 = b' ∧
      Linked v w ((u.setBufEntry 0 b').storeSectors (v.block b) m) i bs b b' n := by
  obtain ⟨u, b', h, h0, hf, hnew, T, hinode, hdisk⟩ := S.allocate L
  have hdata := hfree b (S.taken b hb)
  have hbyte : lbaByte (v.block b) = v.geometry.blockByte b := blockByte_eq L hdata.1
  have hsectors : 1 ≤ sectors m := Nat.succ_pos _
  have hstore : ((u.setBufEntry 0 b').storeSectors (v.block b) m).disk =
      u.disk.blit (v.geometry.blockByte b) (u.stdBuf.set32 0 b') 0 (512 * sectors m) := by
    rw [← hbyte]
    rfl
  have hother : ∀ x, ¬ v.geometry.InBlock b x →
      ((u.setBufEntry 0 b').storeSectors (v.block b) m).disk x = u.disk x := by
    intro x hx
    unfold Geometry.InBlock at hx
    rw [geometry_bytes] at hx
    rw [hstore]
    exact Bytes.blit_apply_of_outside (by omega)
  have hd : ∀ c ∈ b' :: bs, v.geometry.IsData c := fun c hc => hfree c (T.taken c hc)
  have T' : Stage v ((u.setBufEntry 0 b').storeSectors (v.block b) m) i (b' :: bs) n b' :=
    T.store L hi hd rfl rfl fun x hx => hother x fun hin =>
      hx (.inr ⟨b, List.mem_cons_of_mem _ hb, hin⟩)
  have hword : (u.stdBuf.set32 0 b').get32 0 = b' := Bytes.get32_set32 (hf.lt L)
  have hnum : ((u.setBufEntry 0 b').storeSectors (v.block b) m).spb.blockNum = v.spb.blockNum :=
    congrArg Geometry.blockNum T'.geometry
  refine ⟨u, b', h, h0, hword, T', hf, hnew, hinode, ?_, fun x ha hx =>
    (hother x hx).trans (hdisk x ha)⟩
  unfold Volume.entry
  rw [blockByte_eq (T'.geometry.symm ▸ L) (hnum.symm ▸ hdata.1), T'.geometry, hstore]
  exact (Bytes.get32_blit_of_inside (by omega)).trans hword

lemma Linked.setStdBuf {b' : Nat} (K : Linked v w u i bs b b' n) (L : v.geometry.Layout)
    (hi : v.HasInode i) (hfree : ∀ b, v.BlockFree b → v.geometry.IsData b) (buf : Bytes) :
    Linked v w (u.setStdBuf buf) i bs b b' n where
  stage := K.stage.setStdBuf L hi (fun c hc => hfree c (K.stage.taken c hc)) buf
  free := K.free
  new := K.new
  stdInode := K.stdInode
  entry := K.entry
  other := K.other

/-- The store does not reach the inode. -/
lemma Linked.loaded {b' : Nat} (K : Linked v w u i bs b b' n) (L : v.geometry.Layout)
    (hi : v.HasInode i) (hg : w.geometry = v.geometry) (hb : v.geometry.IsData b)
    (h : w.InodeLoaded i) : u.InodeLoaded i := by
  intro x hx
  have hne : ¬ v.geometry.InBlock b (v.inodeByte i + x) := fun hin =>
    data_ne_inode L hi hb hin x hx rfl
  have e := h x hx
  rw [inodeByte_congr hg] at e
  rw [K.stdInode, inodeByte_congr K.stage.geometry, e]
  exact (K.other _ (inode_not_allocByte L hi hx) hne).symm

/-- `update_inode` writes to the file. -/
lemma Stage.updateInode (S : Stage v w i bs n addr) (L : v.geometry.Layout) (hi : v.HasInode i)
    (hd : ∀ b ∈ bs, v.geometry.IsData b) :
    Stage v (w.updateInode i) i bs n addr ∧ (w.updateInode i).stdInode = w.stdInode ∧
      (w.updateInode i).InodeLoaded i := by
  have Lw : w.geometry.Layout := S.geometry.symm ▸ L
  have hiw := hi.congr S.geometry
  refine ⟨?_, (updateInode_spec Lw hiw).2.2.1, inodeLoaded_updateInode Lw hiw⟩
  obtain ⟨buf, e⟩ := updateInode_inode Lw hiw
  rw [e, inodeByte_congr S.geometry]
  refine S.store L hi hd rfl rfl fun x hx => ?_
  have hout : ∀ y, y < 128 → x ≠ v.inodeByte i + y := fun y hy e => hx (.inl ⟨y, hy, e⟩)
  have := hout (x - v.inodeByte i)
  exact Bytes.blit_apply_of_outside (by omega)

/-- A call of `allocate_block` whose result is stored in the inode. -/
lemma Stage.root (S : Stage v w i bs (n + 1) addr) (L : v.geometry.Layout) (hi : v.HasInode i)
    (hfree : ∀ b, v.BlockFree b → v.geometry.IsData b) (offset : Nat) :
    ∃ u b, w.allocateBlock addr = some (u, b) ∧ b ≠ 0 ∧ v.BlockFree b ∧ b ∉ bs ∧
      Stage v ((u.setField offset b).updateInode i) i (b :: bs) n b ∧
      ((u.setField offset b).updateInode i).stdInode = w.stdInode.set32 offset b ∧
      ((u.setField offset b).updateInode i).InodeLoaded i := by
  obtain ⟨u, b, h, h0, hf, hnew, T, hinode, _⟩ := S.allocate L
  have hd : ∀ c ∈ b :: bs, v.geometry.IsData c := fun c hc => hfree c (T.taken c hc)
  have T' : Stage v (u.setField offset b) i (b :: bs) n b := T.store L hi hd rfl rfl fun _ _ => rfl
  obtain ⟨h1, h2, h3⟩ := T'.updateInode L hi hd
  exact ⟨u, b, h, h0, hf, hnew, h1, h2.trans (congrArg (Bytes.set32 · offset b) hinode), h3⟩

end Stage

/-! ## What the inode leads to -/

/-- The word of an inode where the way to a slot begins. -/
def slotRoot : Slot → Nat
  | .direct i => 40 + 4 * i
  | .single _ => 88
  | .double _ _ => 92
  | .triple _ _ _ => 96

/-- The way to a slot depends on that word and on its tables. -/
lemma slot_congr {s : Slot} (hb : s.Below v.addrPerBlock)
    (hr : u.stdInode.get32 (slotRoot s) = v.stdInode.get32 (slotRoot s))
    (ht : ∀ t ∈ v.slotTables s, ∀ k, k < v.addrPerBlock → u.entry t k = v.entry t k) :
    u.slotTables s = v.slotTables s ∧ u.storedBlock s = v.storedBlock s := by
  cases s with
  | direct i => exact ⟨rfl, hr⟩
  | single i =>
    have hs : u.sibp = v.sibp := hr
    simp only [slotTables, storedBlock]
    rw [hs]
    exact ⟨rfl, ht _ (List.mem_singleton_self _) i hb⟩
  | double i j =>
    have hd : u.dibp = v.dibp := hr
    have h1 := ht v.dibp List.mem_cons_self i hb.1
    simp only [slotTables, storedBlock]
    rw [hd, h1]
    exact ⟨rfl, ht _ (List.mem_cons_of_mem _ (List.mem_singleton_self _)) j hb.2⟩
  | triple i j k =>
    have hd : u.tibp = v.tibp := hr
    have h1 := ht v.tibp List.mem_cons_self i hb.1
    have h2 := ht _ (List.mem_cons_of_mem _ List.mem_cons_self) j hb.2.1
    simp only [slotTables, storedBlock]
    rw [hd, h1, h2]
    exact ⟨rfl, ht _ (List.mem_cons_of_mem _ (List.mem_cons_of_mem _ (List.mem_singleton_self _))) k
      hb.2.2⟩

/-- The inode on the disk is the one in `std_inode`. -/
lemma InodeLoaded.setInode (h : w.InodeLoaded i) (L : w.geometry.Layout) (hi : w.HasInode i) :
    ∃ u, w.setInode i = some u ∧ u.disk = w.disk ∧ u.geometry = w.geometry ∧
      ∀ k, k + 4 ≤ 128 → u.stdInode.get32 k = w.stdInode.get32 k := by
  refine ⟨_, setInode_inode L hi, rfl, geometry_congr rfl rfl, fun k hk => ?_⟩
  refine Bytes.get32_congr fun x h1 h2 => ?_
  dsimp only
  rw [Bytes.blit_apply_of_inside (by omega), Nat.sub_zero]
  exact (h x (by omega)).symm

section Stage

variable {bs : List Nat}

/-- A table that was there before and is not free is as it was. -/
lemma Stage.entry (S : Stage v w i bs n addr) (L : v.geometry.Layout) (hi : v.HasInode i)
    (hc : v.geometry.IsData c) (ht : ¬ v.BlockFree c) (hk : k < v.addrPerBlock) :
    w.entry c k = v.entry c k := by
  refine entry_congr L hc.1 S.geometry hk fun x hx => ?_
  refine S.outside x (not_allocByte hc hx) fun hf => ?_
  rcases hf with ⟨y, hy, e⟩ | ⟨b, hb, hin⟩
  · exact data_ne_inode L hi hc hx y hy e
  · exact ht (Geometry.inBlock_unique hx hin ▸ S.taken b hb)

end Stage

/-! ## The statements of `prepare_blocks` -/

section Statements

variable {bs : List Nat}

/-- The last block wanted becomes the first entry of a table taken before. -/
lemma Stage.growTable (S : Stage v w i bs (n + 1) addr) (count : Nat)
    (L : v.geometry.Layout) (hi : v.HasInode i)
    (hfree : ∀ b, v.BlockFree b → v.geometry.IsData b) (hb : b ∈ bs) {m : Nat}
    (hm : 512 * sectors m ≤ v.blockSize) {store : Volume → Volume} {rounds : Nat}
    (hstore : ∀ u : Volume, u.geometry = v.geometry → u.stdInode = w.stdInode →
      store u = u.storeSectors (v.block b) m) (hr : rounds ≠ 0) :
    ∃ u b', Volume.growTable store 1 rounds 0 ⟨w, addr, 0, count⟩ = throw (u, count + 1) ∧
      Linked v w u i bs b b' n := by
  obtain ⟨u, b', h, h0, _, K⟩ := S.link L hi hfree hb hm
  obtain ⟨rounds, rfl⟩ := Nat.exists_eq_succ_of_ne_zero hr
  refine ⟨_, b', ?_, K⟩
  rw [Volume.growTable, allocateOr_some h h0, pure_bind]
  dsimp only
  rw [if_pos rfl, hstore (u.setBufEntry 0 b') ((geometry_congr rfl rfl).trans K.stage.geometry)
    K.stdInode]
  rfl

/-- A new table becomes the first entry of a table taken before. -/
lemma Stage.enterTable (S : Stage v w i bs (n + 1) addr) (count : Nat)
    (L : v.geometry.Layout) (hi : v.HasInode i)
    (hfree : ∀ b, v.BlockFree b → v.geometry.IsData b) (hb : b ∈ bs) (hm : 2048 ≤ v.blockSize)
    (span : Nat) :
    ∃ u b', Volume.enterTable (v.block b) 0 span ⟨w, addr, 0, count⟩ =
        pure (⟨u, b', 0, count⟩, v.block b') ∧ Linked v w u i bs b b' n := by
  obtain ⟨u, b', h, h0, hbuf, K⟩ := S.link L hi hfree hb (m := 4) hm
  refine ⟨((u.setBufEntry 0 b').storeSectors (v.block b) 4).loadSectors (v.block b') 4, b', ?_, ?_⟩
  · unfold Volume.enterTable
    dsimp only
    have hentry : ((u.setBufEntry 0 b').storeSectors (v.block b) 4).bufEntry 0 = b' := hbuf
    rw [if_pos (Nat.zero_mod span), allocateOr_some h h0, pure_bind, pure_bind]
    dsimp only
    rw [hentry, block_congr K.stage.geometry]
  · exact K.setStdBuf L hi hfree _

lemma loadBlock_eq (v : Volume) (b : Nat) : ∃ buf, v.loadBlock b = v.setStdBuf buf := ⟨_, rfl⟩

lemma loadSectors_eq (v : Volume) (lba m : Nat) : ∃ buf, v.loadSectors lba m = v.setStdBuf buf :=
  ⟨_, rfl⟩

lemma InodeLoaded.setStdBuf (h : w.InodeLoaded i) (buf : Bytes) : (w.setStdBuf buf).InodeLoaded i :=
  h

/-- The first block of the table that has just become `sibp`. -/
lemma Stage.fillSingle (T : Stage v w i (b :: bs) 1 b) (count : Nat)
    (L : v.geometry.Layout) (hi : v.HasInode i)
    (hfree : ∀ b, v.BlockFree b → v.geometry.IsData b) (hsibp : w.sibp = b)
    (hl : w.InodeLoaded i) :
    ∃ u b', Volume.growTable (fun v => v.storeBlock v.sibp) 1
        ((w.loadBlock w.sibp).addrPerBlock - 0) 0 ⟨w.loadBlock w.sibp, b, 0, count⟩ =
          throw (u, count + 1) ∧
      Stage v u i (b' :: b :: bs) 0 b' ∧ b' ∉ bs ∧ u.InodeLoaded i ∧ u.stdInode = w.stdInode ∧
      u.entry b 0 = b' := by
  have hd : ∀ c ∈ b :: bs, v.geometry.IsData c := fun c hc => hfree c (T.taken c hc)
  obtain ⟨buf, hbuf⟩ := loadBlock_eq w b
  have T' := T.setStdBuf L hi hd buf
  have hap : (w.setStdBuf buf).addrPerBlock = v.addrPerBlock := addrPerBlock_congr T'.geometry
  rw [hsibp, hbuf, Nat.sub_zero, hap]
  have hstore : ∀ u : Volume, u.geometry = v.geometry → u.stdInode = (w.setStdBuf buf).stdInode →
      u.storeBlock u.sibp = u.storeSectors (v.block b) v.blockFactor := by
    intro u hg hs
    have hu : u.sibp = b := (congrArg (Bytes.get32 · 88) hs).trans hsibp
    have hf : u.blockFactor = v.blockFactor :=
      congrArg (fun g : Geometry => 2 * 2 ^ g.blockSize) hg
    rw [hu, ← block_congr hg, ← hf]
    rfl
  obtain ⟨u, b', e, K⟩ := T'.growTable count L hi hfree List.mem_cons_self
    (sectors_blockFactor L.supported).le hstore v.addrPerBlock_pos.ne'
  exact ⟨u, b', e, K.stage, fun hm => K.new (List.mem_cons_of_mem _ hm),
    K.loaded L hi T'.geometry (hd b List.mem_cons_self) (hl.setStdBuf buf), K.stdInode, K.entry⟩

/-- The first block below `sibp`. -/
lemma Stage.growSingle (S : Stage v w i bs 2 addr) (count : Nat)
    (L : v.geometry.Layout) (hi : v.HasInode i)
    (hfree : ∀ b, v.BlockFree b → v.geometry.IsData b) :
    ∃ u b b', Volume.growSingle i 1 ⟨w, addr, 0, count⟩ = throw (u, count + 1) ∧
      Stage v u i (b' :: b :: bs) 0 b' ∧ b' ∉ bs ∧ u.InodeLoaded i ∧
      u.stdInode = w.stdInode.set32 88 b ∧ u.entry b 0 = b' := by
  obtain ⟨w1, b, h, h0, hb, _, T, hinode, hl⟩ := S.root L hi hfree 88
  have hsibp : ((w1.setField 88 b).updateInode i).sibp = b := by
    unfold sibp
    rw [hinode]
    exact Bytes.get32_set32 (hb.lt L)
  obtain ⟨u, b', e, h1, h2, h3, h4, h5⟩ := T.fillSingle count L hi hfree hsibp hl
  refine ⟨u, b, b', ?_, h1, h2, h3, h4.trans hinode, h5⟩
  unfold Volume.growSingle
  dsimp only
  rw [if_pos rfl, allocateOr_some h h0, pure_bind, pure_bind]
  exact e

/-- A block other than the one stored to keeps its entries. -/
lemma Linked.keeps {b' : Nat} (K : Linked v w u i bs b b' n) (L : v.geometry.Layout)
    (hg : w.geometry = v.geometry) (hc : v.geometry.IsData c) (hne : c ≠ b)
    (hk : k < v.addrPerBlock) : u.entry c k = w.entry c k := by
  have hnum : w.spb.blockNum = v.spb.blockNum := congrArg Geometry.blockNum hg
  refine entry_congr (hg.symm ▸ L) (hnum.symm ▸ hc.1) (K.stage.geometry.trans hg.symm)
    ((addrPerBlock_congr hg).symm ▸ hk) fun x hx => ?_
  rw [hg] at hx
  exact K.other x (not_allocByte hc hx) fun hin => hne (Geometry.inBlock_unique hx hin)

/-- A new table below one just taken, and its first block. -/
lemma Stage.fillTable (T : Stage v w i (b :: bs) 2 addr) (count : Nat)
    (L : v.geometry.Layout) (hi : v.HasInode i)
    (hfree : ∀ b, v.BlockFree b → v.geometry.IsData b) (hm : 2048 ≤ v.blockSize)
    (hl : w.InodeLoaded i) (k : Growth → Growing Growth) :
    ∃ u b1 b', (Volume.enterTable (v.block b) 0 v.addrPerBlock ⟨w, addr, 0, count⟩ >>= fun r =>
        Volume.growTable (fun w => w.storeSectors r.2 4) 1
          (v.addrPerBlock - r.1.used % v.addrPerBlock) (r.1.used % v.addrPerBlock) r.1 >>= k) =
          throw (u, count + 1) ∧
      Stage v u i (b' :: b1 :: b :: bs) 0 b' ∧ u.InodeLoaded i ∧ u.stdInode = w.stdInode ∧
      u.entry b 0 = b1 ∧ u.entry b1 0 = b' ∧ b1 ∉ b :: bs ∧
      ∀ c, v.geometry.IsData c → c ≠ b → c ≠ b1 → u.entry c 0 = w.entry c 0 := by
  obtain ⟨w1, b1, e1, K1⟩ := T.enterTable count L hi hfree List.mem_cons_self hm v.addrPerBlock
  obtain ⟨u, b', e2, K2⟩ := K1.stage.growTable (m := 4) count L hi hfree List.mem_cons_self hm
    (fun _ _ _ => rfl) v.addrPerBlock_pos.ne'
  have hdata := hfree b (T.taken b List.mem_cons_self)
  have hdata1 := hfree b1 K1.free
  have hne : b ≠ b1 := fun e => K1.new (e ▸ List.mem_cons_self)
  refine ⟨u, b1, b', ?_, K2.stage, ?_, K2.stdInode.trans K1.stdInode, ?_, K2.entry,
    K1.new, fun c hc h h1 => ?_⟩
  · rw [e1, pure_bind]
    dsimp only
    rw [Nat.zero_mod, Nat.sub_zero, e2, throw_bind]
  · exact K2.loaded L hi K1.stage.geometry hdata1 (K1.loaded L hi T.geometry hdata hl)
  · exact (K2.keeps L K1.stage.geometry hdata hne v.addrPerBlock_pos).trans K1.entry
  · exact (K2.keeps L K1.stage.geometry hc h1 v.addrPerBlock_pos).trans
      (K1.keeps L T.geometry hc h v.addrPerBlock_pos)

/-- The first block of the table that has just become `dibp`. -/
lemma Stage.fillDouble (T : Stage v w i (b :: bs) 2 addr) (count : Nat)
    (L : v.geometry.Layout) (hi : v.HasInode i)
    (hfree : ∀ b, v.BlockFree b → v.geometry.IsData b) (hm : 2048 ≤ v.blockSize)
    (hdibp : w.dibp = b) (hl : w.InodeLoaded i) {rounds : Nat} (hr : rounds ≠ 0) :
    ∃ u b1 b', Volume.growDouble 1 rounds 0 ⟨w, addr, 0, count⟩ = throw (u, count + 1) ∧
      Stage v u i (b' :: b1 :: b :: bs) 0 b' ∧ u.InodeLoaded i ∧ u.stdInode = w.stdInode ∧
      u.entry b 0 = b1 ∧ u.entry b1 0 = b' := by
  have hd : ∀ c ∈ b :: bs, v.geometry.IsData c := fun c hc => hfree c (T.taken c hc)
  obtain ⟨rounds, rfl⟩ := Nat.exists_eq_succ_of_ne_zero hr
  obtain ⟨buf, hbuf⟩ := loadSectors_eq w (v.block b) 4
  have T' := T.setStdBuf L hi hd buf
  obtain ⟨u, b1, b', e, h1, h2, h3, h4, h5, _, _⟩ := T'.fillTable count L hi hfree hm
    (hl.setStdBuf buf) (fun g => Volume.growDouble 1 rounds (0 + 1) g)
  refine ⟨u, b1, b', ?_, h1, h2, h3, h4, h5⟩
  rw [Volume.growDouble]
  dsimp only
  rw [hdibp, block_congr T.geometry, addrPerBlock_congr T.geometry, hbuf]
  exact e

/-- The first block of the table that has just become `tibp`. -/
lemma Stage.fillTriple (T : Stage v w i (b :: bs) 3 addr) (count : Nat)
    (L : v.geometry.Layout) (hi : v.HasInode i)
    (hfree : ∀ b, v.BlockFree b → v.geometry.IsData b) (hm : 2048 ≤ v.blockSize)
    (htibp : w.tibp = b) (hl : w.InodeLoaded i) {rounds : Nat} (hr : rounds ≠ 0) :
    ∃ u b1 b2 b', Volume.growTriple 1 rounds 0 ⟨w, addr, 0, count⟩ = throw (u, count + 1) ∧
      Stage v u i (b' :: b2 :: b1 :: b :: bs) 0 b' ∧ u.InodeLoaded i ∧ u.stdInode = w.stdInode ∧
      u.entry b 0 = b1 ∧ u.entry b1 0 = b2 ∧ u.entry b2 0 = b' := by
  have hd : ∀ c ∈ b :: bs, v.geometry.IsData c := fun c hc => hfree c (T.taken c hc)
  obtain ⟨rounds, rfl⟩ := Nat.exists_eq_succ_of_ne_zero hr
  obtain ⟨buf, hbuf⟩ := loadSectors_eq w (v.block b) 4
  have T' := T.setStdBuf L hi hd buf
  obtain ⟨w1, b1, e1, K1⟩ := T'.enterTable count L hi hfree List.mem_cons_self hm
    (v.addrPerBlock * v.addrPerBlock)
  obtain ⟨m, hm'⟩ := Nat.exists_eq_succ_of_ne_zero v.addrPerBlock_pos.ne'
  have hdata := hd b List.mem_cons_self
  have hdata1 := hfree b1 K1.free
  have hne : b ≠ b1 := fun e => K1.new (e ▸ List.mem_cons_self)
  obtain ⟨u, b2, b', e, h1, h2, h3, h4, h5, hnew, h6⟩ := K1.stage.fillTable count L hi hfree hm
    (K1.loaded L hi T'.geometry hdata (hl.setStdBuf buf))
    (fun g => Volume.growMiddle 1 (v.block b1) m (0 + 1) g)
  have hne2 : b ≠ b2 := fun e => hnew (e ▸ List.mem_cons_of_mem _ List.mem_cons_self)
  have hmid : Volume.growMiddle 1 (v.block b1) v.addrPerBlock 0 ⟨w1, b1, 0, count⟩ =
      throw (u, count + 1) := by
    rw [hm', Volume.growMiddle]
    dsimp only
    rw [addrPerBlock_congr K1.stage.geometry]
    exact e
  refine ⟨u, b1, b2, b', ?_, h1, h2, h3.trans K1.stdInode, (h6 b hdata hne hne2).trans K1.entry, h4,
    h5⟩
  rw [Volume.growTriple]
  dsimp only
  rw [htibp, block_congr T.geometry, addrPerBlock_congr T.geometry, hbuf, e1, pure_bind]
  dsimp only
  rw [Nat.zero_mod, Nat.zero_div, Nat.sub_zero, hmid, throw_bind]

/-- The first block below `dibp`. -/
lemma Stage.growBelowDibp (S : Stage v w i bs 3 addr) (count : Nat)
    (L : v.geometry.Layout) (hi : v.HasInode i)
    (hfree : ∀ b, v.BlockFree b → v.geometry.IsData b) (hm : 2048 ≤ v.blockSize) :
    ∃ u b b1 b', Volume.growBelowDibp i 1 ⟨w, addr, 0, count⟩ = throw (u, count + 1) ∧
      Stage v u i (b' :: b1 :: b :: bs) 0 b' ∧ u.InodeLoaded i ∧
      u.stdInode = w.stdInode.set32 92 b ∧ u.entry b 0 = b1 ∧ u.entry b1 0 = b' := by
  obtain ⟨w1, b, h, h0, hb, _, T, hinode, hl⟩ := S.root L hi hfree 92
  have hdibp : ((w1.setField 92 b).updateInode i).dibp = b := by
    unfold dibp
    rw [hinode]
    exact Bytes.get32_set32 (hb.lt L)
  have ha : w.addrPerBlock ≠ 0 := w.addrPerBlock_pos.ne'
  obtain ⟨u, b1, b', e, h1, h2, h3, h4, h5⟩ := T.fillDouble count L hi hfree hm hdibp hl ha
  refine ⟨u, b, b1, b', ?_, h1, h2, h3.trans hinode, h4, h5⟩
  unfold Volume.growBelowDibp
  dsimp only
  rw [if_pos (Nat.mul_pos w.addrPerBlock_pos w.addrPerBlock_pos), if_pos rfl, allocateOr_some h h0,
    pure_bind, pure_bind, Nat.zero_div, Nat.sub_zero]
  exact e

/-- The first block below `tibp`. -/
lemma Stage.growBelowTibp (S : Stage v w i bs 4 addr) (count : Nat)
    (L : v.geometry.Layout) (hi : v.HasInode i)
    (hfree : ∀ b, v.BlockFree b → v.geometry.IsData b) (hm : 2048 ≤ v.blockSize) :
    ∃ u b b1 b2 b', Volume.growBelowTibp i 1 ⟨w, addr, 0, count⟩ = throw (u, count + 1) ∧
      Stage v u i (b' :: b2 :: b1 :: b :: bs) 0 b' ∧ u.InodeLoaded i ∧
      u.stdInode = w.stdInode.set32 96 b ∧ u.entry b 0 = b1 ∧ u.entry b1 0 = b2 ∧
      u.entry b2 0 = b' := by
  obtain ⟨w1, b, h, h0, hb, _, T, hinode, hl⟩ := S.root L hi hfree 96
  have htibp : ((w1.setField 96 b).updateInode i).tibp = b := by
    unfold tibp
    rw [hinode]
    exact Bytes.get32_set32 (hb.lt L)
  have ha : w.addrPerBlock ≠ 0 := w.addrPerBlock_pos.ne'
  obtain ⟨u, b1, b2, b', e, h1, h2, h3, h4, h5, h6⟩ :=
    T.fillTriple count L hi hfree hm htibp hl ha
  refine ⟨u, b, b1, b2, b', ?_, h1, h2, h3.trans hinode, h4, h5, h6⟩
  unfold Volume.growBelowTibp
  dsimp only
  rw [if_pos rfl, allocateOr_some h h0, pure_bind, pure_bind, Nat.zero_div, Nat.sub_zero]
  exact e

/-- A table below `sibp` that is full is written back as it was. -/
lemma Stage.skipSingle (S : Stage v w i bs n addr) (count : Nat)
    (L : v.geometry.Layout) (hi : v.HasInode i)
    (hd : ∀ b ∈ bs, v.geometry.IsData b) {m : Nat} (hm : v.addrPerBlock ≤ m)
    (toUse : Nat) :
    ∃ u, Volume.growSingle i toUse ⟨w, addr, m, count⟩ = pure ⟨u, addr, m, count⟩ ∧
      Stage v u i bs n addr ∧ u.stdInode = w.stdInode := by
  have hpos := v.addrPerBlock_pos
  have Lw : w.geometry.Layout := S.geometry.symm ▸ L
  refine ⟨(w.loadBlock w.sibp).storeBlock w.sibp, ?_, S.store L hi hd rfl rfl fun x _ => ?_, rfl⟩
  · have hap : (w.loadBlock w.sibp).addrPerBlock = v.addrPerBlock :=
      addrPerBlock_congr (S.setStdBuf L hi hd _).geometry
    unfold Volume.growSingle
    dsimp only
    rw [if_neg (by omega), pure_bind]
    dsimp only
    rw [hap, Nat.sub_eq_zero_of_le hm]
    rfl
  · rw [restore_disk Lw.supported]

end Statements

/-! ## The whole call -/

section Whole

variable {a : Nat} {z : Volume} {bs : List Nat}

lemma prepareSlot_last_single (ha : 0 < a) : prepareSlot a 12 = .single 0 := by
  unfold prepareSlot
  rw [if_neg (by omega), if_pos (by omega)]

lemma prepareSlot_first_double (ha : 0 < a) : prepareSlot a (12 + a) = .double 0 0 := by
  have hsq : 0 < a * a := Nat.mul_pos ha ha
  have h0 : 12 + a - 12 - a = 0 := by omega
  unfold prepareSlot
  rw [if_neg (by omega), if_neg (by omega), if_pos (by omega), h0, Nat.zero_div, Nat.zero_mod]

lemma prepareSlot_first_triple (ha : 0 < a) : prepareSlot a (12 + a + a * a) = .triple 0 0 0 := by
  have hsq : 0 < a * a := Nat.mul_pos ha ha
  have h0 : 12 + a + a * a - 12 - a - a * a = 0 := by omega
  unfold prepareSlot
  rw [if_neg (by omega), if_neg (by omega), if_neg (by omega), h0, Nat.zero_div, Nat.zero_mod,
    Nat.zero_div, Nat.zero_mod]

/-- The words of an inode that the blocks before a tree depend on. -/
lemma slotRoot_le : (n < 12 → slotRoot (prepareSlot a n) = 40 + 4 * n) ∧
    (n < 12 + a → slotRoot (prepareSlot a n) + 4 ≤ 92) ∧
    (n < 12 + a + a * a → slotRoot (prepareSlot a n) + 4 ≤ 96) ∧
    slotRoot (prepareSlot a n) + 4 ≤ 128 := by
  unfold prepareSlot
  split_ifs <;> dsimp only [slotRoot] <;> omega

/-- The calls for one block more. -/
lemma allocations_succ (h : used ≤ n) :
    allocations a used (n + 1) = allocations a used n + (newTables a n + 1) := by
  unfold allocations
  rw [Nat.succ_sub h, List.range'_1_concat, List.map_append, List.sum_append, Nat.add_sub_cancel' h]
  rfl

lemma allocations_direct (h : used ≤ n) (h12 : n ≤ 12) : allocations a used n = n - used := by
  induction n, h using Nat.le_induction with
  | base =>
    unfold allocations
    rw [Nat.sub_self]
    rfl
  | succ n hle ih =>
    have h0 : newTables a n = 0 := if_pos h12
    rw [allocations_succ hle, ih (by omega), h0]
    omega

lemma allocations_one : allocations a used (used + 1) = newTables a used + 1 := by
  rw [allocations_succ (le_refl used)]
  unfold allocations
  rw [Nat.sub_self]
  exact Nat.zero_add _

lemma newTables_single (ha : 0 < a) : newTables a 12 = 1 := by
  unfold newTables
  rw [if_neg (by omega), if_pos (by omega)]
  rfl

lemma newTables_double (ha : 0 < a) : newTables a (12 + a) = 2 := by
  have hsq : 0 < a * a := Nat.mul_pos ha ha
  have h0 : 12 + a - 12 - a = 0 := by omega
  unfold newTables
  rw [if_neg (by omega), if_neg (by omega), if_pos (by omega), h0, Nat.zero_mod]
  rfl

lemma newTables_triple (ha : 0 < a) : newTables a (12 + a + a * a) = 3 := by
  have hsq : 0 < a * a := Nat.mul_pos ha ha
  have h0 : 12 + a + a * a - 12 - a - a * a = 0 := by omega
  unfold newTables
  rw [if_neg (by omega), if_neg (by omega), if_neg (by omega), h0, Nat.zero_mod, Nat.zero_mod]
  rfl

/-- A file that ends in `z` has grown as it should. -/
lemma GrowReady.grows (G : GrowReady v i used toUse) (S : Stage v z i bs n addr)
    (hl : z.InodeLoaded i) (hu : used ≤ 12 + v.addrPerBlock + v.addrPerBlock * v.addrPerBlock)
    (hlt : used < toUse) (ht : toUse ≤ 13 ∨ toUse = used + 1)
    (hold : ∀ n, n < used → z.stdInode.get32 (slotRoot (prepareSlot v.addrPerBlock n)) =
      v.stdInode.get32 (slotRoot (prepareSlot v.addrPerBlock n)))
    (hnew : ∀ n, used ≤ n → n < toUse → z.storedBlock (prepareSlot v.addrPerBlock n) ∈ bs ∧
      ∀ t ∈ z.slotTables (prepareSlot v.addrPerBlock n), t ∈ bs)
    (hapart : ∀ n m, used ≤ n → n < toUse → used ≤ m → m < toUse →
      z.storedBlock (prepareSlot v.addrPerBlock n) = z.storedBlock (prepareSlot v.addrPerBlock m) →
        n = m) :
    ∃ u, z.setInode i = some u ∧ Grows v u used toUse := by
  have hpos := v.addrPerBlock_pos
  have hcube : 0 < v.addrPerBlock ^ 3 := Nat.pow_pos hpos
  have hsq : v.addrPerBlock ^ 2 = v.addrPerBlock * v.addrPerBlock := Nat.pow_two _
  have hbelow : ∀ n, n < toUse → (prepareSlot v.addrPerBlock n).Below v.addrPerBlock := fun n hn =>
    prepareSlot_below hpos (by omega)
  obtain ⟨u, hset, hdisk, hgeom, hword⟩ := hl.setInode (S.geometry.symm ▸ G.layout)
    (G.inode.congr S.geometry)
  have hap : z.addrPerBlock = v.addrPerBlock := addrPerBlock_congr S.geometry
  -- what `std_inode` leads to is what the inode on the disk leads to
  have hz : ∀ n, n < toUse →
      u.slotTables (prepareSlot v.addrPerBlock n) = z.slotTables (prepareSlot v.addrPerBlock n) ∧
      u.storedBlock (prepareSlot v.addrPerBlock n) =
        z.storedBlock (prepareSlot v.addrPerBlock n) := by
    intro n hn
    refine slot_congr (hap.symm ▸ hbelow n hn) (hword _ slotRoot_le.2.2.2) fun t _ k _ => ?_
    unfold Volume.entry Volume.blockByte
    rw [hdisk, block_congr hgeom]
  have hv : ∀ n, n < used →
      z.slotTables (prepareSlot v.addrPerBlock n) = v.slotTables (prepareSlot v.addrPerBlock n) ∧
      z.storedBlock (prepareSlot v.addrPerBlock n) =
        v.storedBlock (prepareSlot v.addrPerBlock n) := by
    intro n hn
    refine slot_congr (prepareSlot_below hpos (by omega)) (hold n hn) fun t ht k hk => ?_
    obtain ⟨h1, h2⟩ := G.tables n hn t ht
    exact S.entry G.layout G.inode h1 h2 hk
  refine ⟨u, hset, fun n hn => ?_, fun n h1 h2 => ?_, fun n m h1 h2 h3 h4 e => ?_,
    fun n hn t ht => ?_⟩
  · exact (hz n (by omega)).2.trans (hv n hn).2
  · rw [(hz n h2).2]
    exact S.taken _ (hnew n h1 h2).1
  · rw [(hz n h2).2, (hz m h4).2] at e
    exact hapart n m h1 h2 h3 h4 e
  · rw [(hz n hn).1] at ht
    by_cases h : n < used
    · rw [(hv n h).1] at ht
      exact .inr ⟨n, h, ht⟩
    · exact .inl (S.taken t ((hnew n (by omega) hn).2 t ht))

/-- Before the first call. -/
lemma Stage.refl (S : Supply n v addr) (i : Nat) : Stage v v i [] n addr where
  geometry := rfl
  outside _ _ _ := rfl
  taken := List.forall_mem_nil _
  free _ := (and_iff_left List.not_mem_nil).symm
  supply := S

/-- The calls for the direct slots. -/
lemma Supply.allocates {m : Nat} (S : Supply (m + n) v addr) (L : v.geometry.Layout) (used : Nat) :
    ∃ w last, Allocates m v addr used w last ∧ Supply n w last := by
  induction m generalizing v addr used with
  | zero =>
    rw [Nat.zero_add] at S
    exact ⟨v, addr, .done, S⟩
  | succ m ih =>
    rw [Nat.succ_add] at S
    cases S with
    | @next _ _ w _ b h h0 hb rest =>
      have Lw : w.geometry.Layout := (allocateBlock_takes L h h0 hb).1.symm ▸ L
      have A : Alike w (w.setDbp used b) := ⟨rfl, rfl, fun _ _ => rfl⟩
      obtain ⟨u, last, hA, S⟩ := ih (rest.alike A Lw) (A.geometry.symm ▸ Lw) (used + 1)
      exact ⟨u, last, .next h h0 hb hA, S⟩

/-- The direct slots that have been filled. -/
lemma Grown.stage {m : Nat} (K : Grown v w used m) (S : Supply n w addr) (hm : used ≤ m) (i : Nat) :
    Stage v w i ((List.range' used (m - used)).map w.dbp) n addr := by
  have hmem : ∀ c, c ∈ (List.range' used (m - used)).map w.dbp ↔
      ∃ k, used ≤ k ∧ k < m ∧ w.dbp k = c := by
    intro c
    rw [List.mem_map]
    refine exists_congr fun k => ?_
    rw [List.mem_range'_1, Nat.add_sub_cancel' hm, and_assoc]
  refine ⟨K.geometry, fun x h _ => K.outside x h, fun b hb => ?_, fun _ => ?_, S⟩
  · obtain ⟨k, h1, h2, rfl⟩ := (hmem b).mp hb
    exact K.free k h1 h2
  · rw [K.taken, hmem]
    refine and_congr_right fun _ => ⟨?_, fun h k h1 h2 e => h ⟨k, h1, h2, e⟩⟩
    rintro h ⟨k, h1, h2, e⟩
    exact h k h1 h2 e

/-- What `prepare_blocks` returns when it returns early. -/
lemma prepareBlocks_throw (hi : v.HasInode i)
    (h : v.prepareBlocks i used toUse = some (w, toUse - used)) (hlt : used < toUse)
    {r : Volume × Nat} (hr : v.grow i used toUse = throw r) : w = r.1 := by
  unfold Volume.prepareBlocks at h
  dsimp only at h
  have h0 : i ≠ 0 := by
    have := hi.1
    omega
  rw [if_neg (by omega)] at h
  by_cases hb : (v.addrPerBlock * v.addrPerBlock * v.addrPerBlock +
      v.addrPerBlock * v.addrPerBlock + v.addrPerBlock + 12) % 2 ^ 32 < toUse
  · rw [if_pos hb] at h
    have := (Prod.mk.inj (Option.some.inj h)).2
    omega
  · rw [if_neg hb, hr] at h
    exact (congrArg Prod.fst (Option.some.inj h)).symm

lemma prepareSlot_of_direct (h : n < 12) : prepareSlot a n = .direct n := if_pos h

/-- The slots that were filled before. -/
lemma Grown.slot {m : Nat} (K : Grown v w used m) (hn : n < used) (hu : n < 12) :
    w.stdInode.get32 (slotRoot (prepareSlot a n)) =
      v.stdInode.get32 (slotRoot (prepareSlot a n)) := by
  rw [slotRoot_le.1 hu]
  exact Bytes.get32_congr fun x h1 h2 => K.stdInode x (by omega)

/-- Within the direct slots. -/
lemma GrowReady.direct (G : GrowReady v i used toUse) (hlt : used < toUse) (h12 : toUse ≤ 12) :
    GrowsFile v i used toUse := by
  intro z hz
  have S := G.supply
  rw [allocations_direct hlt.le h12] at S
  obtain ⟨w, last, hA, S⟩ := Supply.allocates (m := toUse - used) (n := 0) S G.layout used
  have K := hA.grown (Grown.refl v used) G.layout (le_refl used)
  rw [Nat.add_sub_cancel' hlt.le] at K
  have T := K.stage S hlt.le i
  obtain ⟨h1, h2, h3⟩ := T.updateInode G.layout G.inode fun b hb => G.free b (T.taken b hb)
  have h0 : i ≠ 0 := by
    have := G.inode.1
    omega
  rw [prepareBlocks_allocates h0 hlt h12 hA] at hz
  obtain rfl := (Prod.mk.inj (Option.some.inj hz)).1
  have hdbp : ∀ n, n < 12 →
      (w.updateInode i).storedBlock (prepareSlot v.addrPerBlock n) = w.dbp n := by
    intro n hn
    rw [prepareSlot_of_direct hn]
    exact congrArg (Bytes.get32 · (40 + 4 * n)) h2
  refine G.grows h1 h3 (by omega) hlt (.inl (by omega)) (fun n hn => ?_) (fun n h1 h2 => ?_)
    fun n m h1 h2 h3 h4 e => ?_
  · rw [h2]
    exact K.slot hn (by omega)
  · rw [hdbp n (by omega), prepareSlot_of_direct (show n < 12 by omega)]
    refine ⟨List.mem_map_of_mem (List.mem_range'_1.mpr (by omega)), List.forall_mem_nil _⟩
  · rw [hdbp n (by omega), hdbp m (by omega)] at e
    exact K.apart n m h1 h2 h3 h4 e

/-- Up to the first block below `sibp`. -/
lemma GrowReady.single (G : GrowReady v i used 13) (hu : used ≤ 12) : GrowsFile v i used 13 := by
  intro z hz
  have hpos := v.addrPerBlock_pos
  have S := G.supply
  rw [allocations_succ hu, allocations_direct hu (le_refl 12), newTables_single hpos] at S
  obtain ⟨w, last, hA, S⟩ := Supply.allocates (m := 12 - used) (n := 2) S G.layout used
  have K := hA.grown (Grown.refl v used) G.layout (le_refl used)
  have hrun := growDirect_allocates i 0 hA (show used + (12 - used) ≤ 13 by omega) 0
  rw [Nat.add_sub_cancel' hu] at K hrun
  rw [if_neg fun h => by omega, growDirect, Nat.zero_add, Nat.add_zero] at hrun
  -- the direct blocks are stored; the table and its first entry come next
  have T := K.stage S hu i
  obtain ⟨h1, h2, h3⟩ := T.updateInode G.layout G.inode fun b hb => G.free b (T.taken b hb)
  obtain ⟨u, b, b', e, T', hb', hl, hs, hentry⟩ :=
    h1.growSingle (12 - used) G.layout G.inode G.free
  have hgrow : v.grow i used 13 = throw (u, 12 - used + 1) := by
    unfold grow
    dsimp only
    rw [hrun, pure_bind]
    dsimp only
    rw [e, throw_bind]
  obtain rfl := prepareBlocks_throw G.inode hz (by omega) hgrow
  have hword : ∀ k, k + 4 ≤ 88 → z.stdInode.get32 k = w.stdInode.get32 k := by
    intro k hk
    rw [hs, h2]
    exact Bytes.get32_set32_of_disjoint (.inl hk)
  have hsibp : z.sibp = b := by
    unfold sibp
    rw [hs]
    exact Bytes.get32_set32 ((T'.taken b (List.mem_cons_of_mem _ List.mem_cons_self)).lt G.layout)
  have hdirect : ∀ n, n < 12 → z.storedBlock (prepareSlot v.addrPerBlock n) = w.dbp n := by
    intro n hn
    rw [prepareSlot_of_direct hn]
    exact hword _ (by omega)
  have hlast : z.storedBlock (prepareSlot v.addrPerBlock 12) = b' := by
    rw [prepareSlot_last_single hpos]
    exact (congrArg (z.entry · 0) hsibp).trans hentry
  have hmem : ∀ n, used ≤ n → n < 12 → w.dbp n ∈ (List.range' used (12 - used)).map w.dbp :=
    fun n h1 h2 => List.mem_map_of_mem (List.mem_range'_1.mpr (by omega))
  refine G.grows T' hl (by omega) (by omega) (.inl (le_refl 13)) (fun n hn => ?_)
    (fun n h1 h2 => ?_) fun n m h1 h2 h3 h4 e => ?_
  · rw [← K.slot hn (by omega), slotRoot_le.1 (by omega)]
    exact hword _ (by omega)
  · by_cases h : n < 12
    · rw [hdirect n h, prepareSlot_of_direct h]
      exact ⟨List.mem_cons_of_mem _ (List.mem_cons_of_mem _ (hmem n h1 h)), List.forall_mem_nil _⟩
    · obtain rfl : n = 12 := by omega
      rw [hlast, prepareSlot_last_single hpos]
      refine ⟨List.mem_cons_self, fun t ht => ?_⟩
      obtain rfl := List.mem_singleton.mp ht
      rw [hsibp]
      exact List.mem_cons_of_mem _ List.mem_cons_self
  · by_cases hn : n < 12 <;> by_cases hm : m < 12
    · rw [hdirect n hn, hdirect m hm] at e
      exact K.apart n m h1 hn h3 hm e
    · obtain rfl : m = 12 := by omega
      rw [hdirect n hn, hlast] at e
      exact absurd (e ▸ hmem n h1 hn) hb'
    · obtain rfl : n = 12 := by omega
      rw [hdirect m hm, hlast] at e
      exact absurd (e ▸ hmem m h3 hm) hb'
    · omega

/-- A file that grows by the one block of a tree that the word at `root` of its inode leads to. -/
lemma GrowReady.tree (G : GrowReady v i used (used + 1)) (S : Stage v z i bs n addr)
    (hl : z.InodeLoaded i) (hu : used ≤ 12 + v.addrPerBlock + v.addrPerBlock * v.addrPerBlock)
    {root : Nat} (hs : z.stdInode = v.stdInode.set32 root b)
    (hr : ∀ n, n < used → slotRoot (prepareSlot v.addrPerBlock n) + 4 ≤ root)
    (hb : z.storedBlock (prepareSlot v.addrPerBlock used) ∈ bs)
    (ht : ∀ t ∈ z.slotTables (prepareSlot v.addrPerBlock used), t ∈ bs) :
    ∃ u, z.setInode i = some u ∧ Grows v u used (used + 1) := by
  refine G.grows S hl hu (Nat.lt_succ_self used) (.inr rfl) (fun n hn => ?_) (fun n h1 h2 => ?_)
    fun n m h1 h2 h3 h4 _ => by omega
  · rw [hs]
    exact Bytes.get32_set32_of_disjoint (.inl (hr n hn))
  · obtain rfl : n = used := by omega
    exact ⟨hb, ht⟩

/-- Only the first block below `dibp`. -/
lemma GrowReady.double (hu : used = 12 + v.addrPerBlock) (G : GrowReady v i used (used + 1))
    (hm : 2048 ≤ v.blockSize) : GrowsFile v i used (used + 1) := by
  intro z hz
  have hpos := v.addrPerBlock_pos
  have S := G.supply
  rw [allocations_one, hu, newTables_double hpos] at S
  obtain ⟨h1, h2, _⟩ := (Stage.refl S i).updateInode G.layout G.inode (List.forall_mem_nil _)
  obtain ⟨x, e1, T, hx⟩ := h1.skipSingle 0 G.layout G.inode (List.forall_mem_nil _) (le_refl _)
    (used + 1 - 12)
  obtain ⟨u, b, b1, b', e2, T', hl, hs, hb, hb1⟩ :=
    T.growBelowDibp 0 G.layout G.inode G.free hm
  have hgrow : v.grow i used (used + 1) = throw (u, 0 + 1) := by
    have hone : used + 1 - 12 - v.addrPerBlock = 1 := by omega
    have hsub : used - 12 = v.addrPerBlock := by omega
    unfold grow
    dsimp only
    rw [Nat.sub_eq_zero_of_le (by omega), growDirect, pure_bind]
    dsimp only
    rw [hsub, e1, pure_bind]
    dsimp only
    rw [Nat.sub_self, hone, e2, throw_bind]
  obtain rfl := prepareBlocks_throw G.inode hz (by omega) hgrow
  have hdibp : z.dibp = b := by
    have hf := T'.taken b (List.mem_cons_of_mem _ (List.mem_cons_of_mem _ List.mem_cons_self))
    unfold dibp
    rw [hs]
    exact Bytes.get32_set32 (hf.lt G.layout)
  have hslot : prepareSlot v.addrPerBlock used = .double 0 0 := hu ▸ prepareSlot_first_double hpos
  refine G.tree T' hl (by omega) (hs.trans (congrArg (Bytes.set32 · 92 b) (hx.trans h2)))
    (fun n hn => slotRoot_le.2.1 (by omega)) ?_ fun t ht => ?_
  · rw [hslot]
    show z.entry (z.entry z.dibp 0) 0 ∈ _
    rw [hdibp, hb, hb1]
    exact List.mem_cons_self
  · rw [hslot] at ht
    change t ∈ [z.dibp, z.entry z.dibp 0] at ht
    rw [hdibp, hb] at ht
    simp only [List.mem_cons, List.not_mem_nil, or_false] at ht ⊢
    exact .inr ht.symm

/-- Only the first block below `tibp`. -/
lemma GrowReady.triple (hu : used = 12 + v.addrPerBlock + v.addrPerBlock * v.addrPerBlock)
    (G : GrowReady v i used (used + 1)) (hm : 2048 ≤ v.blockSize) :
    GrowsFile v i used (used + 1) := by
  intro z hz
  have hpos := v.addrPerBlock_pos
  have hsq := Nat.mul_pos hpos hpos
  have S := G.supply
  rw [allocations_one, hu, newTables_triple hpos] at S
  obtain ⟨h1, h2, _⟩ := (Stage.refl S i).updateInode G.layout G.inode (List.forall_mem_nil _)
  obtain ⟨x, e1, T, hx⟩ := h1.skipSingle 0
    (m := v.addrPerBlock + v.addrPerBlock * v.addrPerBlock) G.layout G.inode
    (List.forall_mem_nil _) (Nat.le_add_right _ _) (used + 1 - 12)
  obtain ⟨u, b, b1, b2, b', e2, T', hl, hs, hb, hb1, hb2⟩ :=
    T.growBelowTibp 0 G.layout G.inode G.free hm
  -- `sibp` and `dibp` lead to full trees, so that their loops have nothing to do
  have hgrow : v.grow i used (used + 1) = throw (u, 0 + 1) := by
    have hone : used + 1 - 12 - v.addrPerBlock - v.addrPerBlock * v.addrPerBlock = 1 := by omega
    have hsub : used - 12 = v.addrPerBlock + v.addrPerBlock * v.addrPerBlock := by omega
    have hskip : growBelowDibp i (used + 1 - 12 - v.addrPerBlock)
        ⟨x, 1, v.addrPerBlock * v.addrPerBlock, 0⟩ =
          pure ⟨x, 1, v.addrPerBlock * v.addrPerBlock, 0⟩ := by
      unfold Volume.growBelowDibp
      dsimp only
      rw [addrPerBlock_congr T.geometry, if_neg (Nat.lt_irrefl _)]
    unfold grow
    dsimp only
    rw [Nat.sub_eq_zero_of_le (by omega), growDirect, pure_bind]
    dsimp only
    rw [hsub, e1, pure_bind]
    dsimp only
    rw [Nat.add_sub_cancel_left, hskip, pure_bind]
    dsimp only
    rw [Nat.sub_self, hone, e2, throw_bind]
  obtain rfl := prepareBlocks_throw G.inode hz (by omega) hgrow
  have htibp : z.tibp = b := by
    have hf := T'.taken b (List.mem_cons_of_mem _ (List.mem_cons_of_mem _
      (List.mem_cons_of_mem _ List.mem_cons_self)))
    unfold tibp
    rw [hs]
    exact Bytes.get32_set32 (hf.lt G.layout)
  have hslot : prepareSlot v.addrPerBlock used = .triple 0 0 0 := hu ▸ prepareSlot_first_triple hpos
  refine G.tree T' hl hu.le (hs.trans (congrArg (Bytes.set32 · 96 b) (hx.trans h2)))
    (fun n hn => slotRoot_le.2.2.1 (by omega)) ?_ fun t ht => ?_
  · rw [hslot]
    show z.entry (z.entry (z.entry z.tibp 0) 0) 0 ∈ _
    rw [htibp, hb, hb1, hb2]
    exact List.mem_cons_self
  · rw [hslot] at ht
    change t ∈ [z.tibp, z.entry z.tibp 0, z.entry (z.entry z.tibp 0) 0] at ht
    rw [htibp, hb, hb1] at ht
    simp only [List.mem_cons, List.not_mem_nil, or_false] at ht ⊢
    rcases ht with ht | ht | ht
    · exact .inr (.inr (.inr ht))
    · exact .inr (.inr (.inl ht))
    · exact .inr (.inl ht)

/-- A file grows as it should where no table gets more than its first entry. -/
theorem prepareBlocks_grows (G : GrowReady v i used toUse) (hlt : used < toUse)
    (hc : FirstEntries v used toUse) : GrowsFile v i used toUse := by
  rcases hc with h13 | ⟨rfl, hm, hu | hu⟩
  · by_cases h12 : toUse ≤ 12
    · exact G.direct hlt h12
    · obtain rfl : toUse = 13 := by omega
      exact G.single (by omega)
  · exact GrowReady.double hu G hm
  · exact GrowReady.triple hu G hm

end Whole

end Volume

/-! ### A first table -/

/-- The words of a volume on which blocks 14 and 15 are the only free ones. -/
def twoFreeWord (n i : Nat) : Nat :=
  if n = 2 ∧ i = 0 then 2 ^ 32 - 1 - 2 ^ 14 - 2 ^ 15 else if n < 6 ∧ i = 0 then 2 ^ 32 - 1 else 0

/-- The volume on which blocks 14 and 15 are the only free ones; its inodes are empty. -/
def twoFreeVolume : Volume := sampleVolume twoFreeWord (fun k => 2 * (1 - k)) 2 0 65

lemma twoFreeVolume_geometry : twoFreeVolume.geometry = sampleGeometry :=
  sampleVolume_geometry _ _ _ _ _

/-- What the growth of inode 13 reads on it. -/
lemma twoFreeVolume_reads :
    (∀ b, b < 64 → twoFreeVolume.bitmapBit (.blockBitmap (b / 32)) (b % 32) = false →
        14 ≤ b) ∧
      twoFreeVolume.BlockFree 14 ∧ twoFreeVolume.InodeLoaded 13 ∧
      ((twoFreeVolume.allocateBlock 1).bind fun r => (r.1.allocateBlock r.2).map fun s =>
        (r.2, s.2, decide (r.1.BlockFree s.2))) = some (14, 15, true) := by
  decide +kernel

lemma twoFreeVolume_supply : Volume.Supply 2 twoFreeVolume 1 := by
  obtain ⟨_, h14, _, h⟩ := twoFreeVolume_reads
  obtain ⟨⟨w, b⟩, hw, h⟩ := Option.bind_eq_some_iff.mp h
  obtain ⟨⟨u, c⟩, hu, h⟩ := Option.map_eq_some_iff.mp h
  obtain ⟨hb, h⟩ := Prod.mk.inj h
  obtain ⟨hc, h⟩ := Prod.mk.inj h
  obtain rfl : b = 14 := hb
  obtain rfl : c = 15 := hc
  exact .next hw (by decide) h14 (.next hu (by decide) (of_decide_eq_true h) .done)

lemma twoFreeVolume_ready : Volume.GrowReady twoFreeVolume 13 12 13 where
  layout := by rw [twoFreeVolume_geometry]; exact sampleGeometry_layout
  inode := by
    unfold Volume.HasInode
    rw [twoFreeVolume_geometry, sampleGeometry_groups]
    decide
  loaded := twoFreeVolume_reads.2.2.1
  tables n hn t ht := by
    rw [Volume.prepareSlot_of_direct hn] at ht
    cases ht
  free b hb := by
    rw [twoFreeVolume_geometry]
    exact sampleGeometry_isData (twoFreeVolume_reads.1 b hb.1 hb.2) hb.1
  supply := twoFreeVolume_supply

/-- A file of twelve blocks gets a thirteenth one and the table that leads to it. -/
theorem prepareBlocks_grows_sample : Volume.GrowsFile twoFreeVolume 13 12 13 :=
  Volume.prepareBlocks_grows twoFreeVolume_ready (by decide) (.inl (by decide))

end MarioBrOS.Fs
