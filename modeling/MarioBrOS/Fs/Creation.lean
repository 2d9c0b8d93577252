import MarioBrOS.Fs.Directory
import MarioBrOS.Fs.FullDisk

/-!
# Creating a file that fails

`create_file` takes an inode, adds the entry to the directory and, for a directory, allocates a
block; when one of them fails it frees the inode again. The entry and the link of the father stay
when no block is left; the inode stays taken when `allocate_inode` gives up after it has taken the
last one, and when `unallocate_inode` looks for its bit elsewhere (`create_all_or_nothing`).
-/

namespace MarioBrOS.Fs

namespace Volume

variable {v w u : Volume} {b d dir i inode j k n x : Nat} {type : UInt8} {name : List UInt8}
  {ps : List Nat}

/-! ## What the tree consists of -/

/-- The data blocks and the inodes are as before. -/
structure TreeKept (v w : Volume) : Prop where
  geometry : w.geometry = v.geometry
  data : ∀ n x, v.geometry.IsData n → v.geometry.InBlock n x → w.disk x = v.disk x
  inode : ∀ i x, v.HasInode i → x < 128 → w.disk (v.inodeByte i + x) = v.disk (v.inodeByte i + x)

lemma TreeKept.refl (v : Volume) : TreeKept v v := ⟨rfl, fun _ _ _ _ => rfl, fun _ _ _ _ => rfl⟩

lemma TreeKept.trans (h : TreeKept v w) (h' : TreeKept w u) : TreeKept v u where
  geometry := h'.geometry.trans h.geometry
  data n x hn hx := by
    rw [← h.geometry] at hn hx
    exact (h'.data n x hn hx).trans (h.data n x (h.geometry ▸ hn) (h.geometry ▸ hx))
  inode i x hi hx := by
    have e := h'.inode i x (hi.congr h.geometry) hx
    rw [inodeByte_congr h.geometry] at e
    exact e.trans (h.inode i x hi hx)

/-- Marking a bit of an inode bitmap leaves the tree. -/
lemma Marked.treeKept {value : Bool} (L : v.geometry.Layout) (hk : k < v.geometry.groups)
    (h : Marked v w (.inodeBitmap k) n value) : TreeKept v w where
  geometry := h.geometry
  data m x hm hx := by
    refine h.other m x hx (fun e => ?_) (hm.2 .descriptors trivial)
    exact hm.2 (.inodeBitmap k) hk ⟨e.ge, Nat.lt_succ_of_le e.le⟩
  inode i x hi hx := by
    have hr := inodeBlock_inRegion (i := i) L
    refine h.other _ _ (inBlock_inode hx) (fun e => ?_) fun hd => ?_
    · have hb : v.geometry.InRegion (.inodeBitmap k) (v.inodeBlock i) :=
        ⟨e.ge, Nat.lt_succ_of_le e.le⟩
      have hr' : Region.inodeTable _ = Region.inodeBitmap k :=
        L.region_unique (hi.group_lt L) hk hr hb
      cases hr'
    · have hr' : Region.inodeTable _ = Region.descriptors :=
        L.region_unique (hi.group_lt L) trivial hr hd
      cases hr'

lemma TreeKept.of_disk (hg : w.geometry = v.geometry) (hd : w.disk = v.disk) : TreeKept v w :=
  ⟨hg, fun _ _ _ _ => by rw [hd], fun _ _ _ _ => by rw [hd]⟩

/-- A directory is found where it was. -/
lemma TreeKept.isDir (h : TreeKept v w) (hd : v.IsDir d b) : w.IsDir d b where
  layout := h.geometry.symm ▸ hd.layout
  inode := hd.inode.congr h.geometry
  block := by
    rw [← hd.block]
    unfold diskDbp
    rw [inodeByte_congr h.geometry]
    refine Bytes.get32_congr fun x h1 h2 => ?_
    have e := h.inode d (x - v.inodeByte d) hd.inode (by omega)
    rwa [Nat.add_sub_cancel' (by omega)] at e
  data := h.geometry.symm ▸ hd.data

lemma TreeKept.diskLinks (h : TreeKept v w) (hd : v.HasInode d) :
    w.diskLinks d = v.diskLinks d := by
  unfold Volume.diskLinks
  rw [inodeByte_congr h.geometry]
  refine Bytes.get16_congr fun x h1 h2 => ?_
  have e := h.inode d (x - v.inodeByte d) hd (by omega)
  rwa [Nat.add_sub_cancel' (by omega)] at e

/-- Its block holds the same bytes. -/
lemma TreeKept.dirRead (h : TreeKept v w) (hd : v.IsDir d b) (hx : x < v.blockSize) :
    (w.dirRead d b).stdBuf x = (v.dirRead d b).stdBuf x := by
  rw [dirRead_stdBuf hx, dirRead_stdBuf (by rwa [blockSize_congr h.geometry]), h.geometry]
  exact h.data b _ hd.data ⟨Nat.le_add_right _ _, Nat.add_lt_add_left hx _⟩

/-- The bits of the bitmaps of the inodes are given by `bits`, those of the blocks are the same. -/
structure Bitmaps (v w : Volume) (bits : Nat → Nat → Bool) : Prop where
  inodes : ∀ k j, k < v.geometry.groups → j < 8 * v.geometry.bytes →
    w.bitmapBit (.inodeBitmap k) j = bits k j
  blocks : ∀ k j, k < v.geometry.groups → j < 8 * v.geometry.bytes →
    w.bitmapBit (.blockBitmap k) j = v.bitmapBit (.blockBitmap k) j

/-- What is said of a call that fails: the entries of every directory, `hard_links` of the father
and the bitmaps are as before. -/
structure SameTree (v w : Volume) (father : Nat) : Prop where
  entries : ∀ d b ps, v.IsDir d b → Tiled (v.dirRead d b).stdBuf v.blockSize 0 ps →
    w.IsDir d b ∧ Tiled (w.dirRead d b).stdBuf v.blockSize 0 ps ∧
      listing (w.dirRead d b).stdBuf ps = listing (v.dirRead d b).stdBuf ps
  links : w.diskLinks father = v.diskLinks father
  bitmaps : Bitmaps v w fun k => v.bitmapBit (.inodeBitmap k)

lemma TreeKept.entries (h : TreeKept v w) (hd : v.IsDir d b)
    (ht : Tiled (v.dirRead d b).stdBuf v.blockSize 0 ps) :
    w.IsDir d b ∧ Tiled (w.dirRead d b).stdBuf v.blockSize 0 ps ∧
      listing (w.dirRead d b).stdBuf ps = listing (v.dirRead d b).stdBuf ps := by
  obtain ⟨h1, h2, _⟩ := ht.congr fun x _ hx => h.dirRead hd hx
  exact ⟨h.isDir hd, h1, h2⟩

/-! ## The inode -/

/-- The bitmaps after one bit of an inode bitmap has been marked. -/
lemma Marked.bitmaps {value : Bool} (L : v.geometry.Layout) (hk : k < v.geometry.groups)
    (h : Marked v w (.inodeBitmap k) n value) :
    Bitmaps v w fun k' j => if k' = k ∧ j = n then value else v.bitmapBit (.inodeBitmap k') j where
  inodes k' j hk' hj := by
    by_cases e : k' = k
    · subst e
      rw [h.bit j hj]
      simp only [true_and]
    · rw [if_neg fun h => e h.1]
      have hne : v.geometry.start (.inodeBitmap k') ≠ v.geometry.start (.inodeBitmap k) :=
        L.start_ne hk' hk rfl rfl fun h => e (Region.inodeBitmap.inj h)
      exact h.bit_of_ne hne (L.inodeBitmap_not_descriptors hk') hj
  blocks k' j hk' hj := by
    have hne : v.geometry.start (.blockBitmap k') ≠ v.geometry.start (.inodeBitmap k) :=
      L.start_ne hk' hk rfl rfl (by rintro ⟨⟩)
    exact h.bit_of_ne hne (L.blockBitmap_not_descriptors hk') hj

lemma Bitmaps.congr {f g : Nat → Nat → Bool} (h : Bitmaps v w f)
    (hfg : ∀ k j, k < v.geometry.groups → j < 8 * v.geometry.bytes → f k j = g k j) :
    Bitmaps v w g :=
  ⟨fun k j hk hj => (h.inodes k j hk hj).trans (hfg k j hk hj), h.blocks⟩

lemma Bitmaps.trans {f g : Nat → Nat → Bool} (h : Bitmaps v w f)
    (hg : w.geometry = v.geometry) (h' : Bitmaps w u g) : Bitmaps v u g where
  inodes k j hk hj := h'.inodes k j (hg.symm ▸ hk) (hg.symm ▸ hj)
  blocks k j hk hj :=
    (h'.blocks k j (hg.symm ▸ hk) (hg.symm ▸ hj)).trans (h.blocks k j hk hj)

lemma Bitmaps.of_disk (hg : w.geometry = v.geometry) (hd : w.disk = v.disk) :
    Bitmaps v w fun k => v.bitmapBit (.inodeBitmap k) := by
  constructor <;>
  · intro k j _ _
    unfold bitmapBit
    rw [hg, hd]

/-- There is an inode to move the hint to. -/
def HasNext (v : Volume) : Prop :=
  ∃ k, v.inodeGroup v.spb.firstFreeInode ≤ k ∧ k < v.geometry.groups ∧ v.NextHit k

/-- `unallocate_inode` clears one bit. -/
lemma unallocateInode_bitmaps (L : v.geometry.Layout) (hk : v.inodeGroup i < v.geometry.groups) :
    TreeKept v (v.unallocateInode i).1 ∧ Bitmaps v (v.unallocateInode i).1 fun k j =>
      if k = v.inodeGroup i ∧ j = freedIndex i then false
      else v.bitmapBit (.inodeBitmap k) j := by
  obtain ⟨hclear, buf, e⟩ | ⟨_, w, e, hm, _, _⟩ := unallocateInode_spec L hk
  · rw [e]
    have hg : ((v.setFirstFreeInode (v.lowerHint i)).setStdBuf buf).geometry = v.geometry := by
      rfl
    refine ⟨.of_disk hg rfl, (Bitmaps.of_disk hg rfl).congr fun k j _ _ => ?_⟩
    split
    · rename_i h
      rw [h.1, h.2, hclear]
    · rfl
  · rw [e]
    exact ⟨hm.treeKept L hk, hm.bitmaps L hk⟩

/-! ## The entry -/

/-- `add_file` takes `name` into the directory whose block is in `buf`: the name is one it admits
and does not find there, and there is room behind the last entry or once the entries are shrunk. -/
def Accepts (buf : Bytes) (size : Nat) (name : List UInt8) : Prop :=
  name.length < 2 ^ 8 ∧ name.headD 0 ≠ DASH ∧ SLASH ∉ name ∧ nameMatches buf 0 name = false ∧
    ∃ entry room, findRoom buf size name (size + 2) 0 (entrySize buf 0) =
      some (some (entry, room)) ∧
      (DIR_ENTRY + name.length ≤ sub32 size (add32 (sub32 room (entrySize buf entry))
          (naturalSize (nameLength buf entry))) ∨
        ∃ buf' ref, shrinkEntries size (2 * size) buf 8 8 = some (buf', ref) ∧
          DIR_ENTRY + name.length ≤ sub32 size ref)

/-- `add_file` either stores a block and the links of the directory, or nothing. -/
lemma addEntry_cases {entry room r : Nat}
    (e : v.addEntry dir inode type name entry room = some (u, r)) :
    (r = 0 ∧ ∃ buf, u = v.storeDir dir type buf) ∨
      (r ≠ 0 ∧ ∃ buf, u = v.setStdBuf buf) := by
  unfold addEntry at e
  dsimp only at e
  split at e
  · obtain ⟨⟨buf, ref⟩, _, e⟩ := Option.bind_eq_some_iff.mp e
    dsimp only at e
    split at e
    · obtain ⟨rfl, rfl⟩ := Prod.mk.inj (Option.some.inj e)
      exact .inr ⟨by decide, _, rfl⟩
    · obtain ⟨rfl, rfl⟩ := Prod.mk.inj (Option.some.inj e)
      exact .inl ⟨rfl, _, rfl⟩
  · obtain ⟨rfl, rfl⟩ := Prod.mk.inj (Option.some.inj e)
    exact .inl ⟨rfl, _, rfl⟩

/-- Which of the two depends on the room. -/
lemma addEntry_zero {entry room r : Nat}
    (e : v.addEntry dir inode type name entry room = some (u, r)) :
    r = 0 ↔ DIR_ENTRY + name.length ≤ sub32 v.blockSize (add32
        (sub32 room (entrySize v.stdBuf entry)) (naturalSize (nameLength v.stdBuf entry))) ∨
      ∃ buf' ref, shrinkEntries v.blockSize (2 * v.blockSize) v.stdBuf 8 8 = some (buf', ref) ∧
        DIR_ENTRY + name.length ≤ sub32 v.blockSize ref := by
  unfold addEntry at e
  dsimp only at e
  split at e
  · rename_i hroom
    obtain ⟨⟨buf, ref⟩, hs, e⟩ := Option.bind_eq_some_iff.mp e
    dsimp only at e
    split at e
    · rename_i hfull
      obtain ⟨_, rfl⟩ := Prod.mk.inj (Option.some.inj e)
      refine ⟨nofun, fun h => ?_⟩
      obtain h | ⟨buf', ref', hs', h⟩ := h
      · exact absurd h (Nat.not_le.mpr hroom)
      · rw [hs] at hs'
        obtain ⟨_, rfl⟩ := Prod.mk.inj (Option.some.inj hs')
        exact absurd h (Nat.not_le.mpr hfull)
    · rename_i hfit
      obtain ⟨_, rfl⟩ := Prod.mk.inj (Option.some.inj e)
      exact ⟨fun _ => .inr ⟨buf, ref, hs, Nat.not_lt.mp hfit⟩, fun _ => rfl⟩
  · rename_i hroom
    obtain ⟨_, rfl⟩ := Prod.mk.inj (Option.some.inj e)
    exact ⟨fun _ => .inl (Nat.not_lt.mp hroom), fun _ => rfl⟩

/-- `add_file` has returned `r` and left the volume `u`: it accepts the entry and stores it, or
refuses it and stores nothing. -/
structure AddOutcome (v u : Volume) (dir b : Nat) (type : UInt8) (name : List UInt8) (r : Nat) :
    Prop where
  accepts : r = 0 ↔ Accepts (v.dirRead dir b).stdBuf v.blockSize name
  spb : u.spb = v.spb
  bgpt : u.bgpt = v.bgpt
  stored : r = 0 →
    ∃ buf, u.disk = v.dirDisk dir b buf (linksAdded type (v.diskLinks dir))
  kept : r ≠ 0 → u.disk = v.disk

lemma AddOutcome.refused {r : Nat} (h : ¬ Accepts (v.dirRead dir b).stdBuf v.blockSize name)
    (hr : r ≠ 0) : AddOutcome v v dir b type name r :=
  ⟨⟨fun h => absurd h hr, fun h' => absurd h' h⟩, rfl, rfl, fun h => absurd h hr, fun _ => rfl⟩

lemma AddOutcome.of_read {r : Nat} (h : AddOutcome v v dir b type name r) (hr : r ≠ 0) :
    AddOutcome v (v.dirRead dir b) dir b type name r :=
  ⟨h.accepts, rfl, rfl, fun h => absurd h hr, fun _ => rfl⟩

/-- What `add_file` does to a directory. -/
lemma IsDir.addFile_cases {r : Nat} (h : v.IsDir dir b) (hi : inode ≠ 0)
    (e : v.addFile dir inode type name = some (u, r)) : AddOutcome v u dir b type name r := by
  unfold Volume.addFile at e
  rw [if_neg h.ne_zero, if_neg hi] at e
  split at e
  · rename_i hlen
    obtain ⟨rfl, rfl⟩ := Prod.mk.inj (Option.some.inj e)
    exact .refused (fun h => hlen (Nat.div_eq_of_lt h.1)) (by decide)
  split at e
  · rename_i hdash
    obtain ⟨rfl, rfl⟩ := Prod.mk.inj (Option.some.inj e)
    exact .refused (fun h => absurd hdash h.2.1) (by decide)
  split at e
  · rename_i hslash
    obtain ⟨rfl, rfl⟩ := Prod.mk.inj (Option.some.inj e)
    exact .refused (fun h => absurd hslash h.2.2.1) (by decide)
  rename_i hlen hdash hslash
  rw [h.readDir, Option.bind_eq_bind, Option.bind_some] at e
  have hbs : (v.dirRead dir b).blockSize = v.blockSize := rfl
  rw [hbs] at e
  split at e
  · rename_i hm
    obtain ⟨rfl, rfl⟩ := Prod.mk.inj (Option.some.inj e)
    refine .of_read (.refused (fun h => ?_) (by decide)) (by decide)
    have hno := h.2.2.2.1
    rw [hm] at hno
    cases hno
  rename_i hm
  obtain ⟨found, hfind, e⟩ := Option.bind_eq_some_iff.mp e
  cases found with
  | none =>
    obtain ⟨rfl, rfl⟩ := Prod.mk.inj (Option.some.inj e)
    refine .of_read (.refused (fun h => ?_) (by decide)) (by decide)
    obtain ⟨_, _, hfind', _⟩ := h.2.2.2.2
    rw [hfind] at hfind'
    cases hfind'
  | some place =>
    obtain ⟨entry, room⟩ := place
    have hzero := addEntry_zero e
    rw [hbs] at hzero
    -- all that is left to see is whether there is room for the entry
    have haccepts : r = 0 ↔ Accepts (v.dirRead dir b).stdBuf v.blockSize name := by
      refine hzero.trans ⟨fun hr => ⟨by omega, hdash, hslash, Bool.eq_false_iff.mpr hm, entry, room,
        hfind, hr⟩, fun ha => ?_⟩
      obtain ⟨_, _, hfind', hr⟩ := ha.2.2.2.2
      rw [hfind] at hfind'
      cases hfind'
      exact hr
    obtain ⟨rfl, buf, rfl⟩ | ⟨hr, buf, rfl⟩ := addEntry_cases e
    · obtain ⟨stdBuf, stdInode, hs⟩ := h.storeDir type buf
      rw [hs]
      exact ⟨haccepts, rfl, rfl, fun _ => ⟨buf, rfl⟩, fun h => absurd rfl h⟩
    · exact ⟨haccepts, rfl, rfl, fun h => absurd h hr, fun _ => rfl⟩

/-! ## The buffer -/

lemma loadBlock_tail (hs : v.spb.blockSize ≤ 7) (hx : v.blockSize ≤ x) :
    (v.loadBlock n).stdBuf x = v.stdBuf x := by
  unfold loadBlock readLBA
  rw [sectors_blockFactor hs]
  exact Bytes.blit_apply_of_outside (by omega)

lemma inodeSearch_tail (hs : v.spb.blockSize ≤ 7) (hx : v.blockSize ≤ x) (pos : Nat) :
    (v.inodeSearch n k pos).1.stdBuf x = v.stdBuf x := by
  induction n generalizing v k pos with
  | zero => rfl
  | succ n ih =>
    have hload := loadBlock_tail (n := v.inodeAddressBitmap k) hs hx
    have hs' : (v.loadBlock (v.inodeAddressBitmap k)).spb.blockSize ≤ 7 := hs
    have hx' : (v.loadBlock (v.inodeAddressBitmap k)).blockSize ≤ x := hx
    rw [inodeSearch]
    dsimp only
    split
    · exact (ih hs' hx' _).trans hload
    split
    · exact hload
    · exact (ih hs' hx' _).trans hload

lemma setFirstFreeInode_stdBuf (v : Volume) (n : Nat) :
    (v.setFirstFreeInode n).stdBuf = v.stdBuf := rfl

lemma takeInode_stdBuf (v : Volume) (i : Nat) :
    (v.takeInode i).stdBuf = setBit v.stdBuf (v.inodeIndex i) true := by
  unfold takeInode commitBitmap
  with_reducible rfl

lemma found_stdBuf {a : Volume × Nat} {r : Volume × Nat × Nat} {y : UInt8}
    (h : r.1.stdBuf x = y) (ha : a = if r.2.2 = NONE then (r.1, 0) else
      (r.1.setFirstFreeInode ((r.2.1 * v.spb.inodePerGroup + r.2.2 + 1) % 2 ^ 32),
        v.spb.firstFreeInode)) : a.1.stdBuf x = y := by
  rw [ha]
  split
  · exact h
  · rw [setFirstFreeInode_stdBuf, h]

/-- `allocate_inode` leaves what lies behind `std_buf`. -/
lemma allocateInode_tail (L : v.geometry.Layout) (h0 : v.spb.unallocInodeNum ≠ 0)
    (hx : v.blockSize ≤ x) : v.allocateInode.1.stdBuf x = v.stdBuf x := by
  have hs : v.spb.blockSize ≤ 7 := L.supported
  have hload := loadBlock_tail (n := v.inodeAddressBitmap (v.inodeGroup v.spb.firstFreeInode)) hs hx
  have hi := inodeIndex_lt L v.spb.firstFreeInode
  have hp : v.spb.inodePerGroup ≤ 8 * v.blockSize := L.inodePerGroup_le
  have hd : 4 ∣ v.blockSize := Geometry.four_dvd_bytes (g := v.geometry)
  obtain ⟨buf, h₀⟩ := loadBlock_setStdBuf (v := v) v.stdBuf
    (v.inodeAddressBitmap (v.inodeGroup v.spb.firstFreeInode))
  change v.loadBlock _ = _ at h₀
  rw [h₀] at hload
  have htake : ((v.setStdBuf buf).takeInode v.spb.firstFreeInode).stdBuf x = v.stdBuf x := by
    rw [takeInode_stdBuf]
    exact (setBit_apply_of_ge (hi.trans_le hp) hd hx).trans hload
  have hspb : ((v.setStdBuf buf).takeInode v.spb.firstFreeInode).spb =
      { v.spb with unallocInodeNum := sub32 v.spb.unallocInodeNum 1 } := rfl
  generalize hw : (v.setStdBuf buf).takeInode v.spb.firstFreeInode = w at htake hspb
  have hbs : w.blockSize = v.blockSize := by
    unfold blockSize
    rw [hspb]
  have hsearch := (inodeSearch_tail (v := w) (n := v.inodeGroups - v.inodeGroup v.spb.firstFreeInode)
    (k := v.inodeGroup v.spb.firstFreeInode) (by rw [hspb]; exact hs) (hbs ▸ hx)
    (v.inodeIndex v.spb.firstFreeInode)).trans htake
  exact found_stdBuf hsearch (allocateInode_eq h0 h₀ hw hspb rfl)

/-! ## The call -/

/-- `allocate_inode` has taken the inode of the hint and left the volume `w`. -/
structure InodeTaken (v w : Volume) : Prop where
  tree : TreeKept v w
  bitmaps : Bitmaps v w fun k j =>
    if k = v.inodeGroup v.spb.firstFreeInode ∧ j = v.inodeIndex v.spb.firstFreeInode then true
    else v.bitmapBit (.inodeBitmap k) j
  tail : ∀ x, v.blockSize ≤ x → w.stdBuf x = v.stdBuf x

/-- `allocate_inode` when none is left as far as the superblock knows. -/
lemma allocateInode_none (h : v.spb.unallocInodeNum = 0) :
    ∃ buf, v.allocateInode = (v.setStdBuf buf, 0) := by
  obtain ⟨buf, hbuf⟩ := loadBlock_setStdBuf (v := v) v.stdBuf
    (v.inodeAddressBitmap (v.inodeGroup v.spb.firstFreeInode))
  refine ⟨buf, ?_⟩
  unfold allocateInode
  dsimp only
  rw [if_pos (show (v.loadBlock _).spb.unallocInodeNum = 0 from h)]
  exact congrArg (fun w => (w, 0)) hbuf

/-- `allocate_inode` when inodes are left. -/
lemma allocateInode_cases (L : v.geometry.Layout) (h0 : v.spb.unallocInodeNum ≠ 0)
    (hf : v.FirstValid) : ∃ w, InodeTaken v w ∧
      (v.HasNext ∧ v.allocateInode = (w, v.spb.firstFreeInode) ∨
        ¬ v.HasNext ∧ v.allocateInode = (w, 0)) := by
  have hg := hf.group_lt L
  have htail := fun x hx => allocateInode_tail (x := x) L h0 hx
  obtain ⟨w, ht, ⟨j, h1, h2, h3, e⟩ | ⟨hno, e⟩⟩ := allocateInode_spec L h0 hf
  · obtain ⟨n, e⟩ : ∃ n, v.allocateInode = (w.setFirstFreeInode n, v.spb.firstFreeInode) := ⟨_, e⟩
    have hm := ht.marked.setFirstFreeInode n
    generalize w.setFirstFreeInode n = t at e hm
    rw [e] at htail
    exact ⟨t, ⟨hm.treeKept L hg, hm.bitmaps L hg, htail⟩,
      .inl ⟨⟨j, h1, h2, (ht.hit_iff L hg h2).mp h3⟩, e⟩⟩
  · rw [e] at htail
    refine ⟨w, ⟨ht.marked.treeKept L hg, ht.marked.bitmaps L hg, htail⟩, .inr ⟨?_, e⟩⟩
    rintro ⟨k, h1, h2, h3⟩
    exact hno k h1 h2 ((ht.hit_iff L hg h2).mpr h3)

/-- The buffer of the directory once it is read is the same. -/
lemma InodeTaken.dirRead (h : InodeTaken v w) (hd : v.IsDir d b) :
    (w.dirRead d b).stdBuf = (v.dirRead d b).stdBuf := by
  have hbs := blockSize_congr h.tree.geometry
  funext x
  by_cases hx : x < v.blockSize
  · exact h.tree.dirRead hd hx
  · refine (Bytes.blit_apply_of_outside (by omega)).trans ?_
    exact (h.tail x (by omega)).trans (Bytes.blit_apply_of_outside (by omega)).symm

/-- The volume that `create_file` leaves when it gives up after `add_file` has returned. -/
lemma createFile_undone {father type : Nat} {ftype : UInt8} {v' : Volume} (hf : father ≠ 0)
    (hi : i ≠ 0) (ha : v.allocateInode = (w, i))
    (L : ∀ u r, w.addFile father i ftype name = some (u, r) → u.geometry.Layout)
    (h : v.createFile father name type ftype = some (v', 0)) :
    ∃ u r, w.addFile father i ftype name = some (u, r) ∧ ∃ t : Volume, t.geometry = u.geometry ∧
      t.disk = u.disk ∧ v' = (t.unallocateInode i).1 ∧ (r = 0 → type &&& TYPE_DIR ≠ 0) := by
  unfold createFile at h
  rw [if_neg hf, ha] at h
  dsimp only at h
  rw [if_neg hi] at h
  obtain ⟨⟨u, r⟩, hadd, h⟩ := Option.bind_eq_some_iff.mp h
  refine ⟨u, r, hadd, ?_⟩
  have L := L u r hadd
  dsimp only at h
  split at h
  · rename_i hr
    exact ⟨u, rfl, rfl, (Prod.mk.inj (Option.some.inj h)).1.symm, fun h => absurd h hr⟩
  have hg : (u.freshInode type).geometry = u.geometry := geometry_congr rfl rfl
  have hd : (u.freshInode type).disk = u.disk := rfl
  generalize u.freshInode type = t at h hg hd
  split at h
  · exact absurd (Prod.mk.inj (Option.some.inj h)).2 hi
  · rename_i htype
    obtain ⟨⟨t', block⟩, hb, h⟩ := Option.bind_eq_some_iff.mp h
    dsimp only at h
    split at h
    · rename_i h0
      rw [h0] at hb
      obtain ⟨_, buf, ht'⟩ := allocateBlock_zero (hg.symm ▸ L) hb
      have hg' : t'.geometry = u.geometry := by
        rw [ht']
        exact (geometry_congr rfl rfl).trans hg
      have hd' : t'.disk = u.disk := by
        rw [ht']
        exact hd
      exact ⟨t', hg', hd', (Prod.mk.inj (Option.some.inj h)).1.symm, fun _ => htype⟩
    · exact absurd (Prod.mk.inj (Option.some.inj h)).2 hi

/-- The condition: no inode is left as far as the superblock knows; or `allocate_inode` finds no
inode to move the hint to, and that of the hint was not free; or it finds one, the bit that
`unallocate_inode` clears was clear and is that of the inode, unless the inode was not free, and the
directory does not take the entry. -/
def CreateReady (v : Volume) (father b : Nat) (name : List UInt8) : Prop :=
  father = 0 ∨ v.spb.unallocInodeNum = 0 ∨
    (¬ v.HasNext ∧ v.inodeBit v.spb.firstFreeInode = true) ∨
      (v.HasNext ∧
        v.bitmapBit (.inodeBitmap (v.inodeGroup v.spb.firstFreeInode))
          (freedIndex v.spb.firstFreeInode) = false ∧
        (freedIndex v.spb.firstFreeInode = v.inodeIndex v.spb.firstFreeInode ∨
          v.inodeBit v.spb.firstFreeInode = true) ∧
        ¬ Accepts (v.dirRead father b).stdBuf v.blockSize name)

lemma Bitmaps.unique {f g : Nat → Nat → Bool} (h : Bitmaps v w f) (h' : Bitmaps v w g)
    (hk : k < v.geometry.groups) (hj : j < 8 * v.geometry.bytes) : f k j = g k j :=
  (h.inodes k j hk hj).symm.trans (h'.inodes k j hk hj)

/-- Taking an inode leaves the bitmaps if it was not free. -/
lemma InodeTaken.bitmaps_iff (h : InodeTaken v w) (L : v.geometry.Layout) (hf : v.FirstValid) :
    (Bitmaps v w fun k => v.bitmapBit (.inodeBitmap k)) ↔
      v.inodeBit v.spb.firstFreeInode = true := by
  have hg := hf.group_lt L
  have hi := (inodeIndex_lt L v.spb.firstFreeInode).trans_le L.inodePerGroup_le
  constructor
  · intro hb
    have e := h.bitmaps.unique hb hg hi
    rw [if_pos ⟨rfl, rfl⟩] at e
    exact e.symm
  · intro hset
    refine h.bitmaps.congr fun k j _ _ => ?_
    split
    · rename_i hkj
      rw [hkj.1, hkj.2]
      exact hset.symm
    · rfl

/-- Taking it and freeing it again leaves them if the bit that is cleared was clear. -/
lemma undone_bitmaps_iff {f g : Nat} {v' : Volume} (hg : g < v.geometry.groups) (hi : i < 8 * v.geometry.bytes) (hf : f < 8 * v.geometry.bytes)
    (h : Bitmaps v v' fun k j => if k = g ∧ j = f then false else if k = g ∧ j = i then true
      else v.bitmapBit (.inodeBitmap k) j) :
    (Bitmaps v v' fun k => v.bitmapBit (.inodeBitmap k)) ↔
      v.bitmapBit (.inodeBitmap g) f = false ∧
        (f = i ∨ v.bitmapBit (.inodeBitmap g) i = true) := by
  constructor
  · intro hb
    have hfree := h.unique hb hg hf
    rw [if_pos ⟨rfl, rfl⟩] at hfree
    refine ⟨hfree.symm, ?_⟩
    by_cases hfi : f = i
    · exact .inl hfi
    · have hset := h.unique hb hg hi
      rw [if_neg fun h => hfi h.2.symm, if_pos ⟨rfl, rfl⟩] at hset
      exact .inr hset.symm
  · rintro ⟨hfree, hset⟩
    refine h.congr fun k j _ _ => ?_
    split
    · rename_i hkj
      rw [hkj.1, hkj.2, hfree]
    · rename_i hno
      split
      · rename_i hkj
        have hne : f ≠ i := fun e => hno ⟨hkj.1, hkj.2.trans e.symm⟩
        rw [hkj.1, hkj.2, hset.resolve_left hne]
      · rfl

lemma TreeKept.same (h : TreeKept v w) {father : Nat} (hf : v.HasInode father)
    (hb : Bitmaps v w fun k => v.bitmapBit (.inodeBitmap k)) : SameTree v w father :=
  ⟨fun _ _ _ hd ht => h.entries hd ht, h.diskLinks hf, hb⟩

/-- Counting a link changes the number. -/
lemma linksAdded_ne {ftype : UInt8} {n : Nat} (h : ftype &&& FILE_DIR ≠ 0) :
    linksAdded ftype n ≠ n := by
  unfold linksAdded
  rw [if_pos h]
  omega

/-- When `create_file` has got past `allocate_inode`. -/
lemma InodeTaken.undone {father type r : Nat} {ftype : UInt8} {t v' : Volume}
    (h : InodeTaken v w) (hd : v.IsDir father b) (hf : v.FirstValid)
    (hadd : AddOutcome w u father b ftype name r) (hg : t.geometry = u.geometry)
    (ht : t.disk = u.disk) (hv : v' = (t.unallocateInode v.spb.firstFreeInode).1)
    (htype : r = 0 → type &&& TYPE_DIR ≠ 0) :
    (Accepts (v.dirRead father b).stdBuf v.blockSize name →
        (type &&& TYPE_DIR ≠ 0 → ftype &&& FILE_DIR ≠ 0) → ¬ SameTree v v' father) ∧
      (¬ Accepts (v.dirRead father b).stdBuf v.blockSize name → (SameTree v v' father ↔
        v.bitmapBit (.inodeBitmap (v.inodeGroup v.spb.firstFreeInode))
            (freedIndex v.spb.firstFreeInode) = false ∧
          (freedIndex v.spb.firstFreeInode = v.inodeIndex v.spb.firstFreeInode ∨
            v.inodeBit v.spb.firstFreeInode = true))) := by
  have L := hd.layout
  have hgu : u.geometry = w.geometry := geometry_congr hadd.spb hadd.bgpt
  have hgt : t.geometry = v.geometry := hg.trans (hgu.trans h.tree.geometry)
  have Lt : t.geometry.Layout := hgt.symm ▸ L
  have hgroup : t.inodeGroup v.spb.firstFreeInode = v.inodeGroup v.spb.firstFreeInode :=
    congrArg (fun g : Geometry => sub32 v.spb.firstFreeInode 1 / g.inodePerGroup) hgt
  have hgl := hf.group_lt L
  have haccepts := hadd.accepts
  rw [h.dirRead hd, blockSize_congr h.tree.geometry] at haccepts
  obtain ⟨hk, hb⟩ := unallocateInode_bitmaps (i := v.spb.firstFreeInode) Lt
    (by rw [hgroup, hgt]; exact hgl)
  rw [← hv, hgroup] at hb
  rw [← hv] at hk
  constructor
  · -- the entry has been stored, and the father counts one link more
    intro ha htf hsame
    have hr := haccepts.mpr ha
    obtain ⟨buf, hdisk⟩ := hadd.stored hr
    have hw := h.tree.isDir hd
    have hlinks : w.diskLinks father < 2 ^ 16 := Bytes.get16_lt _ _
    have hadded : linksAdded ftype (w.diskLinks father) < 2 ^ 16 := by
      unfold linksAdded
      split <;> omega
    have hu := (hw.stored hadd.spb hadd.bgpt hdisk).2.1 hadded
    have hut : TreeKept u t := .of_disk hg ht
    have e := (hut.trans hk).diskLinks (hd.inode.congr (hgu.trans h.tree.geometry))
    rw [hu, hsame.links, h.tree.diskLinks hd.inode] at e
    exact linksAdded_ne (htf (htype hr)) e.symm
  · intro ha
    -- nothing has been stored, so that only the bits of the inode matter
    have hr : r ≠ 0 := fun hr => ha (haccepts.mp hr)
    have hdisk : t.disk = w.disk := ht.trans (hadd.kept hr)
    have hwt : TreeKept w t := .of_disk (hg.trans hgu) hdisk
    have hbits : Bitmaps v v' fun k j =>
        if k = v.inodeGroup v.spb.firstFreeInode ∧ j = freedIndex v.spb.firstFreeInode then false
        else if k = v.inodeGroup v.spb.firstFreeInode ∧ j = v.inodeIndex v.spb.firstFreeInode
          then true else v.bitmapBit (.inodeBitmap k) j := by
      have hvt := h.bitmaps.trans h.tree.geometry (Bitmaps.of_disk (hg.trans hgu) hdisk)
      refine (hvt.trans hgt hb).congr fun k j hk hj => ?_
      rw [hvt.inodes k j hk hj]
      rw [← h.bitmaps.inodes k j hk hj]
    refine (show SameTree v v' father ↔ Bitmaps v v' _ from ⟨fun hs => hs.bitmaps, fun hs =>
      ((h.tree.trans hwt).trans hk).same hd.inode hs⟩).trans (undone_bitmaps_iff hgl
        ((inodeIndex_lt L _).trans_le L.inodePerGroup_le) (freedIndex_lt _) hbits)

/-- **File creation.** For every volume, father directory, name, type and ftype: a call of
`create_file` that returns 0 leaves the tree and the bitmaps under the condition; and only then, if
a directory is created with the file type of one. -/
theorem create_all_or_nothing (v v' : Volume) (father b type : Nat) (name : List UInt8)
    (ftype : UInt8) (L : v.geometry.Layout) (hf : v.spb.unallocInodeNum ≠ 0 → v.FirstValid)
    (hd : father ≠ 0 → v.IsDir father b)
    (h : v.createFile father name type ftype = some (v', 0)) :
    (CreateReady v father b name → SameTree v v' father) ∧
      ((type &&& TYPE_DIR ≠ 0 → ftype &&& FILE_DIR ≠ 0) →
        (SameTree v v' father ↔ CreateReady v father b name)) := by
  have hrefl := Bitmaps.of_disk (v := v) rfl rfl
  by_cases h0 : father = 0
  · -- the last free inode is taken, but 0 is returned
    unfold createFile at h
    rw [if_pos h0] at h
    obtain rfl := (Prod.mk.inj (Option.some.inj h)).1
    have hsame : SameTree v v father :=
      ⟨fun _ _ _ hd ht => (TreeKept.refl v).entries hd ht, rfl, hrefl⟩
    exact ⟨fun _ => hsame, fun _ => ⟨fun _ => .inl h0, fun _ => hsame⟩⟩
  have hd := hd h0
  by_cases hn : v.spb.unallocInodeNum = 0
  · obtain ⟨buf, e⟩ := allocateInode_none hn
    unfold createFile at h
    rw [if_neg h0, e] at h
    dsimp only at h
    rw [if_pos rfl] at h
    obtain rfl := (Prod.mk.inj (Option.some.inj h)).1
    have hg : (v.setStdBuf buf).geometry = v.geometry := geometry_congr rfl rfl
    have hsame : SameTree v (v.setStdBuf buf) father :=
      (TreeKept.of_disk hg rfl).same hd.inode (Bitmaps.of_disk hg rfl)
    exact ⟨fun _ => hsame, fun _ => ⟨fun _ => .inr (.inl hn), fun _ => hsame⟩⟩
  have hf := hf hn
  have hi : v.spb.firstFreeInode ≠ 0 := Nat.ne_of_gt hf.1
  obtain ⟨w, T, ⟨hnext, e⟩ | ⟨hnext, e⟩⟩ := allocateInode_cases L hn hf
  · -- an inode is returned
    have hw := T.tree.isDir hd
    obtain ⟨u, r, hadd, t, hg, ht, hv, htype⟩ := createFile_undone h0 hi e (fun u r hadd => by
      have A := hw.addFile_cases hi hadd
      exact (geometry_congr A.spb A.bgpt).symm ▸ hw.layout) h
    obtain ⟨haccepts, hrefuses⟩ := T.undone hd hf (hw.addFile_cases hi hadd) hg ht hv htype
    constructor
    · rintro (h | h | h | h)
      · exact absurd h h0
      · exact absurd h hn
      · exact absurd hnext h.1
      · exact (hrefuses h.2.2.2).mpr ⟨h.2.1, h.2.2.1⟩
    · intro htf
      by_cases ha : Accepts (v.dirRead father b).stdBuf v.blockSize name
      · refine ⟨fun hs => absurd hs (haccepts ha htf), ?_⟩
        rintro (h | h | h | h)
        · exact absurd h h0
        · exact absurd h hn
        · exact absurd hnext h.1
        · exact absurd ha h.2.2.2
      · refine (hrefuses ha).trans ⟨fun h => .inr (.inr (.inr ⟨hnext, h.1, h.2, ha⟩)), ?_⟩
        rintro (h | h | h | h)
        · exact absurd h h0
        · exact absurd h hn
        · exact absurd hnext h.1
        · exact ⟨h.2.1, h.2.2.1⟩
  · unfold createFile at h
    rw [if_neg h0, e] at h
    dsimp only at h
    rw [if_pos rfl] at h
    obtain rfl := (Prod.mk.inj (Option.some.inj h)).1
    have hiff : SameTree v w father ↔ v.inodeBit v.spb.firstFreeInode = true :=
      (show _ ↔ Bitmaps v w _ from ⟨fun hs => hs.bitmaps, fun hs => T.tree.same hd.inode hs⟩).trans
        (T.bitmaps_iff L hf)
    have hready : CreateReady v father b name ↔ v.inodeBit v.spb.firstFreeInode = true := by
      constructor
      · rintro (h | h | h | h)
        · exact absurd h h0
        · exact absurd h hn
        · exact h.2
        · exact absurd h.1 hnext
      · exact fun h => .inr (.inr (.inl ⟨hnext, h⟩))
    exact ⟨fun h => hiff.mpr (hready.mp h), fun _ => hiff.trans hready.symm⟩

/-! ### A volume without free blocks -/

/-- The words of the sample directory on a volume on which inodes 13 and 14 are free. -/
def twoInodesWord (n i : Nat) : Nat :=
  if n = 4 ∧ i = 0 then 2 ^ 32 - 1 - 2 ^ 12 - 2 ^ 13 else dirWord n i

/-- The volume with that directory and no free block. -/
def twoInodes : Volume :=
  sampleVolume twoInodesWord (fun k => if k = 0 then 2 * 2 ^ 16 else 0) 0 2 13

lemma twoInodes_geometry : twoInodes.geometry = sampleGeometry := sampleVolume_geometry _ _ _ _ _

lemma twoInodes_isDir : twoInodes.IsDir 2 14 := sampleVolume_isDir (by decide +kernel)

lemma twoInodes_hasNext : twoInodes.HasNext := by
  have hg : 0 < twoInodes.geometry.groups := by
    rw [twoInodes_geometry]
    decide
  refine ⟨0, by decide +kernel, hg, ?_⟩
  unfold NextHit
  dsimp only
  rw [if_pos (by decide +kernel)]
  exact ⟨by decide +kernel, by decide +kernel⟩

/-- "ab" is in the directory already. -/
theorem create_all_or_nothing_refused :
    ∃ v', twoInodes.createFile 2 [97, 98] 0x8000 1 = some (v', 0) ∧ SameTree twoInodes v' 2 := by
  have h : (twoInodes.createFile 2 [97, 98] 0x8000 1).map Prod.snd = some 0 := by decide +kernel
  obtain ⟨⟨v', r⟩, h, rfl⟩ := Option.map_eq_some_iff.mp h
  have hfirst : twoInodes.FirstValid := by
    unfold FirstValid
    rw [twoInodes_geometry]
    decide +kernel
  refine ⟨v', h, (create_all_or_nothing twoInodes v' 2 14 0x8000 [97, 98] 1 twoInodes_isDir.layout
    (fun _ => hfirst) (fun _ => twoInodes_isDir) h).1 (.inr (.inr (.inr ⟨twoInodes_hasNext,
      by decide +kernel, by decide +kernel, ?_⟩)))⟩
  rintro ⟨_, _, _, _, _, _, hfind, _⟩
  have hfound : findRoom (twoInodes.dirRead 2 14).stdBuf twoInodes.blockSize [97, 98]
      (twoInodes.blockSize + 2) 0 (entrySize (twoInodes.dirRead 2 14).stdBuf 0) = some none := by
    decide +kernel
  rw [hfound] at hfind
  cases hfind

/-- A directory "x" for which there is no block: the link of the father stays. -/
theorem create_leaves_entry :
    ∃ v', twoInodes.createFile 2 [120] TYPE_DIR FILE_DIR = some (v', 0) ∧
      twoInodes.IsDir 2 14 ∧ ¬ SameTree twoInodes v' 2 := by
  have h : (twoInodes.createFile 2 [120] TYPE_DIR FILE_DIR).map (fun r => (r.2, r.1.diskLinks 2)) =
      some (0, 1) := by
    decide +kernel
  obtain ⟨⟨v', r⟩, h, hr⟩ := Option.map_eq_some_iff.mp h
  obtain ⟨rfl, hlinks⟩ := Prod.mk.inj hr
  have hbefore : twoInodes.diskLinks 2 = 0 := by decide +kernel
  refine ⟨v', h, twoInodes_isDir, fun hs => ?_⟩
  have hlinks : v'.diskLinks 2 = 1 := hlinks
  rw [hs.links, hbefore] at hlinks
  cases hlinks

end Volume

end MarioBrOS.Fs
