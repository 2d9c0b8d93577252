import MarioBrOS.Fs.FullDisk

/-!
# What an allocation depends on

`allocate_block` reads the superblock, the group descriptors and the block bitmaps. On two volumes
that agree on these (`Alike`) it returns the same block, and they agree afterwards. So the calls
that `prepare_blocks` makes can be spoken of without what it writes between them (`Supply`).
-/

namespace MarioBrOS.Fs

/-! ## Congruences -/

/-- What a transfer writes to a byte depends on the byte and on the buffer. -/
lemma writeLBA_congr {d d' m m' : Bytes} {lba n x : Nat} (hd : d' x = d x)
    (hm : ∀ y, y < 512 * sectors n → m' y = m y) :
    writeLBA d' lba n m' x = writeLBA d lba n m x := by
  unfold writeLBA
  by_cases hx : lbaByte lba ≤ x ∧ x < lbaByte lba + 512 * sectors n
  · rw [Bytes.blit_apply_of_inside hx, Bytes.blit_apply_of_inside hx]
    exact hm _ (by omega)
  · rw [Bytes.blit_apply_of_outside (by omega), Bytes.blit_apply_of_outside (by omega)]
    exact hd

/-- `set_bit` depends on the bytes of the bitset. -/
lemma setBit_congr {m m' : Bytes} {b n x : Nat} (hm : ∀ y, y < n → m' y = m y) (h4 : 4 ∣ n)
    (hb : b < 8 * n) (hx : x < n) : setBit m' b true x = setBit m b true x := by
  have hw : m'.get32 (4 * (b / 32)) = m.get32 (4 * (b / 32)) :=
    Bytes.get32_congr fun y h1 h2 => hm y (by omega)
  unfold setBit Bytes.set32
  rw [hw, hm x hx]

namespace Volume

variable {v v' w : Volume} {b k n pos prec addr x : Nat}

/-- Two volumes that are the same to `allocate_block`. -/
structure Alike (v w : Volume) : Prop where
  spb : w.spb = v.spb
  bgpt : w.bgpt = v.bgpt
  bytes : ∀ x, v.geometry.AllocByte x → w.disk x = v.disk x

lemma Alike.refl (v : Volume) : Alike v v := ⟨rfl, rfl, fun _ _ => rfl⟩

lemma Alike.geometry (A : Alike v w) : w.geometry = v.geometry := geometry_congr A.spb A.bgpt

lemma Alike.trans {u : Volume} (A : Alike v w) (B : Alike w u) : Alike v u where
  spb := B.spb.trans A.spb
  bgpt := B.bgpt.trans A.bgpt
  bytes x hx := (B.bytes x (A.geometry.symm ▸ hx)).trans (A.bytes x hx)

/-! ## The search -/

/-- A group is searched with the same outcome. -/
lemma Alike.paramFfb (A : Alike v w) (L : v.geometry.Layout) (hk : k < v.geometry.groups)
    (pos : Nat) : paramFfb (w.blockBits k) w.spb.blockPerGroup pos =
      paramFfb (v.blockBits k) v.spb.blockPerGroup pos := by
  have hper : v.spb.blockPerGroup ≤ 8 * v.geometry.bytes := L.blockPerGroup_le
  rw [A.spb]
  refine paramFfb_congr fun x hx => ?_
  unfold blockBits
  have hb : w.blockAddressBitmap k = v.blockAddressBitmap k :=
    congrArg (fun m : Bytes => m.get32 (32 * k)) A.bgpt
  rw [A.geometry, hb]
  refine A.bytes _ (.inl ⟨k, hk, Nat.le_add_right _ _, Nat.add_lt_add_left ?_ _⟩)
  omega

/-- Both searches stop at the same place: at a free position of a group, whose bitmap is loaded, or
behind the last group. -/
lemma Alike.blockSearch (A : Alike v w) (L : v.geometry.Layout) (n k pos : Nat)
    (hn : k + n = v.geometry.groups) (h0 : n = 0 → pos = 0 ∨ pos = NONE) (buf buf' : Bytes) :
    ∃ c c' r, blockSearch (v.setStdBuf buf) n k pos = (v.setStdBuf c, r) ∧
      blockSearch (w.setStdBuf buf') n k pos = (w.setStdBuf c', r) ∧
      (r.1 < v.geometry.groups ∧ r.2 < v.spb.blockPerGroup ∧
          (v.setStdBuf c).Loaded (v.blockAddressBitmap r.1) ∧
          (w.setStdBuf c').Loaded (w.blockAddressBitmap r.1) ∨
        r.1 = v.geometry.groups ∧ (r.2 = 0 ∨ r.2 = NONE)) := by
  have Lw : w.geometry.Layout := A.geometry.symm ▸ L
  induction n generalizing k pos buf buf' with
  | zero => exact ⟨buf, buf', (k, pos), rfl, rfl, .inr ⟨hn, h0 rfl⟩⟩
  | succ n ih =>
    have hk : k < v.geometry.groups := by omega
    obtain ⟨c, hc, e⟩ := blockSearch_succ L hk n pos buf
    obtain ⟨c', hc', e'⟩ := blockSearch_succ Lw (A.geometry.symm ▸ hk) n pos buf'
    have hu : w.unallocBlock k = v.unallocBlock k :=
      congrArg (fun m : Bytes => m.get16 (32 * k + 12)) A.bgpt
    rw [hu, A.paramFfb L hk] at e'
    rw [e, e']
    by_cases h : v.unallocBlock k = 0
    · rw [if_pos h, if_pos h]
      exact ih (k + 1) NONE (by omega) (fun _ => .inr rfl) c c'
    rw [if_neg h, if_neg h]
    by_cases hp : MarioBrOS.paramFfb (v.blockBits k) v.spb.blockPerGroup pos = NONE
    · rw [if_pos hp, if_pos hp]
      exact ih (k + 1) 0 (by omega) (fun _ => .inl rfl) c c'
    · rw [if_neg hp, if_neg hp]
      exact ⟨c, c', _, rfl, rfl, .inl ⟨hk, (paramFfb_spec hp).1, hc, hc'⟩⟩

/-! ## The block taken -/

/-- The same block is taken on both. -/
lemma Alike.takeBlock {c c' : Bytes} (A : Alike v w) (L : v.geometry.Layout)
    (hk : k < v.geometry.groups) (hpos : pos < v.spb.blockPerGroup)
    (hc : (v.setStdBuf c).Loaded (v.blockAddressBitmap k))
    (hc' : (w.setStdBuf c').Loaded (w.blockAddressBitmap k)) :
    Alike ((v.setStdBuf c).takeBlock k pos) ((w.setStdBuf c').takeBlock k pos) := by
  obtain ⟨disk, spb, bgpt, buf, inode⟩ := w
  obtain rfl : spb = v.spb := A.spb
  obtain rfl : bgpt = v.bgpt := A.bgpt
  have hg : ((v.setStdBuf c).takeBlock k pos).geometry = v.geometry :=
    (takeBlock_marked (v := v.setStdBuf c) (i := pos) L hk hc).geometry
  -- the bitmaps in the two buffers are the same, since those on the disks are
  have hsame : ∀ y, y < v.blockSize → c' y = c y := by
    intro y hy
    have h1 : c y = v.disk (v.geometry.blockByte (v.blockAddressBitmap k) + y) := hc y hy
    have h2 : c' y = disk (v.geometry.blockByte (v.blockAddressBitmap k) + y) := hc' y hy
    rw [h1, h2]
    exact A.bytes _ (.inl ⟨k, hk, Nat.le_add_right _ _, Nat.add_lt_add_left hy _⟩)
  have hsectors : 512 * sectors v.blockFactor = v.blockSize := sectors_blockFactor L.supported
  have hper : v.spb.blockPerGroup ≤ 8 * v.blockSize := L.blockPerGroup_le
  refine ⟨rfl, rfl, fun x hx => ?_⟩
  refine writeLBA_congr (writeLBA_congr (A.bytes x (hg ▸ hx)) fun y hy => ?_) fun _ _ => rfl
  exact setBit_congr hsame (Geometry.four_dvd_bytes (g := v.geometry)) (hpos.trans_le hper)
    (hy.trans_eq hsectors)

/-- One pass of `allocate_block`, by the outcome of its search. -/
lemma allocatePass_eq {c c' : Bytes} {r : Nat × Nat}
    (hc : v.loadBlock (v.blockAddressBitmap (prec / v.spb.blockPerGroup)) = v.setStdBuf c)
    (e : (v.setStdBuf c).blockSearch (v.lastGroup + 1 - prec / v.spb.blockPerGroup)
      (prec / v.spb.blockPerGroup) (prec % v.spb.blockPerGroup) = (v.setStdBuf c', r)) :
    v.allocatePass prec =
      if v.spb.unallocBlockNum = 0 then (v.setStdBuf c, some 0)
      else if r.2 ≠ NONE then
        ((v.setStdBuf c').takeBlock r.1 r.2, some ((r.1 * v.spb.blockPerGroup + r.2) % 2 ^ 32))
      else (v.setStdBuf c', none) := by
  unfold Volume.allocatePass
  dsimp only
  rw [hc]
  have e' : (v.setStdBuf c).blockSearch ((v.setStdBuf c).lastGroup + 1 -
      prec / v.spb.blockPerGroup) (prec / v.spb.blockPerGroup)
      (prec % (v.setStdBuf c).spb.blockPerGroup) = (v.setStdBuf c', r) := e
  rw [e']
  rfl

/-- One pass of `allocate_block` has the same outcome, unless it ends behind the last group. -/
lemma Alike.allocatePass (A : Alike v w) (L : v.geometry.Layout) (hp : prec < v.spb.blockNum) :
    (∃ u u' o, v.allocatePass prec = (u, o) ∧ w.allocatePass prec = (u', o) ∧ Alike u u' ∧
        u.geometry = v.geometry) ∨
      (v.allocatePass prec).2 = some (v.geometry.groups * v.spb.blockPerGroup % 2 ^ 32) := by
  obtain ⟨disk, spb, bgpt, buf, inode⟩ := w
  obtain rfl : spb = v.spb := A.spb
  obtain rfl : bgpt = v.bgpt := A.bgpt
  have hk : prec / v.spb.blockPerGroup < v.geometry.groups := L.group_lt hp
  have hlast := lastGroup_succ L
  obtain ⟨b, hb⟩ := loadBlock_setStdBuf (v := v) v.stdBuf
    (v.blockAddressBitmap (prec / v.spb.blockPerGroup))
  obtain ⟨b', hb'⟩ := loadBlock_setStdBuf (v := ⟨disk, v.spb, v.bgpt, buf, inode⟩) buf
    (v.blockAddressBitmap (prec / v.spb.blockPerGroup))
  obtain ⟨c, c', r, e, e', h⟩ := A.blockSearch L (v.lastGroup + 1 - prec / v.spb.blockPerGroup)
    (prec / v.spb.blockPerGroup) (prec % v.spb.blockPerGroup) (by omega) (fun h => by omega) b b'
  have hv := allocatePass_eq (v := v) hb e
  have hw := allocatePass_eq (v := ⟨disk, v.spb, v.bgpt, buf, inode⟩) hb' e'
  rw [hv, hw]
  have hbuf : ∀ c c' : Bytes, Alike (v.setStdBuf c)
      (Volume.setStdBuf ⟨disk, v.spb, v.bgpt, buf, inode⟩ c') := fun _ _ => ⟨rfl, rfl, A.bytes⟩
  by_cases h0 : v.spb.unallocBlockNum = 0
  · rw [if_pos h0, if_pos h0]
    exact .inl ⟨_, _, _, rfl, rfl, hbuf b b', rfl⟩
  rw [if_neg h0, if_neg h0]
  by_cases hr : r.2 = NONE
  · rw [if_neg (not_not.mpr hr), if_neg (not_not.mpr hr)]
    exact .inl ⟨_, _, _, rfl, rfl, hbuf c c', rfl⟩
  rw [if_pos hr, if_pos hr]
  rcases h with ⟨h1, h2, h3, h4⟩ | ⟨h1, h2⟩
  · exact .inl ⟨_, _, _, rfl, rfl, A.takeBlock L h1 h2 h3 h4,
      (takeBlock_marked (v := v.setStdBuf c) (i := r.2) L h1 h3).geometry⟩
  · rw [h2.resolve_right hr, h1]
    exact .inr rfl

/-- The number of the block behind the last group is that of no block. -/
lemma behind_ne (L : v.geometry.Layout) (hb : b < v.spb.blockNum) :
    b ≠ v.geometry.groups * v.spb.blockPerGroup % 2 ^ 32 := by
  have hlt := @number_lt v v.geometry.groups L 0 (le_refl _)
  rw [Nat.add_zero] at hlt
  rw [Nat.mod_eq_of_lt hlt]
  exact (hb.trans_le L.blockNum_le).ne

/-- `allocate_block` returns the same block on both. -/
lemma Alike.allocateBlock (A : Alike v w) (L : v.geometry.Layout)
    (h : v.allocateBlock prec = some (v', b)) (hb : b < v.spb.blockNum) :
    ∃ w', w.allocateBlock prec = some (w', b) ∧ Alike v' w' := by
  have hstart : w.searchStart prec = v.searchStart prec := by
    unfold searchStart
    rw [A.spb]
  unfold Volume.allocateBlock at h ⊢
  dsimp only at h ⊢
  rw [hstart]
  generalize hp : v.searchStart prec = p at h
  rcases A.allocatePass L (hp ▸ (searchStart_spec L prec).2) with ⟨u, u', o, e, e', B, hu⟩ | e
  · rw [e] at h
    rw [e']
    cases o with
    | some c =>
      obtain ⟨rfl, rfl⟩ := Prod.mk.inj (Option.some.inj h)
      exact ⟨u', rfl, B⟩
    | none =>
      dsimp only at h ⊢
      by_cases h1 : p = 1
      · rw [if_pos h1] at h
        cases h
      rw [if_neg h1] at h ⊢
      have Lu : u.geometry.Layout := hu.symm ▸ L
      have hnum : u.spb.blockNum = v.spb.blockNum := congrArg Geometry.blockNum hu
      rcases B.allocatePass Lu (show 1 < u.spb.blockNum from Lu.two_le_blockNum) with
        ⟨t, t', o, e, e', C, _⟩ | e
      · rw [e] at h
        rw [e']
        cases o with
        | some c =>
          obtain ⟨rfl, rfl⟩ := Prod.mk.inj (Option.some.inj h)
          exact ⟨t', rfl, C⟩
        | none => cases h
      · rw [e] at h
        exact absurd (Prod.mk.inj (Option.some.inj h)).2.symm (behind_ne Lu (hnum.symm ▸ hb))
  · rw [e] at h
    exact absurd (Prod.mk.inj (Option.some.inj h)).2.symm (behind_ne L hb)

/-! ## The calls to come -/

/-- The next `n` calls of `allocate_block`, each after the block that the one before returned and
the first after `addr`, return blocks that are free when the call is made. -/
inductive Supply : Nat → Volume → Nat → Prop where
  | done {v : Volume} {addr : Nat} : Supply 0 v addr
  | next {n : Nat} {v w : Volume} {addr b : Nat} (h : v.allocateBlock addr = some (w, b))
      (h0 : b ≠ 0) (hb : v.BlockFree b) (rest : Supply n w b) : Supply (n + 1) v addr

lemma Alike.spoiled (A : Alike v w) : Spoiled v w :=
  ⟨A.geometry, fun k x hk hx => A.bytes x (.inl ⟨k, hk, hx⟩)⟩

/-- The calls return the same blocks on the other volume. -/
lemma Supply.alike (S : Supply n v addr) (A : Alike v w) (L : v.geometry.Layout) :
    Supply n w addr := by
  induction S generalizing w with
  | done => exact .done
  | @next n v u addr b h h0 hb _ ih =>
    obtain ⟨u', h', B⟩ := A.allocateBlock L h hb.1
    exact .next h' h0 ((A.spoiled.blockFree L b).mpr hb)
      (ih B ((allocateBlock_takes L h h0 hb).1.symm ▸ L))

end Volume

end MarioBrOS.Fs
