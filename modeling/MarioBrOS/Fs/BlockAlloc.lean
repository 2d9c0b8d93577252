import MarioBrOS.Fs.Marked
import MarioBrOS.Fs.Sample

/-!
# Allocating a block

What `allocate_block` does from any state: it takes the first position that its search hits, fails
over to block 1 when the last group is full, and takes position 0 of a group that does not exist
when the search ends in a last group with free blocks (`allocatePass_spec`). `allocateBlock_correct`
says for which states it does what its description says.
-/

namespace MarioBrOS.Fs

namespace Volume

variable {v v' : Volume} {n k j i x : Nat}

/-! ## What the search hits -/

/-- The position from which the search looks through group `k`, if it starts with position `pos` of
group `k₀`: it looks nowhere in a group that comes after a full one. -/
def blockFrom (v : Volume) (k₀ pos k : Nat) : Nat :=
  if k = k₀ then pos else if v.unallocBlock (k - 1) = 0 then NONE else 0

/-- Group `k` has a free block where the search looks. -/
def BlockHit (v : Volume) (k₀ pos k : Nat) : Prop :=
  v.unallocBlock k ≠ 0 ∧
    paramFfb (v.blockBits k) v.spb.blockPerGroup (v.blockFrom k₀ pos k) ≠ NONE

/-- A search that starts at block `prec` finds a block. -/
def HitFrom (v : Volume) (prec : Nat) : Prop :=
  ∃ k, prec / v.spb.blockPerGroup ≤ k ∧ k < v.geometry.groups ∧
    v.BlockHit (prec / v.spb.blockPerGroup) (prec % v.spb.blockPerGroup) k

/-- The search takes the first hit, or ends behind the last group. -/
lemma blockSearch_spec (L : v.geometry.Layout) {k₀ pos₀ : Nat} :
    ∀ n k pos buf, k + n = v.geometry.groups → k₀ ≤ k → k₀ < k + n →
      pos = v.blockFrom k₀ pos₀ k →
      ∃ buf', (blockSearch (v.setStdBuf buf) n k pos).1 = v.setStdBuf buf' ∧
        ((∃ j, k ≤ j ∧ j < v.geometry.groups ∧ v.BlockHit k₀ pos₀ j ∧
            (v.setStdBuf buf').Loaded (v.blockAddressBitmap j) ∧
            (blockSearch (v.setStdBuf buf) n k pos).2 =
              (j, paramFfb (v.blockBits j) v.spb.blockPerGroup (v.blockFrom k₀ pos₀ j))) ∨
          (∀ j, k ≤ j → j < v.geometry.groups → ¬ v.BlockHit k₀ pos₀ j) ∧
            (blockSearch (v.setStdBuf buf) n k pos).2 =
              (v.geometry.groups,
                if v.unallocBlock (v.geometry.groups - 1) = 0 then NONE else 0)) := by
  intro n
  induction n with
  | zero =>
    intro k pos buf hkn hk₀ hlt hpos
    refine ⟨buf, rfl, .inr ⟨fun j h1 h2 => by omega, ?_⟩⟩
    have hk : k = v.geometry.groups := hkn
    rw [blockFrom, if_neg (by omega)] at hpos
    rw [blockSearch, hpos, hk]
  | succ n ih =>
    intro k pos buf hkn hk₀ _ hpos
    have hk : k < v.geometry.groups := by omega
    rcases blockSearch_succ L hk n pos buf with ⟨buf', hload, e⟩
    rw [e, hpos]
    -- a miss in this group hands the rest of the search its position
    have hmiss : ∀ pos', ¬ v.BlockHit k₀ pos₀ k → pos' = v.blockFrom k₀ pos₀ (k + 1) →
        ∃ buf'', (blockSearch (v.setStdBuf buf') n (k + 1) pos').1 = v.setStdBuf buf'' ∧
          ((∃ j, k ≤ j ∧ j < v.geometry.groups ∧ v.BlockHit k₀ pos₀ j ∧
              (v.setStdBuf buf'').Loaded (v.blockAddressBitmap j) ∧
              (blockSearch (v.setStdBuf buf') n (k + 1) pos').2 =
                (j, paramFfb (v.blockBits j) v.spb.blockPerGroup (v.blockFrom k₀ pos₀ j))) ∨
            (∀ j, k ≤ j → j < v.geometry.groups → ¬ v.BlockHit k₀ pos₀ j) ∧
              (blockSearch (v.setStdBuf buf') n (k + 1) pos').2 =
                (v.geometry.groups,
                  if v.unallocBlock (v.geometry.groups - 1) = 0 then NONE else 0)) := by
      intro pos' hno hpos'
      rcases ih (k + 1) pos' buf' (by omega) (by omega) (by omega) hpos' with ⟨buf'', e1, h⟩
      refine ⟨buf'', e1, ?_⟩
      rcases h with ⟨j, h1, h2⟩ | ⟨h1, h2⟩
      · exact .inl ⟨j, by omega, h2⟩
      · refine .inr ⟨fun j hj1 hj2 => ?_, h2⟩
        rcases Nat.eq_or_lt_of_le hj1 with rfl | hlt
        · exact hno
        · exact h1 j hlt hj2
    have hnext : v.blockFrom k₀ pos₀ (k + 1) = if v.unallocBlock k = 0 then NONE else 0 := by
      rw [blockFrom, if_neg (by omega), Nat.add_sub_cancel]
    by_cases hu : v.unallocBlock k = 0
    · rw [if_pos hu]
      exact hmiss _ (fun h => h.1 hu) (by rw [hnext, if_pos hu])
    rw [if_neg hu]
    by_cases hp : paramFfb (v.blockBits k) v.spb.blockPerGroup (v.blockFrom k₀ pos₀ k) = NONE
    · rw [if_pos hp]
      exact hmiss _ (fun h => h.2 hp) (by rw [hnext, if_neg hu])
    · rw [if_neg hp]
      exact ⟨buf', rfl, .inl ⟨k, le_refl _, hk, ⟨hu, hp⟩, hload, rfl⟩⟩

/-- The groups the search looks at are those of the volume. -/
lemma lastGroup_succ (L : v.geometry.Layout) : v.lastGroup + 1 = v.geometry.groups := by
  have h2 : 2 ≤ v.spb.blockNum := L.two_le_blockNum
  have hp : 0 < v.spb.blockPerGroup := L.blockPerGroup_pos
  have hr : 2 * 2 ^ v.spb.blockSize * v.spb.blockNum + 0x800 ≤ 2 ^ 28 := L.reach
  have hn : v.spb.blockNum ≤ 2 * 2 ^ v.spb.blockSize * v.spb.blockNum :=
    Nat.le_mul_of_pos_left _ (Nat.mul_pos (by omega) (Nat.two_pow_pos _))
  show sub32 v.spb.blockNum 1 / v.spb.blockPerGroup + 1 =
    (v.spb.blockNum + v.spb.blockPerGroup - 1) / v.spb.blockPerGroup
  rw [sub32_of_le (by omega) (by omega), ← Nat.add_div_right _ hp]
  congr 1
  omega

/-- One pass of `allocate_block`, when blocks are left: it takes the first hit; without a hit it
gives up if the last group is full, and takes position 0 behind the last group otherwise. -/
lemma allocatePass_spec (L : v.geometry.Layout) (h0 : v.spb.unallocBlockNum ≠ 0) {prec : Nat}
    (hp : prec < v.spb.blockNum) (buf : Bytes) :
    ∃ buf',
      (∃ k pos, v.BlockHit (prec / v.spb.blockPerGroup) (prec % v.spb.blockPerGroup) k ∧
          prec / v.spb.blockPerGroup ≤ k ∧ k < v.geometry.groups ∧
          pos = paramFfb (v.blockBits k) v.spb.blockPerGroup
            (v.blockFrom (prec / v.spb.blockPerGroup) (prec % v.spb.blockPerGroup) k) ∧
          (v.setStdBuf buf').Loaded (v.blockAddressBitmap k) ∧
          (v.setStdBuf buf).allocatePass prec =
            ((v.setStdBuf buf').takeBlock k pos,
              some ((k * v.spb.blockPerGroup + pos) % 2 ^ 32))) ∨
        ¬ v.HitFrom prec ∧ v.unallocBlock (v.geometry.groups - 1) = 0 ∧
          (v.setStdBuf buf).allocatePass prec = (v.setStdBuf buf', none) ∨
        ¬ v.HitFrom prec ∧ v.unallocBlock (v.geometry.groups - 1) ≠ 0 ∧
          (v.setStdBuf buf).allocatePass prec =
            ((v.setStdBuf buf').takeBlock v.geometry.groups 0,
              some (v.geometry.groups * v.spb.blockPerGroup % 2 ^ 32)) := by
  have hk : prec / v.spb.blockPerGroup < v.geometry.groups := L.group_lt hp
  rcases loadBlock_setStdBuf (v := v) buf
    (v.blockAddressBitmap (prec / v.spb.blockPerGroup)) with ⟨buf₁, hb⟩
  have hn : prec / v.spb.blockPerGroup + (v.lastGroup + 1 - prec / v.spb.blockPerGroup) =
      v.geometry.groups := by
    rw [lastGroup_succ L]
    omega
  rcases blockSearch_spec L _ _ (prec % v.spb.blockPerGroup) buf₁ hn (le_refl _) (by omega)
    (by rw [blockFrom, if_pos rfl]) with ⟨buf', e1, h⟩
  have key : (v.setStdBuf buf).allocatePass prec =
      if (blockSearch (v.setStdBuf buf₁) (v.lastGroup + 1 - prec / v.spb.blockPerGroup)
          (prec / v.spb.blockPerGroup) (prec % v.spb.blockPerGroup)).2.2 ≠ NONE then
        ((v.setStdBuf buf').takeBlock
          (blockSearch (v.setStdBuf buf₁) (v.lastGroup + 1 - prec / v.spb.blockPerGroup)
            (prec / v.spb.blockPerGroup) (prec % v.spb.blockPerGroup)).2.1
          (blockSearch (v.setStdBuf buf₁) (v.lastGroup + 1 - prec / v.spb.blockPerGroup)
            (prec / v.spb.blockPerGroup) (prec % v.spb.blockPerGroup)).2.2,
          some (((blockSearch (v.setStdBuf buf₁) (v.lastGroup + 1 - prec / v.spb.blockPerGroup)
            (prec / v.spb.blockPerGroup) (prec % v.spb.blockPerGroup)).2.1 * v.spb.blockPerGroup +
            (blockSearch (v.setStdBuf buf₁) (v.lastGroup + 1 - prec / v.spb.blockPerGroup)
            (prec / v.spb.blockPerGroup) (prec % v.spb.blockPerGroup)).2.2) % 2 ^ 32))
      else (v.setStdBuf buf', none) := by
    rw [← e1]
    have hb' : (v.setStdBuf buf).loadBlock ((v.setStdBuf buf).blockAddressBitmap
      (prec / (v.setStdBuf buf).spb.blockPerGroup)) = v.setStdBuf buf₁ := hb
    unfold allocatePass
    dsimp only
    rw [hb']
    exact if_neg h0
  refine ⟨buf', ?_⟩
  rw [key]
  rcases h with ⟨j, h1, h2, h3, h4, h5⟩ | ⟨h1, h2⟩
  · refine .inl ⟨j, _, h3, h1, h2, rfl, h4, ?_⟩
    rw [h5]
    exact if_pos h3.2
  · -- a miss: position 0 behind the last group is taken, unless this group is full
    rw [h2]
    have hno : ¬ v.HitFrom prec := fun ⟨k, h3, h4, h5⟩ => h1 k h3 h4 h5
    by_cases hl : v.unallocBlock (v.geometry.groups - 1) = 0
    · refine .inr (.inl ⟨hno, hl, ?_⟩)
      rw [if_pos hl]
      exact if_neg (not_not.mpr rfl)
    · refine .inr (.inr ⟨hno, hl, ?_⟩)
      rw [if_neg hl]
      exact if_pos (by unfold NONE; omega)

/-! ## The whole call -/

lemma searchStart_spec (L : v.geometry.Layout) (prec : Nat) :
    0 < v.searchStart prec ∧ v.searchStart prec < v.spb.blockNum := by
  have h2 : 2 ≤ v.spb.blockNum := L.two_le_blockNum
  unfold searchStart
  by_cases h : prec = 0 ∨ sub32 v.spb.blockNum 1 ≤ prec
  · rw [if_pos h]
    omega
  · rw [if_neg h]
    have hr : 2 * 2 ^ v.spb.blockSize * v.spb.blockNum + 0x800 ≤ 2 ^ 28 := L.reach
    have hn : v.spb.blockNum ≤ 2 * 2 ^ v.spb.blockSize * v.spb.blockNum :=
      Nat.le_mul_of_pos_left _ (Nat.mul_pos (by omega) (Nat.two_pow_pos _))
    rw [sub32_of_le (by omega) (by omega)] at h
    omega

/-- Position `pos` of group `k` is that of a free block. -/
structure FreeAt (v : Volume) (k pos : Nat) : Prop where
  group : k < v.geometry.groups
  pos_lt : pos < v.spb.blockPerGroup
  clear : v.bitmapBit (.blockBitmap k) pos = false
  counted : v.unallocBlock k ≠ 0
  ne_zero : k * v.spb.blockPerGroup + pos ≠ 0

/-- Block numbers are 32-bit words. -/
lemma number_lt (L : v.geometry.Layout) {pos : Nat}
    (hpos : k * v.spb.blockPerGroup + pos ≤ v.geometry.groups * v.spb.blockPerGroup) :
    k * v.spb.blockPerGroup + pos < 2 ^ 32 := by
  have hb : v.spb.blockPerGroup ≤ 8 * v.blockSize := L.blockPerGroup_le
  have hf := blockFactor_le L.supported
  have hr : 2 * 2 ^ v.spb.blockSize * v.spb.blockNum + 0x800 ≤ 2 ^ 28 := L.reach
  have hn : v.spb.blockNum ≤ 2 * 2 ^ v.spb.blockSize * v.spb.blockNum :=
    Nat.le_mul_of_pos_left _ (Nat.mul_pos (by omega) (Nat.two_pow_pos _))
  have hm : v.geometry.groups * v.spb.blockPerGroup ≤ v.spb.blockNum + v.spb.blockPerGroup - 1 :=
    Nat.div_mul_le_self _ _
  rw [blockSize_eq] at hb
  omega

lemma FreeAt.number_lt {pos : Nat} (h : v.FreeAt k pos) (L : v.geometry.Layout) :
    k * v.spb.blockPerGroup + pos < 2 ^ 32 := by
  have h1 := h.pos_lt
  have h2 : (k + 1) * v.spb.blockPerGroup ≤ v.geometry.groups * v.spb.blockPerGroup :=
    Nat.mul_le_mul_right _ h.group
  rw [Nat.add_mul] at h2
  exact Volume.number_lt L (by omega)

/-- What the first hit is. -/
lemma freeAt_of_hit (L : v.geometry.Layout) {prec : Nat} (h0 : 0 < prec)
    (hg : prec / v.spb.blockPerGroup ≤ k) (hk : k < v.geometry.groups)
    (h : v.BlockHit (prec / v.spb.blockPerGroup) (prec % v.spb.blockPerGroup) k) :
    v.FreeAt k (paramFfb (v.blockBits k) v.spb.blockPerGroup
      (v.blockFrom (prec / v.spb.blockPerGroup) (prec % v.spb.blockPerGroup) k)) where
  group := hk
  pos_lt := (paramFfb_spec h.2).1
  clear := by
    rw [← blockBits_bit]
    exact (paramFfb_spec h.2).2
  counted := h.1
  ne_zero := by
    intro e
    have hp : 0 < v.spb.blockPerGroup := L.blockPerGroup_pos
    have hz := Nat.eq_zero_of_add_eq_zero e
    rcases Nat.mul_eq_zero.mp hz.1 with rfl | hb
    · -- in group 0 the search starts behind block 0
      have hle := le_paramFfb h.2
      have hg0 : 0 = prec / v.spb.blockPerGroup := (Nat.le_zero.mp hg).symm
      rw [hz.2, blockFrom, if_pos hg0] at hle
      have hd := Nat.div_add_mod prec v.spb.blockPerGroup
      rw [← hg0, Nat.mul_zero] at hd
      omega
    · omega

/-- A search that finds a block, from the start or after starting over at block 1. -/
def BlockFound (v : Volume) (prec : Nat) : Prop :=
  v.HitFrom (v.searchStart prec) ∨
    v.unallocBlock (v.geometry.groups - 1) = 0 ∧ v.HitFrom 1

/-- `allocate_block` in full: it takes a free block if the search finds one; otherwise it throws if
the last group is full, and takes position 0 behind the last group if it is not. -/
lemma allocateBlock_cases (L : v.geometry.Layout) (prec : Nat) :
    v.spb.unallocBlockNum = 0 ∧ (∃ buf, v.allocateBlock prec = some (v.setStdBuf buf, 0)) ∨
      v.spb.unallocBlockNum ≠ 0 ∧ v.BlockFound prec ∧
        (∃ buf k pos, v.FreeAt k pos ∧ (v.setStdBuf buf).Loaded (v.blockAddressBitmap k) ∧
          v.allocateBlock prec =
            some ((v.setStdBuf buf).takeBlock k pos, k * v.spb.blockPerGroup + pos)) ∨
      v.spb.unallocBlockNum ≠ 0 ∧ ¬ v.BlockFound prec ∧
        v.unallocBlock (v.geometry.groups - 1) = 0 ∧ v.allocateBlock prec = none ∨
      v.spb.unallocBlockNum ≠ 0 ∧ ¬ v.BlockFound prec ∧
        v.unallocBlock (v.geometry.groups - 1) ≠ 0 ∧
        ∃ buf, v.allocateBlock prec = some ((v.setStdBuf buf).takeBlock v.geometry.groups 0,
          v.geometry.groups * v.spb.blockPerGroup) := by
  have hs := searchStart_spec L prec
  by_cases h0 : v.spb.unallocBlockNum = 0
  · refine .inl ⟨h0, (v.loadBlock (v.blockAddressBitmap
      (v.searchStart prec / v.spb.blockPerGroup))).stdBuf, ?_⟩
    unfold allocateBlock allocatePass
    dsimp only
    rw [if_pos (show (v.loadBlock _).spb.unallocBlockNum = 0 from h0)]
    rfl
  refine .inr ?_
  have hit : ∀ {p buf buf' k pos}, 0 < p →
      v.BlockHit (p / v.spb.blockPerGroup) (p % v.spb.blockPerGroup) k →
      p / v.spb.blockPerGroup ≤ k → k < v.geometry.groups →
      pos = paramFfb (v.blockBits k) v.spb.blockPerGroup
        (v.blockFrom (p / v.spb.blockPerGroup) (p % v.spb.blockPerGroup) k) →
      (v.setStdBuf buf).allocatePass p = ((v.setStdBuf buf').takeBlock k pos,
        some ((k * v.spb.blockPerGroup + pos) % 2 ^ 32)) →
      v.FreeAt k pos ∧ (v.setStdBuf buf).allocatePass p = ((v.setStdBuf buf').takeBlock k pos,
        some (k * v.spb.blockPerGroup + pos)) := by
    intro p buf buf' k pos hp h1 h2 h3 h4 e
    have hf := freeAt_of_hit L hp h2 h3 h1
    rw [← h4] at hf
    rw [Nat.mod_eq_of_lt (hf.number_lt L)] at e
    exact ⟨hf, e⟩
  -- the first pass, from the start of the search
  rcases allocatePass_spec L h0 hs.2 v.stdBuf with ⟨buf, h | h | h⟩
  · rcases h with ⟨k, pos, h1, h2, h3, h4, h5, e⟩
    rcases hit hs.1 h1 h2 h3 h4 e with ⟨hf, e⟩
    refine .inl ⟨h0, .inl ⟨k, h2, h3, h1⟩, buf, k, pos, hf, h5, ?_⟩
    unfold allocateBlock
    dsimp only
    rw [show v.allocatePass (v.searchStart prec) = _ from e]
  · rcases h with ⟨h1, h2, e⟩
    by_cases hp : v.searchStart prec = 1
    · refine .inr (.inl ⟨h0, fun hb => ?_, h2, ?_⟩)
      · rw [BlockFound, hp] at hb
        rw [hp] at h1
        exact hb.elim h1 fun h => h1 h.2
      · unfold allocateBlock
        dsimp only
        rw [show v.allocatePass (v.searchStart prec) = _ from e]
        exact if_pos hp
    · have h1lt : 1 < v.spb.blockNum := L.two_le_blockNum
      have key : ∀ r : Volume × Option Nat, (v.setStdBuf buf).allocatePass 1 = r →
          v.allocateBlock prec = r.2.map fun block => (r.1, block) := by
        intro r hr
        unfold allocateBlock
        dsimp only
        rw [show v.allocatePass (v.searchStart prec) = _ from e]
        dsimp only
        rw [if_neg hp, hr]
        cases r.2 <;> rfl
      -- the second pass, from block 1
      rcases allocatePass_spec L h0 h1lt buf with ⟨buf', h | h | h⟩
      · rcases h with ⟨k, pos, h3, h4, h5, h6, h7, e'⟩
        rcases hit (by omega) h3 h4 h5 h6 e' with ⟨hf, e'⟩
        exact .inl ⟨h0, .inr ⟨h2, k, h4, h5, h3⟩, buf', k, pos, hf, h7, key _ e'⟩
      · exact .inr (.inl ⟨h0, fun hb => hb.elim h1 fun hb => h.1 hb.2, h2, key _ h.2.2⟩)
      · exact absurd h2 h.2.1
  · rcases h with ⟨h1, h2, e⟩
    refine .inr (.inr ⟨h0, fun hb => hb.elim h1 fun hb => h2 hb.1, h2, buf, ?_⟩)
    have hlt := @number_lt v v.geometry.groups L 0 (le_refl _)
    rw [Nat.add_zero] at hlt
    rw [Nat.mod_eq_of_lt hlt] at e
    unfold allocateBlock
    dsimp only
    rw [show v.allocatePass (v.searchStart prec) = _ from e]

/-- Taking a block found free marks it. -/
lemma FreeAt.marked {pos : Nat} {buf : Bytes} (h : v.FreeAt k pos) (L : v.geometry.Layout)
    (hl : (v.setStdBuf buf).Loaded (v.blockAddressBitmap k)) :
    Marked v ((v.setStdBuf buf).takeBlock k pos) (.blockBitmap k) pos true :=
  have hm := takeBlock_marked (v := v.setStdBuf buf) (i := pos) L h.group hl
  ⟨hm.geometry, hm.stdInode, hm.bit, hm.other⟩

/-! ## Freeing a block -/

/-- `unallocate_block` clears the bit of an allocated block and leaves the counters alone. -/
lemma unallocateBlock_spec (L : v.geometry.Layout) {b : Nat} (hb : b < v.spb.blockNum) :
    v.bitmapBit (.blockBitmap (b / v.spb.blockPerGroup)) (b % v.spb.blockPerGroup) = false ∧
        (∃ buf, v.unallocateBlock b = (v.setStdBuf buf, 1)) ∨
      v.bitmapBit (.blockBitmap (b / v.spb.blockPerGroup)) (b % v.spb.blockPerGroup) = true ∧
        ∃ w, v.unallocateBlock b = (w, 0) ∧
          Marked v w (.blockBitmap (b / v.spb.blockPerGroup)) (b % v.spb.blockPerGroup) false ∧
          w.bgpt = v.bgpt ∧ w.spb = v.spb := by
  have hk : b / v.spb.blockPerGroup < v.geometry.groups := L.group_lt hb
  have hpos : 0 < v.spb.blockPerGroup := L.blockPerGroup_pos
  have hle : v.spb.blockPerGroup ≤ 8 * v.geometry.bytes := L.blockPerGroup_le
  have hlt := Nat.mod_lt b hpos
  have hl : (v.loadBlock (v.blockAddressBitmap (b / v.spb.blockPerGroup))).Loaded
    (v.blockAddressBitmap (b / v.spb.blockPerGroup)) := loaded_loadBlock L (L.bitmap_lt hk)
  rcases loadBlock_setStdBuf (v := v) v.stdBuf (v.blockAddressBitmap (b / v.spb.blockPerGroup))
    with ⟨buf, h₀⟩
  change v.loadBlock _ = _ at h₀
  rw [h₀] at hl
  have hload : ∀ j, j < 8 * v.geometry.bytes →
      buf.bit 0 j = v.bitmapBit (.blockBitmap (b / v.spb.blockPerGroup)) j := fun j hj =>
    Loaded.bit (v := v.setStdBuf buf) (r := .blockBitmap (b / v.spb.blockPerGroup)) hl hj
  have key : ∀ u : Volume, v.setStdBuf buf = u → v.unallocateBlock b =
      if getBit buf (b % v.spb.blockPerGroup) = false then (u, 1) else
        (u.commitBitmap (v.blockAddressBitmap (b / v.spb.blockPerGroup))
          (setBit buf (b % v.spb.blockPerGroup) false) v.bgpt, 0) := by
    rintro _ rfl
    unfold unallocateBlock
    dsimp only
    rw [h₀]
    rfl
  rw [key _ rfl, ← hload _ (hlt.trans_le hle), ← getBit_eq]
  by_cases h : getBit buf (b % v.spb.blockPerGroup) = false
  · rw [if_pos h]
    exact .inl ⟨h, buf, rfl⟩
  rw [if_neg h]
  refine .inr ⟨Bool.eq_true_of_not_eq_false h, _, rfl, ?_, rfl, rfl⟩
  refine marked_commit L (L.bitmap_lt hk) (L.blockBitmap_not_descriptors hk) (fun j hj => ?_)
    (geometry_congr rfl rfl) rfl rfl
  rw [← hload j hj]
  exact bit_setBit buf (b % v.spb.blockPerGroup) false j

/-! ## Correctness -/

/-- Block `b` exists and is free. -/
def BlockFree (v : Volume) (b : Nat) : Prop :=
  b < v.spb.blockNum ∧
    v.bitmapBit (.blockBitmap (b / v.spb.blockPerGroup)) (b % v.spb.blockPerGroup) = false

instance (v : Volume) (b : Nat) : Decidable (v.BlockFree b) := inferInstanceAs (Decidable (_ ∧ _))

/-- The counter of each group is the number of clear bits of its block bitmap. -/
def BlocksCounted (v : Volume) : Prop :=
  ∀ k, k < v.geometry.groups →
    v.unallocBlock k = clearBits (v.bitmapBit (.blockBitmap k)) v.spb.blockPerGroup

/-- The bits past the last block are set. -/
def BlocksPadded (v : Volume) : Prop :=
  ∀ k i, k < v.geometry.groups → i < v.spb.blockPerGroup →
    v.spb.blockNum ≤ k * v.spb.blockPerGroup + i → v.bitmapBit (.blockBitmap k) i = true

/-- What `filesystem.h` says of `allocate_block`: it returns, without throwing; a free block if
there is one, whose bit it sets, writing its bitmap and the descriptors only; and 0 otherwise,
changing nothing but `std_buf`. -/
def AllocatesBlock (v : Volume) (prec : Nat) : Prop :=
  ∃ v' b, v.allocateBlock prec = some (v', b) ∧
    ((∃ c, v.BlockFree c) → 0 < b ∧ v.BlockFree b ∧
      Marked v v' (.blockBitmap (b / v.spb.blockPerGroup)) (b % v.spb.blockPerGroup) true) ∧
    ((¬ ∃ c, v.BlockFree c) → b = 0 ∧ ∃ buf, v' = v.setStdBuf buf)

/-- The condition on the state: blocks are left as far as the superblock says, and the search finds
one; or there is none, and the superblock says so. -/
def BlockSearchable (v : Volume) (prec : Nat) : Prop :=
  if v.spb.unallocBlockNum = 0 then ¬ ∃ c, v.BlockFree c else v.BlockFound prec

/-- A clear bit is that of a free block. -/
lemma BlocksPadded.blockFree (hp : v.BlocksPadded) {pos : Nat} (hk : k < v.geometry.groups)
    (hpos : pos < v.spb.blockPerGroup) (hclear : v.bitmapBit (.blockBitmap k) pos = false) :
    v.BlockFree (k * v.spb.blockPerGroup + pos) ∧
      (k * v.spb.blockPerGroup + pos) / v.spb.blockPerGroup = k ∧
      (k * v.spb.blockPerGroup + pos) % v.spb.blockPerGroup = pos := by
  have hd : (k * v.spb.blockPerGroup + pos) / v.spb.blockPerGroup = k := by
    rw [Nat.mul_comm, Nat.mul_add_div (Nat.zero_lt_of_lt hpos), Nat.div_eq_of_lt hpos,
      Nat.add_zero]
  have hm : (k * v.spb.blockPerGroup + pos) % v.spb.blockPerGroup = pos := by
    rw [Nat.mul_comm, Nat.mul_add_mod, Nat.mod_eq_of_lt hpos]
  refine ⟨⟨?_, ?_⟩, hd, hm⟩
  · by_contra hlt
    have := hp k pos hk hpos (Nat.not_lt.mp hlt)
    rw [hclear] at this
    cases this
  · rw [hd, hm]
    exact hclear

/-- `allocate_block` does what is said of it exactly when its search ends well. -/
lemma allocatesBlock_iff (L : v.geometry.Layout) (hc : v.BlocksCounted) (hp : v.BlocksPadded)
    (prec : Nat) : v.AllocatesBlock prec ↔ v.BlockSearchable prec := by
  unfold BlockSearchable
  rcases allocateBlock_cases L prec with ⟨h0, buf, e⟩ | ⟨h0, hf, h⟩ | ⟨h0, hf, hl, e⟩ |
    ⟨h0, hf, hl, buf, e⟩
  · rw [if_pos h0]
    constructor
    · rintro ⟨v', b, e', h1, _⟩ hfree
      have hb := h1 hfree
      rw [e] at e'
      cases e'
      omega
    · intro hno
      exact ⟨_, _, e, fun h => absurd h hno, fun _ => ⟨rfl, buf, rfl⟩⟩
  · rw [if_neg h0]
    refine ⟨fun _ => hf, fun _ => ?_⟩
    rcases h with ⟨buf, k, pos, h1, h2, e⟩
    have hb := hp.blockFree h1.group h1.pos_lt h1.clear
    refine ⟨_, _, e, fun _ => ⟨Nat.pos_of_ne_zero h1.ne_zero, hb.1, ?_⟩,
      fun hno => absurd ⟨_, hb.1⟩ hno⟩
    rw [hb.2.1, hb.2.2]
    exact h1.marked L h2
  · rw [if_neg h0]
    refine ⟨fun ⟨v', b, e', _⟩ => ?_, fun h => absurd h hf⟩
    rw [e] at e'
    cases e'
  · rw [if_neg h0]
    refine ⟨fun ⟨v', b, e', h1, _⟩ => ?_, fun h => absurd h hf⟩
    -- the last group has a free block, and the number returned is that of none
    have hg := L.groups_pos
    rw [hc _ (by omega)] at hl
    rcases exists_clear_of_clearBits_pos (Nat.pos_of_ne_zero hl) with ⟨i, hi, hclear⟩
    have hfree := (hp.blockFree (by omega) hi hclear).1
    have hb := (h1 ⟨_, hfree⟩).2.1.1
    rw [e] at e'
    cases e'
    exact absurd hb (Nat.not_lt.mpr L.blockNum_le)

/-- For every volume whose counters and bitmaps are consistent, `allocate_block` does what is said
of it exactly when its search ends well. -/
theorem allocateBlock_correct (v : Volume) (L : v.geometry.Layout) (hc : v.BlocksCounted)
    (hp : v.BlocksPadded) (prec : Nat) : v.AllocatesBlock prec ↔ v.BlockSearchable prec :=
  allocatesBlock_iff L hc hp prec

end Volume

/-! ### A full group before a group with a free block -/

/-- The words of a volume where block 40 is the only free one, and no inode is free. -/
def oneFreeWord (n i : Nat) : Nat :=
  if n = 3 ∧ i = 0 then 2 ^ 32 - 1 - 2 ^ 8 else if n < 6 ∧ i = 0 then 2 ^ 32 - 1 else 0

/-- The volume where block 40 is the only free one. -/
def oneFreeVolume : Volume := sampleVolume oneFreeWord (fun k => k) 1 0 65

lemma oneFreeVolume_geometry : oneFreeVolume.geometry = sampleGeometry :=
  sampleVolume_geometry _ _ _ _ _

lemma oneFreeVolume_layout : oneFreeVolume.geometry.Layout :=
  oneFreeVolume_geometry ▸ sampleGeometry_layout

/-- What the searches read on it. -/
lemma oneFreeVolume_reads :
    oneFreeVolume.BlocksCounted ∧ oneFreeVolume.BlockFree 40 ∧
      oneFreeVolume.spb.unallocBlockNum ≠ 0 ∧ oneFreeVolume.BlockFound 33 ∧
      (oneFreeVolume.allocateBlock 1).map Prod.snd = some 64 := by
  refine ⟨fun k hk => ?_, by decide +kernel, by decide +kernel, ?_, by decide +kernel⟩
  · have hk : k < 2 := by rwa [oneFreeVolume_geometry] at hk
    interval_cases k <;> decide +kernel
  · exact .inl ⟨1, by decide +kernel, by rw [oneFreeVolume_geometry]; decide, by decide +kernel,
      by decide +kernel⟩

lemma oneFreeVolume_counted : oneFreeVolume.BlocksCounted := oneFreeVolume_reads.1

lemma oneFreeVolume_padded : oneFreeVolume.BlocksPadded := by
  intro k i hk hi hge
  have hk : k < 2 := by rwa [oneFreeVolume_geometry] at hk
  have hi : i < 32 := hi
  have hge : 64 ≤ k * 32 + i := hge
  omega

/-- From its own group, the free block is found. -/
theorem allocateBlock_correct_sample : oneFreeVolume.AllocatesBlock 33 := by
  refine (Volume.allocateBlock_correct oneFreeVolume oneFreeVolume_layout oneFreeVolume_counted
    oneFreeVolume_padded 33).mpr ?_
  unfold Volume.BlockSearchable
  rw [if_neg oneFreeVolume_reads.2.2.1]
  exact oneFreeVolume_reads.2.2.2.1

/-- From block 1 on the search enters group 1 with the position `-1` that the full group 0 left: it
returns block 64 of a volume of 64 blocks. -/
theorem allocateBlock_skips_group :
    oneFreeVolume.geometry.Layout ∧ oneFreeVolume.BlocksCounted ∧ oneFreeVolume.BlocksPadded ∧
      ¬ oneFreeVolume.AllocatesBlock 1 := by
  refine ⟨oneFreeVolume_layout, oneFreeVolume_counted, oneFreeVolume_padded, ?_⟩
  rintro ⟨v', b, e, h1, _⟩
  obtain ⟨_, hfree, _, _, hr⟩ := oneFreeVolume_reads
  have hb : b < 64 := (h1 ⟨40, hfree⟩).2.1.1
  rw [e] at hr
  cases hr
  exact absurd hb (by decide)

end MarioBrOS.Fs
