import MarioBrOS.Fs.Tally

/-!
# Allocating and freeing an inode

What `allocate_inode` and `unallocate_inode` do. The first takes the inode of the hint and then
searches for the next one; when there is no next one, it returns 0 although it has taken the last
inode (`allocateInode_spec`). The second looks for the bit of an inode at its number modulo 2048
(`unallocateInode_spec`).
-/

namespace MarioBrOS.Fs

namespace Volume

variable {v v' : Volume} {n k j i x : Nat}

/-! ## The search for the next free inode -/

/-- The position at which the search starts in group `k`, if it comes from position `pos` of group
`k₀`. -/
def inodeFrom (k₀ pos k : Nat) : Nat := if k = k₀ then pos + 1 else 0

/-- Group `k` has a free inode where the search looks. -/
def InodeHit (v : Volume) (k₀ pos k : Nat) : Prop :=
  v.unallocInode k ≠ 0 ∧
    paramFfb (v.inodeBits k) v.spb.inodePerGroup (inodeFrom k₀ pos k) ≠ NONE

lemma inodeHit_setStdBuf {k₀ pos : Nat} {buf : Bytes} :
    (v.setStdBuf buf).InodeHit k₀ pos k ↔ v.InodeHit k₀ pos k := Iff.rfl

lemma inodeBits_setStdBuf {buf : Bytes} : (v.setStdBuf buf).inodeBits k = v.inodeBits k := rfl

lemma add32_NONE : add32 NONE 1 = 0 := by
  unfold add32 NONE
  omega

/-- The search takes the first hit, or finds nothing. -/
lemma inodeSearch_spec (L : v.geometry.Layout) (k₀ pos₀ : Nat) :
    ∀ n k pos buf, k + n = v.geometry.groups → k₀ ≤ k → (n = 0 → pos = NONE) →
      add32 pos 1 = inodeFrom k₀ pos₀ k →
      ∃ buf', (inodeSearch (v.setStdBuf buf) n k pos).1 = v.setStdBuf buf' ∧
        ((∃ j, k ≤ j ∧ j < v.geometry.groups ∧ v.InodeHit k₀ pos₀ j ∧
            (inodeSearch (v.setStdBuf buf) n k pos).2 =
              (j, paramFfb (v.inodeBits j) v.spb.inodePerGroup (inodeFrom k₀ pos₀ j))) ∨
          (∀ j, k ≤ j → j < v.geometry.groups → ¬ v.InodeHit k₀ pos₀ j) ∧
            (inodeSearch (v.setStdBuf buf) n k pos).2.2 = NONE) := by
  intro n
  induction n with
  | zero =>
    intro k pos buf hkn _ h0 _
    refine ⟨buf, rfl, .inr ⟨fun j h1 h2 => by omega, ?_⟩⟩
    rw [inodeSearch, h0 rfl]
  | succ n ih =>
    intro k pos buf hkn hk₀ _ hpos
    have hk : k < v.geometry.groups := by omega
    rcases inodeSearch_succ L hk n pos buf with ⟨buf', e⟩
    rw [e, hpos]
    by_cases h : v.unallocInode k = 0 ∨
        paramFfb (v.inodeBits k) v.spb.inodePerGroup (inodeFrom k₀ pos₀ k) = NONE
    · rw [if_pos h]
      have hno : ¬ v.InodeHit k₀ pos₀ k := fun hh => h.elim hh.1 hh.2
      rcases ih (k + 1) NONE buf' (by omega) (by omega) (fun _ => rfl)
        (by rw [add32_NONE, inodeFrom, if_neg (by omega)]) with ⟨buf'', e1, h'⟩
      refine ⟨buf'', e1, ?_⟩
      rcases h' with ⟨j, h1, h2⟩ | ⟨h1, h2⟩
      · exact .inl ⟨j, by omega, h2⟩
      · refine .inr ⟨fun j hj1 hj2 => ?_, h2⟩
        rcases Nat.eq_or_lt_of_le hj1 with rfl | hlt
        · exact hno
        · exact h1 j hlt hj2
    · rw [if_neg h]
      exact ⟨buf', rfl, .inl ⟨k, le_refl _, hk, not_or.mp h, rfl⟩⟩

/-- The groups the search looks at are those of the volume. -/
lemma inodeGroups_eq (L : v.geometry.Layout) : v.inodeGroups = v.geometry.groups := by
  have h1 : 0 < v.spb.inodeNum := L.inodeNum_pos
  have h2 : 0 < v.spb.inodePerGroup := L.inodePerGroup_pos
  have h3 : v.spb.inodeNum + v.spb.inodePerGroup ≤ 2 ^ 32 := L.inodes_lt
  have h4 : (v.spb.inodeNum + v.spb.inodePerGroup - 1) / v.spb.inodePerGroup =
    v.geometry.groups := L.coherent
  unfold inodeGroups
  rw [← h4, sub32_of_le (by omega) (by omega), Nat.add_comm 1, ← Nat.add_div_right _ h2]
  congr 1
  omega

/-! ## Taking the first free inode -/

/-- The inode of the hint has a bit in the bitmap of some group. -/
def FirstValid (v : Volume) : Prop :=
  0 < v.spb.firstFreeInode ∧
    v.spb.firstFreeInode ≤ v.geometry.groups * v.spb.inodePerGroup

lemma FirstValid.group_lt (h : v.FirstValid) (L : v.geometry.Layout) :
    v.inodeGroup v.spb.firstFreeInode < v.geometry.groups := by
  have hp : 0 < v.spb.inodePerGroup := L.inodePerGroup_pos
  have hlt : v.geometry.groups * v.spb.inodePerGroup < 2 ^ 32 :=
    groups_mul_perGroup_lt (r := .inodes) L
  have h1 := h.1
  have h2 := h.2
  unfold inodeGroup
  rw [sub32_of_le h1 (by omega)]
  exact (Nat.div_lt_iff_lt_mul hp).mpr (by omega)

lemma inodeIndex_lt (L : v.geometry.Layout) (i : Nat) : v.inodeIndex i < v.spb.inodePerGroup :=
  Nat.mod_lt _ L.inodePerGroup_pos

/-- The volume in which the inode of the hint has been taken, with its effects. -/
structure FirstTaken (v w : Volume) : Prop where
  marked : Marked v w (.inodeBitmap (v.inodeGroup v.spb.firstFreeInode))
    (v.inodeIndex v.spb.firstFreeInode) true
  bgpt : w.bgpt = v.bgpt.set16 (32 * v.inodeGroup v.spb.firstFreeInode + 14)
    (sub16 (v.unallocInode (v.inodeGroup v.spb.firstFreeInode)) 1)
  spb : w.spb = { v.spb with unallocInodeNum := sub32 v.spb.unallocInodeNum 1 }

/-- `allocate_inode` once the bitmap is loaded and the inode taken. -/
lemma allocateInode_eq (h0 : v.spb.unallocInodeNum ≠ 0) {buf : Bytes} {w : Volume}
    (hbuf : v.loadBlock (v.inodeAddressBitmap (v.inodeGroup v.spb.firstFreeInode)) =
      v.setStdBuf buf)
    (hw : (v.setStdBuf buf).takeInode v.spb.firstFreeInode = w)
    (hs : w.spb = { v.spb with unallocInodeNum := sub32 v.spb.unallocInodeNum 1 })
    {r : Volume × Nat × Nat}
    (hr : inodeSearch w (v.inodeGroups - v.inodeGroup v.spb.firstFreeInode)
      (v.inodeGroup v.spb.firstFreeInode) (v.inodeIndex v.spb.firstFreeInode) = r) :
    v.allocateInode = if r.2.2 = NONE then (r.1, 0) else
      (r.1.setFirstFreeInode ((r.2.1 * v.spb.inodePerGroup + r.2.2 + 1) % 2 ^ 32),
        v.spb.firstFreeInode) := by
  have h1 : w.inodeGroups = v.inodeGroups := by
    unfold inodeGroups
    rw [hs]
  have h2 : w.inodeIndex v.spb.firstFreeInode = v.inodeIndex v.spb.firstFreeInode := by
    unfold inodeIndex
    rw [hs]
  have h3 : w.spb.inodePerGroup = v.spb.inodePerGroup := by rw [hs]
  have h4 : (v.setStdBuf buf).spb.unallocInodeNum ≠ 0 := h0
  unfold allocateInode
  dsimp only
  rw [hbuf]
  refine (if_neg h4).trans ?_
  rw [hw, h1, h2, hr, h3]

/-- `allocate_inode` when inodes are left: it takes the inode of the hint; if the search then hits,
it returns that inode and moves the hint to the first hit, and 0 otherwise. -/
lemma allocateInode_spec (L : v.geometry.Layout) (h0 : v.spb.unallocInodeNum ≠ 0)
    (hf : v.FirstValid) :
    ∃ w, FirstTaken v w ∧
      ((∃ j, v.inodeGroup v.spb.firstFreeInode ≤ j ∧ j < v.geometry.groups ∧
          w.InodeHit (v.inodeGroup v.spb.firstFreeInode) (v.inodeIndex v.spb.firstFreeInode) j ∧
          v.allocateInode = (w.setFirstFreeInode ((j * v.spb.inodePerGroup +
            paramFfb (w.inodeBits j) v.spb.inodePerGroup
              (inodeFrom (v.inodeGroup v.spb.firstFreeInode)
                (v.inodeIndex v.spb.firstFreeInode) j) + 1) % 2 ^ 32), v.spb.firstFreeInode)) ∨
        (∀ j, v.inodeGroup v.spb.firstFreeInode ≤ j → j < v.geometry.groups →
          ¬ w.InodeHit (v.inodeGroup v.spb.firstFreeInode)
            (v.inodeIndex v.spb.firstFreeInode) j) ∧
          v.allocateInode = (w, 0)) := by
  have hk := hf.group_lt L
  have hi := inodeIndex_lt L v.spb.firstFreeInode
  have hp : v.spb.inodePerGroup ≤ 8 * v.geometry.bytes := L.inodePerGroup_le
  have hlt : v.geometry.groups * v.spb.inodePerGroup < 2 ^ 32 :=
    groups_mul_perGroup_lt (r := .inodes) L
  have hg : v.inodeGroup v.spb.firstFreeInode + (v.inodeGroups -
      v.inodeGroup v.spb.firstFreeInode) = v.geometry.groups := by
    rw [inodeGroups_eq L]
    omega
  have hle := Nat.le_mul_of_pos_left v.spb.inodePerGroup L.groups_pos
  have hl : (v.loadBlock (v.inodeAddressBitmap (v.inodeGroup v.spb.firstFreeInode))).Loaded
    (v.inodeAddressBitmap (v.inodeGroup v.spb.firstFreeInode)) :=
    loaded_loadBlock L (L.inodeBitmap_lt hk)
  rcases loadBlock_setStdBuf (v := v) v.stdBuf (v.inodeAddressBitmap
    (v.inodeGroup v.spb.firstFreeInode)) with ⟨buf₀, h₀⟩
  change v.loadBlock _ = _ at h₀
  rw [h₀] at hl
  have hm := takeInode_marked (v := v.setStdBuf buf₀) (i := v.spb.firstFreeInode) L hk hl
  have hb : ((v.setStdBuf buf₀).takeInode v.spb.firstFreeInode).bgpt = v.bgpt.set16
      (32 * v.inodeGroup v.spb.firstFreeInode + 14)
      (sub16 (v.unallocInode (v.inodeGroup v.spb.firstFreeInode)) 1) := rfl
  have hs : ((v.setStdBuf buf₀).takeInode v.spb.firstFreeInode).spb =
      { v.spb with unallocInodeNum := sub32 v.spb.unallocInodeNum 1 } := rfl
  generalize hw : (v.setStdBuf buf₀).takeInode v.spb.firstFreeInode = w at hm hb hs
  have key {r} := allocateInode_eq (r := r) h0 h₀ hw hs
  have hwg : w.geometry = v.geometry := hm.geometry
  have hper : w.spb.inodePerGroup = v.spb.inodePerGroup := by rw [hs]
  -- the search for the next hint starts at the inode that was taken
  rcases inodeSearch_spec (v := w) (hwg ▸ L) (v.inodeGroup v.spb.firstFreeInode)
    (v.inodeIndex v.spb.firstFreeInode)
    (v.inodeGroups - v.inodeGroup v.spb.firstFreeInode) (v.inodeGroup v.spb.firstFreeInode)
    (v.inodeIndex v.spb.firstFreeInode) w.stdBuf (by rw [hwg]; exact hg) (le_refl _)
    (fun h => by omega) (by rw [add32_of_lt (by omega), inodeFrom, if_pos rfl])
    with ⟨buf, e1, h⟩
  change (inodeSearch w _ _ _).1 = _ at e1
  have ht : FirstTaken v (w.setStdBuf buf) := ⟨Marked.setStdBuf hm.of_setStdBuf buf, hb, hs⟩
  refine ⟨w.setStdBuf buf, ht, ?_⟩
  rcases h with ⟨j, h1, h2, h3, h4⟩ | ⟨h1, h2⟩
  · change (inodeSearch w _ _ _).2 = _ at h4
    refine .inl ⟨j, h1, by rwa [← hwg], inodeHit_setStdBuf.mpr h3, ?_⟩
    rw [key rfl, e1, h4, if_neg h3.2, hper, inodeBits_setStdBuf]
  · change (inodeSearch w _ _ _).2.2 = _ at h2
    refine .inr ⟨fun j hj1 hj2 h => h1 j hj1 (by rwa [hwg]) (inodeHit_setStdBuf.mp h), ?_⟩
    rw [key rfl, if_pos h2, e1]

/-! ## Freeing an inode -/

/-- The hint after inode `i` has been freed. -/
def lowerHint (v : Volume) (i : Nat) : Nat :=
  if i < v.spb.firstFreeInode then i else v.spb.firstFreeInode

lemma setFirstFreeInode_lowerHint (v : Volume) (i : Nat) :
    (if i < v.spb.firstFreeInode then v.setFirstFreeInode i else v) =
      v.setFirstFreeInode (v.lowerHint i) := by
  unfold lowerHint
  by_cases h : i < v.spb.firstFreeInode
  · rw [if_pos h, if_pos h]
  · rw [if_neg h, if_neg h]
    cases v
    rfl

lemma freedIndex_lt (i : Nat) : freedIndex i < 8 * v.geometry.bytes := by
  have h1 : freedIndex i < 2048 := Nat.mod_lt _ (by omega)
  have h2 := Nat.two_pow_pos v.geometry.blockSize
  unfold Geometry.bytes
  omega

/-- The half word that `unallocate_inode` stores has one bit cleared. -/
lemma bit_clear_half (m : Bytes) (i j : Nat) :
    (m.set16 (2 * (i / 16)) (m.get16 (2 * (i / 16)) &&& ((2 ^ 16 - 1) ^^^ 1 <<< (i % 16)))).bit 0 j =
      if j = i then false else m.bit 0 j := by
  have hv : m.get16 (2 * (i / 16)) &&& ((2 ^ 16 - 1) ^^^ 1 <<< (i % 16)) < 2 ^ 16 :=
    (Nat.and_le_left).trans_lt (m.get16_lt _)
  have hb := Bytes.bit_set16 (m := m) (a := 0) (i := j) hv (i / 16)
  rw [Nat.zero_add] at hb
  rw [hb]
  by_cases hw : j / 16 = i / 16
  · have hg := Bytes.testBit_get16_half m 0 j
    rw [Nat.zero_add, hw] at hg
    rw [if_pos hw, Nat.testBit_and, Nat.testBit_xor, Nat.testBit_two_pow_sub_one, Nat.one_shiftLeft,
      Nat.testBit_two_pow, hg]
    have hlt : j % 16 < 16 := Nat.mod_lt _ (by omega)
    by_cases hj : j = i
    · subst hj
      simp [hlt]
    · have hne : i % 16 ≠ j % 16 := by omega
      simp [hj, hne, hlt]
  · rw [if_neg hw, if_neg (by rintro rfl; exact hw rfl)]

/-- `unallocate_inode` clears the bit at `freedIndex`, if it is set. -/
lemma unallocateInode_spec (L : v.geometry.Layout) (hk : v.inodeGroup i < v.geometry.groups) :
    v.bitmapBit (.inodeBitmap (v.inodeGroup i)) (freedIndex i) = false ∧
        (∃ buf, v.unallocateInode i =
          ((v.setFirstFreeInode (v.lowerHint i)).setStdBuf buf, 1)) ∨
      v.bitmapBit (.inodeBitmap (v.inodeGroup i)) (freedIndex i) = true ∧
        ∃ w, v.unallocateInode i = (w, 0) ∧
          Marked v w (.inodeBitmap (v.inodeGroup i)) (freedIndex i) false ∧
          w.bgpt = v.bgpt.set16 (32 * v.inodeGroup i + 14)
            ((v.unallocInode (v.inodeGroup i) + 1) % 2 ^ 16) ∧
          w.spb = { v.spb with
            unallocInodeNum := add32 v.spb.unallocInodeNum 1
            firstFreeInode := v.lowerHint i } := by
  have hl : (v.loadBlock (v.inodeAddressBitmap (v.inodeGroup i))).Loaded
    (v.inodeAddressBitmap (v.inodeGroup i)) := loaded_loadBlock L (L.inodeBitmap_lt hk)
  rcases loadBlock_setStdBuf (v := v) v.stdBuf (v.inodeAddressBitmap (v.inodeGroup i))
    with ⟨buf, h₀⟩
  change v.loadBlock _ = _ at h₀
  rw [h₀] at hl
  have hfi : freedIndex i % 16 = sub32 i 1 % 16 := by
    unfold freedIndex
    omega
  have hload : ∀ j, j < 8 * v.geometry.bytes →
      buf.bit 0 j = v.bitmapBit (.inodeBitmap (v.inodeGroup i)) j := fun j hj =>
    Loaded.bit (v := v.setStdBuf buf) (r := .inodeBitmap (v.inodeGroup i)) hl hj
  -- the code tests the bit in the half word around it
  have hbit : v.bitmapBit (.inodeBitmap (v.inodeGroup i)) (freedIndex i) = false ↔
      buf.get16 (2 * (freedIndex i / 16)) &&& 1 <<< (sub32 i 1 % 16) = 0 := by
    have hg := Bytes.testBit_get16_half buf 0 (freedIndex i)
    rw [Nat.zero_add] at hg
    rw [and_one_shiftLeft_eq_zero, ← hfi, hg, hload _ (freedIndex_lt i)]
  have key : ∀ u : Volume, (v.setFirstFreeInode (v.lowerHint i)).setStdBuf buf = u →
      v.unallocateInode i =
        if buf.get16 (2 * (freedIndex i / 16)) &&& 1 <<< (sub32 i 1 % 16) = 0 then (u, 1) else
          (u.freeInode (v.inodeGroup i) (buf.set16 (2 * (freedIndex i / 16))
            (buf.get16 (2 * (freedIndex i / 16)) &&&
              ((2 ^ 16 - 1) ^^^ 1 <<< (sub32 i 1 % 16)))), 0) := by
    rintro _ rfl
    have h₁ : (v.setFirstFreeInode (v.lowerHint i)).loadBlock
        ((v.setFirstFreeInode (v.lowerHint i)).inodeAddressBitmap
          ((v.setFirstFreeInode (v.lowerHint i)).inodeGroup i)) =
        (v.setFirstFreeInode (v.lowerHint i)).setStdBuf buf :=
      congrArg (fun w => w.setFirstFreeInode (v.lowerHint i)) h₀
    unfold unallocateInode
    rw [setFirstFreeInode_lowerHint]
    dsimp only
    rw [h₁]
    rfl
  rw [key _ rfl]
  by_cases h : buf.get16 (2 * (freedIndex i / 16)) &&& 1 <<< (sub32 i 1 % 16) = 0
  · rw [if_pos h]
    exact .inl ⟨hbit.mpr h, buf, rfl⟩
  rw [if_neg h]
  refine .inr ⟨by rwa [← hbit, Bool.not_eq_false] at h, _, rfl, ?_, rfl, rfl⟩
  refine marked_commit L (L.inodeBitmap_lt hk) (L.inodeBitmap_not_descriptors hk) (fun j hj => ?_)
    (geometry_of_counters (.inr rfl) rfl rfl) rfl rfl
  rw [← hload j hj, ← hfi]
  exact bit_clear_half buf (freedIndex i) j

end Volume

end MarioBrOS.Fs
