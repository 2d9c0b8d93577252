import MarioBrOS.Fs.InodeRun

/-!
# Accounting of the free space

The counters of the groups and of the superblock against the bitmaps, over any sequence of calls of
the four allocator operations. `unallocate_block` clears its bit and touches no counter; the other
operations keep the counters right, unless a search ends in a group that does not exist or the bit
changed is not the one that was looked at (`counters_match_bitmaps`).
-/

namespace MarioBrOS.Fs

/-- A call of the allocator. -/
inductive AllocCall where
  | allocateBlock (prec : Nat)
  | unallocateBlock (block : Nat)
  | allocateInode
  | unallocateInode (inode : Nat)

namespace Volume

variable {v w : Volume} {r : Resource} {n k i : Nat}

/-- All counters are right. -/
structure Accounted (v : Volume) : Prop where
  layout : v.geometry.Layout
  tallied : ∀ r, v.Tallied r

/-- A call whose argument names an existing block or inode. -/
def CallValid (v : Volume) : AllocCall → Prop
  | .allocateBlock prec => prec < v.spb.blockNum
  | .unallocateBlock block => block < v.spb.blockNum
  | .allocateInode => True
  | .unallocateInode inode => 0 < inode ∧ inode ≤ v.spb.inodeNum

/-- The volume after a call, unless it throws. -/
def call (v : Volume) : AllocCall → Option Volume
  | .allocateBlock prec => (v.allocateBlock prec).map Prod.fst
  | .unallocateBlock block => some (v.unallocateBlock block).1
  | .allocateInode => some v.allocateInode.1
  | .unallocateInode inode => some (v.unallocateInode inode).1

/-- A call that returns. -/
def callStep (v : Volume) (c : AllocCall) (w : Volume) : Prop := v.CallValid c ∧ v.call c = some w

/-- The condition on a call. `allocate_block`: no block is left, or it finds one, or the last group
is full. `unallocate_block`: the block is free already. `allocate_inode`: no inode is left, or the
hint names a free one. `unallocate_inode`: the bit it looks at is clear, or it is one of those that
are counted and the counter does not overflow. -/
def CallFits (v : Volume) : AllocCall → Prop
  | .allocateBlock prec => v.spb.unallocBlockNum = 0 ∨ v.BlockFound prec ∨
      v.unallocBlock (v.geometry.groups - 1) = 0
  | .unallocateBlock block =>
      v.bitmapBit (.blockBitmap (block / v.spb.blockPerGroup)) (block % v.spb.blockPerGroup) = false
  | .allocateInode => v.spb.unallocInodeNum = 0 ∨ v.InodeFree v.spb.firstFreeInode
  | .unallocateInode inode =>
      v.bitmapBit (.inodeBitmap (v.inodeGroup inode)) (freedIndex inode) = false ∨
        freedIndex inode < v.spb.inodePerGroup ∧ v.unallocInode (v.inodeGroup inode) + 1 < 2 ^ 16

/-! ## One call -/

lemma Accounted.setStdBuf (h : v.Accounted) (buf : Bytes) : (v.setStdBuf buf).Accounted :=
  ⟨h.layout, fun r => (h.tallied r).setStdBuf buf⟩

lemma Accounted.setFirstFreeInode (h : v.Accounted) (n : Nat) :
    (v.setFirstFreeInode n).Accounted := ⟨h.layout, fun r => (h.tallied r).setFirstFreeInode n⟩

/-- A change of the inode counters leaves those of the blocks. -/
lemma Accounted.of_inodes {value : Bool} {a c : Nat} (h : v.Accounted)
    (hm : Marked v w (.inodeBitmap k) i value) (hk : k < v.geometry.groups)
    (hb : w.bgpt = v.bgpt.set16 (32 * k + 14) n) (hn : n < 2 ^ 16)
    (hs : w.spb = { v.spb with unallocInodeNum := a, firstFreeInode := c })
    (ht : w.Tallied .inodes) : w.Accounted := by
  refine ⟨hm.geometry ▸ h.layout, fun r => ?_⟩
  cases r with
  | inodes => exact ht
  | blocks =>
    refine (h.tallied .blocks).of_other (q := .inodes) h.layout hm hk (by decide) ?_ ?_ ?_
    · show w.spb.blockPerGroup = v.spb.blockPerGroup
      rw [hs]
    · funext j
      show w.bgpt.get16 (32 * j + 12) = v.bgpt.get16 (32 * j + 12)
      rw [hb, counter_set16 (.inr rfl) (.inl rfl) hn, if_neg fun h => absurd h.2 (by decide)]
    · show w.spb.unallocBlockNum = v.spb.unallocBlockNum
      rw [hs]

/-- Taking a free block. -/
lemma Accounted.of_block {pos : Nat} (h : v.Accounted) (hf : v.FreeAt k pos)
    (hm : Marked v w (.blockBitmap k) pos true)
    (hb : w.bgpt = v.bgpt.set16 (32 * k + 12) (sub16 (v.unallocBlock k) 1))
    (hs : w.spb = { v.spb with unallocBlockNum := sub32 v.spb.unallocBlockNum 1 }) :
    w.Accounted := by
  have hn : sub16 (v.unallocBlock k) 1 < 2 ^ 16 := Nat.mod_lt _ (by omega)
  refine ⟨hm.geometry ▸ h.layout, fun r => ?_⟩
  cases r with
  | inodes =>
    refine (h.tallied .inodes).of_other (q := .blocks) h.layout hm hf.group (by decide) ?_ ?_ ?_
    · show w.spb.inodePerGroup = v.spb.inodePerGroup
      rw [hs]
    · funext j
      show w.bgpt.get16 (32 * j + 14) = v.bgpt.get16 (32 * j + 14)
      rw [hb, counter_set16 (.inl rfl) (.inr rfl) hn, if_neg fun h => absurd h.2 (by decide)]
    · show w.spb.unallocInodeNum = v.spb.unallocInodeNum
      rw [hs]
  | blocks =>
    have hu : ∀ j, w.unallocBlock j =
        if j = k then sub16 (v.unallocBlock k) 1 else v.unallocBlock j := by
      intro j
      show w.bgpt.get16 (32 * j + 12) =
        if j = k then sub16 (v.unallocBlock k) 1 else v.bgpt.get16 (32 * j + 12)
      rw [hb, counter_set16 (.inl rfl) (.inl rfl) hn]
      by_cases hj : j = k
      · rw [if_pos ⟨hj, rfl⟩, if_pos hj]
      · rw [if_neg fun h => hj h.1, if_neg hj]
    have ht := h.tallied .blocks
    have hpos := ht.unalloc_pos hf.group hf.pos_lt hf.clear
    have htot := ht.total_le.trans_lt (groups_mul_perGroup_lt (r := .blocks) h.layout)
    have hlt := v.bgpt.get16_lt (32 * k + 12)
    change 0 < v.unallocBlock _ ∧ 0 < v.spb.unallocBlockNum at hpos
    change v.spb.unallocBlockNum < 2 ^ 32 at htot
    have hnum : w.spb.unallocBlockNum = v.spb.unallocBlockNum - 1 := by
      rw [hs]
      exact sub32_of_le hpos.2 htot
    refine ht.of_marked (b := true) h.layout hm hf.group hf.pos_lt ?_ hf.clear
      (fun j hj => (hu j).trans (if_neg hj)) ?_
    · show w.spb.blockPerGroup = v.spb.blockPerGroup
      rw [hs]
    · rw [if_pos rfl]
      have hk := (hu k).trans (if_pos rfl)
      change v.unallocBlock _ = w.unallocBlock _ + 1 ∧
        v.spb.unallocBlockNum = w.spb.unallocBlockNum + 1
      rw [hnum, hk]
      unfold sub16 Volume.unallocBlock at *
      omega

/-- What one call preserves. -/
lemma callStep_accounted {c : AllocCall} (h : v.Accounted)
    (st : Guarded CallFits callStep v c w) : w.Accounted := by
  rcases st with ⟨hfit, hvalid, hcall⟩
  cases c with
  | allocateBlock prec =>
    rcases Option.map_eq_some_iff.mp hcall with ⟨⟨w', b⟩, e, rfl⟩
    rcases allocateBlock_cases h.layout prec with ⟨_, buf, e'⟩ | ⟨_, _, buf, k, pos, hf, hl, e'⟩ |
      ⟨_, _, _, e'⟩ | ⟨h0, hno, hlast, _⟩
    · rw [e] at e'
      cases e'
      exact h.setStdBuf buf
    · rw [e] at e'
      cases e'
      exact h.of_block hf (hf.marked h.layout hl) rfl rfl
    · rw [e] at e'
      cases e'
    · -- a search that fails would take bit 0 behind the last group
      rcases hfit with hz | hfound | hz
      · exact absurd hz h0
      · exact absurd hfound hno
      · exact absurd hz hlast
  | unallocateBlock block =>
    rcases unallocateBlock_spec h.layout hvalid with ⟨_, buf, e⟩ | ⟨hset, _⟩
    · have hw : w = v.setStdBuf buf := by
        rw [← Option.some_inj.mp hcall, e]
      exact hw ▸ h.setStdBuf buf
    · exact absurd (hset.symm.trans hfit) (by decide)
  | allocateInode =>
    have hw := Option.some_inj.mp hcall
    by_cases h0 : v.spb.unallocInodeNum = 0
    · have e : v.allocateInode.1 =
          v.loadBlock (v.inodeAddressBitmap (v.inodeGroup v.spb.firstFreeInode)) := by
        unfold allocateInode
        exact congrArg Prod.fst (if_pos h0)
      rw [e] at hw
      rw [← hw]
      exact h.setStdBuf _
    · have hf := hfit.resolve_left h0
      have hr : v.InodesReady := ⟨h.layout, h.tallied .inodes, hf⟩
      rcases allocateInode_spec h.layout h0 hf.1 with ⟨u, ht, hret⟩
      have hu : u.Accounted := h.of_inodes ht.marked (hf.1.group_lt h.layout) ht.bgpt
        (Nat.mod_lt _ (by omega)) ht.spb (ht.tallied hr)
      rcases hret with ⟨j, _, _, _, e⟩ | ⟨_, e⟩
      · rw [e] at hw
        exact hw ▸ hu.setFirstFreeInode _
      · rw [e] at hw
        exact hw ▸ hu
  | unallocateInode inode =>
    have hw := Option.some_inj.mp hcall
    have hlt : sub32 inode 1 < v.geometry.inodeNum := by
      have hn : v.geometry.inodeNum + v.geometry.inodePerGroup ≤ 2 ^ 32 := h.layout.inodes_lt
      have hle : inode ≤ v.geometry.inodeNum := hvalid.2
      have hp := h.layout.inodePerGroup_pos
      have h0 : 0 < inode := hvalid.1
      rw [sub32_of_le h0 (by omega)]
      omega
    have hg : v.inodeGroup inode < v.geometry.groups := h.layout.inodeGroup_lt hlt
    rcases unallocateInode_spec h.layout hg with ⟨_, buf, e⟩ | ⟨hset, u, e, hm, hb, hs⟩
    · rw [e] at hw
      exact hw ▸ (h.setFirstFreeInode _).setStdBuf buf
    · rw [e] at hw
      rcases hfit with hclear | ⟨hx, hc⟩
      · exact absurd (hset.symm.trans hclear) (by decide)
      · have ht : u.Tallied .inodes := (h.tallied .inodes).of_freed h.layout hg hx hset hm hb
          (by rw [hs]) (by rw [hs]) hc
        exact hw ▸ h.of_inodes hm hg hb (Nat.mod_lt _ (by omega)) hs ht

/-- In a run all of whose calls fit, the counters stay right. -/
theorem counters_match_bitmaps (v w : Volume) (cs : List AllocCall) (h : v.Accounted)
    (r : Run (Guarded CallFits callStep) v cs w) : w.Accounted :=
  r.invariant (I := Accounted) (fun _ _ _ h st => callStep_accounted h st) h

end Volume

/-! ### Freeing a block -/

lemma oneFreeVolume_accounted : oneFreeVolume.Accounted where
  layout := oneFreeVolume_layout
  tallied r := by
    constructor
    · intro k hk
      have hk : k < 2 := by rwa [oneFreeVolume_geometry] at hk
      cases r <;> interval_cases k <;> decide +kernel
    · rw [oneFreeVolume_geometry]
      cases r <;> decide +kernel

/-- An inode is asked for in vain and the free block taken. -/
theorem counters_match_bitmaps_sample :
    ∃ w, Run Volume.callStep oneFreeVolume [.allocateInode, .allocateBlock 33] w ∧
      w.Accounted := by
  have hret : (oneFreeVolume.allocateInode.1.call (.allocateBlock 33)).isSome := by
    decide +kernel
  rcases Option.isSome_iff_exists.mp hret with ⟨w, hw⟩
  have hfound : oneFreeVolume.allocateInode.1.BlockFound 33 :=
    .inl ⟨1, by decide +kernel, by decide +kernel, by decide +kernel, by decide +kernel⟩
  have r : Run (Guarded Volume.CallFits Volume.callStep) oneFreeVolume
      ([] ++ [.allocateInode] ++ [.allocateBlock 33]) w :=
    .snoc (.snoc .nil ⟨.inl (by decide +kernel), trivial, rfl⟩)
      ⟨.inr (.inl hfound), (by decide +kernel : 33 < _), hw⟩
  exact ⟨w, r.of_guarded,
    Volume.counters_match_bitmaps oneFreeVolume w _ oneFreeVolume_accounted r⟩

/-- `unallocate_block` frees block 41 and leaves the counter of its group. -/
theorem unallocateBlock_drifts :
    oneFreeVolume.Accounted ∧
      oneFreeVolume.callStep (.unallocateBlock 41) (oneFreeVolume.unallocateBlock 41).1 ∧
      ¬ (oneFreeVolume.unallocateBlock 41).1.Accounted := by
  refine ⟨oneFreeVolume_accounted, ⟨(by decide +kernel : 41 < _), rfl⟩, fun h => ?_⟩
  have hg := (h.tallied .blocks).group 1 (by decide +kernel)
  exact absurd hg (by decide +kernel)

end MarioBrOS.Fs
