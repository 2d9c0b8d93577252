import MarioBrOS.Fs.InodeAlloc
import MarioBrOS.Lib.Run

/-!
# Runs of the inode allocator

Inodes are numbered from 1; the bit of inode `i` is bit `inodeIndex i` of the bitmap of group
`inodeGroup i`. Starting from a state in which the hint names a free inode, the allocator hands out
free inodes only, as long as each call to `allocate_inode` finds a successor for the hint and each
call to `unallocate_inode` looks for the bit where it is (`inodes_allocated_once`).
-/

namespace MarioBrOS.Fs

namespace Volume

variable {v w : Volume} {n k j i x : Nat}

/-- Inode `i` has a bit. -/
def HasInode (v : Volume) (i : Nat) : Prop := 0 < i ∧ i ≤ v.geometry.groups * v.spb.inodePerGroup

/-- The bit of inode `i`. -/
def inodeBit (v : Volume) (i : Nat) : Bool :=
  v.bitmapBit (.inodeBitmap (v.inodeGroup i)) (v.inodeIndex i)

/-- Inode `i` exists and is free. -/
def InodeFree (v : Volume) (i : Nat) : Prop := v.HasInode i ∧ v.inodeBit i = false

/-- The bit of inode `i` becomes `value`; besides, only descriptors are written. -/
def InodeMarked (v w : Volume) (i : Nat) (value : Bool) : Prop :=
  Marked v w (.inodeBitmap (v.inodeGroup i)) (v.inodeIndex i) value

/-! ## Numbers and positions -/

lemma HasInode.group_lt (h : v.HasInode i) (L : v.geometry.Layout) :
    v.inodeGroup i < v.geometry.groups := by
  have hlt : v.geometry.groups * v.spb.inodePerGroup < 2 ^ 32 :=
    groups_mul_perGroup_lt (r := .inodes) L
  have h1 := h.1
  have h2 := h.2
  have hp : 0 < v.spb.inodePerGroup := L.inodePerGroup_pos
  unfold inodeGroup
  rw [sub32_of_le h1 (by omega)]
  exact (Nat.div_lt_iff_lt_mul hp).mpr (by omega)

/-- The inode at a position. -/
lemma inode_at (L : v.geometry.Layout) (hk : k < v.geometry.groups)
    (hi : i < v.spb.inodePerGroup) :
    v.HasInode (k * v.spb.inodePerGroup + i + 1) ∧
      v.inodeGroup (k * v.spb.inodePerGroup + i + 1) = k ∧
      v.inodeIndex (k * v.spb.inodePerGroup + i + 1) = i ∧
      k * v.spb.inodePerGroup + i + 1 < 2 ^ 32 := by
  have hlt : v.geometry.groups * v.spb.inodePerGroup < 2 ^ 32 :=
    groups_mul_perGroup_lt (r := .inodes) L
  have hle : (k + 1) * v.spb.inodePerGroup ≤ v.geometry.groups * v.spb.inodePerGroup :=
    Nat.mul_le_mul_right _ hk
  rw [Nat.add_mul] at hle
  have hs : sub32 (k * v.spb.inodePerGroup + i + 1) 1 = k * v.spb.inodePerGroup + i :=
    sub32_of_le (by omega) (by omega)
  refine ⟨⟨by omega, by omega⟩, ?_, ?_, by omega⟩
  · unfold inodeGroup
    rw [hs, Nat.mul_comm, Nat.mul_add_div (by omega), Nat.div_eq_of_lt hi, Nat.add_zero]
  · unfold inodeIndex
    rw [hs, Nat.mul_comm, Nat.mul_add_mod, Nat.mod_eq_of_lt hi]

/-- Inodes are told apart by their positions. -/
lemma inode_eq (L : v.geometry.Layout) (hi : v.HasInode i) (hj : v.HasInode j)
    (hg : v.inodeGroup i = v.inodeGroup j) (hx : v.inodeIndex i = v.inodeIndex j) : i = j := by
  have hlt : v.geometry.groups * v.spb.inodePerGroup < 2 ^ 32 :=
    groups_mul_perGroup_lt (r := .inodes) L
  have h1 := hi.1
  have h2 := hi.2
  have h3 := hj.1
  have h4 := hj.2
  unfold inodeGroup at hg
  unfold inodeIndex at hx
  rw [sub32_of_le h1 (by omega), sub32_of_le h3 (by omega)] at hg hx
  have e1 := Nat.div_add_mod (i - 1) v.spb.inodePerGroup
  have e2 := Nat.div_add_mod (j - 1) v.spb.inodePerGroup
  rw [hg, hx, e2] at e1
  omega

/-- The bits after a mark. -/
lemma InodeMarked.inodeBit {value : Bool} (h : InodeMarked v w i value) (L : v.geometry.Layout)
    (hi : v.HasInode i) (hp : w.spb.inodePerGroup = v.spb.inodePerGroup) (hj : v.HasInode j) :
    w.inodeBit j = if j = i then value else v.inodeBit j := by
  have hk := hi.group_lt L
  have hx : v.inodeIndex j < v.spb.inodePerGroup := inodeIndex_lt L j
  have hg : w.inodeGroup j = v.inodeGroup j := by
    unfold inodeGroup
    rw [hp]
  have hn : w.inodeIndex j = v.inodeIndex j := by
    unfold inodeIndex
    rw [hp]
  unfold Volume.inodeBit
  rw [hg, hn]
  by_cases hgj : v.inodeGroup j = v.inodeGroup i
  · rw [hgj, Marked.bit h _ (hx.trans_le L.inodePerGroup_le)]
    by_cases hji : j = i
    · subst hji
      rw [if_pos rfl, if_pos rfl]
    · rw [if_neg fun e => hji (inode_eq L hj hi hgj e), if_neg hji]
  · rw [if_neg fun e : j = i => hgj (e ▸ rfl)]
    exact Marked.bitmapBit_of_ne (r := .inodes) (q := .inodes) L h hk (hj.group_lt L)
      (fun e => hgj e.2) hx

/-! ## One call -/

/-- The states the allocator starts from: the counters are right and the hint names a free
inode. -/
structure InodesReady (v : Volume) : Prop where
  layout : v.geometry.Layout
  tallied : v.Tallied .inodes
  first : v.InodeFree v.spb.firstFreeInode

/-- There is a free inode where the search of `allocate_inode` looks in group `k`, once the inode of
the hint is taken. -/
def NextHit (v : Volume) (k : Nat) : Prop :=
  let first := v.spb.firstFreeInode
  if k = v.inodeGroup first then
    v.unallocInode k ≠ 1 ∧ paramFfb (setBit (v.inodeBits k) (v.inodeIndex first) true)
      v.spb.inodePerGroup (v.inodeIndex first + 1) ≠ NONE
  else v.unallocInode k ≠ 0 ∧ paramFfb (v.inodeBits k) v.spb.inodePerGroup 0 ≠ NONE

lemma FirstTaken.unallocInode (h : FirstTaken v w) (k : Nat) :
    w.unallocInode k = if k = v.inodeGroup v.spb.firstFreeInode then sub16 (v.unallocInode k) 1
      else v.unallocInode k := by
  unfold Volume.unallocInode
  rw [h.bgpt, counter_set16 (.inr rfl) (.inr rfl) (show sub16 _ _ < 2 ^ 16 from
    Nat.mod_lt _ (by omega))]
  by_cases hk : k = v.inodeGroup v.spb.firstFreeInode
  · rw [if_pos ⟨hk, rfl⟩, if_pos hk, hk]
    rfl
  · rw [if_neg fun h => hk h.1, if_neg hk]

/-- What the search of `allocate_inode` looks for, said about the state before the call. -/
lemma FirstTaken.hit_iff (h : FirstTaken v w) (L : v.geometry.Layout)
    (hg : v.inodeGroup v.spb.firstFreeInode < v.geometry.groups) (hk : k < v.geometry.groups) :
    w.InodeHit (v.inodeGroup v.spb.firstFreeInode) (v.inodeIndex v.spb.firstFreeInode) k ↔
      v.NextHit k := by
  have hp : w.spb.inodePerGroup = v.spb.inodePerGroup := by rw [h.spb]
  have hle : v.spb.inodePerGroup ≤ 8 * v.geometry.bytes := L.inodePerGroup_le
  unfold InodeHit NextHit inodeFrom
  dsimp only
  rw [h.unallocInode, hp]
  by_cases hkk : k = v.inodeGroup v.spb.firstFreeInode
  · subst hkk
    have hlt := v.bgpt.get16_lt (32 * v.inodeGroup v.spb.firstFreeInode + 14)
    have hu : sub16 (v.unallocInode (v.inodeGroup v.spb.firstFreeInode)) 1 ≠ 0 ↔
        v.unallocInode (v.inodeGroup v.spb.firstFreeInode) ≠ 1 := by
      unfold sub16 Volume.unallocInode
      omega
    rw [if_pos rfl, if_pos rfl, if_pos rfl, hu, paramFfb_congr_bits fun b hb => ?_]
    rw [inodeBits_bit, h.marked.bit b (by omega), bit_setBit, inodeBits_bit]
  · rw [if_neg hkk, if_neg hkk, if_neg hkk, paramFfb_congr_bits fun b hb => ?_]
    rw [inodeBits_bit, inodeBits_bit]
    exact h.marked.bitmapBit_of_ne (r := .inodes) (q := .inodes) L hg hk
      (fun e => hkk e.2) hb

/-- The inode counters after the inode of the hint is taken. -/
lemma FirstTaken.tallied (h : FirstTaken v w) (hr : v.InodesReady) : w.Tallied .inodes := by
  have hg := hr.first.1.group_lt hr.layout
  have hi := inodeIndex_lt hr.layout v.spb.firstFreeInode
  have hpos := hr.tallied.unalloc_pos hg hi hr.first.2
  have htot := hr.tallied.total_le.trans_lt (groups_mul_perGroup_lt (r := .inodes) hr.layout)
  have hlt := v.bgpt.get16_lt (32 * v.inodeGroup v.spb.firstFreeInode + 14)
  have hp : w.spb.inodePerGroup = v.spb.inodePerGroup := by rw [h.spb]
  have hu : w.spb.unallocInodeNum = sub32 v.spb.unallocInodeNum 1 := by rw [h.spb]
  refine hr.tallied.of_marked (b := true) hr.layout h.marked hg hi hp hr.first.2
    (fun j hj => ?_) ?_
  · exact (h.unallocInode j).trans (if_neg hj)
  · rw [if_pos rfl]
    have h1 := (h.unallocInode (v.inodeGroup v.spb.firstFreeInode)).trans (if_pos rfl)
    change 0 < v.unallocInode _ ∧ 0 < v.spb.unallocInodeNum at hpos
    change v.spb.unallocInodeNum < 2 ^ 32 at htot
    change v.unallocInode _ = w.unallocInode _ + 1 ∧
      v.spb.unallocInodeNum = w.spb.unallocInodeNum + 1
    rw [hu, h1, sub32_of_le hpos.2 htot]
    unfold sub16 Volume.unallocInode at *
    omega

/-- `allocate_inode` with a successor for the hint returns the inode of the hint. -/
lemma allocateInode_step (hr : v.InodesReady)
    (h : ∃ k, v.inodeGroup v.spb.firstFreeInode ≤ k ∧ k < v.geometry.groups ∧ v.NextHit k) :
    ∃ w, v.allocateInode = (w, v.spb.firstFreeInode) ∧
      InodeMarked v w v.spb.firstFreeInode true ∧
      w.spb.inodePerGroup = v.spb.inodePerGroup ∧ w.InodesReady := by
  have hg := hr.first.1.group_lt hr.layout
  have hpos := hr.tallied.unalloc_pos hg (inodeIndex_lt hr.layout _) hr.first.2
  rcases allocateInode_spec hr.layout (Nat.ne_of_gt hpos.2) hr.first.1 with
    ⟨u, ht, ⟨j, _, hj, hhit, e⟩ | ⟨hno, _⟩⟩
  · have hug : u.geometry = v.geometry := ht.marked.geometry
    have hup : u.spb.inodePerGroup = v.spb.inodePerGroup := by rw [ht.spb]
    have hL : u.geometry.Layout := hug ▸ hr.layout
    have hffb := paramFfb_spec hhit.2
    rw [inodeBits_bit, hup] at hffb
    generalize paramFfb (u.inodeBits j) v.spb.inodePerGroup _ = p at hffb e
    have hat := inode_at hL (hug ▸ hj) (hup ▸ hffb.1)
    rw [hup] at hat
    rw [Nat.mod_eq_of_lt hat.2.2.2] at e
    refine ⟨_, e, ht.marked.setFirstFreeInode _, hup, hL, (ht.tallied hr).setFirstFreeInode _,
      hat.1, ?_⟩
    show u.inodeBit (j * v.spb.inodePerGroup + p + 1) = false
    unfold Volume.inodeBit
    rw [hat.2.1, hat.2.2.1]
    exact hffb.2
  · rcases h with ⟨k, h1, h2, h3⟩
    exact absurd ((ht.hit_iff hr.layout hg h2).mpr h3) (hno k h1 h2)

/-- The inode counters after the bit at `pos` is cleared, if it is one that is counted. -/
lemma Tallied.of_freed {pos : Nat} (L : v.geometry.Layout) (h : v.Tallied .inodes)
    (hg : v.inodeGroup i < v.geometry.groups) (hpos : pos < v.spb.inodePerGroup)
    (hset : v.bitmapBit (.inodeBitmap (v.inodeGroup i)) pos = true)
    (hm : Marked v w (.inodeBitmap (v.inodeGroup i)) pos false)
    (hb : w.bgpt = v.bgpt.set16 (32 * v.inodeGroup i + 14)
      ((v.unallocInode (v.inodeGroup i) + 1) % 2 ^ 16))
    (hp : w.spb.inodePerGroup = v.spb.inodePerGroup)
    (hn : w.spb.unallocInodeNum = add32 v.spb.unallocInodeNum 1)
    (hc : v.unallocInode (v.inodeGroup i) + 1 < 2 ^ 16) : w.Tallied .inodes := by
  have hu : ∀ j, w.unallocInode j = if j = v.inodeGroup i then v.unallocInode (v.inodeGroup i) + 1
      else v.unallocInode j := by
    intro j
    unfold Volume.unallocInode at hc ⊢
    rw [hb, counter_set16 (.inr rfl) (.inr rfl) (Nat.mod_lt _ (by omega))]
    by_cases hj : j = v.inodeGroup i
    · rw [if_pos ⟨hj, rfl⟩, if_pos hj]
      exact Nat.mod_eq_of_lt hc
    · rw [if_neg fun h => hj h.1, if_neg hj]
  have htot := h.total_lt hg hpos hset
  have hmul := groups_mul_perGroup_lt (r := .inodes) L
  change v.spb.unallocInodeNum < _ at htot
  refine h.of_marked (b := false) L hm hg hpos hp hset
    (fun j hj => (hu j).trans (if_neg hj)) ?_
  rw [if_neg (by decide)]
  exact ⟨(hu _).trans (if_pos rfl), hn.trans (add32_of_lt (by omega))⟩

/-- `unallocate_inode` on an allocated inode, when it looks for its bit where it is. -/
lemma unallocateInode_step (hr : v.InodesReady) (hi : v.HasInode i) (hset : v.inodeBit i = true)
    (hx : freedIndex i = v.inodeIndex i) (hc : v.unallocInode (v.inodeGroup i) + 1 < 2 ^ 16) :
    ∃ w, v.unallocateInode i = (w, 0) ∧ InodeMarked v w i false ∧
      w.spb.inodePerGroup = v.spb.inodePerGroup ∧ w.InodesReady := by
  have hg := hi.group_lt hr.layout
  have hlt := inodeIndex_lt hr.layout i
  rcases unallocateInode_spec hr.layout hg with ⟨h, _⟩ | ⟨_, w, e, hm, hb, hs⟩
  · rw [hx] at h
    exact absurd (hset.symm.trans h) (by decide)
  rw [hx] at hm
  have hp : w.spb.inodePerGroup = v.spb.inodePerGroup := by rw [hs]
  have hn : w.spb.unallocInodeNum = add32 v.spb.unallocInodeNum 1 := by rw [hs]
  have ht := hr.tallied.of_freed hr.layout hg hlt hset hm hb hp hn hc
  have hL : w.geometry.Layout := hm.geometry ▸ hr.layout
  have hfirst : w.spb.firstFreeInode = v.lowerHint i := by rw [hs]
  refine ⟨w, e, hm, hp, hL, ht, ?_⟩
  -- the hint is the freed inode, or it was free before
  have hkeep : ∀ j, v.InodeFree j ∨ j = i → w.InodeFree j := by
    intro j hj
    have hj' : v.HasInode j := hj.elim (fun h => h.1) fun h => h ▸ hi
    refine ⟨⟨hj'.1, by rw [hm.geometry, hp]; exact hj'.2⟩, ?_⟩
    rw [InodeMarked.inodeBit hm hr.layout hi hp hj']
    by_cases hji : j = i
    · rw [if_pos hji]
    · rw [if_neg hji]
      exact (hj.resolve_right hji).2
  rw [hfirst]
  unfold lowerHint
  by_cases h : i < v.spb.firstFreeInode
  · rw [if_pos h]
    exact hkeep i (.inr rfl)
  · rw [if_neg h]
    exact hkeep _ (.inl hr.first)

/-! ## Runs -/

/-- A call of the allocator, with the inode it returns or frees. -/
inductive InodeEvent where
  | allocated (inode : Nat)
  | freed (inode : Nat)

/-- A call of `allocate_inode`, or of `unallocate_inode` on an allocated inode. -/
def inodeStep (v : Volume) : InodeEvent → Volume → Prop
  | .allocated i, w => v.allocateInode = (w, i)
  | .freed i, w => v.HasInode i ∧ v.inodeBit i = true ∧ (v.unallocateInode i).1 = w

/-- The condition on a call: `allocate_inode` finds an inode to move the hint to; the bit of the
freed inode is where `unallocate_inode` looks for it, and its counter does not overflow. -/
def InodeCallFits (v : Volume) : InodeEvent → Prop
  | .allocated _ => ∃ k, v.inodeGroup v.spb.firstFreeInode ≤ k ∧ k < v.geometry.groups ∧ v.NextHit k
  | .freed i => freedIndex i = v.inodeIndex i ∧ v.unallocInode (v.inodeGroup i) + 1 < 2 ^ 16

/-- What is said of a call: `allocate_inode` returns 0 only if no inode is free, and otherwise one
that was, whose bit it sets; `unallocate_inode` clears the bit of its inode. -/
def InodeCallCorrect (v : Volume) : InodeEvent → Volume → Prop
  | .allocated i, w =>
    (i = 0 → ¬ ∃ j, v.InodeFree j) ∧ (i ≠ 0 → v.InodeFree i ∧ InodeMarked v w i true)
  | .freed i, w => InodeMarked v w i false

/-- One call. -/
lemma inodeStep_spec {e : InodeEvent} (hr : v.InodesReady)
    (h : Guarded InodeCallFits inodeStep v e w) :
    w.InodesReady ∧ w.geometry = v.geometry ∧ w.spb.inodePerGroup = v.spb.inodePerGroup ∧
      match e with
      | .allocated i => v.InodeFree i ∧ InodeMarked v w i true
      | .freed i => v.HasInode i ∧ InodeMarked v w i false := by
  rcases h with ⟨hfit, hstep⟩
  cases e with
  | allocated i =>
    rcases allocateInode_step hr hfit with ⟨w', e, hm, hp, hr'⟩
    have h : (w', v.spb.firstFreeInode) = (w, i) := e.symm.trans hstep
    cases h
    exact ⟨hr', hm.geometry, hp, hr.first, hm⟩
  | freed i =>
    rcases hstep with ⟨hi, hset, hstep⟩
    rcases unallocateInode_step hr hi hset hfit.1 hfit.2 with ⟨w', e, hm, hp, hr'⟩
    rw [e] at hstep
    cases hstep
    exact ⟨hr', hm.geometry, hp, hi, hm⟩

/-- A set bit stays set until its inode is freed. -/
lemma inodeBit_of_run {es : List InodeEvent} (hi : v.HasInode i) (hr : v.InodesReady)
    (hset : v.inodeBit i = true) (r : Run (Guarded InodeCallFits inodeStep) v es w)
    (hno : InodeEvent.freed i ∉ es) :
    w.InodesReady ∧ w.HasInode i ∧ w.inodeBit i = true := by
  induction r with
  | nil => exact ⟨hr, hi, hset⟩
  | @snoc es t e u _ st ih =>
    rcases ih fun h => hno (List.mem_append_left _ h) with ⟨htr, hti, htset⟩
    rcases inodeStep_spec htr st with ⟨hur, hg, hp, he⟩
    refine ⟨hur, ⟨hti.1, by rw [hg, hp]; exact hti.2⟩, ?_⟩
    cases e with
    | allocated j =>
      rw [InodeMarked.inodeBit he.2 htr.layout he.1.1 hp hti]
      by_cases h : i = j
      · rw [if_pos h]
      · rw [if_neg h, htset]
    | freed j =>
      have hij : i ≠ j := fun h => hno (h ▸ List.mem_append_right _ (List.mem_singleton.mpr rfl))
      rw [InodeMarked.inodeBit he.2 htr.layout he.1 hp hti, if_neg hij, htset]

/-- The states reached are states to start from. -/
lemma inodesReady_of_run {es : List InodeEvent} (hr : v.InodesReady)
    (r : Run (Guarded InodeCallFits inodeStep) v es w) : w.InodesReady :=
  r.invariant (I := InodesReady) (fun _ _ _ h st => (inodeStep_spec h st).1) hr

/-- In a run all of whose calls fit, every call is correct and no inode is returned twice without
being freed in between. -/
theorem inodes_allocated_once (v w : Volume) (es : List InodeEvent) (hr : v.InodesReady)
    (r : Run (Guarded InodeCallFits inodeStep) v es w) :
    w.InodesReady ∧
      (∀ xs e ys, es = xs ++ e :: ys → ∃ t t', Run inodeStep v xs t ∧ inodeStep t e t' ∧
        Run inodeStep t' ys w ∧ InodeCallCorrect t e t') ∧
      ∀ i xs ys zs, es = xs ++ .allocated i :: (ys ++ .allocated i :: zs) →
        InodeEvent.freed i ∈ ys := by
  refine ⟨inodesReady_of_run hr r, ?_, ?_⟩
  · rintro xs e ys rfl
    rcases r.split with ⟨t, r1, r2⟩
    rcases r2.head with ⟨t', st, r3⟩
    refine ⟨t, t', r1.of_guarded, st.2, r3.of_guarded, ?_⟩
    have h := inodeStep_spec (inodesReady_of_run hr r1) st
    cases e with
    | allocated i =>
      exact ⟨fun h0 => absurd (h0 ▸ h.2.2.2.1.1.1) (Nat.lt_irrefl 0), fun _ => h.2.2.2⟩
    | freed i => exact h.2.2.2.2
  · rintro i xs ys zs rfl
    by_contra hno
    rcases r.split with ⟨t, r1, r2⟩
    rcases r2.head with ⟨t', st, r3⟩
    rcases r3.split with ⟨u, r4, r5⟩
    rcases r5.head with ⟨u', st', _⟩
    have htr := inodesReady_of_run hr r1
    rcases inodeStep_spec htr st with ⟨ht'r, hg, hp, hfree, hm⟩
    have hset : t'.inodeBit i = true := by
      rw [InodeMarked.inodeBit hm htr.layout hfree.1 hp hfree.1, if_pos rfl]
    have hi : t'.HasInode i := ⟨hfree.1.1, by rw [hg, hp]; exact hfree.1.2⟩
    rcases inodeBit_of_run hi ht'r hset r4 hno with ⟨hur, _, huset⟩
    have hclear := (inodeStep_spec hur st').2.2.2.1.2
    exact absurd (huset.symm.trans hclear) (by decide)

end Volume

/-! ### The last free inode -/

/-- The words of a volume on which no block is free, and only the inodes of bits 8 in the groups of
`free`. -/
def freeInodeWord (free : Nat → Bool) (n i : Nat) : Nat :=
  if n < 6 ∧ i = 0 then
    if 4 ≤ n ∧ free (n - 4) then 2 ^ 32 - 1 - 2 ^ 8 else 2 ^ 32 - 1
  else 0

/-- A volume on which inode 9 is free, and inode 41 if `two` says so. -/
def freeInodeVolume (two : Bool) : Volume :=
  sampleVolume (freeInodeWord fun k => k == 0 || two)
    (fun k => if k == 0 || two then 2 ^ 16 else 0) 0 (1 + two.toNat) 9

lemma freeInodeVolume_geometry (two : Bool) :
    (freeInodeVolume two).geometry = sampleGeometry := sampleVolume_geometry _ _ _ _ _

lemma freeInodeVolume_ready (two : Bool) : (freeInodeVolume two).InodesReady where
  layout := freeInodeVolume_geometry two ▸ sampleGeometry_layout
  tallied := by
    constructor
    · intro k hk
      have hk : k < 2 := by rwa [freeInodeVolume_geometry] at hk
      cases two <;> interval_cases k <;> decide +kernel
    · rw [freeInodeVolume_geometry]
      cases two <;> decide +kernel
  first := by
    refine ⟨⟨show 0 < 9 by omega, ?_⟩, ?_⟩
    · rw [freeInodeVolume_geometry]
      cases two <;> decide +kernel
    · cases two <;> decide +kernel

/-- The inode that `allocate_inode` returns. -/
lemma freeInodeVolume_inode :
    (freeInodeVolume true).allocateInode.2 = 9 ∧ (freeInodeVolume false).allocateInode.2 = 0 := by
  decide +kernel

/-- With two free inodes, one is allocated and freed again. -/
theorem inodes_allocated_once_sample :
    (freeInodeVolume true).allocateInode.2 = 9 ∧
      ((freeInodeVolume true).allocateInode.1.unallocateInode 9).1.InodesReady := by
  have hnext : (freeInodeVolume true).NextHit 1 := by
    unfold Volume.NextHit
    dsimp only
    rw [if_neg (by decide +kernel)]
    exact ⟨by decide +kernel, by decide +kernel⟩
  have hgroup : 1 < (freeInodeVolume true).geometry.groups := by
    rw [freeInodeVolume_geometry]
    decide
  have hret := freeInodeVolume_inode.1
  refine ⟨hret, (Volume.inodes_allocated_once (freeInodeVolume true) _
    ([] ++ [.allocated 9] ++ [.freed 9]) (freeInodeVolume_ready true) ?_).1⟩
  refine .snoc (.snoc .nil ⟨⟨1, by decide +kernel, hgroup, hnext⟩, Prod.ext rfl hret⟩) ?_
  exact ⟨⟨by decide +kernel, by decide +kernel⟩, ⟨by decide +kernel, by decide +kernel⟩,
    by decide +kernel, rfl⟩

/-- The last free inode is taken, and 0 returned. -/
theorem allocateInode_last :
    (freeInodeVolume false).InodesReady ∧
      ¬ (Volume.InodeCallCorrect (freeInodeVolume false)
        (.allocated (freeInodeVolume false).allocateInode.2)
        (freeInodeVolume false).allocateInode.1) := by
  refine ⟨freeInodeVolume_ready false, fun h => h.1 freeInodeVolume_inode.2 ⟨9, ?_⟩⟩
  exact (freeInodeVolume_ready false).first

end MarioBrOS.Fs
