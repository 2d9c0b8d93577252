import MarioBrOS.Fs.File

/-!
# Rules for `prepare_blocks`

The loops of `prepare_blocks` return early wherever `allocate_block` finds nothing and wherever the
last block is there. `Post` says what holds on either way out; it is proved one statement at a time.
As a first use, `prepare_blocks` leaves the size of a block alone.
-/

namespace MarioBrOS.Fs

namespace Volume

/-- On every way out: `early` of what is returned early, `done` of the result. -/
def Growing.Post {α : Type} (m : Growing α) (early : Volume × Nat → Prop) (done : α → Prop) :
    Prop :=
  ∀ r, m.run = some r → match r with
    | .ok a => done a
    | .error e => early e

namespace Growing

variable {α β : Type} {early : Volume × Nat → Prop} {m : Growing α} {k : α → Growing β}

lemma Post.pure {done : α → Prop} {a : α} (h : done a) :
    Post (Pure.pure a : Growing α) early done := by
  intro r hr
  cases hr
  exact h

lemma Post.throw {done : α → Prop} {e : Volume × Nat} (h : early e) :
    Post (MonadExcept.throw e : Growing α) early done := by
  intro r hr
  cases hr
  exact h

lemma Post.bind {done : β → Prop} (mid : α → Prop) (h : Post m early mid)
    (h' : ∀ a, mid a → Post (k a) early done) : Post (m >>= k) early done := by
  intro r hr
  have hr : (ExceptT.run m).bind (ExceptT.bindCont k) = some r := hr
  rcases Option.bind_eq_some_iff.mp hr with ⟨x, hx, hr⟩
  cases x with
  | error e =>
    cases hr
    exact h _ hx
  | ok a => exact h' a (h _ hx) r hr

/-- What follows an early return is not reached. -/
lemma Post.throw_bind {done : β → Prop} {e : Volume × Nat} (h : early e) :
    Post ((MonadExcept.throw e : Growing α) >>= k) early done :=
  .bind (fun _ => False) (.throw h) fun _ ha => ha.elim

/-- A computation that always returns early. -/
lemma Post.of_false {done : α → Prop} (h : Post m early fun _ => False) : Post m early done := by
  intro r hr
  cases r with
  | error e => exact h _ hr
  | ok a => exact (h _ hr).elim

end Growing

variable {v : Volume} {early : Volume × Nat → Prop}

/-- The rule for an allocation, on either outcome. -/
lemma post_allocateOr {addr count : Nat} {full : Volume → Volume} {done : Volume × Nat → Prop}
    (h : ∀ v' b, v.allocateBlock addr = some (v', b) →
      (b = 0 → early (full v', count)) ∧ (b ≠ 0 → done (v', b))) :
    Growing.Post (v.allocateOr addr count full) early done := by
  intro r hr
  unfold allocateOr at hr
  have hr : (v.allocateBlock addr).bind (fun x => ExceptT.run
      (if x.2 = 0 then throw (full x.1, count) else pure x : Growing (Volume × Nat))) = some r := by
    rw [← hr]
    cases v.allocateBlock addr <;> rfl
  rcases Option.bind_eq_some_iff.mp hr with ⟨⟨v', b⟩, hb, hr⟩
  dsimp only at hr
  split at hr
  · cases hr
    exact (h v' b hb).1 (by assumption)
  · cases hr
    exact (h v' b hb).2 (by assumption)

/-! ## The size of a block -/

lemma blockSearch_spb (n k pos : Nat) : (v.blockSearch n k pos).1.spb = v.spb := by
  induction n generalizing v k pos with
  | zero => rfl
  | succ n ih =>
    rw [blockSearch]
    dsimp only
    split
    · exact ih ..
    · split
      · rfl
      · exact ih ..

lemma size_of_counter (p : Superblock) (n : Nat) :
    ({ p with unallocBlockNum := n } : Superblock).blockSize = p.blockSize := rfl

lemma takeBlock_size (k pos : Nat) : (v.takeBlock k pos).spb.blockSize = v.spb.blockSize :=
  size_of_counter v.spb _

lemma allocatePass_size (prec : Nat) :
    (v.allocatePass prec).1.spb.blockSize = v.spb.blockSize := by
  have key : ∀ (w : Volume) (found : Volume × Nat × Nat) (block : Nat), w.spb = v.spb →
      found.1.spb = w.spb →
      (if w.spb.unallocBlockNum = 0 then (w, some 0)
        else if found.2.2 ≠ NONE then (found.1.takeBlock found.2.1 found.2.2, some block)
        else (found.1, none)).1.spb.blockSize = v.spb.blockSize := by
    intro w found block hw hs
    by_cases h0 : w.spb.unallocBlockNum = 0
    · rw [if_pos h0, hw]
    · by_cases h : found.2.2 ≠ NONE
      · rw [if_neg h0, if_pos h, takeBlock_size, hs, hw]
      · rw [if_neg h0, if_neg h, hs, hw]
  exact key (v.loadBlock (v.blockAddressBitmap (prec / v.spb.blockPerGroup))) _ _ rfl
    (blockSearch_spb ..)

lemma allocateBlock_size {prec b : Nat} {v' : Volume} (h : v.allocateBlock prec = some (v', b)) :
    v'.spb.blockSize = v.spb.blockSize := by
  unfold allocateBlock at h
  dsimp only at h
  have h1 := allocatePass_size (v := v) (v.searchStart prec)
  generalize v.allocatePass (v.searchStart prec) = first at h h1
  have h2 := allocatePass_size (v := first.1) 1
  generalize first.1.allocatePass 1 = second at h h2
  rcases first with ⟨w, o⟩
  cases o with
  | some block =>
    cases h
    exact h1
  | none =>
    dsimp only at h
    by_cases hp : v.searchStart prec = 1
    · rw [if_pos hp] at h
      cases h
    · rw [if_neg hp] at h
      rcases second with ⟨w', o'⟩
      cases o' with
      | some block =>
        cases h
        exact h2.trans h1
      | none => cases h

/-! ## What depends on the superblock and the descriptors only -/

/-- A property that no change to the disk or to the standard buffers affects, and that
`allocate_block` keeps. -/
structure Steady (I : Volume → Prop) : Prop where
  buffers : ∀ {v : Volume} (disk stdBuf stdInode : Bytes), I v →
    I { v with disk := disk, stdBuf := stdBuf, stdInode := stdInode }
  allocate : ∀ {v v' : Volume} {prec b : Nat}, I v → v.allocateBlock prec = some (v', b) → I v'

section Steady

variable {I : Volume → Prop} {g : Growth} {toUse n i : Nat}

/-- Every way out of a function of `prepare_blocks` keeps the property. -/
abbrev Keeps (I : Volume → Prop) (m : Growing Growth) : Prop :=
  Growing.Post m (fun r => I r.1) (fun g => I g.volume)

lemma Steady.allocateOr (S : Steady I) {addr count : Nat} {full : Volume → Volume} (h : I v)
    (hfull : ∀ w, I w → I (full w)) :
    Growing.Post (v.allocateOr addr count full) (fun r => I r.1) (fun r => I r.1) :=
  post_allocateOr fun _ _ hb => ⟨fun _ => hfull _ (S.allocate h hb), fun _ => S.allocate h hb⟩

lemma Steady.growDirect (S : Steady I) {inode : Nat} (h : I g.volume) :
    Keeps I (growDirect inode toUse n g) := by
  induction n generalizing g with
  | zero => exact .pure h
  | succ n ih =>
    rw [Volume.growDirect]
    refine .bind _ (S.allocateOr h fun w hw => S.buffers _ _ _ hw) fun r hr => ?_
    rcases r with ⟨w, addr⟩
    have hw : I (w.setDbp g.used addr) := S.buffers _ _ _ hr
    dsimp only
    split
    · exact .throw_bind (S.buffers _ _ _ hw)
    · exact ih hw

lemma Steady.growTable (S : Steady I) {store : Volume → Volume} (hstore : ∀ w, I w → I (store w))
    (h : I g.volume) : Keeps I (growTable store toUse n i g) := by
  induction n generalizing g i with
  | zero => exact .pure (hstore _ h)
  | succ n ih =>
    rw [Volume.growTable]
    refine .bind _ (S.allocateOr h hstore) fun r hr => ?_
    rcases r with ⟨w, addr⟩
    have hw : I (w.setBufEntry i addr) := S.buffers _ _ _ hr
    dsimp only
    split
    · exact .throw_bind (hstore _ hw)
    · exact ih hw

lemma Steady.enterTable (S : Steady I) {lba span : Nat} (h : I g.volume) :
    Growing.Post (enterTable lba i span g) (fun r => I r.1) (fun r => I r.1.volume) := by
  unfold Volume.enterTable
  dsimp only
  split
  · refine .bind _ (S.allocateOr h fun _ hw => hw) fun r hr => ?_
    rcases r with ⟨w, addr⟩
    exact .pure (S.buffers _ _ _ (S.buffers _ _ _ (S.buffers _ _ _ hr)))
  · exact .pure (S.buffers _ _ _ h)

lemma Steady.growDouble (S : Steady I) (h : I g.volume) : Keeps I (growDouble toUse n i g) := by
  induction n generalizing g i with
  | zero => exact .pure h
  | succ n ih =>
    rw [Volume.growDouble]
    refine .bind _ (S.enterTable (S.buffers _ _ _ h)) fun r hr => ?_
    exact .bind _ (S.growTable (fun _ hw => S.buffers _ _ _ hw) hr) fun g hg => ih hg

lemma Steady.growMiddle (S : Steady I) {currSqBlock : Nat} (h : I g.volume) :
    Keeps I (growMiddle toUse currSqBlock n i g) := by
  induction n generalizing g i with
  | zero => exact .pure h
  | succ n ih =>
    rw [Volume.growMiddle]
    refine .bind _ (S.enterTable h) fun r hr => ?_
    exact .bind _ (S.growTable (fun _ hw => S.buffers _ _ _ hw) hr) fun g hg => ih hg

lemma Steady.growTriple (S : Steady I) (h : I g.volume) : Keeps I (growTriple toUse n i g) := by
  induction n generalizing g i with
  | zero => exact .pure h
  | succ n ih =>
    rw [Volume.growTriple]
    refine .bind _ (S.enterTable (S.buffers _ _ _ h)) fun r hr => ?_
    exact .bind _ (S.growMiddle hr) fun g hg => ih hg

lemma Steady.growSingle (S : Steady I) {inode : Nat} (h : I g.volume) :
    Keeps I (growSingle inode toUse g) := by
  have key : ∀ g : Growth, I g.volume → Keeps I (Volume.growTable (fun v => v.storeBlock v.sibp)
      toUse ((g.volume.loadBlock g.volume.sibp).addrPerBlock - g.used) g.used
      { g with volume := g.volume.loadBlock g.volume.sibp }) := fun g hg =>
    S.growTable (fun _ hw => S.buffers _ _ _ hw) (S.buffers _ _ _ hg)
  unfold Volume.growSingle
  dsimp only
  split
  · refine .bind _ (S.allocateOr h fun _ hw => hw) fun r hr => ?_
    rcases r with ⟨w, addr⟩
    exact key ⟨_, _, _, _⟩ (S.buffers _ _ _ (S.buffers _ _ _ hr))
  · exact key g h

lemma Steady.growBelowDibp (S : Steady I) {inode : Nat} (h : I g.volume) :
    Keeps I (growBelowDibp inode toUse g) := by
  unfold Volume.growBelowDibp
  dsimp only
  split
  · split
    · refine .bind _ (S.allocateOr h fun _ hw => hw) fun r hr => ?_
      rcases r with ⟨w, addr⟩
      exact S.growDouble (S.buffers _ _ _ (S.buffers _ _ _ hr))
    · exact S.growDouble (S.buffers _ _ _ h)
  · exact .pure h

lemma Steady.growBelowTibp (S : Steady I) {inode : Nat} (h : I g.volume) :
    Keeps I (growBelowTibp inode toUse g) := by
  unfold Volume.growBelowTibp
  dsimp only
  split
  · refine .bind _ (S.allocateOr h fun _ hw => S.buffers _ _ _ hw) fun r hr => ?_
    rcases r with ⟨w, addr⟩
    exact S.growTriple (S.buffers _ _ _ (S.buffers _ _ _ hr))
  · exact S.growTriple (S.buffers _ _ _ h)

/-- The whole of `prepare_blocks` keeps the property. -/
lemma Steady.prepareBlocks (S : Steady I) {inode used : Nat} {v' : Volume} (h : I v)
    (e : v.prepareBlocks inode used toUse = some (v', n)) : I v' := by
  have hgrow : Growing.Post (v.grow inode used toUse) (fun r => I r.1) (fun r => I r.1) := by
    unfold Volume.grow
    refine .bind _ (S.growDirect h) fun g hg => ?_
    refine .bind _ (S.growSingle (S.buffers _ _ _ hg)) fun g hg => ?_
    refine .bind _ (S.growBelowDibp hg) fun g hg => ?_
    exact .bind _ (S.growBelowTibp hg) fun g hg => .pure hg
  unfold Volume.prepareBlocks at e
  dsimp only at e
  split at e
  · cases e
    exact h
  split at e
  · cases e
    exact h
  rcases Option.bind_eq_some_iff.mp e with ⟨r, hr, e⟩
  have hI := hgrow r hr
  cases r with
  | error r =>
    cases e
    exact hI
  | ok r =>
    cases e
    exact hI

/-- `prepare_blocks` leaves the size of a block alone. -/
lemma prepareBlocks_blockSize {inode used : Nat} {v' : Volume}
    (e : v.prepareBlocks inode used toUse = some (v', n)) : v'.spb.blockSize = v.spb.blockSize :=
  Steady.prepareBlocks (I := fun w => w.spb.blockSize = v.spb.blockSize)
    ⟨fun _ _ _ h => h, fun h hb => (allocateBlock_size hb).trans h⟩ rfl e

end Steady

end Volume

end MarioBrOS.Fs
