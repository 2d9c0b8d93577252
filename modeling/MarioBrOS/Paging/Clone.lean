import MarioBrOS.Paging.ForkPageDir

/-!
# Cloning a directory

`clone_directory` makes page tables for the copy until the copy has one for each of the directory.
The heap may map pages for them, and if the directory is the current one these appear in it: a round
that finds a table without a copy is followed by another one. The rounds come to an end
(`cloneLoop_terminates`), but a table that has its copy is not looked at again.
-/

namespace MarioBrOS.Paging

variable {μ : Type} (H : KernelHeap μ)

/-- `paging.c`, `clone_page_table`. -/
def clonePageTable (table : Nat) (m : Machine μ) : Except String (Nat × Machine μ) := do
  let (copy, m) ← H.memAllocAligned SIZEOF_PAGE_TABLE 0x1000 m
  if copy = 0 then
    throw "PAGE_FAULT"
  else
    pure (copy, { m with paging := m.paging.setTable copy (m.paging.tables table) })

/-- The body of the search of `clone_directory` for a difference: whether there was none. -/
def cloneTable (dir copy tableIndex : Nat) (m : Machine μ) : Except String (Bool × Machine μ) :=
  if (pageEntry m.paging dir tableIndex).present = true ∧
      (pageEntry m.paging copy tableIndex).present = false then do
    let (table, m) ← clonePageTable H (pageTable m.paging dir tableIndex) m
    let s := m.paging
    pure (false, { m with
      paging := s.setDirectory copy
        ((s.directories copy).setEntry tableIndex (pageEntry s dir tableIndex) table) })
  else
    pure (true, m)

/-- One search, with `left` tables to go. -/
def cloneTables (dir copy : Nat) : Nat → Machine μ → Except String (Bool × Machine μ)
  | 0, m => pure (true, m)
  | left + 1, m => do
    let (equal, m) ← cloneTable H dir copy (1024 - (left + 1)) m
    let (equal', m) ← cloneTables dir copy left m
    pure (equal && equal', m)

/-- The loop "until both directories are equal", for so many rounds. -/
def cloneLoop (dir copy : Nat) : Nat → Machine μ → Except String (Option (Machine μ))
  | 0, _ => pure none
  | rounds + 1, m => do
    let (equal, m) ← cloneTables H dir copy 1024 m
    if equal then pure (some m) else cloneLoop dir copy rounds m

/-- The physical addresses of the tables, with `left` tables to go. -/
def cloneAddresses (dir copy : Nat) : Nat → State → State
  | 0, s => s
  | left + 1, s =>
    let index := 1024 - (left + 1)
    if (pageEntry s dir index).present then
      let entry := { pageEntry s copy index with
        address := getPhysicalAddress s s.currentDirectory (pageTable s copy index) / 0x1000 }
      cloneAddresses dir copy left
        (s.setDirectory copy ((s.directories copy).setEntry index entry (pageTable s copy index)))
    else
      cloneAddresses dir copy left s

/-- The directory at `copy` is cleared and gets its physical address. -/
def clearDirectory (copy : Nat) (m : Machine μ) : Machine μ :=
  { m with
    paging := m.paging.setDirectory copy { zeroDirectory with
      physicalAddress := getPhysicalAddress m.paging m.paging.currentDirectory copy } }

/-- `paging.c`, `clone_directory`, unless it takes more than so many rounds. -/
def cloneDirectory (rounds dir : Nat) (m : Machine μ) : Except String (Option (Nat × Machine μ)) := do
  let (copy, m) ← H.memAllocAligned SIZEOF_PAGE_DIRECTORY 0x1000 m
  if copy = 0 then
    throw "PAGE_FAULT"
  else do
    let r ← cloneLoop H dir copy rounds (clearDirectory copy m)
    match r with
    | none => pure none
    | some m =>
      pure (some (copy, { m with paging := cloneAddresses dir copy 1024 m.paging }))

/-! ## The allocations that do no harm -/

/-- Where the tables of `dir` that have been copied get no new page between `m` and `m₁`. -/
def Quiet (dir copy : Nat) (m m₁ : Machine μ) : Prop :=
  ∀ v, v < 0x100000 → (pageEntry m.paging copy (v / 1024)).present = true →
    translate m.paging dir v = none → translate m₁.paging dir v = none

/-- The allocation for a table, if there is one. -/
def QuietTable (dir copy tableIndex : Nat) (m : Machine μ) : Prop :=
  (pageEntry m.paging dir tableIndex).present = true →
    (pageEntry m.paging copy tableIndex).present = false →
    ∀ p m₁, H.memAllocAligned SIZEOF_PAGE_TABLE 0x1000 m = .ok (p, m₁) → Quiet dir copy m m₁

/-- All allocations of a search. -/
def QuietTables (dir copy : Nat) : Nat → Machine μ → Prop
  | 0, _ => True
  | left + 1, m => QuietTable H dir copy (1024 - (left + 1)) m ∧
      ∀ b m₁, cloneTable H dir copy (1024 - (left + 1)) m = .ok (b, m₁) → QuietTables dir copy left m₁

/-- All allocations of the loop. -/
def QuietLoop (dir copy : Nat) : Nat → Machine μ → Prop
  | 0, _ => True
  | rounds + 1, m => QuietTables H dir copy 1024 m ∧
      ∀ m₁, cloneTables H dir copy 1024 m = .ok (false, m₁) → QuietLoop dir copy rounds m₁

/-- No allocation of `clone_directory` maps a page into a table of `dir` that has its copy already.
-/
def QuietClone (rounds dir : Nat) (m : Machine μ) : Prop :=
  ∀ copy m₁, H.memAllocAligned SIZEOF_PAGE_DIRECTORY 0x1000 m = .ok (copy, m₁) → copy ≠ 0 →
    QuietLoop H dir copy rounds (clearDirectory copy m₁)

/-! ## Growth -/

/-- The current directory, or one with tables of its own. -/
def Sees (live : μ → Set Nat) (m : Machine μ) (dir : Nat) : Prop :=
  dir = m.paging.currentDirectory ∨ Apart live m dir

section Loop

variable {H} {live : μ → Set Nat} {m₀ m m' m₁ : Machine μ} {dir copy i j v p : Nat}
  {e : PageTableEntry} {b : Bool}

/-- What such a directory says when the heap has grown. -/
lemma Grows.sees (g : Grows live m m') (hs : Sees live m dir) :
    Sees live m' dir ∧
      (∀ i, (pageEntry m.paging dir i).present = true →
        (pageEntry m'.paging dir i).present = true ∧
          pageTable m'.paging dir i = pageTable m.paging dir i) ∧
      (∀ v e, translate m.paging dir v = some e → translate m'.paging dir v = some e) ∧
      ∀ v e, translate m'.paging dir v = some e →
        translate m.paging dir v = some e ∨ m.paging.frameUsed e.address = false := by
  obtain rfl | ha := hs
  · exact ⟨.inl g.current.symm, g.hasTable, g.keeps, fun v e he => (g.adds v e he).imp_right And.left⟩
  · obtain ⟨hd, _, ha'⟩ := g.apart ha
    have htr := g.translate_eq ha
    refine ⟨.inr ha', fun i hi => ?_, fun v e he => (htr v).trans he,
      fun v e he => .inl ((htr v).symm.trans he)⟩
    unfold pageEntry at hi ⊢
    unfold pageTable
    rw [hd]
    exact ⟨hi, rfl⟩

lemma Sees.alive (hs : Sees live m dir) (hk : InKernel live m) :
    dir ∈ live m.heap ∧ ∀ i, (pageEntry m.paging dir i).present = true →
      pageTable m.paging dir i ∈ live m.heap := by
  obtain rfl | ha := hs
  · exact ⟨hk.alive, hk.table⟩
  · exact ⟨ha.alive, ha.table⟩

/-! ## The copy -/

/-- The copy between two steps: its tables are its own, for tables that `dir` has. -/
structure CloneInv (live : μ → Set Nat) (m₀ : Machine μ) (dir copy : Nat) (m : Machine μ) : Prop where
  grows : Grows live m₀ m
  apart : Apart live m copy
  new : copy ∉ live m₀.heap
  ne : dir ≠ copy
  sees : Sees live m dir
  entry : ∀ i, (pageEntry m.paging copy i).present = true → (pageEntry m.paging dir i).present = true
  newTable : ∀ i, (pageEntry m.paging copy i).present = true → pageTable m.paging copy i ∉ live m₀.heap
  other : ∀ i j, (pageEntry m.paging copy i).present = true →
    (pageEntry m.paging dir j).present = true → pageTable m.paging copy i ≠ pageTable m.paging dir j

/-- The copied tables have the pages that `dir` has. -/
def Synced (dir copy : Nat) (m : Machine μ) : Prop :=
  ∀ v, v < 0x100000 → (pageEntry m.paging copy (v / 1024)).present = true →
    translate m.paging copy v = translate m.paging dir v

/-- A page of `dir` in a copied table is missing. -/
def Missed (dir copy : Nat) (m : Machine μ) : Prop :=
  ∃ v e, v < 0x100000 ∧ (pageEntry m.paging copy (v / 1024)).present = true ∧
    translate m.paging copy v = none ∧ translate m.paging dir v = some e ∧ e.address ≠ 0

lemma CloneInv.step (h : CloneInv live m₀ dir copy m) (g : Grows live m m') :
    CloneInv live m₀ dir copy m' ∧ m'.paging.directories copy = m.paging.directories copy ∧
      ∀ v, translate m'.paging copy v = translate m.paging copy v := by
  obtain ⟨hd, _, ha⟩ := g.apart h.apart
  obtain ⟨hs, hhas, _, _⟩ := g.sees h.sees
  have hE : ∀ i, pageEntry m'.paging copy i = pageEntry m.paging copy i := fun i => by
    unfold pageEntry
    rw [hd]
  have hT : ∀ i, pageTable m'.paging copy i = pageTable m.paging copy i := fun i => by
    unfold pageTable
    rw [hd]
  refine ⟨⟨h.grows.trans g, ha, h.new, h.ne, hs, fun i hi => ?_, fun i hi => ?_, fun i j hi hj => ?_⟩, hd,
    g.translate_eq h.apart⟩
  · rw [hE] at hi
    exact (hhas i (h.entry i hi)).1
  · rw [hE] at hi
    rw [hT]
    exact h.newTable i hi
  · obtain rfl | hdir := h.sees
    · rw [← g.current] at hj ⊢
      exact (ha.other i j hi hj).symm
    · rw [hE] at hi
      obtain ⟨hdd, _, _⟩ := g.apart hdir
      unfold pageEntry at hj
      unfold pageTable
      rw [hdd] at hj ⊢
      rw [hd]
      exact h.other i j hi hj

/-- What copying a table does. -/
structure TableCopied (dir copy i : Nat) (m m₁ m' : Machine μ) : Prop where
  same : ∀ v, translate m'.paging dir v = translate m₁.paging dir v
  entry : ∀ j, (pageEntry m'.paging copy j).present = true ↔
    j = i ∨ (pageEntry m.paging copy j).present = true
  old : ∀ v, (pageEntry m.paging copy (v / 1024)).present = true →
    translate m'.paging copy v = translate m.paging copy v
  new : ∀ v, v / 1024 = i → translate m'.paging copy v = translate m₁.paging dir v

/-- The new table of the copy. -/
lemma CloneInv.install (hk : InKernel H.live m₀) (h : CloneInv H.live m₀ dir copy m)
    (hi : (pageEntry m.paging dir i).present = true)
    (habs : (pageEntry m.paging copy i).present = false)
    (ha : H.memAllocAligned SIZEOF_PAGE_TABLE 0x1000 m = .ok (p, m₁)) (h0 : p ≠ 0) {s t : State}
    (hs : s = m₁.paging.setTable p (m₁.paging.tables (pageTable m.paging dir i)))
    (ht : t = s.setDirectory copy ((s.directories copy).setEntry i (pageEntry s dir i) p)) :
    CloneInv H.live m₀ dir copy { m₁ with paging := t } ∧
      TableCopied dir copy i m m₁ { m₁ with paging := t } := by
  have hkm := h.grows.inKernel hk
  have g := H.grows hkm.current ha
  obtain ⟨hfresh, hlive, _⟩ := H.fresh hkm.current ha h0
  have hcur := H.fresh_table hkm ha h0
  obtain ⟨hdc, htc, _⟩ := g.apart h.apart
  obtain ⟨hinv, _, htrc⟩ := h.step g
  obtain ⟨hsees, hhas, _, _⟩ := g.sees h.sees
  -- the new block is neither the directory nor one of its tables, nor the copy
  have hdirlive := h.sees.alive hkm
  have hdp : ∀ j, (pageEntry m₁.paging dir j).present = true → pageTable m₁.paging dir j ≠ p := by
    intro j hj
    obtain rfl | hdir := h.sees
    · exact hcur j hj
    · obtain ⟨hdd, _, _⟩ := g.apart hdir
      unfold pageEntry at hj
      unfold pageTable
      rw [hdd] at hj ⊢
      rintro rfl
      exact hfresh (hdir.table j hj)
  have hcp : ∀ j, (pageEntry m.paging copy j).present = true → pageTable m.paging copy j ≠ p := by
    rintro j hj rfl
    exact hfresh (h.apart.table j hj)
  have hE : ∀ j, pageEntry t copy j =
      if j = i then pageEntry s dir i else pageEntry m₁.paging copy j := fun j => by
    rw [ht, pageEntry_setEntry, hs]
    simp only [true_and]
    rfl
  have hT : ∀ j, pageTable t copy j = if j = i then p else pageTable m₁.paging copy j := fun j => by
    rw [ht, pageTable_setEntry, hs]
    simp only [true_and]
    rfl
  have hdirs : ∀ d, d ≠ copy → t.directories d = m₁.paging.directories d := fun d hd => by
    rw [ht, hs]
    exact Function.update_of_ne hd ..
  have htabs : ∀ q, q ≠ p → t.tables q = m₁.paging.tables q := fun q hq => by
    rw [ht, hs]
    exact Function.update_of_ne hq ..
  have hnewtab : t.tables p = m₁.paging.tables (pageTable m₁.paging dir i) := by
    rw [(hhas i hi).2, ht, hs]
    exact Function.update_self ..
  have hcurrent : t.currentDirectory = m₁.paging.currentDirectory := by
    rw [ht, hs]
    rfl
  have hpres : (pageEntry s dir i).present = true := by
    rw [hs]
    exact (hhas i hi).1
  have hEd : ∀ j, pageEntry t dir j = pageEntry m₁.paging dir j := fun j => by
    unfold pageEntry
    rw [hdirs _ h.ne]
  have hTd : ∀ j, pageTable t dir j = pageTable m₁.paging dir j := fun j => by
    unfold pageTable
    rw [hdirs _ h.ne]
  have hEc : ∀ j, pageEntry m₁.paging copy j = pageEntry m.paging copy j := fun j => by
    unfold pageEntry
    rw [hdc]
  have hTc : ∀ j, pageTable m₁.paging copy j = pageTable m.paging copy j := fun j => by
    unfold pageTable
    rw [hdc]
  have hsame : ∀ v, translate t dir v = translate m₁.paging dir v :=
    translate_congr (hdirs _ h.ne) fun j hj => htabs _ (hdp j hj)
  have hcurE : ∀ j, pageEntry t m.paging.currentDirectory j =
      pageEntry m₁.paging m.paging.currentDirectory j := fun j => by
    unfold pageEntry
    rw [hdirs _ h.apart.ne.symm]
  have hcurT : ∀ j, pageTable t m.paging.currentDirectory j =
      pageTable m₁.paging m.paging.currentDirectory j := fun j => by
    unfold pageTable
    rw [hdirs _ h.apart.ne.symm]
  have hapart : Apart H.live { m₁ with paging := t } copy := by
    refine ⟨hinv.apart.alive, hcurrent ▸ hinv.apart.ne, fun j hj => ?_, fun j k hj hk => ?_⟩
    · dsimp only at hj ⊢
      rw [hE] at hj
      rw [hT]
      split_ifs at hj ⊢ with hji
      · exact hlive
      · exact hinv.apart.table j hj
    · dsimp only at hj hk ⊢
      rw [hcurrent, g.current, hcurE] at hk
      rw [hE] at hj
      rw [hcurrent, g.current, hcurT, hT]
      split_ifs at hj ⊢ with hji
      · exact hcur k hk
      · rw [← g.current] at hk ⊢
        exact hinv.apart.other j k hj hk
  refine ⟨⟨?_, hapart, h.new, h.ne, ?_, fun j hj => ?_, fun j hj => ?_, fun j k hj hk => ?_⟩,
    ⟨hsame, fun j => ?_, fun v hv => ?_, fun v hv => ?_⟩⟩
  · refine hinv.grows.own hcurrent (by rw [ht, hs]; rfl) (by rw [ht, hs]; rfl) (by rw [ht, hs]; rfl)
      (by rw [ht, hs]; rfl) (by rw [ht, hs]; rfl) (fun d hd => hdirs d ?_) fun q hq => htabs q ?_
    · rintro rfl
      obtain h1 | h1 := hd
      · exact h.new h1
      · exact h.apart.ne (h1.trans h.grows.current.symm)
    · rintro rfl
      obtain h1 | ⟨j, hj, h1⟩ := hq
      · exact hfresh (h.grows.alive h1)
      · rw [← h.grows.current] at hj h1
        exact hcur j hj h1
  · obtain hd | hd := hsees
    · exact .inl (hd.trans hcurrent.symm)
    · refine .inr ⟨hd.alive, hcurrent ▸ hd.ne, fun j hj => ?_, fun j k hj hk => ?_⟩
      · dsimp only at hj ⊢
        rw [hEd] at hj
        rw [hTd]
        exact hd.table j hj
      · dsimp only at hj hk ⊢
        rw [hEd] at hj
        rw [hcurrent, g.current, hcurE] at hk
        rw [hTd, hcurrent, g.current, hcurT]
        rw [← g.current] at hk ⊢
        exact hd.other j k hj hk
  · dsimp only at hj ⊢
    rw [hE] at hj
    rw [hEd]
    split_ifs at hj with hji
    · rw [hji]
      exact (hhas i hi).1
    · exact hinv.entry j hj
  · dsimp only at hj ⊢
    rw [hE] at hj
    rw [hT]
    split_ifs at hj ⊢ with hji
    · exact fun hp => hfresh (h.grows.alive hp)
    · exact hinv.newTable j hj
  · dsimp only at hj hk ⊢
    rw [hE] at hj
    rw [hEd] at hk
    rw [hT, hTd]
    split_ifs at hj ⊢ with hji
    · exact (hdp k hk).symm
    · exact hinv.other j k hj hk
  · dsimp only
    rw [hE]
    split_ifs with hji
    · simp [hpres, hji]
    · simp [hEc, hji]
  · have hne : v / 1024 ≠ i := by
      rintro rfl
      rw [habs] at hv
      cases hv
    rw [← htrc v]
    unfold translate
    dsimp only
    have hq := hcp _ hv
    rw [hE, hT, if_neg hne, if_neg hne]
    unfold State.page
    rw [htabs _ (by rw [hTc]; exact hq)]
  · have hi₁ : (pageEntry m₁.paging dir (v / 1024)).present = true := hv ▸ (hhas i hi).1
    unfold translate
    dsimp only
    rw [hE, hT, if_pos hv, if_pos hv, hi₁, hpres]
    unfold State.page
    rw [hnewtab, hv]

/-! ## One search -/

/-- What a part of a search does to the copy; `quiet` says that its allocations do no harm. -/
structure Searched (live : μ → Set Nat) (m₀ : Machine μ) (dir copy : Nat) (quiet : Prop)
    (m m' : Machine μ) : Prop where
  inv : CloneInv live m₀ dir copy m'
  copied : ∀ i, (pageEntry m.paging copy i).present = true → (pageEntry m'.paging copy i).present = true
  missed : Missed dir copy m → Missed dir copy m'
  synced : Synced dir copy m → quiet → Synced dir copy m'
  harmed : Synced dir copy m → ¬ quiet → Missed dir copy m'

/-- One after the other. -/
lemma Searched.trans {q q' : Prop} {m₂ : Machine μ} (h : Searched live m₀ dir copy q m m₁)
    (h' : Searched live m₀ dir copy q' m₁ m₂) : Searched live m₀ dir copy (q ∧ q') m m₂ := by
  refine ⟨h'.inv, fun i hi => h'.copied i (h.copied i hi), fun hm => h'.missed (h.missed hm),
    fun hs hq => h'.synced (h.synced hs hq.1) hq.2, fun hs hn => ?_⟩
  by_cases hq : q
  · exact h'.harmed (h.synced hs hq) fun hq' => hn ⟨hq, hq'⟩
  · exact h'.missed (h.harmed hs hq)

lemma Searched.refl {q : Prop} (h : CloneInv live m₀ dir copy m) (hq : q) :
    Searched live m₀ dir copy q m m :=
  ⟨h, fun _ hi => hi, fun hm => hm, fun hs _ => hs, fun _ hn => absurd hq hn⟩

/-- The condition may be given in another way. -/
lemma Searched.congr {q q' : Prop} (h : Searched live m₀ dir copy q m m') (hq : q ↔ q') :
    Searched live m₀ dir copy q' m m' :=
  propext hq ▸ h

lemma cloneTable_spec (hk : InKernel H.live m₀) (hz : m₀.paging.frameUsed 0 = true)
    (h : CloneInv H.live m₀ dir copy m) (hrun : cloneTable H dir copy i m = .ok (b, m')) :
    Searched H.live m₀ dir copy (QuietTable H dir copy i m) m m' ∧
      (b = true → m' = m ∧
        ((pageEntry m.paging dir i).present = true → (pageEntry m.paging copy i).present = true)) ∧
      (b = false → (pageEntry m.paging copy i).present = false ∧
        (pageEntry m'.paging copy i).present = true) := by
  unfold cloneTable at hrun
  by_cases hc : (pageEntry m.paging dir i).present = true ∧
      (pageEntry m.paging copy i).present = false
  · rw [if_pos hc] at hrun
    unfold clonePageTable at hrun
    cases ha : H.memAllocAligned SIZEOF_PAGE_TABLE 0x1000 m with
    | error err => rw [ha] at hrun; cases hrun
    | ok pm =>
      obtain ⟨p, m₁⟩ := pm
      rw [ha] at hrun
      dsimp only [bind, Except.bind] at hrun
      by_cases h0 : p = 0
      · rw [if_pos h0] at hrun
        cases hrun
      rw [if_neg h0] at hrun
      cases hrun
      have g := H.grows (h.grows.inKernel hk).current ha
      obtain ⟨_, hhas, hkeeps, hadds⟩ := g.sees h.sees
      obtain ⟨hinv, hcop⟩ := h.install hk hc.1 hc.2 ha h0 rfl rfl
      refine ⟨⟨hinv, fun j hj => (hcop.entry j).mpr (.inr hj), ?_, fun hs hq => ?_, fun hs hn => ?_⟩,
        nofun, fun _ => ⟨hc.2, (hcop.entry i).mpr (.inl rfl)⟩⟩
      · -- a missing page stays missing
        rintro ⟨v, e, hv, h1, h2, h3, h4⟩
        exact ⟨v, e, hv, (hcop.entry _).mpr (.inr h1), (hcop.old v h1).trans h2,
          (hcop.same v).trans (hkeeps v e h3), h4⟩
      · intro v hv hp
        by_cases hvi : v / 1024 = i
        · exact (hcop.new v hvi).trans (hcop.same v).symm
        · have hold := ((hcop.entry _).mp hp).resolve_left hvi
          rw [hcop.old v hold, hs v hv hold, hcop.same]
          cases htr : translate m.paging dir v with
          | none => exact (hq hc.1 hc.2 p m₁ ha v hv hold htr).symm
          | some e => exact (hkeeps v e htr).symm
      · -- the page that the allocation has mapped
        unfold QuietTable Quiet at hn
        push Not at hn
        obtain ⟨_, _, p', m₂, ha', v, hv, hold, hnone, hsome⟩ := hn
        obtain ⟨rfl, rfl⟩ : p = p' ∧ m₁ = m₂ := by
          rw [ha] at ha'
          cases ha'
          exact ⟨rfl, rfl⟩
        obtain ⟨e, he⟩ := Option.ne_none_iff_exists'.mp hsome
        refine ⟨v, e, hv, (hcop.entry _).mpr (.inr hold), ?_, (hcop.same v).trans he, fun h0 => ?_⟩
        · rw [hcop.old v hold, hs v hv hold, hnone]
        · obtain h1 | h1 := hadds v e he
          · rw [hnone] at h1
            cases h1
          · rw [h0, h.grows.frames 0 hz] at h1
            cases h1
  · rw [if_neg hc] at hrun
    cases hrun
    refine ⟨.refl h fun h1 h2 => absurd ⟨h1, h2⟩ hc, fun _ => ⟨rfl, fun h1 => ?_⟩, nofun⟩
    by_contra h2
    exact hc ⟨h1, Bool.not_eq_true _ ▸ h2⟩

lemma cloneTables_spec {left : Nat} (hk : InKernel H.live m₀) (hz : m₀.paging.frameUsed 0 = true)
    (h : CloneInv H.live m₀ dir copy m) (hleft : left ≤ 1024)
    (hrun : cloneTables H dir copy left m = .ok (b, m')) :
    Searched H.live m₀ dir copy (QuietTables H dir copy left m) m m' ∧
      (b = true → m' = m ∧ ∀ i, 1024 - left ≤ i → i < 1024 →
        (pageEntry m.paging dir i).present = true → (pageEntry m.paging copy i).present = true) ∧
      (b = false → ∃ i, i < 1024 ∧ (pageEntry m.paging copy i).present = false ∧
        (pageEntry m'.paging copy i).present = true) := by
  induction left generalizing m b with
  | zero =>
    cases hrun
    exact ⟨.refl h trivial, fun _ => ⟨rfl, fun i h1 h2 => absurd h2 (by omega)⟩, nofun⟩
  | succ left ih =>
    unfold cloneTables at hrun
    cases hfirst : cloneTable H dir copy (1024 - (left + 1)) m with
    | error err => rw [hfirst] at hrun; cases hrun
    | ok bm =>
      obtain ⟨b₁, m₁⟩ := bm
      rw [hfirst] at hrun
      dsimp only [bind, Except.bind] at hrun
      obtain ⟨hs, htrue, hfalse⟩ := cloneTable_spec hk hz h hfirst
      cases hrest : cloneTables H dir copy left m₁ with
      | error err => rw [hrest] at hrun; cases hrun
      | ok bm =>
        obtain ⟨b₂, m₂⟩ := bm
        rw [hrest] at hrun
        cases hrun
        obtain ⟨hs', htrue', hfalse'⟩ := ih hs.inv (by omega) hrest
        have hq : QuietTable H dir copy (1024 - (left + 1)) m ∧ QuietTables H dir copy left m₁ ↔
            QuietTables H dir copy (left + 1) m := by
          refine and_congr_right fun _ => ⟨fun hq b' m' hb => ?_, fun hq => hq _ _ hfirst⟩
          rw [hfirst] at hb
          cases hb
          exact hq
        refine ⟨(hs.trans hs').congr hq, fun hb => ?_, fun hb => ?_⟩
        · obtain ⟨hb₁, hb₂⟩ := Bool.and_eq_true_iff.mp hb
          obtain ⟨rfl, hi⟩ := htrue hb₁
          obtain ⟨rfl, hj⟩ := htrue' hb₂
          refine ⟨rfl, fun i h1 h2 hp => ?_⟩
          by_cases hi' : i = 1024 - (left + 1)
          · subst hi'
            exact hi hp
          · exact hj i (by omega) h2 hp
        · -- the table that has been made is this one, or a later one
          cases b₁ with
          | false =>
            obtain ⟨h1, h2⟩ := hfalse rfl
            exact ⟨_, by omega, h1, hs'.copied _ h2⟩
          | true =>
            obtain ⟨i, hi, h1, h2⟩ := hfalse' hb
            obtain ⟨rfl, _⟩ := htrue rfl
            exact ⟨i, hi, h1, h2⟩

/-! ## All rounds -/

/-- The tables that the copy does not have. -/
def lacking (copy : Nat) (m : Machine μ) : Finset Nat :=
  (Finset.range 1024).filter fun i => (pageEntry m.paging copy i).present = false

/-- A round that has found a difference has made a table. -/
lemma lacking_lt (hs : ∀ i, (pageEntry m.paging copy i).present = true →
      (pageEntry m'.paging copy i).present = true)
    (hi : i < 1024) (h1 : (pageEntry m.paging copy i).present = false)
    (h2 : (pageEntry m'.paging copy i).present = true) :
    (lacking copy m').card < (lacking copy m).card := by
  refine Finset.card_lt_card (Finset.ssubset_iff_of_subset (fun j hj => ?_) |>.mpr ⟨i, ?_, ?_⟩)
  · obtain ⟨hj1, hj2⟩ := Finset.mem_filter.mp hj
    refine Finset.mem_filter.mpr ⟨hj1, ?_⟩
    by_contra hc
    rw [Bool.not_eq_false] at hc
    rw [hs j hc] at hj2
    cases hj2
  · exact Finset.mem_filter.mpr ⟨Finset.mem_range.mpr hi, h1⟩
  · intro hc
    rw [(Finset.mem_filter.mp hc).2] at h2
    cases h2

/-- More rounds than tables are enough. -/
lemma cloneLoop_terminates {rounds : Nat} (hk : InKernel H.live m₀)
    (hz : m₀.paging.frameUsed 0 = true) (h : CloneInv H.live m₀ dir copy m)
    (hrounds : (lacking copy m).card < rounds) : cloneLoop H dir copy rounds m ≠ .ok none := by
  induction rounds generalizing m with
  | zero => exact absurd hrounds (Nat.not_lt_zero _)
  | succ rounds ih =>
    unfold cloneLoop
    cases htables : cloneTables H dir copy 1024 m with
    | error err => exact nofun
    | ok bm =>
      obtain ⟨b, m₁⟩ := bm
      dsimp only [bind, Except.bind]
      obtain ⟨hs, _, hfalse⟩ := cloneTables_spec hk hz h le_rfl htables
      cases b with
      | true => exact nofun
      | false =>
        obtain ⟨i, hi, h1, h2⟩ := hfalse rfl
        have := lacking_lt hs.copied hi h1 h2
        exact ih hs.inv (by omega)

lemma cloneLoop_spec {rounds : Nat} (hk : InKernel H.live m₀) (hz : m₀.paging.frameUsed 0 = true)
    (h : CloneInv H.live m₀ dir copy m) (hrun : cloneLoop H dir copy rounds m = .ok (some m')) :
    Searched H.live m₀ dir copy (QuietLoop H dir copy rounds m) m m' ∧
      ∀ i, i < 1024 → (pageEntry m'.paging dir i).present = true →
        (pageEntry m'.paging copy i).present = true := by
  induction rounds generalizing m with
  | zero => cases hrun
  | succ rounds ih =>
    unfold cloneLoop at hrun
    cases htables : cloneTables H dir copy 1024 m with
    | error err => rw [htables] at hrun; cases hrun
    | ok bm =>
      obtain ⟨b, m₁⟩ := bm
      rw [htables] at hrun
      dsimp only [bind, Except.bind] at hrun
      obtain ⟨hs, htrue, _⟩ := cloneTables_spec hk hz h le_rfl htables
      cases b with
      | true =>
        cases hrun
        obtain ⟨rfl, hall⟩ := htrue rfl
        refine ⟨hs.congr ?_, fun i hi hp => hall i (by omega) hi hp⟩
        refine (and_iff_left fun m' hc => ?_).symm
        rw [htables] at hc
        cases hc
      | false =>
        obtain ⟨hs', hall⟩ := ih hs.inv hrun
        refine ⟨(hs.trans hs').congr (and_congr_right fun _ => ⟨fun hq m' hc => ?_, fun hq => hq _ htables⟩),
          hall⟩
        rw [htables] at hc
        cases hc
        exact hq

/-- The physical addresses of the tables change no page. -/
lemma cloneAddresses_same (left : Nat) (s : State) : SameSpaces s (cloneAddresses dir copy left s) := by
  induction left generalizing s with
  | zero => exact .refl s
  | succ left ih =>
    unfold cloneAddresses
    dsimp only
    split_ifs with hp
    · refine SameSpaces.trans ?_ (ih _)
      refine ⟨fun _ => .inl rfl, fun d j => ?_, fun d j => ?_, rfl, rfl, rfl, rfl⟩
      · rw [pageEntry_setEntry]
        split_ifs with hc
        · rw [hc.1, hc.2]
        · rfl
      · rw [pageTable_setEntry]
        split_ifs with hc
        · rw [hc.1, hc.2]
        · rfl
    · exact ih s

/-! ## The whole clone -/

/-- The copy that the first round starts from. -/
lemma CloneInv.start (hk : InKernel H.live m) (hs : Sees H.live m dir)
    (ha : H.memAllocAligned SIZEOF_PAGE_DIRECTORY 0x1000 m = .ok (copy, m₁)) (h0 : copy ≠ 0) :
    CloneInv H.live m dir copy (clearDirectory copy m₁) ∧
      ∀ i, (pageEntry (clearDirectory copy m₁).paging copy i).present = false := by
  obtain ⟨g, hap, hfresh, hE⟩ := fresh_directory hk ha h0
    (D := { zeroDirectory with
      physicalAddress := getPhysicalAddress m₁.paging m₁.paging.currentDirectory copy })
    fun _ => rfl
  have hne : dir ≠ copy := by
    rintro rfl
    exact hfresh (hs.alive hk).1
  have hE' : ∀ i, (pageEntry (clearDirectory copy m₁).paging copy i).present = false := hE
  have habs : ∀ i, ¬ (pageEntry (clearDirectory copy m₁).paging copy i).present = true := fun i hi => by
    rw [hE'] at hi
    cases hi
  exact ⟨⟨g, hap, hfresh, hne, (g.sees hs).1, fun i hi => absurd hi (habs i),
    fun i hi => absurd hi (habs i), fun i j hi => absurd hi (habs i)⟩, hE⟩

/-- The loops that a clone has run. -/
lemma cloneDirectory_ok {rounds : Nat} {r : Option (Nat × Machine μ)}
    (h : cloneDirectory H rounds dir m = .ok r) :
    ∃ copy m₁ o, H.memAllocAligned SIZEOF_PAGE_DIRECTORY 0x1000 m = .ok (copy, m₁) ∧ copy ≠ 0 ∧
      cloneLoop H dir copy rounds (clearDirectory copy m₁) = .ok o ∧
      r = o.map fun m => (copy, { m with paging := cloneAddresses dir copy 1024 m.paging }) := by
  unfold cloneDirectory at h
  cases ha : H.memAllocAligned SIZEOF_PAGE_DIRECTORY 0x1000 m with
  | error err => rw [ha] at h; cases h
  | ok pm =>
    obtain ⟨copy, m₁⟩ := pm
    rw [ha] at h
    dsimp only [bind, Except.bind] at h
    by_cases h0 : copy = 0
    · rw [if_pos h0] at h
      cases h
    rw [if_neg h0] at h
    cases hl : cloneLoop H dir copy rounds (clearDirectory copy m₁) with
    | error err => rw [hl] at h; cases h
    | ok o =>
      rw [hl] at h
      refine ⟨copy, m₁, o, rfl, h0, hl, ?_⟩
      cases o with
      | none =>
        cases h
        rfl
      | some m₃ =>
        cases h
        rfl

/-- `clone_directory` ends, after one round more than there are tables at most, and shares no table.
The copy translates all addresses alike if and only if none of its allocations has mapped a page
into a table that was copied before. -/
theorem cloneDirectory_faithful {rounds : Nat} (hk : InKernel H.live m)
    (hz : m.paging.frameUsed 0 = true) (hs : Sees H.live m dir) (hrounds : 1024 < rounds) :
    cloneDirectory H rounds dir m ≠ .ok none ∧
    ∀ copy m', cloneDirectory H rounds dir m = .ok (some (copy, m')) →
      (∀ i j, (pageEntry m'.paging copy i).present = true → (pageEntry m'.paging dir j).present = true →
        pageTable m'.paging copy i ≠ pageTable m'.paging dir j) ∧
      ((∀ x, x < 2 ^ 32 → getPhysicalAddress m'.paging copy x = getPhysicalAddress m'.paging dir x) ↔
        QuietClone H rounds dir m) := by
  refine ⟨fun h => ?_, fun copy m' h => ?_⟩
  · obtain ⟨copy, m₁, o, ha, h0, hl, ho⟩ := cloneDirectory_ok h
    obtain ⟨hinv, _⟩ := CloneInv.start hk hs ha h0
    obtain rfl : o = none := by
      cases o with
      | none => rfl
      | some m₃ => cases ho
    refine cloneLoop_terminates hk hz hinv ?_ hl
    have := Finset.card_filter_le (Finset.range 1024)
      fun i => (pageEntry (clearDirectory copy m₁).paging copy i).present = false
    rw [Finset.card_range] at this
    exact this.trans_lt hrounds
  · obtain ⟨copy', m₁, o, ha, h0, hl, ho⟩ := cloneDirectory_ok h
    obtain ⟨hinv, hE⟩ := CloneInv.start hk hs ha h0
    cases o with
    | none => cases ho
    | some m₃ =>
      cases ho
      obtain ⟨hsearch, hall⟩ := cloneLoop_spec hk hz hinv hl
      have hsame : SameSpaces m₃.paging (cloneAddresses dir copy 1024 m₃.paging) :=
        cloneAddresses_same 1024 m₃.paging
      have hsynced : Synced dir copy (clearDirectory copy m₁) := fun v _ hp => by
        rw [hE] at hp
        cases hp
      -- the loop starts in the state that the allocation of the copy leaves
      have hquiet : QuietClone H rounds dir m ↔
          QuietLoop H dir copy rounds (clearDirectory copy m₁) := by
        refine ⟨fun hq => hq copy m₁ ha h0, fun hq c n hc _ => ?_⟩
        rw [ha] at hc
        cases hc
        exact hq
      refine ⟨fun i j hi hj => ?_, ?_⟩
      · dsimp only at hi hj ⊢
        rw [hsame.present] at hi hj
        rw [hsame.table, hsame.table]
        exact hsearch.inv.other i j hi hj
      rw [hquiet]
      dsimp only
      constructor
      · -- a page mapped into a copied table is translated in `dir` only
        intro heq
        by_contra hn
        obtain ⟨v, e, hv, _, h1, h2, h3⟩ := hsearch.harmed hsynced hn
        have hvd : 0x1000 * v / 0x1000 = v := by omega
        have := heq (0x1000 * v) (by omega)
        rw [hsame.getPhysicalAddress, hsame.getPhysicalAddress,
          getPhysicalAddress_none (by rw [hvd]; exact h1),
          getPhysicalAddress_some (e := e) (by rw [hvd]; exact h2)] at this
        omega
      · intro hq x hx
        have hsy := hsearch.synced hsynced hq
        rw [hsame.getPhysicalAddress, hsame.getPhysicalAddress]
        refine getPhysicalAddress_congr ?_
        have hv : x / 0x1000 < 0x100000 := by omega
        by_cases hp : (pageEntry m₃.paging copy (x / 0x1000 / 1024)).present = true
        · exact hsy _ hv hp
        · have hp' : ¬ (pageEntry m₃.paging dir (x / 0x1000 / 1024)).present = true := fun hc =>
            hp (hall _ (by omega) hc)
          unfold translate
          rw [if_neg fun hc => hp hc.1, if_neg fun hc => hp' hc.1]

/-- A directory that is not the current one is never extended. -/
theorem quietClone_of_apart {rounds : Nat} (hk : InKernel H.live m)
    (hz : m.paging.frameUsed 0 = true) (ha : Apart H.live m dir) : QuietClone H rounds dir m := by
  have htables : ∀ left copy m', left ≤ 1024 → CloneInv H.live m dir copy m' →
      QuietTables H dir copy left m' := by
    intro left copy
    induction left with
    | zero => exact fun _ _ _ => trivial
    | succ left ih =>
      intro m' hleft hinv
      refine ⟨fun _ _ p m₁ halloc v _ _ hnone => ?_, fun b m₁ hrun => ?_⟩
      · have g := H.grows (hinv.grows.inKernel hk).current halloc
        obtain hc | ha' := hinv.sees
        · exact absurd (hc.trans hinv.grows.current) ha.ne
        · exact (g.translate_eq ha' v).trans hnone
      · exact ih m₁ (by omega) (cloneTable_spec hk hz hinv hrun).1.inv
  have hloop : ∀ rounds copy m', CloneInv H.live m dir copy m' → QuietLoop H dir copy rounds m' := by
    intro rounds copy
    induction rounds with
    | zero => exact fun _ _ => trivial
    | succ rounds ih =>
      exact fun m' hinv => ⟨htables 1024 copy m' le_rfl hinv, fun m₁ hrun =>
        ih m₁ (cloneTables_spec hk hz hinv le_rfl hrun).1.inv⟩
  intro copy m₁ halloc h0
  exact hloop rounds copy _ (CloneInv.start hk (.inr ha) halloc h0).1

/-- Nor is a directory extended by allocations that map no pages into it. -/
lemma quietClone_of_kept {rounds : Nat}
    (hkept : ∀ size (m m₁ : Machine μ) p, H.memAllocAligned size 0x1000 m = .ok (p, m₁) →
      ∀ v, translate m₁.paging dir v = translate m.paging dir v) (m : Machine μ) :
    QuietClone H rounds dir m := by
  have htables : ∀ left copy m, QuietTables H dir copy left m := by
    intro left copy
    induction left with
    | zero => exact fun _ => trivial
    | succ left ih =>
      refine fun m => ⟨fun _ _ p m₁ halloc v _ _ hnone => ?_, fun b m₁ _ => ih m₁⟩
      exact (hkept _ m m₁ p halloc v).trans hnone
  have hloop : ∀ rounds copy m, QuietLoop H dir copy rounds m := by
    intro rounds copy
    induction rounds with
    | zero => exact fun _ => trivial
    | succ rounds ih => exact fun m => ⟨htables 1024 copy m, fun m₁ _ => ih m₁⟩
  exact fun copy m₁ _ _ => hloop rounds copy _

end Loop

/-! ## A heap that grows while it is cloned -/

section Sample

variable {live : μ → Set Nat} {m m' : Machine μ} {dir a : Nat} {k w b : Bool}

/-- A page whose table is there. -/
lemma requestVirtualSpace_grows {alloc : MemAllocAligned μ} (hdir : dir = m.paging.currentDirectory)
    (ht : HasTable m.paging dir a) (h : requestVirtualSpace alloc dir a k w m = .ok (b, m')) :
    Grows live m m' ∧ m'.heap = m.heap := by
  have g : Grows live m { m with paging := ensureRights dir (a / 0x1000 / 1024) k w m.paging } :=
    ensureRights_grows hdir
  have ht' : HasTable (ensureRights dir (a / 0x1000 / 1024) k w m.paging) dir a :=
    ensureRights_same.hasTable ht
  have hsame : SameSpaces m.paging (ensureRights dir (a / 0x1000 / 1024) k w m.paging) :=
    ensureRights_same
  have hptr := hsame.pagePtr dir a
  unfold requestVirtualSpace at h
  rw [getPage_eq _ ht] at h
  dsimp only [bind, Except.bind] at h
  rw [← hptr] at h
  generalize ensureRights dir (a / 0x1000 / 1024) k w m.paging = s at g ht' h
  by_cases hp : (s.page (pagePtr s dir a)).present = true
  · rw [if_pos hp] at h
    cases h
    exact ⟨g, rfl⟩
  rw [if_neg hp] at h
  cases hm : mapPage (pagePtr s dir a) k w s with
  | error err => rw [hm] at h; cases h
  | ok bt =>
    obtain ⟨b', t⟩ := bt
    rw [hm] at h
    cases h
    refine ⟨?_, rfl⟩
    obtain ⟨_, _, rfl⟩ | ⟨_, hne, hframe⟩ := mapPage_ok hm
    · exact g
    · obtain ⟨_, _, habs, rfl⟩ := mapPageToFrame_ok hframe
      have hclear : m.paging.frameUsed s.firstFrame = false := by
        have := (firstFalseBit_spec hne).2
        rw [← Bool.not_eq_true]
        intro hu
        have hu' := g.frames _ hu
        dsimp only [State.frameUsed] at hu'
        rw [getBit_eq] at hu'
        exact Bool.noConfusion (hu'.symm.trans this)
      have g' : Grows live m { m with paging := s.setFrame s.firstFrame true } :=
        g.trans setFrame_grows
      refine g'.setPage (a := a) hdir ht' (fun v e hv => ?_) fun _ => ⟨hclear, ?_⟩
      · rw [hdir] at hv ⊢
        exact ne_of_translate (g.keeps v e hv) (hdir ▸ habs)
      · dsimp only
        rw [frameUsed_setFrame, if_pos rfl]

/-- The heap of the kernel asks for `n` pages from number `page` on, in page tables that are there.
-/
def growPages : Nat → Nat → Machine Nat → Except String (Machine Nat)
  | 0, _, m => pure m
  | n + 1, page, m =>
    if (pageEntry m.paging m.paging.currentDirectory (page / 1024)).present then do
      let (b, m) ← requestVirtualSpace (fun _ _ _ => throw "no page table")
        m.paging.currentDirectory (0x1000 * page) true false m
      if b then growPages n (page + 1) m else throw "no frame"
    else
      throw "no page table"

lemma growPages_grows {live : Nat → Set Nat} {m m' : Machine Nat} {n page : Nat}
    (h : growPages n page m = .ok m') : Grows live m m' ∧ m'.heap = m.heap := by
  induction n generalizing m page with
  | zero =>
    cases h
    exact ⟨.refl _, rfl⟩
  | succ n ih =>
    unfold growPages at h
    by_cases ht : (pageEntry m.paging m.paging.currentDirectory (page / 1024)).present = true
    · rw [if_pos ht] at h
      cases hreq : requestVirtualSpace (fun _ _ _ => throw "no page table")
          m.paging.currentDirectory (0x1000 * page) true false m with
      | error err => rw [hreq] at h; cases h
      | ok bm =>
        obtain ⟨b, m₁⟩ := bm
        rw [hreq] at h
        dsimp only [bind, Except.bind] at h
        have hdiv : 0x1000 * page / 0x1000 = page := by omega
        have ht' : HasTable m.paging m.paging.currentDirectory (0x1000 * page) := by
          unfold HasTable
          rw [hdiv]
          exact ht
        obtain ⟨g, hheap⟩ : Grows live m m₁ ∧ m₁.heap = m.heap :=
          requestVirtualSpace_grows rfl ht' hreq
        cases b with
        | false => cases h
        | true =>
          obtain ⟨g', hheap'⟩ := ih h
          exact ⟨g.trans g', hheap'.trans hheap⟩
    · rw [if_neg ht] at h
      cases h

/-- A heap that hands out one block after the other and maps the pages that it needs for them. -/
def growHeap : KernelHeap Nat where
  live n := { x | x ≤ n }
  memAllocAligned size alignment m :=
    if alignment = 0 then throw "Exception. System Halted"
    else do
      let block := (m.heap + 4 + (alignment - 1)) / alignment * alignment
      let first := (m.heap + 0xFFF) / 0x1000
      let m ← growPages ((block + size + 0xFFF) / 0x1000 - first) first m
      pure (block, { m with heap := block + size })
  memFree _ m := pure m
  grows {size alignment m p m'} _ h := by
    dsimp only at h
    split_ifs at h with ha
    cases hm : growPages (((m.heap + 4 + (alignment - 1)) / alignment * alignment + size + 0xFFF) /
        0x1000 - (m.heap + 0xFFF) / 0x1000) ((m.heap + 0xFFF) / 0x1000) m with
    | error err => rw [hm] at h; cases h
    | ok m₁ =>
      rw [hm] at h
      cases h
      obtain ⟨g, hheap⟩ : Grows (fun n => { x | x ≤ n }) m m₁ ∧ m₁.heap = m.heap :=
        growPages_grows hm
      refine g.setHeap fun x hx => ?_
      rw [hheap] at hx
      exact (show x ≤ m.heap from hx).trans ((lt_bump ha).le.trans (Nat.le_add_right ..))
  fresh {size alignment m p m'} _ h _ := by
    dsimp only at h
    split_ifs at h with ha
    cases hm : growPages (((m.heap + 4 + (alignment - 1)) / alignment * alignment + size + 0xFFF) /
        0x1000 - (m.heap + 0xFFF) / 0x1000) ((m.heap + 0xFFF) / 0x1000) m with
    | error err => rw [hm] at h; cases h
    | ok m₁ =>
      rw [hm] at h
      cases h
      obtain ⟨g, hheap⟩ : Grows (fun n => { x | x ≤ n }) m m₁ ∧ m₁.heap = m.heap :=
        growPages_grows hm
      refine ⟨Nat.not_le.mpr (lt_bump ha), Nat.le_add_right .., fun i hi => ?_⟩
      dsimp only at hi
      rw [g.current] at hi
      obtain h1 | ⟨h1, h2⟩ := g.newTable i hi
      · exact .inl h1
      · exact absurd (hheap ▸ h1) h2
  frees := @bumpHeap.frees

/-- The kernel at `0x1000` with page tables for eight megabytes and its first eight pages, less one.
-/
def cloneMachine : Machine Nat where
  heap := 0x8000
  paging := {
    frames := fun x => if x = 0 then 255 else 0
    framesLength := 64
    physical := fun x => UInt8.ofNat x
    directories := fun d =>
      if d = 0x1000 then ⟨fun i => ⟨i < 2, false, true, 0⟩, fun i => 0x2000 + 0x1000 * i, 0x1000⟩
      else zeroDirectory
    tables := fun t j =>
      if t = 0x2000 then ⟨0 < j ∧ j < 8, false, false, j⟩ else zeroPage
    currentDirectory := 0x1000
    kernelDirectory := 0x1000
    baseDirectory := 0 }

lemma cloneMachine_inKernel : InKernel growHeap.live cloneMachine := by
  have htable : ∀ i, (pageEntry cloneMachine.paging 0x1000 i).present = true → i < 2 := fun i hi => by
    simpa [pageEntry, cloneMachine] using hi
  refine ⟨rfl, show 0x1000 ≤ 0x8000 by decide, fun i hi => ?_, fun v e he => ?_⟩
  · have := htable i hi
    exact show 0x2000 + 0x1000 * i ≤ 0x8000 by omega
  · obtain ⟨_, h2, rfl⟩ := translate_eq_some.mp he
    have hpage : ∀ t j, (cloneMachine.paging.page ⟨t, j⟩).present = true →
        cloneMachine.paging.page ⟨t, j⟩ = ⟨true, false, false, j⟩ ∧ j < 8 := by
      intro t j h
      unfold State.page cloneMachine at h ⊢
      dsimp only at h ⊢
      split_ifs at h ⊢
      · have := of_decide_eq_true h
        exact ⟨by rw [decide_eq_true this], this.2⟩
      · cases h
    obtain ⟨h3, h4⟩ := hpage _ _ h2
    rw [h3]
    have hused : ∀ f, f < 8 → cloneMachine.paging.frameUsed f = true := by decide +kernel
    exact hused _ h4

/-- The second page table of the copy lies at `0xE000`, in a page that has been mapped for it after
the first table was copied. -/
lemma cloneMachine_run : ∃ m',
    cloneDirectory growHeap 1025 0x1000 cloneMachine = .ok (some (0x9000, m')) ∧
      getPhysicalAddress m'.paging 0x9000 0xE000 = 0 ∧
      getPhysicalAddress m'.paging 0x1000 0xE000 = 0xE000 := by
  have h : (cloneDirectory growHeap 1025 0x1000 cloneMachine).map (fun r => r.map fun c =>
      (c.1, getPhysicalAddress c.2.paging c.1 0xE000, getPhysicalAddress c.2.paging 0x1000 0xE000)) =
        .ok (some (0x9000, 0, 0xE000)) := by decide +kernel
  cases hrun : cloneDirectory growHeap 1025 0x1000 cloneMachine with
  | error err => rw [hrun] at h; cases h
  | ok r =>
    rw [hrun] at h
    cases r with
    | none => cases h
    | some c =>
      obtain ⟨c, m'⟩ := c
      obtain ⟨rfl, h1, h2⟩ : c = 0x9000 ∧ getPhysicalAddress m'.paging c 0xE000 = 0 ∧
          getPhysicalAddress m'.paging 0x1000 0xE000 = 0xE000 := by
        simpa [Except.map] using h
      exact ⟨m', rfl, h1, h2⟩

/-- The clone of the kernel's directory is not faithful. -/
theorem cloneDirectory_misses : ∃ m',
    cloneDirectory growHeap 1025 0x1000 cloneMachine = .ok (some (0x9000, m')) ∧
      ¬ ∀ x, x < 2 ^ 32 →
        getPhysicalAddress m'.paging 0x9000 x = getPhysicalAddress m'.paging 0x1000 x := by
  obtain ⟨m', hrun, h1, h2⟩ := cloneMachine_run
  refine ⟨m', hrun, fun h => ?_⟩
  have := h 0xE000 (by decide)
  rw [h1, h2] at this
  cases this

/-- With a heap that has room for the tables the clone is faithful; with the one that grows it is
not. -/
theorem cloneDirectory_faithful_sample :
    (∃ m', cloneDirectory bumpHeap 1025 0x1000 cloneMachine = .ok (some (0x9000, m')) ∧
      ∀ x, x < 2 ^ 32 →
        getPhysicalAddress m'.paging 0x9000 x = getPhysicalAddress m'.paging 0x1000 x) ∧
    cloneDirectory growHeap 1025 0x1000 cloneMachine ≠ .ok none ∧
      ¬ QuietClone growHeap 1025 0x1000 cloneMachine := by
  have hzero : cloneMachine.paging.frameUsed 0 = true := by decide +kernel
  refine ⟨?_, ?_⟩
  · have hkept : ∀ size (m m₁ : Machine Nat) p,
        bumpHeap.memAllocAligned size 0x1000 m = .ok (p, m₁) →
          ∀ v, translate m₁.paging 0x1000 v = translate m.paging 0x1000 v := by
      intro size m m₁ p h v
      cases h
      rfl
    have hrun : (cloneDirectory bumpHeap 1025 0x1000 cloneMachine).map (Option.map Prod.fst) =
        .ok (some 0x9000) := by decide +kernel
    obtain ⟨_, hall⟩ := cloneDirectory_faithful (H := bumpHeap) cloneMachine_inKernel hzero
      (.inl rfl : Sees bumpHeap.live cloneMachine 0x1000) (by decide : 1024 < 1025)
    cases h : cloneDirectory bumpHeap 1025 0x1000 cloneMachine with
    | error err => rw [h] at hrun; cases hrun
    | ok r =>
      rw [h] at hrun
      cases r with
      | none => cases hrun
      | some r =>
        obtain ⟨copy, m'⟩ := r
        obtain rfl : copy = 0x9000 := by simpa [Except.map] using hrun
        exact ⟨m', rfl, (hall _ _ h).2.mpr (quietClone_of_kept hkept cloneMachine)⟩
  · obtain ⟨h1, h2⟩ := cloneDirectory_faithful cloneMachine_inKernel hzero
      (.inl rfl : Sees growHeap.live cloneMachine 0x1000) (by decide : 1024 < 1025)
    refine ⟨h1, fun hq => ?_⟩
    obtain ⟨m', hrun, h3, h4⟩ := cloneMachine_run
    have := ((h2 _ _ hrun).2.mpr hq) 0xE000 (by decide)
    rw [h3, h4] at this
    cases this

end Sample

end MarioBrOS.Paging
