import MarioBrOS.Paging.Fork

/-!
# What a fork has copied

The loops of `fork_page_dir` keep `ForkInv`: of the tables they have made, the pages they have
passed are copies and the others still are what the parent has there. Everything else that happens
is growth of the heap (`Grows`), which touches neither directory.
-/

namespace MarioBrOS.Paging

variable {μ : Type}

/-- The entry of page number `v`. -/
def entryOf (s : State) (dir v : Nat) : PageTableEntry :=
  s.page ⟨pageTable s dir (v / 1024), v % 1024⟩

/-- `base_directory` maps the page. -/
def Linked (s : State) (v : Nat) : Prop := getPhysicalAddress s s.baseDirectory (0x1000 * v) ≠ 0

/-- `dir` maps the page, and `base_directory` does not. -/
structure OwnPage (s : State) (dir v : Nat) (e : PageTableEntry) : Prop where
  entry : translate s dir v = some e
  unlinked : ¬ Linked s v

/-- The directory of a process, with the frames of its pages. Nobody maps the frame 0, and a page
that `base_directory` does not map has a frame that is the process' own. -/
structure Owned (live : μ → Set Nat) (m : Machine μ) (dir : Nat) : Prop where
  apart : Apart live m dir
  base : Apart live m m.paging.baseDirectory
  frame : ∀ v e, translate m.paging dir v = some e →
    e.address ≠ 0 ∧ m.paging.frameUsed e.address = true
  own : ∀ v e, OwnPage m.paging dir v e → Private m.paging e.address
  length : m.paging.framesLength ≤ 0x100000

/-- The entry `e'`, in `m`, for a copy of the page that the entry `e` has in `m₀`. -/
structure Copied (m₀ m : Machine μ) (e e' : PageTableEntry) : Prop where
  entry : e' = { e with address := e'.address }
  clear : m₀.paging.frameUsed e'.address = false
  isPrivate : Private m.paging e'.address
  bytes : ∀ j, j < 0x1000 →
    m.paging.physical (0x1000 * e'.address + j) = m₀.paging.physical (0x1000 * e.address + j)

/-- A fork of `dir` with its first `tables` tables made and its first `pages` pages passed. -/
structure ForkInv (live : μ → Set Nat) (m₀ : Machine μ) (dir fork tables pages : Nat)
    (m : Machine μ) : Prop where
  grows : Grows live m₀ m
  apart : Apart live m fork
  new : fork ∉ live m₀.heap
  entry : ∀ i, (pageEntry m.paging fork i).present = true ↔
    i < tables ∧ (pageEntry m₀.paging dir i).present = true
  newTable : ∀ i, (pageEntry m.paging fork i).present = true →
    pageTable m.paging fork i ∉ live m₀.heap ∧ pageTable m.paging fork i ≠ fork
  distinct : ∀ i j, (pageEntry m.paging fork i).present = true →
    (pageEntry m.paging fork j).present = true →
    pageTable m.paging fork i = pageTable m.paging fork j → i = j
  copied : ∀ v e, v < pages → OwnPage m₀.paging dir v e → Copied m₀ m e (entryOf m.paging fork v)
  rest : ∀ v, (pageEntry m.paging fork (v / 1024)).present = true →
    (v < pages → ∀ e, ¬ OwnPage m₀.paging dir v e) →
    entryOf m.paging fork v = entryOf m₀.paging dir v
  frames : ∀ v w e e', v < pages → w < pages → v ≠ w → OwnPage m₀.paging dir v e →
    OwnPage m₀.paging dir w e' → (entryOf m.paging fork v).address ≠ (entryOf m.paging fork w).address

section Invariant

variable {live : μ → Set Nat} {m₀ m m' : Machine μ} {s t : State} {dir fork tables pages i j v : Nat}
  {e e' : PageTableEntry}

/-! ## Growth keeps it -/

/-- Blocks that were not there before, and are not tables of the current directory, are filled in.
-/
lemma Grows.own (h : Grows live m m') (hc : s.currentDirectory = m'.paging.currentDirectory)
    (hk : s.kernelDirectory = m'.paging.kernelDirectory)
    (hb : s.baseDirectory = m'.paging.baseDirectory) (hl : s.framesLength = m'.paging.framesLength)
    (hf : s.frames = m'.paging.frames) (hp : s.physical = m'.paging.physical)
    (hd : ∀ d, d ∈ live m.heap ∨ d = m.paging.currentDirectory →
      s.directories d = m'.paging.directories d)
    (ht : ∀ p, (p ∈ live m.heap ∨ ∃ i,
      (pageEntry m'.paging m.paging.currentDirectory i).present = true ∧
        pageTable m'.paging m.paging.currentDirectory i = p) → s.tables p = m'.paging.tables p) :
    Grows live m { m' with paging := s } := by
  have hcur := hd _ (.inr rfl)
  have hE : ∀ i, pageEntry s m.paging.currentDirectory i =
      pageEntry m'.paging m.paging.currentDirectory i := fun i => by
    unfold pageEntry
    rw [hcur]
  have hT : ∀ i, pageTable s m.paging.currentDirectory i =
      pageTable m'.paging m.paging.currentDirectory i := fun i => by
    unfold pageTable
    rw [hcur]
  have htr := translate_congr hcur fun i hi => ht _ (.inr ⟨i, hi, rfl⟩)
  have hu : ∀ f, s.frameUsed f = m'.paging.frameUsed f := fun f => by
    unfold State.frameUsed
    rw [hf]
  refine ⟨h.alive, hc.trans h.current, hk.trans h.kernel, hb.trans h.base, hl.trans h.length,
    fun d hd' hne => (hd d (.inl hd')).trans (h.directory d hd' hne), fun i hi => ?_, fun i hi => ?_,
    fun p hp hne => (ht p (.inl hp)).trans (h.table p hp hne), fun v e he => ?_, fun v e he => ?_,
    fun f hf => (hu f).trans (h.frames f hf), fun x hx => ?_⟩
  · dsimp only
    rw [hE, hT]
    exact h.hasTable i hi
  · dsimp only at hi ⊢
    rw [hE] at hi
    rw [hT]
    exact h.newTable i hi
  · exact (htr v).trans (h.keeps v e he)
  · obtain h1 | ⟨h1, h2⟩ := h.adds v e ((htr v).symm.trans he)
    · exact .inl h1
    · exact .inr ⟨h1, (hu _).trans h2⟩
  · dsimp only
    rw [hp]
    exact h.physical x hx

/-- A new directory without tables. -/
lemma fresh_directory {H : KernelHeap μ} {size alignment : Nat} {D : PageDirectory}
    (hk : InKernel H.live m₀) (h : H.memAllocAligned size alignment m₀ = .ok (dir, m)) (h0 : dir ≠ 0)
    (hD : ∀ i, (D.entries i).present = false) :
    Grows H.live m₀ { m with paging := m.paging.setDirectory dir D } ∧
      Apart H.live { m with paging := m.paging.setDirectory dir D } dir ∧ dir ∉ H.live m₀.heap ∧
      ∀ i, (pageEntry (m.paging.setDirectory dir D) dir i).present = false := by
  have g := H.grows hk.current h
  obtain ⟨hfresh, hlive, _⟩ := H.fresh hk.current h h0
  have hne : dir ≠ m₀.paging.currentDirectory := by
    rintro rfl
    exact hfresh hk.alive
  have hE : ∀ i, (pageEntry (m.paging.setDirectory dir D) dir i).present = false := fun i => by
    have : (m.paging.setDirectory dir D).directories dir = D := Function.update_self ..
    unfold pageEntry
    rw [this]
    exact hD i
  have habs : ∀ i, ¬ (pageEntry (m.paging.setDirectory dir D) dir i).present = true := fun i hi => by
    rw [hE] at hi
    cases hi
  refine ⟨g.own rfl rfl rfl rfl rfl rfl (fun d hd => ?_) fun _ _ => rfl,
    ⟨hlive, g.current ▸ hne, fun i hi => absurd hi (habs i), fun i j hi => absurd hi (habs i)⟩,
    hfresh, hE⟩
  refine Function.update_of_ne ?_ ..
  rintro rfl
  obtain h1 | h1 := hd
  · exact hfresh h1
  · exact hne h1

lemma Copied.grows (h : Copied m₀ m e e') (g : Grows live m m') : Copied m₀ m' e e' := by
  refine ⟨h.entry, h.clear, g.isPrivate h.isPrivate, fun j hj => ?_⟩
  have hx : (0x1000 * e'.address + j) / 0x1000 = e'.address := by omega
  rw [g.physical _ (hx.symm ▸ h.isPrivate)]
  exact h.bytes j hj

lemma entryOf_congr (hd : t.directories dir = s.directories dir)
    (ht : t.tables (pageTable s dir (v / 1024)) = s.tables (pageTable s dir (v / 1024))) :
    entryOf t dir v = entryOf s dir v := by
  have hT : pageTable t dir (v / 1024) = pageTable s dir (v / 1024) := by
    unfold pageTable
    rw [hd]
  unfold entryOf State.page
  rw [hT, ht]

/-- The entry of a page in a directory that has the table. -/
lemma translate_eq_entryOf (h : (pageEntry s dir (v / 1024)).present = true) :
    translate s dir v = if (entryOf s dir v).present then some (entryOf s dir v) else none := by
  unfold translate entryOf
  rw [h]
  simp

lemma OwnPage.entryOf (h : OwnPage s dir v e) : Paging.entryOf s dir v = e :=
  (translate_eq_some.mp h.entry).2.2

lemma OwnPage.present (h : OwnPage s dir v e) : (pageEntry s dir (v / 1024)).present = true :=
  (translate_eq_some.mp h.entry).1

lemma ForkInv.step (h : ForkInv live m₀ dir fork tables pages m) (g : Grows live m m')
    (hp : pages ≤ 1024 * tables) : ForkInv live m₀ dir fork tables pages m' := by
  obtain ⟨hd, ht, ha⟩ := g.apart h.apart
  have hE : ∀ i, pageEntry m'.paging fork i = pageEntry m.paging fork i := fun i => by
    unfold pageEntry
    rw [hd]
  have hT : ∀ i, pageTable m'.paging fork i = pageTable m.paging fork i := fun i => by
    unfold pageTable
    rw [hd]
  have hO : ∀ v, (pageEntry m.paging fork (v / 1024)).present = true →
      entryOf m'.paging fork v = entryOf m.paging fork v := fun v hv => entryOf_congr hd (ht _ hv)
  have hown : ∀ v e, v < pages → OwnPage m₀.paging dir v e →
      entryOf m'.paging fork v = entryOf m.paging fork v := fun v e hv ho =>
    hO v ((h.entry _).mpr ⟨by omega, ho.present⟩)
  refine ⟨h.grows.trans g, ha, h.new, fun i => ?_, fun i hi => ?_, fun i j hi hj => ?_,
    fun v e hv ho => ?_, fun v hv hr => ?_, fun v w e e' hv hw hne ho ho' => ?_⟩
  · rw [hE]
    exact h.entry i
  · rw [hE] at hi
    rw [hT]
    exact h.newTable i hi
  · rw [hE] at hi hj
    rw [hT, hT]
    exact h.distinct i j hi hj
  · rw [hown v e hv ho]
    exact (h.copied v e hv ho).grows g
  · rw [hE] at hv
    rw [hO v hv]
    exact h.rest v hv hr
  · rw [hown v e hv ho, hown w e' hw ho']
    exact h.frames v w e e' hv hw hne ho ho'

/-! ## One table -/

/-- An absent table is passed. -/
lemma ForkInv.skip (h : ForkInv live m₀ dir fork i (1024 * i) m)
    (hi : (pageEntry m₀.paging dir i).present = false) :
    ForkInv live m₀ dir fork (i + 1) (1024 * (i + 1)) m := by
  have hpage : ∀ v e, v < 1024 * (i + 1) → OwnPage m₀.paging dir v e → v < 1024 * i := by
    intro v e hv ho
    by_contra hge
    have hvi : v / 1024 = i := by omega
    have := ho.present
    rw [hvi, hi] at this
    cases this
  refine ⟨h.grows, h.apart, h.new, fun j => ?_, h.newTable, h.distinct,
    fun v e hv ho => h.copied v e (hpage v e hv ho) ho,
    fun v hv hr => h.rest v hv fun hlt => hr (by omega),
    fun v w e e' hv hw hne ho ho' => h.frames v w e e' (hpage v e hv ho) (hpage w e' hw ho') hne ho ho'⟩
  rw [h.entry]
  constructor
  · exact fun hc => ⟨by omega, hc.2⟩
  · rintro ⟨h1, h2⟩
    refine ⟨?_, h2⟩
    by_contra hge
    rw [show j = i by omega, hi] at h2
    cases h2

/-- A new table, with what the parent has there. -/
lemma ForkInv.install {p : Nat} {en : PageDirectoryEntry}
    (h : ForkInv live m₀ dir fork i (1024 * i) m) (hdir : Apart live m₀ dir)
    (hi : (pageEntry m₀.paging dir i).present = true) (hen : en.present = true)
    (hnew : p ∉ live m₀.heap) (hlive : p ∈ live m.heap) (hne : p ≠ fork)
    (hcur : ∀ j, (pageEntry m.paging m.paging.currentDirectory j).present = true →
      pageTable m.paging m.paging.currentDirectory j ≠ p)
    (hold : ∀ j, (pageEntry m.paging fork j).present = true → pageTable m.paging fork j ≠ p)
    (hs : s = (m.paging.setTable p (m.paging.tables (pageTable m.paging dir i))).setDirectory fork
      (((m.paging.setTable p (m.paging.tables (pageTable m.paging dir i))).directories fork).setEntry
        i en p)) :
    ForkInv live m₀ dir fork (i + 1) (1024 * i) { m with paging := s } := by
  -- the directory entry `i` is new, and the others stay
  have hE : ∀ j, pageEntry s fork j = if j = i then en else pageEntry m.paging fork j := fun j => by
    rw [hs, pageEntry_setEntry]
    simp only [true_and]
    rfl
  have hT : ∀ j, pageTable s fork j = if j = i then p else pageTable m.paging fork j := fun j => by
    rw [hs, pageTable_setEntry]
    simp only [true_and]
    rfl
  have hdirs : ∀ d, d ≠ fork → s.directories d = m.paging.directories d := fun d hd => by
    rw [hs]
    exact Function.update_of_ne hd ..
  have htabs : ∀ t, t ≠ p → s.tables t = m.paging.tables t := fun t ht => by
    rw [hs]
    exact Function.update_of_ne ht ..
  have hnewtab : s.tables p = m₀.paging.tables (pageTable m₀.paging dir i) := by
    obtain ⟨hd, htab, _⟩ := h.grows.apart hdir
    have hd' : pageTable m.paging dir i = pageTable m₀.paging dir i := by
      unfold pageTable
      rw [hd]
    rw [hs, ← htab i hi, ← hd']
    exact Function.update_self ..
  have hcurE : ∀ j, pageEntry s m.paging.currentDirectory j =
      pageEntry m.paging m.paging.currentDirectory j := fun j => by
    unfold pageEntry
    rw [hdirs _ h.apart.ne.symm]
  have hcurT : ∀ j, pageTable s m.paging.currentDirectory j =
      pageTable m.paging m.paging.currentDirectory j := fun j => by
    unfold pageTable
    rw [hdirs _ h.apart.ne.symm]
  have hcurrent : s.currentDirectory = m.paging.currentDirectory := by
    rw [hs]
    rfl
  have hni : (pageEntry m.paging fork i).present = false := by
    rw [← Bool.not_eq_true, h.entry]
    omega
  -- what was copied before lies in other tables
  have hold' : ∀ v, (pageEntry m.paging fork (v / 1024)).present = true →
      entryOf s fork v = entryOf m.paging fork v := fun v hv => by
    have hv' : v / 1024 ≠ i := by
      rintro e
      rw [e, hni] at hv
      cases hv
    unfold entryOf State.page
    rw [hT, if_neg hv', htabs _ (hold _ hv)]
  have hown : ∀ v e, v < 1024 * i → OwnPage m₀.paging dir v e →
      entryOf s fork v = entryOf m.paging fork v := fun v e hv ho =>
    hold' v ((h.entry _).mpr ⟨by omega, ho.present⟩)
  refine ⟨?_, ⟨h.apart.alive, hcurrent ▸ h.apart.ne, fun j hj => ?_, fun j k hj hk => ?_⟩, h.new,
    fun j => ?_, fun j hj => ?_, fun j k hj hk => ?_, fun v e hv ho => ?_, fun v hv hr => ?_,
    fun v w e e' hv hw hne ho ho' => ?_⟩
  · refine h.grows.own hcurrent (by rw [hs]; rfl) (by rw [hs]; rfl) (by rw [hs]; rfl)
      (by rw [hs]; rfl) (by rw [hs]; rfl) (fun d hd => hdirs d ?_) fun t ht => htabs t ?_
    · rintro rfl
      obtain h1 | h1 := hd
      · exact h.new h1
      · exact h.apart.ne (h1.trans h.grows.current.symm)
    · rintro rfl
      obtain h1 | ⟨j, hj, h1⟩ := ht
      · exact hnew h1
      · rw [← h.grows.current] at hj h1
        exact hcur j hj h1
  · dsimp only at hj ⊢
    rw [hE] at hj
    rw [hT]
    split_ifs at hj ⊢ with hji
    · exact hlive
    · exact h.apart.table j hj
  · dsimp only at hj hk ⊢
    rw [hcurrent] at hk ⊢
    rw [hcurE] at hk
    rw [hE] at hj
    rw [hcurT, hT]
    split_ifs at hj ⊢ with hji
    · exact hcur k hk
    · exact h.apart.other j k hj hk
  · dsimp only
    rw [hE]
    split_ifs with hji
    · simp [hen, hji, hi]
    · rw [h.entry]
      exact and_congr_left fun _ => by omega
  · dsimp only at hj ⊢
    rw [hE] at hj
    rw [hT]
    split_ifs at hj ⊢ with hji
    · exact ⟨hnew, hne⟩
    · exact h.newTable j hj
  · dsimp only at hj hk ⊢
    rw [hE] at hj hk
    rw [hT, hT]
    split_ifs at hj hk ⊢ with hji hki hki
    · exact fun _ => hji.trans hki.symm
    · exact fun e => absurd e.symm (hold k hk)
    · exact fun e => absurd e (hold j hj)
    · exact h.distinct j k hj hk
  · dsimp only
    rw [hown v e hv ho]
    obtain ⟨h1, h2, h3, h4⟩ := h.copied v e hv ho
    refine ⟨h1, h2, ⟨?_, fun w e' hw => ?_⟩, fun j hj => ?_⟩
    · have := h3.used
      rw [hs]
      exact this
    · refine h3.unmapped w e' ?_
      dsimp only at hw
      rw [hcurrent] at hw
      rw [← hw]
      exact (translate_congr (hdirs _ h.apart.ne.symm) (fun k hk => htabs _ (hcur k hk)) w).symm
    · rw [← h4 j hj, hs]
      rfl
  · dsimp only at hv ⊢
    rw [hE] at hv
    by_cases hvi : v / 1024 = i
    · unfold entryOf State.page
      rw [hT, if_pos hvi, hvi]
      exact congrFun hnewtab _
    · rw [if_neg hvi] at hv
      rw [hold' v hv]
      exact h.rest v hv hr
  · dsimp only
    rw [hown v e hv ho, hown w e' hw ho']
    exact h.frames v w e e' hv hw hne ho ho'

/-! ## One page -/

/-- A page that is not the process' own is passed. -/
lemma ForkInv.pass (h : ForkInv live m₀ dir fork tables pages m)
    (hn : ∀ e, ¬ OwnPage m₀.paging dir pages e) :
    ForkInv live m₀ dir fork tables (pages + 1) m := by
  have hpage : ∀ v e, v < pages + 1 → OwnPage m₀.paging dir v e → v < pages := by
    intro v e hv ho
    by_contra hge
    rw [show v = pages by omega] at ho
    exact hn e ho
  exact ⟨h.grows, h.apart, h.new, h.entry, h.newTable, h.distinct,
    fun v e hv ho => h.copied v e (hpage v e hv ho) ho,
    fun v hv hr => h.rest v hv fun hlt => hr (by omega),
    fun v w e e' hv hw hne ho ho' => h.frames v w e e' (hpage v e hv ho) (hpage w e' hw ho') hne ho ho'⟩

/-- A page of its own gets the frame `f`. -/
lemma ForkInv.patch {f : Nat} (h : ForkInv live m₀ dir fork tables pages m)
    (hp : pages < 1024 * tables) (ho : OwnPage m₀.paging dir pages e)
    (hf : m₀.paging.frameUsed f = false) (hpriv : Private m.paging f)
    (hbytes : ∀ j, j < 0x1000 →
      m.paging.physical (0x1000 * f + j) = m₀.paging.physical (0x1000 * e.address + j))
    (hfree : ∀ v e', v < pages → OwnPage m₀.paging dir v e' → (entryOf m.paging fork v).address ≠ f) :
    ForkInv live m₀ dir fork tables (pages + 1) { m with
      paging := m.paging.setPage ⟨pageTable m.paging fork (pages / 1024), pages % 1024⟩
        { m.paging.page ⟨pageTable m.paging fork (pages / 1024), pages % 1024⟩ with address := f } } := by
  have hpres : (pageEntry m.paging fork (pages / 1024)).present = true :=
    (h.entry _).mpr ⟨by omega, ho.present⟩
  have hold : m.paging.page ⟨pageTable m.paging fork (pages / 1024), pages % 1024⟩ = e :=
    (h.rest pages hpres fun hlt => absurd hlt (lt_irrefl _)).trans ho.entryOf
  rw [hold]
  generalize hs : m.paging.setPage ⟨pageTable m.paging fork (pages / 1024), pages % 1024⟩
    { e with address := f } = s
  have htabs : ∀ t, t ≠ pageTable m.paging fork (pages / 1024) → s.tables t = m.paging.tables t :=
    fun t ht => by
      rw [← hs]
      exact Function.update_of_ne ht ..
  have hdirs : s.directories = m.paging.directories := by
    rw [← hs]
    rfl
  have hcurrent : s.currentDirectory = m.paging.currentDirectory := by
    rw [← hs]
    rfl
  have hE : ∀ d j, pageEntry s d j = pageEntry m.paging d j := fun d j => by
    unfold pageEntry
    rw [hdirs]
  have hT : ∀ d j, pageTable s d j = pageTable m.paging d j := fun d j => by
    unfold pageTable
    rw [hdirs]
  -- the tables of the copy are distinct, so that no other page changes
  have hO : ∀ v, (pageEntry m.paging fork (v / 1024)).present = true →
      entryOf s fork v = if v = pages then { e with address := f } else entryOf m.paging fork v := by
    intro v hv
    unfold entryOf
    rw [hT, ← hs, page_setPage]
    by_cases hvp : v = pages
    · rw [if_pos hvp, if_pos (by rw [hvp])]
    · rw [if_neg hvp, if_neg]
      intro hc
      obtain ⟨h1, h2⟩ := PagePtr.mk.injEq .. ▸ hc
      have := h.distinct _ _ hv hpres h1
      omega
  have hcur : ∀ j, (pageEntry m.paging m.paging.currentDirectory j).present = true →
      pageTable m.paging m.paging.currentDirectory j ≠ pageTable m.paging fork (pages / 1024) :=
    fun j hj => h.apart.other _ j hpres hj
  have hown : ∀ v e', v < pages → OwnPage m₀.paging dir v e' →
      entryOf s fork v = entryOf m.paging fork v := fun v e' hv ho' => by
    rw [hO v ((h.entry _).mpr ⟨by omega, ho'.present⟩), if_neg (by omega)]
  have hnew : entryOf s fork pages = { e with address := f } := by
    rw [hO pages hpres, if_pos rfl]
  -- the table written to is none of the directory in force
  have hcopied : ∀ e₁ e₂, Copied m₀ m e₁ e₂ → Copied m₀ { m with paging := s } e₁ e₂ := by
    rintro e₁ e₂ ⟨h1, h2, h3, h4⟩
    refine ⟨h1, h2, ⟨?_, fun w e' hw => ?_⟩, fun j hj => ?_⟩
    · rw [← hs]
      exact h3.used
    · refine h3.unmapped w e' ?_
      dsimp only at hw
      rw [hcurrent] at hw
      rw [← hw]
      exact (translate_congr (by rw [hdirs]) (fun k hk => htabs _ (hcur k hk)) w).symm
    · rw [← h4 j hj, ← hs]
      rfl
  refine ⟨?_, ⟨h.apart.alive, hcurrent ▸ h.apart.ne, fun j hj => ?_, fun j k hj hk => ?_⟩, h.new,
    fun j => ?_, fun j hj => ?_, fun j k hj hk => ?_, fun v e' hv ho' => ?_, fun v hv hr => ?_,
    fun v w e₁ e₂ hv hw hne ho₁ ho₂ => ?_⟩
  · refine h.grows.own hcurrent (by rw [← hs]; rfl) (by rw [← hs]; rfl) (by rw [← hs]; rfl)
      (by rw [← hs]; rfl) (by rw [← hs]; rfl) (fun d _ => by rw [hdirs]) fun t ht => htabs t ?_
    rintro rfl
    obtain h1 | ⟨j, hj, h1⟩ := ht
    · exact (h.newTable _ hpres).1 h1
    · rw [← h.grows.current] at hj h1
      exact hcur j hj h1
  · dsimp only at hj ⊢
    rw [hE] at hj
    rw [hT]
    exact h.apart.table j hj
  · dsimp only at hj hk ⊢
    rw [hE] at hj hk
    rw [hcurrent] at hk ⊢
    rw [hT, hT]
    exact h.apart.other j k hj hk
  · dsimp only
    rw [hE]
    exact h.entry j
  · dsimp only at hj ⊢
    rw [hE] at hj
    rw [hT]
    exact h.newTable j hj
  · dsimp only at hj hk ⊢
    rw [hE] at hj hk
    rw [hT, hT]
    exact h.distinct j k hj hk
  · dsimp only
    by_cases hvp : v = pages
    · subst hvp
      obtain rfl : e' = e := by rw [← ho'.entryOf, ho.entryOf]
      rw [hnew]
      exact hcopied _ _ ⟨rfl, hf, hpriv, hbytes⟩
    · have hlt : v < pages := by omega
      rw [hown v e' hlt ho']
      exact hcopied _ _ (h.copied v e' hlt ho')
  · dsimp only at hv ⊢
    rw [hE] at hv
    have hvp : v ≠ pages := by
      rintro rfl
      exact hr (by omega) e ho
    rw [hO v hv, if_neg hvp]
    exact h.rest v hv fun hlt => hr (by omega)
  · dsimp only
    by_cases hvp : v = pages
    · have hwp : w < pages := by omega
      rw [hvp, hnew, hown w e₂ hwp ho₂]
      exact fun he => hfree w e₂ hwp ho₂ he.symm
    · have hlt : v < pages := by omega
      rw [hown v e₁ hlt ho₁]
      by_cases hwp : w = pages
      · rw [hwp, hnew]
        exact hfree v e₁ hlt ho₁
      · rw [hown w e₂ (by omega) ho₂]
        exact h.frames v w e₁ e₂ hlt (by omega) hne ho₁ ho₂

end Invariant

/-! ## The loops -/

section Loops

variable {H : KernelHeap μ} {m₀ m m' : Machine μ} {dir fork tables pages i j v : Nat}
  {e : PageTableEntry} {r : ForkEnd}

/-- How a part of the fork ends: it has come to `tables` and `pages`, or it stands at a page that it
cannot copy. -/
def Ends (live : μ → Set Nat) (m₀ : Machine μ) (dir fork tables pages : Nat) (r : ForkEnd)
    (m : Machine μ) : Prop :=
  (r = .done → ForkInv live m₀ dir fork tables pages m) ∧
  (r = .noFrame ∨ r = .noWindow → ∃ k n e, k ≤ tables ∧ n < 1024 * k ∧
    OwnPage m₀.paging dir n e ∧ ForkInv live m₀ dir fork k n m)

lemma Ends.ofDone (h : ForkInv H.live m₀ dir fork tables pages m) :
    Ends H.live m₀ dir fork tables pages .done m :=
  ⟨fun _ => h, fun hr => by obtain hr | hr := hr <;> cases hr⟩

lemma Ends.ofNoMemory : Ends H.live m₀ dir fork tables pages .noMemory m :=
  ⟨nofun, fun hr => by obtain hr | hr := hr <;> cases hr⟩

/-- A page that cannot be copied. -/
lemma Ends.stuck {n : Nat} (hr : r ≠ .done) (hn : n < 1024 * tables)
    (ho : OwnPage m₀.paging dir n e) (h : ForkInv H.live m₀ dir fork tables n m) :
    Ends H.live m₀ dir fork tables pages r m :=
  ⟨fun hd => absurd hd hr, fun _ => ⟨tables, n, e, le_rfl, hn, ho, h⟩⟩

/-- A part that does not go on is the end. -/
lemma Ends.stop {tables' pages' : Nat} (h : Ends H.live m₀ dir fork tables pages r m)
    (hr : r ≠ .done) (hle : tables ≤ tables') : Ends H.live m₀ dir fork tables' pages' r m := by
  refine ⟨fun hd => absurd hd hr, fun hs => ?_⟩
  obtain ⟨k, n, e, hk, hn, ho, hinv⟩ := h.2 hs
  exact ⟨k, n, e, hk.trans hle, hn, ho, hinv⟩

/-- The search finds a clear frame. -/
lemma takeFrame_clear {s t : State} {f : Nat} (h : takeFrame s = some (f, t)) :
    f < s.framesLength ∧ s.frameUsed f = false ∧ t = s.setFrame f true := by
  obtain ⟨h1, rfl, ht⟩ := takeFrame_some h
  obtain ⟨h2, h3⟩ := firstFalseBit_spec h1
  refine ⟨h2, ?_, ht⟩
  unfold State.frameUsed
  rw [getBit_eq]
  exact h3

/-- A page that the loop looks at. -/
lemma ForkInv.look (h : ForkInv H.live m₀ dir fork tables pages m) (ho : Owned H.live m₀ dir)
    (hv : (pageEntry m₀.paging dir (v / 1024)).present = true) :
    m.paging.page ⟨pageTable m₀.paging dir (v / 1024), v % 1024⟩ = entryOf m₀.paging dir v ∧
      getPhysicalAddress m.paging m.paging.baseDirectory (0x1000 * v) =
        getPhysicalAddress m₀.paging m₀.paging.baseDirectory (0x1000 * v) := by
  obtain ⟨_, ht, _⟩ := h.grows.apart ho.apart
  refine ⟨congrFun (ht _ hv) _, ?_⟩
  rw [h.grows.base]
  exact getPhysicalAddress_congr (h.grows.translate_eq ho.base _)

lemma forkPage_inv (hk : InKernel H.live m₀) (ho : Owned H.live m₀ dir)
    (hinv : ForkInv H.live m₀ dir fork tables v m) (hv : v < 1024 * tables)
    (hpres : (pageEntry m₀.paging dir (v / 1024)).present = true)
    (h : forkPage H dir (v / 1024) (pageTable m₀.paging dir (v / 1024))
      (pageTable m.paging fork (v / 1024)) (v % 1024) m = .ok (r, m')) :
    m'.paging.directories fork = m.paging.directories fork ∧
      Ends H.live m₀ dir fork tables (v + 1) r m' := by
  have hva : v / 1024 * 1024 * 0x1000 + v % 1024 * 0x1000 = 0x1000 * v := by omega
  have hvd : 0x1000 * v / 0x1000 = v := by omega
  have hvm : 0x1000 * v % 0x1000 = 0 := by omega
  obtain ⟨hpage, hbase⟩ := hinv.look ho hpres
  have htr : translate m₀.paging dir v =
      if (entryOf m₀.paging dir v).present then some (entryOf m₀.paging dir v) else none :=
    translate_eq_entryOf hpres
  have hpass : (∀ e, ¬ OwnPage m₀.paging dir v e) → Ends H.live m₀ dir fork tables (v + 1) .done m :=
    fun hn => .ofDone (hinv.pass hn)
  unfold forkPage at h
  dsimp only at h
  rw [hpage, hva, hbase] at h
  cases hpr : (entryOf m₀.paging dir v).present with
  | false =>
    rw [if_pos hpr] at h
    cases h
    refine ⟨rfl, hpass fun e hoe => ?_⟩
    have := hoe.entry
    rw [htr, hpr] at this
    cases this
  | true =>
    rw [if_neg (by rw [hpr]; exact Bool.noConfusion)] at h
    by_cases hlink : getPhysicalAddress m₀.paging m₀.paging.baseDirectory (0x1000 * v) ≠ 0
    · rw [if_pos hlink] at h
      cases h
      exact ⟨rfl, hpass fun e hoe => hoe.unlinked hlink⟩
    rw [if_neg hlink] at h
    have hown : OwnPage m₀.paging dir v (entryOf m₀.paging dir v) := ⟨by rw [htr, if_pos hpr], hlink⟩
    generalize entryOf m₀.paging dir v = e at hown h
    -- a page to copy
    cases hframe : takeFrame m.paging with
    | none =>
      rw [hframe] at h
      cases h
      exact ⟨rfl, .stuck (by decide) hv hown hinv⟩
    | some fs =>
      obtain ⟨f, s⟩ := fs
      obtain ⟨hlt, hclear, rfl⟩ := takeFrame_clear hframe
      rw [hframe] at h
      dsimp only at h
      have hlt : f < 0x100000 := by
        have := ho.length
        rw [hinv.grows.length] at hlt
        omega
      have hphys : f * 0x1000 % 2 ^ 32 / 0x1000 = f := by omega
      have hsrc : getPhysicalAddress m.paging dir (0x1000 * v) = 0x1000 * e.address := by
        have : translate m.paging dir (0x1000 * v / 0x1000) = some e := by
          rw [hvd, hinv.grows.translate_eq ho.apart]
          exact hown.entry
        rw [getPhysicalAddress_some this, hvm, Nat.add_zero]
      have hpriv := ho.own v e hown
      cases hcopy : copyPage H (f * 0x1000 % 2 ^ 32) dir (0x1000 * v)
          { m with paging := m.paging.setFrame f true } with
      | error err => rw [hcopy] at h; cases h
      | ok bm =>
        obtain ⟨b, m₁⟩ := bm
        obtain ⟨g, hb⟩ := copyPage_spec hclear hlt (hinv.grows.inKernel hk)
          (hinv.grows.apart ho.apart).2.2 (hinv.grows.isPrivate hpriv) hsrc hcopy
        obtain ⟨hdirs, htabs, _⟩ := g.apart hinv.apart
        have hinv₁ := hinv.step g hv.le
        rw [hcopy] at h
        dsimp only [bind, Except.bind] at h
        cases b with
        | false =>
          cases h
          exact ⟨hdirs, .stuck (by decide) hv hown hinv₁⟩
        | true =>
          obtain ⟨hf, hbytes⟩ := hb rfl
          have htab : pageTable m.paging fork (v / 1024) = pageTable m₁.paging fork (v / 1024) := by
            unfold pageTable
            rw [hdirs]
          rw [if_pos rfl, hphys, htab] at h
          cases h
          refine ⟨hdirs, .ofDone ?_⟩
          refine hinv₁.patch hv hown ?_ hf (fun k hlt => ?_) fun w e' hw ho' => ?_
          · rw [← Bool.not_eq_true]
            intro hu
            rw [hinv.grows.frames f hu] at hclear
            cases hclear
          · have hx : (0x1000 * e.address + k) / 0x1000 = e.address := by omega
            rw [hbytes k hlt]
            exact hinv.grows.physical _ (hx.symm ▸ hpriv)
          · have hw' := (hinv.entry _).mpr ⟨by omega, ho'.present⟩
            rw [entryOf_congr hdirs (htabs _ hw')]
            have hu := (hinv.copied w e' hw ho').isPrivate.used
            rintro rfl
            rw [hu] at hclear
            cases hclear

/-- The inner loop, from page `v` on to the end of its table. -/
lemma forkPages_inv {n : Nat} (hk : InKernel H.live m₀) (ho : Owned H.live m₀ dir)
    (hpres : (pageEntry m₀.paging dir i).present = true)
    (hinv : ForkInv H.live m₀ dir fork (i + 1) (1024 * (i + 1) - n) m) (hleft : n ≤ 1024)
    (h : forkPages H dir i (pageTable m₀.paging dir i) (pageTable m.paging fork i) n m =
      .ok (r, m')) :
    Ends H.live m₀ dir fork (i + 1) (1024 * (i + 1)) r m' := by
  induction n generalizing m with
  | zero =>
    cases h
    exact .ofDone hinv
  | succ n ih =>
    have hdiv : (1024 * (i + 1) - (n + 1)) / 1024 = i := by omega
    have hmod : (1024 * (i + 1) - (n + 1)) % 1024 = 1024 - (n + 1) := by omega
    have hnext : 1024 * (i + 1) - (n + 1) + 1 = 1024 * (i + 1) - n := by omega
    unfold forkPages at h
    cases hpage : forkPage H dir i (pageTable m₀.paging dir i) (pageTable m.paging fork i)
        (1024 - (n + 1)) m with
    | error err => rw [hpage] at h; cases h
    | ok rm =>
      obtain ⟨r', m₁⟩ := rm
      rw [hpage] at h
      dsimp only [bind, Except.bind] at h
      obtain ⟨hdirs, hends⟩ := forkPage_inv hk ho hinv (by omega) (by rw [hdiv]; exact hpres)
        (by rw [hdiv, hmod]; exact hpage)
      rw [hnext] at hends
      by_cases hr : r' = .done
      · rw [if_pos hr] at h
        have htab : pageTable m.paging fork i = pageTable m₁.paging fork i := by
          unfold pageTable
          rw [hdirs]
        rw [htab] at h
        exact ih (hends.1 hr) (by omega) h
      · rw [if_neg hr] at h
        cases h
        exact hends.stop hr (by omega)

/-- One turn of the outer loop. -/
lemma forkTable_inv (hk : InKernel H.live m₀) (ho : Owned H.live m₀ dir)
    (hinv : ForkInv H.live m₀ dir fork i (1024 * i) m) (h : forkTable H dir fork i m = .ok (r, m')) :
    Ends H.live m₀ dir fork (i + 1) (1024 * (i + 1)) r m' := by
  obtain ⟨hd, _, _⟩ := hinv.grows.apart ho.apart
  have hE : pageEntry m.paging dir i = pageEntry m₀.paging dir i := by
    unfold pageEntry
    rw [hd]
  unfold forkTable at h
  rw [hE] at h
  by_cases hpres : (pageEntry m₀.paging dir i).present = true
  · rw [if_pos hpres] at h
    cases halloc : H.memAllocAligned SIZEOF_PAGE_TABLE 0x1000 m with
    | error err => rw [halloc] at h; cases h
    | ok pm =>
      obtain ⟨p, m₁⟩ := pm
      rw [halloc] at h
      dsimp only [bind, Except.bind] at h
      by_cases h0 : p = 0
      · rw [if_pos h0] at h
        cases h
        exact .ofNoMemory
      rw [if_neg h0] at h
      have hkm := hinv.grows.inKernel hk
      have g := H.grows hkm.current halloc
      obtain ⟨hfresh, hlive, _⟩ := H.fresh hkm.current halloc h0
      have hcur := H.fresh_table hkm halloc h0
      rw [← g.current] at hcur
      have hinv₁ := hinv.step g le_rfl
      -- the new table is none of those that the copy has
      have hold : ∀ j, (pageEntry m₁.paging fork j).present = true →
          pageTable m₁.paging fork j ≠ p := by
        obtain ⟨hdf, _, _⟩ := g.apart hinv.apart
        intro j hj
        unfold pageEntry at hj
        unfold pageTable
        rw [hdf] at hj ⊢
        rintro rfl
        exact hfresh (hinv.apart.table j hj)
      have hnew : p ∉ H.live m₀.heap := fun hp => hfresh (hinv.grows.alive hp)
      have hne : p ≠ fork := by
        rintro rfl
        exact hfresh hinv.apart.alive
      have htab : pageTable m.paging dir i = pageTable m₀.paging dir i := by
        unfold pageTable
        rw [hd]
      have htab₁ : pageTable m₁.paging dir i = pageTable m₀.paging dir i := by
        unfold pageTable
        rw [(hinv₁.grows.apart ho.apart).1]
      rw [htab] at h
      let s := m₁.paging.setTable p (m₁.paging.tables (pageTable m₀.paging dir i))
      let en : PageDirectoryEntry := { pageEntry s dir i with
        address := getPhysicalAddress s s.currentDirectory p / 0x1000 }
      have hen : en.present = true := by
        change (pageEntry m₁.paging dir i).present = true
        unfold pageEntry at hpres ⊢
        rw [(hinv₁.grows.apart ho.apart).1]
        exact hpres
      have hinv₂ := hinv₁.install ho.apart hpres hen hnew hlive hne hcur hold
        (s := s.setDirectory fork ((s.directories fork).setEntry i en p)) (by rw [htab₁])
      have hfork : pageTable (s.setDirectory fork ((s.directories fork).setEntry i en p)) fork i =
          p := by
        rw [pageTable_setEntry, if_pos ⟨rfl, rfl⟩]
      refine forkPages_inv (n := 1024)
        (m := { m₁ with paging := s.setDirectory fork ((s.directories fork).setEntry i en p) })
        hk ho hpres ?_ le_rfl ?_
      · rw [show 1024 * (i + 1) - 1024 = 1024 * i by omega]
        exact hinv₂
      · dsimp only
        rw [hfork]
        exact h
  · rw [if_neg hpres] at h
    cases h
    exact .ofDone (hinv.skip (Bool.not_eq_true _ ▸ hpres))

/-- The outer loop. -/
lemma forkTables_inv {n : Nat} (hk : InKernel H.live m₀) (ho : Owned H.live m₀ dir)
    (hinv : ForkInv H.live m₀ dir fork (1024 - n) (1024 * (1024 - n)) m) (hleft : n ≤ 1024)
    (h : forkTables H dir fork n m = .ok (r, m')) :
    Ends H.live m₀ dir fork 1024 (1024 * 1024) r m' := by
  induction n generalizing m with
  | zero =>
    cases h
    exact .ofDone hinv
  | succ n ih =>
    have hnext : 1024 - (n + 1) + 1 = 1024 - n := by omega
    unfold forkTables at h
    cases htable : forkTable H dir fork (1024 - (n + 1)) m with
    | error err => rw [htable] at h; cases h
    | ok rm =>
      obtain ⟨r', m₁⟩ := rm
      rw [htable] at h
      dsimp only [bind, Except.bind] at h
      have hends := forkTable_inv hk ho hinv htable
      rw [hnext] at hends
      by_cases hr : r' = .done
      · rw [if_pos hr] at h
        exact ih (hends.1 hr) (by omega) h
      · rw [if_neg hr] at h
        cases h
        exact hends.stop hr (by omega)

end Loops

end MarioBrOS.Paging
