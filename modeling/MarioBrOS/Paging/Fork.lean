import MarioBrOS.Paging.KernelHeap

/-!
# Forking a directory

`fork_page_dir` and `free_page_dir`. The child gets a table for each table of the parent, with the
same entries, and then its own frame for each page that `base_directory` does not map: the frame is
filled through two windows in the current directory and its address written into the child's entry.
-/

namespace MarioBrOS.Paging

variable {μ : Type} (H : KernelHeap μ)

/-- How a part of `fork_page_dir` ends: it goes on, or no memory, frame or window was left. -/
inductive ForkEnd where
  | done
  | noMemory
  | noFrame
  | noWindow
  deriving DecidableEq

/-- The part of `fork_page_dir` that fills the frame at `physical` with the page of `dir` at
`virtualAddress`: whether both windows could be opened. -/
def copyPage (physical dir virtualAddress : Nat) (m : Machine μ) : Except String (Bool × Machine μ) := do
  let cur := m.paging.currentDirectory
  let (dest, m) ← requestPhysicalSpace H.memAllocAligned cur physical true false m
  if dest = 0 then
    pure (false, m)
  else do
    let source := getPhysicalAddress m.paging dir virtualAddress
    let (src, m) ← requestPhysicalSpace H.memAllocAligned cur source true false m
    if src = 0 then do
      let m ← freeVirtualSpace H.memAllocAligned cur dest false m
      pure (false, m)
    else do
      let m := { m with
        paging := { m.paging with physical := copyThrough m.paging dest src 0x1000 } }
      let m ← freeVirtualSpace H.memAllocAligned cur src false m
      let m ← freeVirtualSpace H.memAllocAligned cur dest false m
      pure (true, m)

/-- The body of the inner loop of `fork_page_dir`, for the page `pageIndex` of the table number
`tableIndex`. -/
def forkPage (dir tableIndex table tableFork pageIndex : Nat) (m : Machine μ) :
    Except String (ForkEnd × Machine μ) :=
  let virtualAddress := tableIndex * 1024 * 0x1000 + pageIndex * 0x1000
  if (m.paging.page ⟨table, pageIndex⟩).present = false then
    pure (.done, m)
  else if getPhysicalAddress m.paging m.paging.baseDirectory virtualAddress ≠ 0 then
    pure (.done, m)
  else
    match takeFrame m.paging with
    | none => pure (.noFrame, m)
    | some (frame, s) => do
      let physical := frame * 0x1000 % 2 ^ 32
      let (b, m) ← copyPage H physical dir virtualAddress { m with paging := s }
      if b then
        let e := m.paging.page ⟨tableFork, pageIndex⟩
        pure (.done, { m with
          paging := m.paging.setPage ⟨tableFork, pageIndex⟩ { e with address := physical / 0x1000 } })
      else
        pure (.noWindow, m)

/-- The inner loop, with `left` pages to go. -/
def forkPages (dir tableIndex table tableFork : Nat) :
    Nat → Machine μ → Except String (ForkEnd × Machine μ)
  | 0, m => pure (.done, m)
  | left + 1, m => do
    let (r, m) ← forkPage H dir tableIndex table tableFork (1024 - (left + 1)) m
    if r = .done then forkPages dir tableIndex table tableFork left m else pure (r, m)

/-- The body of the outer loop. -/
def forkTable (dir fork tableIndex : Nat) (m : Machine μ) : Except String (ForkEnd × Machine μ) :=
  if (pageEntry m.paging dir tableIndex).present then do
    let table := pageTable m.paging dir tableIndex
    let (tableFork, m) ← H.memAllocAligned SIZEOF_PAGE_TABLE 0x1000 m
    if tableFork = 0 then
      pure (.noMemory, m)
    else
      let s := m.paging.setTable tableFork (m.paging.tables table)
      let entry := { pageEntry s dir tableIndex with
        address := getPhysicalAddress s s.currentDirectory tableFork / 0x1000 }
      let s := s.setDirectory fork ((s.directories fork).setEntry tableIndex entry tableFork)
      forkPages H dir tableIndex table tableFork 1024 { m with paging := s }
  else
    pure (.done, m)

/-- The outer loop, with `left` tables to go. -/
def forkTables (dir fork : Nat) : Nat → Machine μ → Except String (ForkEnd × Machine μ)
  | 0, m => pure (.done, m)
  | left + 1, m => do
    let (r, m) ← forkTable H dir fork (1024 - (left + 1)) m
    if r = .done then forkTables dir fork left m else pure (r, m)

/-- The inner loop of `free_page_dir`, with `left` pages to go. -/
def freePages (dir tableIndex : Nat) : Nat → Machine μ → Except String (Machine μ)
  | 0, m => pure m
  | left + 1, m => do
    let virtualAddress := 0x1000 * ((1024 - (left + 1)) + 1024 * tableIndex)
    let m ←
      if getPhysicalAddress m.paging m.paging.baseDirectory virtualAddress = 0 then
        freeVirtualSpace H.memAllocAligned dir virtualAddress true m
      else pure m
    freePages dir tableIndex left m

/-- The outer loop of `free_page_dir`, with `left` tables to go. -/
def freeTables (dir : Nat) : Nat → Machine μ → Except String (Machine μ)
  | 0, m => pure m
  | left + 1, m => do
    let tableIndex := 1024 - (left + 1)
    let m ←
      if (pageEntry m.paging dir tableIndex).present then do
        let m ← freePages H dir tableIndex 1024 m
        H.memFree (pageTable m.paging dir tableIndex) m
      else pure m
    freeTables dir left m

/-- `paging.c`, `free_page_dir`. -/
def freePageDir (dir : Nat) (m : Machine μ) : Except String (Machine μ) := do
  let m ← freeTables H dir 1024 m
  H.memFree dir m

/-- `paging.c`, `fork_page_dir`: the directory, or NULL, and how the loops ended. -/
def forkPageDir (dir : Nat) (m : Machine μ) : Except String ((Nat × ForkEnd) × Machine μ) := do
  let (fork, m) ← H.memAllocAligned SIZEOF_PAGE_DIRECTORY 0x1000 m
  if fork = 0 then
    pure ((0, .noMemory), m)
  else do
    let physicalAddress := getPhysicalAddress m.paging m.paging.currentDirectory fork
    let m := { m with
      paging := m.paging.setDirectory fork { zeroDirectory with physicalAddress := physicalAddress } }
    let (r, m) ← forkTables H dir fork 1024 m
    if r = .done then
      pure ((fork, .done), m)
    else do
      let m ← freePageDir H fork m
      pure ((0, r), m)

/-! ## Copying a page -/

section Copy

variable {H} {m m' m₁ m₂ : Machine μ} {s : State} {f g dest src : Nat}

/-- The copy of a range to another one, through windows that map both as they are. -/
lemma copyThrough_apply {d c len : Nat}
    (hd : ∀ k, k < len → getPhysicalAddress s s.currentDirectory (dest + k) = d + k)
    (hc : ∀ k, k < len → getPhysicalAddress s s.currentDirectory (src + k) = c + k)
    (hdis : ∀ j k, j < len → k < len → d + j ≠ c + k) (x : Nat) :
    copyThrough s dest src len x =
      if d ≤ x ∧ x < d + len then s.physical (c + (x - d)) else s.physical x := by
  induction len generalizing x with
  | zero =>
    rw [if_neg (by omega)]
    rfl
  | succ len ih =>
    have ih := ih (fun k hk => hd k (by omega)) (fun k hk => hc k (by omega))
      fun j k hj hk => hdis j k (by omega) (by omega)
    unfold copyThrough
    dsimp only
    rw [hd len (by omega), hc len (by omega), Function.update_apply, ih, ih]
    by_cases hx : x = d + len
    · have hin : ¬ (d ≤ c + len ∧ c + len < d + len) := by
        rintro ⟨h1, h2⟩
        exact hdis (c + len - d) len (by omega) (by omega) (by omega)
      rw [if_pos hx, if_neg hin, if_pos (by omega), hx, Nat.add_sub_cancel_left]
    · rw [if_neg hx]
      by_cases hin : d ≤ x ∧ x < d + len
      · rw [if_pos hin, if_pos (by omega)]
      · rw [if_neg hin, if_neg (by omega)]

/-- The current directory has a window at `va` to the frame `f`, which was clear in `m`. -/
structure Window (live : μ → Set Nat) (m : Machine μ) (f va : Nat) (m' : Machine μ) : Prop where
  grows : Grows live m m'
  used : m'.paging.frameUsed f = true
  table : HasTable m'.paging m.paging.currentDirectory va
  entry : ∃ e, translate m'.paging m.paging.currentDirectory (va / 0x1000) = some e ∧ e.address = f
  closed : ∀ v e, translate m.paging m.paging.currentDirectory v = some e →
    (⟨pageTable m'.paging m.paging.currentDirectory (v / 1024), v % 1024⟩ : PagePtr) ≠
      pagePtr m'.paging m.paging.currentDirectory va
  only : ∀ v e, translate m'.paging m.paging.currentDirectory v = some e → e.address = f →
    (⟨pageTable m'.paging m.paging.currentDirectory (v / 1024), v % 1024⟩ : PagePtr) =
      pagePtr m'.paging m.paging.currentDirectory va

variable {live : μ → Set Nat} {dir va : Nat} {b k w : Bool}

/-- `request_physical_space` opens a window. -/
lemma Window.open (hcount : Counted m.paging) (hf : m.paging.frameUsed f = false)
    (g : Grows live { m with paging := m.paging.setFrame f true } m₁)
    (ht : HasTable m₁.paging m.paging.currentDirectory va)
    (hp : (m₁.paging.page (pagePtr m₁.paging m.paging.currentDirectory va)).present = false) :
    Window live m f va { m₁ with
      paging := (m₁.paging.setFrame f true).setPage
        (pagePtr m₁.paging m.paging.currentDirectory va) ⟨true, w, k, f⟩ } := by
  have htaken : (m.paging.setFrame f true).frameUsed f = true := by
    rw [frameUsed_setFrame, if_pos rfl]
  have g₁ : Grows live m m₁ := setFrame_grows.trans g
  have hused : (m₁.paging.setFrame f true).frameUsed f = true := by
    rw [frameUsed_setFrame, if_pos rfl]
  have g₂ : Grows live m { m₁ with paging := m₁.paging.setFrame f true } := g₁.trans setFrame_grows
  have hclosed : ∀ v e, translate m.paging m.paging.currentDirectory v = some e →
      (⟨pageTable m₁.paging m.paging.currentDirectory (v / 1024), v % 1024⟩ : PagePtr) ≠
        pagePtr m₁.paging m.paging.currentDirectory va :=
    fun v e he => ne_of_translate (g₁.keeps v e he) hp
  refine ⟨g₂.setPage (a := va) rfl ht hclosed fun _ => ⟨hf, hused⟩, hused, ht,
    ⟨⟨true, w, k, f⟩, ?_, rfl⟩, hclosed, fun v e he ha => ?_⟩
  · dsimp only
    rw [translate_setPage, if_pos ⟨ht, rfl⟩]
    rfl
  · dsimp only at he
    rw [translate_setPage] at he
    split_ifs at he with hc
    · exact hc.2
    · obtain h1 | ⟨h1, _⟩ := g.adds v e he
      · have := hcount v e h1
        rw [ha, hf] at this
        cases this
      · rw [ha, htaken] at h1
        cases h1

/-- Growth leaves it open. -/
lemma Window.trans (h : Window live m f va m₁) (g : Grows live m₁ m₂) : Window live m f va m₂ := by
  obtain ⟨e, he, ha⟩ := h.entry
  have hc := h.grows.current
  have hptr : pagePtr m₂.paging m.paging.currentDirectory va =
      pagePtr m₁.paging m.paging.currentDirectory va := by
    unfold pagePtr
    rw [← hc, (g.hasTable _ (hc ▸ h.table)).2]
  have hstay : ∀ v e, translate m₁.paging m.paging.currentDirectory v = some e →
      pageTable m₂.paging m.paging.currentDirectory (v / 1024) =
        pageTable m₁.paging m.paging.currentDirectory (v / 1024) := by
    intro v e he
    have := (g.hasTable _ (hc ▸ (translate_eq_some.mp he).1)).2
    rwa [hc] at this
  refine ⟨h.grows.trans g, g.frames f h.used, ?_, ⟨e, ?_, ha⟩, fun v e he => ?_, fun v e he ha => ?_⟩
  · have := (g.hasTable _ (hc ▸ h.table)).1
    rwa [hc] at this
  · have := g.keeps (va / 0x1000) e (hc ▸ he)
    rwa [hc] at this
  · rw [hptr, hstay v e (h.grows.keeps v e he)]
    exact h.closed v e he
  · obtain h1 | ⟨h1, _⟩ := g.adds v e (hc.symm ▸ he)
    · rw [hc] at h1
      rw [hptr, hstay v e h1]
      exact h.only v e h1 ha
    · rw [ha, h.used] at h1
      cases h1

/-- Closing a window of the current directory. -/
lemma Grows.close (h : Grows live m m₁) (ht : HasTable m₁.paging m.paging.currentDirectory va)
    (hpre : ∀ v e, translate m.paging m.paging.currentDirectory v = some e →
      (⟨pageTable m₁.paging m.paging.currentDirectory (v / 1024), v % 1024⟩ : PagePtr) ≠
        pagePtr m₁.paging m.paging.currentDirectory va) :
    Grows live m { m₁ with
      paging := freePage (pagePtr m₁.paging m.paging.currentDirectory va) false m₁.paging } := by
  have : freePage (pagePtr m₁.paging m.paging.currentDirectory va) false m₁.paging =
      m₁.paging.setPage (pagePtr m₁.paging m.paging.currentDirectory va)
        { m₁.paging.page (pagePtr m₁.paging m.paging.currentDirectory va) with present := false } := by
    unfold freePage
    simp
  rw [this]
  exact h.setPage (a := va) rfl ht hpre fun hc => nomatch hc

/-- What the current directory sees at the addresses of a page. -/
lemma getPhysicalAddress_window {e : PageTableEntry} {x j : Nat} (hx : x % 0x1000 = 0)
    (h : translate s dir (x / 0x1000) = some e) (hj : j < 0x1000) :
    getPhysicalAddress s dir (x + j) = 0x1000 * e.address + j := by
  have hpage : (x + j) / 0x1000 = x / 0x1000 := by omega
  rw [getPhysicalAddress_some (e := e) (by rw [hpage, h])]
  omega

/-- With a window open, a second one to the private frame `g` is opened, the frame is copied and
both windows are closed. -/
lemma Window.copy {m₄ m₅ : Machine μ} (W : Window live m f dest m₁)
    (ht : HasTable m₁.paging m.paging.currentDirectory src)
    (hp : (m₁.paging.page (pagePtr m₁.paging m.paging.currentDirectory src)).present = false)
    (hf : m.paging.frameUsed f = false) (hg : Private m.paging g) (hdest : dest % 0x1000 = 0)
    (hsrc : src % 0x1000 = 0)
    (h₂ : m₂ = { m₁ with
      paging := (m₁.paging.setFrame g true).setPage
        (pagePtr m₁.paging m.paging.currentDirectory src) ⟨true, w, k, g⟩ })
    (h₄ : m₄ = { m₂ with
      paging := { m₂.paging with physical := copyThrough m₂.paging dest src 0x1000 } })
    (h₅ : m₅ = { m₄ with
      paging := freePage (pagePtr m₄.paging m.paging.currentDirectory src) false m₄.paging })
    (h' : m' = { m₅ with
      paging := freePage (pagePtr m₅.paging m.paging.currentDirectory dest) false m₅.paging }) :
    Grows live m m' ∧ Private m'.paging f ∧
      ∀ j, j < 0x1000 → m'.paging.physical (0x1000 * f + j) = m.paging.physical (0x1000 * g + j) := by
  have hfg : f ≠ g := by
    rintro rfl
    rw [hg.used] at hf
    cases hf
  obtain ⟨e, he, ha⟩ := W.entry
  -- the bytes that are copied
  have hcopy : ∀ x, m₄.paging.physical x =
      if 0x1000 * f ≤ x ∧ x < 0x1000 * f + 0x1000 then
        m₁.paging.physical (0x1000 * g + (x - 0x1000 * f))
      else m₁.paging.physical x := by
    have hcur : m₂.paging.currentDirectory = m.paging.currentDirectory := by
      rw [h₂]
      exact W.grows.current
    have hd : translate m₂.paging m.paging.currentDirectory (dest / 0x1000) = some e := by
      rw [h₂]
      dsimp only
      rw [translate_setPage, if_neg fun hc => ne_of_translate he hp hc.2]
      exact he
    have hs : translate m₂.paging m.paging.currentDirectory (src / 0x1000) =
        some ⟨true, w, k, g⟩ := by
      rw [h₂]
      dsimp only
      rw [translate_setPage, if_pos ⟨ht, rfl⟩]
      rfl
    intro x
    have hphys : m₂.paging.physical = m₁.paging.physical := by
      rw [h₂]
      rfl
    rw [h₄, ← hphys]
    refine copyThrough_apply (fun j hj => ?_) (fun j hj => ?_) (fun i j hi hj => by omega) x
    · rw [hcur, getPhysicalAddress_window hdest hd hj, ha]
    · rw [hcur, getPhysicalAddress_window hsrc hs hj]
  -- all but the closing of the windows
  have gB : Grows live m { m₁ with
      paging := { m₁.paging.setFrame g true with physical := m₄.paging.physical } } := by
    have g₁ : Grows live m { m₁ with paging := m₁.paging.setFrame g true } :=
      W.grows.trans setFrame_grows
    refine ⟨g₁.alive, g₁.current, g₁.kernel, g₁.base, g₁.length, g₁.directory, g₁.hasTable,
      g₁.newTable, g₁.table, g₁.keeps, g₁.adds, g₁.frames, fun x hx => ?_⟩
    have hne : x / 0x1000 ≠ f := by
      intro hxf
      have := hx.used
      rw [hxf, hf] at this
      cases this
    dsimp only
    rw [hcopy, if_neg (by omega)]
    exact W.grows.physical x hx
  have e₅ : m₅ = { m₁ with
      paging := ({ m₁.paging.setFrame g true with physical := m₄.paging.physical } : State).setPage
        (pagePtr m₁.paging m.paging.currentDirectory src) ⟨false, w, k, g⟩ } := by
    have hpage : m₂.paging.page (pagePtr m₁.paging m.paging.currentDirectory src) =
        ⟨true, w, k, g⟩ := by
      rw [h₂]
      exact page_setPage_self ..
    have hptr : pagePtr m₄.paging m.paging.currentDirectory src =
        pagePtr m₁.paging m.paging.currentDirectory src := by
      rw [h₄, h₂]
      rfl
    have hfree : freePage (pagePtr m₁.paging m.paging.currentDirectory src) false m₄.paging =
        m₄.paging.setPage (pagePtr m₁.paging m.paging.currentDirectory src) ⟨false, w, k, g⟩ := by
      have : m₄.paging.page (pagePtr m₁.paging m.paging.currentDirectory src) = ⟨true, w, k, g⟩ := by
        rw [h₄]
        exact hpage
      unfold freePage
      simp [this]
    have hset : m₄.paging.setPage (pagePtr m₁.paging m.paging.currentDirectory src) ⟨false, w, k, g⟩ =
        ({ m₁.paging.setFrame g true with physical := m₄.paging.physical } : State).setPage
          (pagePtr m₁.paging m.paging.currentDirectory src) ⟨false, w, k, g⟩ := by
      rw [h₄, h₂]
      exact setPage_setPage
        ({ m₁.paging.setFrame g true with physical := copyThrough _ dest src 0x1000 } : State) ..
    rw [h₅, hptr, hfree, hset, h₄, h₂]
  have g₅ : Grows live m m₅ := by
    rw [e₅]
    exact gB.setPage (a := src) rfl ht
      (fun v e' hv => ne_of_translate (W.grows.keeps v e' hv) hp) fun hc => nomatch hc
  have hptr : ∀ v, pageTable m₅.paging m.paging.currentDirectory v =
      pageTable m₁.paging m.paging.currentDirectory v := by
    rw [e₅]
    exact fun _ => rfl
  have hdptr : pagePtr m₅.paging m.paging.currentDirectory dest =
      pagePtr m₁.paging m.paging.currentDirectory dest := by
    unfold pagePtr
    rw [hptr]
  have ht₅ : HasTable m₅.paging m.paging.currentDirectory dest := by
    rw [e₅]
    exact W.table
  have g' : Grows live m m' := by
    rw [h']
    refine g₅.close ht₅ fun v e' hv => ?_
    rw [hdptr, hptr]
    exact W.closed v e' hv
  refine ⟨g', ⟨?_, fun v e' hv hf' => ?_⟩, fun j hj => ?_⟩
  · have hu : (m₁.paging.setFrame g true).frameUsed f = true :=
      (setFrame_grows : Grows live m₁ { m₁ with paging := m₁.paging.setFrame g true }).frames f W.used
    rw [h', e₅]
    exact hu
  · rw [g'.current, h'] at hv
    have hfree : freePage (pagePtr m₅.paging m.paging.currentDirectory dest) false m₅.paging =
        m₅.paging.setPage (pagePtr m₅.paging m.paging.currentDirectory dest)
          { m₅.paging.page (pagePtr m₅.paging m.paging.currentDirectory dest) with
            present := false } := by
      unfold freePage
      simp
    dsimp only at hv
    rw [hfree, translate_setPage, hdptr, hptr] at hv
    split_ifs at hv with hc hpr
    · cases hpr
    rw [e₅] at hv
    dsimp only at hv
    rw [translate_setPage] at hv
    split_ifs at hv with hc' hpr
    · cases hpr
    refine hc ⟨?_, W.only v e' hv hf'⟩
    rw [e₅]
    exact (translate_eq_some.mp hv).1
  · have hphys : m'.paging.physical = m₄.paging.physical := by
      rw [h', e₅]
      rfl
    have hx : (0x1000 * g + j) / 0x1000 = g := by omega
    rw [hphys, hcopy, if_pos (by omega), Nat.add_sub_cancel_left]
    exact W.grows.physical _ (hx.symm ▸ hg)

/-- `copyPage`, when the frame `f` has just been taken: what it allocates and its windows are
growth, and the frame that it has filled is not mapped in the current directory. -/
lemma copyPage_spec (hf : m.paging.frameUsed f = false) (hlt : f < 0x100000)
    (hk : InKernel H.live m) (ha : Apart H.live m dir) (hg : Private m.paging g)
    (hsrc : getPhysicalAddress m.paging dir va = 0x1000 * g)
    (h : copyPage H (f * 0x1000 % 2 ^ 32) dir va { m with paging := m.paging.setFrame f true } =
      .ok (b, m')) :
    Grows H.live m m' ∧ (b = true → Private m'.paging f ∧ ∀ j, j < 0x1000 →
      m'.paging.physical (0x1000 * f + j) = m.paging.physical (0x1000 * g + j)) := by
  have gt : Grows H.live m { m with paging := m.paging.setFrame f true } := setFrame_grows
  have hphys : f * 0x1000 % 2 ^ 32 / 0x1000 = f := by omega
  unfold copyPage at h
  simp only [setFrame_currentDirectory] at h
  cases h₁ : requestPhysicalSpace H.memAllocAligned m.paging.currentDirectory
      (f * 0x1000 % 2 ^ 32) true false { m with paging := m.paging.setFrame f true } with
  | error err => rw [h₁] at h; cases h
  | ok r =>
    obtain ⟨dest, m₂⟩ := r
    rw [h₁] at h
    dsimp only [bind, Except.bind] at h
    obtain ⟨rfl, rfl⟩ | ⟨m₁, _, g₁, hne, hdest, ht, habs, _, e₂⟩ :=
      requestPhysicalSpace_ok H (gt.inKernel hk) rfl (by omega) h₁
    · -- no page for the first window
      rw [if_pos rfl] at h
      cases h
      exact ⟨gt, fun hb => nomatch hb⟩
    rw [hphys] at e₂
    have W : Window H.live m f dest m₂ := by
      rw [e₂]
      exact .open hk.counted hf g₁ ht habs
    clear h₁ g₁ ht habs e₂
    rw [if_neg hne] at h
    have hsource : getPhysicalAddress m₂.paging dir va = 0x1000 * g :=
      (getPhysicalAddress_congr (W.grows.translate_eq ha _)).trans hsrc
    rw [hsource] at h
    cases h₃ : requestPhysicalSpace H.memAllocAligned m.paging.currentDirectory (0x1000 * g) true
        false m₂ with
    | error err => rw [h₃] at h; cases h
    | ok r =>
      obtain ⟨src, m₄⟩ := r
      rw [h₃] at h
      dsimp only at h
      obtain ⟨rfl, rfl⟩ | ⟨m₃, _, g₃, hne', hsrc', ht, habs, _, e₄⟩ :=
        requestPhysicalSpace_ok H (W.grows.inKernel hk) W.grows.current.symm (by omega) h₃
      · -- no page for the second window: the first one is closed
        rw [if_pos rfl, freeVirtualSpace_eq _ _ W.table] at h
        cases h
        exact ⟨W.grows.close W.table W.closed, fun hb => nomatch hb⟩
      rw [show 0x1000 * g / 0x1000 = g by omega] at e₄
      have W₃ := W.trans g₃
      let m₅ : Machine μ := { m₄ with
        paging := { m₄.paging with physical := copyThrough m₄.paging dest src 0x1000 } }
      let m₆ : Machine μ := { m₅ with
        paging := freePage (pagePtr m₅.paging m.paging.currentDirectory src) false m₅.paging }
      have ht₅ : HasTable m₅.paging m.paging.currentDirectory src := by
        change HasTable m₄.paging m.paging.currentDirectory src
        rw [e₄]
        exact ht
      have ht₆ : HasTable m₆.paging m.paging.currentDirectory dest := by
        change HasTable m₄.paging m.paging.currentDirectory dest
        rw [e₄]
        exact W₃.table
      have h₅ := freeVirtualSpace_eq H.memAllocAligned false ht₅
      have h₆ := freeVirtualSpace_eq H.memAllocAligned false ht₆
      rw [if_neg hne', h₅] at h
      dsimp only at h
      rw [h₆] at h
      cases h
      obtain ⟨g', hpriv, hcopy⟩ := W₃.copy ht habs hf hg hdest hsrc' e₄ rfl rfl rfl
      exact ⟨g', fun _ => ⟨hpriv, hcopy⟩⟩

end Copy

end MarioBrOS.Paging
