import MarioBrOS.Paging.ForkRun

/-!
# Forks that succeed and forks that fail

`forkPageDir_copies`: the child of `fork_page_dir` has a copy of the address space of its parent.
-/

namespace MarioBrOS.Paging

variable {μ : Type} {H : KernelHeap μ} {m₀ m m' : Machine μ} {dir fork q v : Nat}
  {e : PageTableEntry} {r : ForkEnd}

/-- The page `v` of `fork` in `m'`, for the page of `dir` in `m`. -/
structure ForkedPage (m m' : Machine μ) (dir fork v : Nat) : Prop where
  linked : Linked m.paging v → translate m'.paging fork v = translate m.paging dir v
  own : ∀ e, OwnPage m.paging dir v e → ∃ f,
    translate m'.paging fork v = some { e with address := f } ∧
      m.paging.frameUsed f = false ∧ m'.paging.frameUsed f = true ∧
      (∀ w e', w < 0x100000 → w ≠ v → translate m'.paging fork w = some e' → e'.address ≠ f) ∧
      ∀ j, j < 0x1000 →
        m'.paging.physical (0x1000 * f + j) = m.paging.physical (0x1000 * e.address + j)
  absent : translate m.paging dir v = none → translate m'.paging fork v = none

/-- The empty directory that `fork_page_dir` starts from. -/
lemma ForkInv.start (dir : Nat) {size alignment : Nat} {D : PageDirectory} (hk : InKernel H.live m₀)
    (h : H.memAllocAligned size alignment m₀ = .ok (fork, m)) (h0 : fork ≠ 0)
    (hD : ∀ i, (D.entries i).present = false) :
    ForkInv H.live m₀ dir fork 0 0 { m with paging := m.paging.setDirectory fork D } := by
  obtain ⟨g, ha, hfresh, hE⟩ := fresh_directory hk h h0 hD
  have habs : ∀ i, ¬ (pageEntry (m.paging.setDirectory fork D) fork i).present = true := fun i hi => by
    rw [hE] at hi
    cases hi
  exact ⟨g, ha, hfresh, fun i => ⟨fun hi => absurd hi (habs i), fun hi => absurd hi.1 (Nat.not_lt_zero i)⟩,
    fun i hi => absurd hi (habs i), fun i j hi => absurd hi (habs i),
    fun v e hv => absurd hv (Nat.not_lt_zero v), fun v hv => absurd hv (habs _),
    fun v w e e' hv => absurd hv (Nat.not_lt_zero v)⟩

/-- What `fork_page_dir` returns, and after which loops. -/
lemma forkPageDir_ok (hk : InKernel H.live m₀) (ho : Owned H.live m₀ dir)
    (h : forkPageDir H dir m₀ = .ok ((q, r), m')) :
    (q = 0 ∧ r = .noMemory) ∨ (r = .done ∧ ForkInv H.live m₀ dir q 1024 (1024 * 1024) m') ∨
      ∃ fork m, q = 0 ∧ r ≠ .done ∧ Ends H.live m₀ dir fork 1024 (1024 * 1024) r m ∧
        freePageDir H fork m = .ok m' := by
  unfold forkPageDir at h
  cases halloc : H.memAllocAligned SIZEOF_PAGE_DIRECTORY 0x1000 m₀ with
  | error err => rw [halloc] at h; cases h
  | ok pm =>
    obtain ⟨fork, m₁⟩ := pm
    rw [halloc] at h
    dsimp only [bind, Except.bind] at h
    by_cases h0 : fork = 0
    · rw [if_pos h0] at h
      cases h
      exact .inl ⟨rfl, rfl⟩
    rw [if_neg h0] at h
    have hstart := ForkInv.start dir hk halloc h0
      (D := { zeroDirectory with
        physicalAddress := getPhysicalAddress m₁.paging m₁.paging.currentDirectory fork })
      fun _ => rfl
    cases htables : forkTables H dir fork 1024 { m₁ with
        paging := m₁.paging.setDirectory fork { zeroDirectory with
          physicalAddress := getPhysicalAddress m₁.paging m₁.paging.currentDirectory fork } } with
    | error err => rw [htables] at h; cases h
    | ok rm =>
      obtain ⟨r', m₂⟩ := rm
      rw [htables] at h
      dsimp only at h
      have hends := forkTables_inv (n := 1024) hk ho hstart le_rfl htables
      by_cases hr : r' = .done
      · rw [if_pos hr] at h
        cases h
        exact .inr (.inl ⟨rfl, hends.1 hr⟩)
      · rw [if_neg hr] at h
        cases hfree : freePageDir H fork m₂ with
        | error err => rw [hfree] at h; cases h
        | ok m₃ =>
          rw [hfree] at h
          cases h
          exact .inr (.inr ⟨fork, m₂, rfl, hr, hends, hfree⟩)

/-! ## The child -/

/-- A page of the finished child that its parent does not own. -/
lemma ForkInv.translate_eq (h : ForkInv H.live m₀ dir fork 1024 (1024 * 1024) m) (hv : v < 0x100000)
    (hn : ∀ e, ¬ OwnPage m₀.paging dir v e) :
    translate m.paging fork v = translate m₀.paging dir v := by
  by_cases hp : (pageEntry m₀.paging dir (v / 1024)).present = true
  · have hpf := (h.entry (v / 1024)).mpr ⟨by omega, hp⟩
    rw [translate_eq_entryOf hp, translate_eq_entryOf hpf, h.rest v hpf fun _ => hn]
  · have hpf : ¬ (pageEntry m.paging fork (v / 1024)).present = true := fun hc =>
      hp ((h.entry _).mp hc).2
    unfold translate
    rw [if_neg fun hc => hpf hc.1, if_neg fun hc => hp hc.1]

/-- A page of the finished child that its parent owns. -/
lemma ForkInv.translate_own (h : ForkInv H.live m₀ dir fork 1024 (1024 * 1024) m) (hv : v < 0x100000)
    (ho : OwnPage m₀.paging dir v e) :
    translate m.paging fork v = some (entryOf m.paging fork v) ∧
      Copied m₀ m e (entryOf m.paging fork v) := by
  have hpf := (h.entry (v / 1024)).mpr ⟨by omega, ho.present⟩
  have hc := h.copied v e (by omega) ho
  refine ⟨?_, hc⟩
  have hpres : (entryOf m.paging fork v).present = true := by
    rw [hc.entry]
    exact (translate_eq_some.mp ho.entry).2.1
  rw [translate_eq_entryOf hpf, if_pos hpres]

/-- A page that the child maps is its parent's, or one of those that were copied. -/
lemma ForkInv.translate_cases {e' : PageTableEntry}
    (h : ForkInv H.live m₀ dir fork 1024 (1024 * 1024) m) (hv : v < 0x100000)
    (he : translate m.paging fork v = some e') :
    translate m₀.paging dir v = some e' ∨
      ∃ e, OwnPage m₀.paging dir v e ∧ e' = entryOf m.paging fork v ∧ Copied m₀ m e e' := by
  by_cases hex : ∃ e, OwnPage m₀.paging dir v e
  · obtain ⟨e, ho⟩ := hex
    obtain ⟨h1, h2⟩ := h.translate_own hv ho
    obtain rfl : entryOf m.paging fork v = e' := Option.some.inj (h1.symm.trans he)
    exact .inr ⟨e, ho, rfl, h2⟩
  · exact .inl ((h.translate_eq hv fun e ho => hex ⟨e, ho⟩).symm.trans he)

lemma ForkInv.forkedPage (h : ForkInv H.live m₀ dir fork 1024 (1024 * 1024) m)
    (ho : Owned H.live m₀ dir) (hv : v < 0x100000) : ForkedPage m₀ m dir fork v := by
  refine ⟨fun hl => h.translate_eq hv fun e hoe => hoe.unlinked hl, fun e hoe => ?_, fun hn => ?_⟩
  · obtain ⟨htr, hc⟩ := h.translate_own hv hoe
    refine ⟨(entryOf m.paging fork v).address, htr.trans (congrArg some hc.entry), hc.clear,
      hc.isPrivate.used, fun w e' hw hne he' => ?_, hc.bytes⟩
    obtain h1 | ⟨e₁, h1, h2, _⟩ := h.translate_cases hw he'
    · intro ha
      have := (ho.frame w e' h1).2
      rw [ha, hc.clear] at this
      cases this
    · rw [h2]
      exact h.frames w v e₁ e (by omega) (by omega) hne h1 hoe
  · refine (h.translate_eq hv fun e hoe => ?_).trans hn
    have := hoe.entry
    rw [hn] at this
    cases this

/-- `fork_page_dir` copies the address space: what `base_directory` maps is shared, each other page
of the parent has a copy with the same rights in a frame of its own. The parent keeps its pages and
their bytes, and what is left in the current directory are no windows. -/
theorem forkPageDir_copies (hk : InKernel H.live m) (ho : Owned H.live m dir)
    (h : forkPageDir H dir m = .ok ((fork, r), m')) (hfork : fork ≠ 0) :
    (∀ v, v < 0x100000 → ForkedPage m m' dir fork v) ∧
    (∀ v, translate m'.paging dir v = translate m.paging dir v) ∧
    (∀ v e j, OwnPage m.paging dir v e → j < 0x1000 →
      m'.paging.physical (0x1000 * e.address + j) = m.paging.physical (0x1000 * e.address + j)) ∧
    (∀ v e, translate m.paging m.paging.currentDirectory v = some e →
      translate m'.paging m.paging.currentDirectory v = some e) ∧
    ∀ v e, translate m'.paging m.paging.currentDirectory v = some e →
      translate m.paging m.paging.currentDirectory v = some e ∨
        (m.paging.frameUsed e.address = false ∧ ∀ w e', w < 0x100000 →
          translate m'.paging fork w = some e' → e'.address ≠ e.address) := by
  obtain ⟨h0, _⟩ | ⟨_, hinv⟩ | ⟨_, _, h0, _⟩ := forkPageDir_ok hk ho h
  · exact absurd h0 hfork
  · refine ⟨fun v hv => hinv.forkedPage ho hv, hinv.grows.translate_eq ho.apart,
      fun v e j hoe hj => ?_, hinv.grows.keeps, fun v e he => ?_⟩
    · have hx : (0x1000 * e.address + j) / 0x1000 = e.address := by omega
      exact hinv.grows.physical _ (hx.symm ▸ ho.own v e hoe)
    · obtain h1 | ⟨h1, _⟩ := hinv.grows.adds v e he
      · exact .inl h1
      · refine .inr ⟨h1, fun w e' hw he' => ?_⟩
        obtain h2 | ⟨_, _, _, h2⟩ := hinv.translate_cases hw he'
        · intro ha
          have := (ho.frame w e' h2).2
          rw [ha, h1] at this
          cases this
        · exact (h2.isPrivate.unmapped v e (hinv.grows.current ▸ he)).symm
  · exact absurd h0 hfork

section Sample

lemma lt_bump {n a : Nat} (ha : a ≠ 0) : n < (n + 4 + (a - 1)) / a * a := by
  have h1 := Nat.div_add_mod (n + 4 + (a - 1)) a
  have h2 := Nat.mod_lt (n + 4 + (a - 1)) (Nat.pos_of_ne_zero ha)
  rw [Nat.mul_comm] at h1
  omega

/-- A heap that hands out one block after the other, each behind its header. -/
def bumpHeap : KernelHeap Nat where
  live n := { x | x ≤ n }
  memAllocAligned size alignment m :=
    if alignment = 0 then throw "Exception. System Halted"
    else
      let block := (m.heap + 4 + (alignment - 1)) / alignment * alignment
      pure (block, { m with heap := block + size })
  memFree _ m := pure m
  grows {size alignment m p m'} _ h := by
    dsimp only at h
    split_ifs at h with ha
    · cases h
      exact (Grows.refl m).setHeap fun x hx =>
        (show x ≤ m.heap from hx).trans ((lt_bump ha).le.trans (Nat.le_add_right ..))
  fresh {size alignment m p m'} _ h _ := by
    dsimp only at h
    split_ifs at h with ha
    · cases h
      have hle := lt_bump (n := m.heap) ha
      exact ⟨Nat.not_le.mpr hle, Nat.le_add_right .., fun i hi => .inl hi⟩
  frees _ h := by
    cases h
    exact ⟨fun _ hx _ => hx, fun _ _ _ => rfl, fun _ _ _ => rfl, rfl, fun _ => rfl⟩

/-- A directory with the tables `a` for its first and `b` for its last four megabytes, if not NULL.
-/
def twoTables (a b : Nat) : PageDirectory where
  entries i := ⟨i = 0 ∧ a ≠ 0 ∨ i = 1023 ∧ b ≠ 0, false, true, 0⟩
  tables i := if i = 0 then a else if i = 1023 then b else 0
  physicalAddress := 0

/-- The kernel at `0x1000` and `base_directory` at `0x3000` map the page 1; the process at `0x5000`
also has a page for its code, with the frame 2. Each byte of `frames` is `used`. -/
def sampleMachine (used : UInt8) : Machine Nat where
  heap := 0x8000
  paging := {
    frames := fun _ => used
    framesLength := 32
    physical := fun x => UInt8.ofNat x
    directories := fun d =>
      if d = 0x1000 then twoTables 0x2000 0
      else if d = 0x3000 then twoTables 0x4000 0
      else if d = 0x5000 then twoTables 0x6000 0x7000
      else zeroDirectory
    tables := fun t j =>
      if (t = 0x2000 ∨ t = 0x4000 ∨ t = 0x6000) ∧ j = 1 then ⟨true, false, false, 1⟩
      else if t = 0x7000 ∧ j = 1008 then ⟨true, true, true, 2⟩
      else zeroPage
    currentDirectory := 0x1000
    kernelDirectory := 0x1000
    baseDirectory := 0x3000 }

variable {u : UInt8}

lemma sample_directories (d i : Nat) : (pageEntry (sampleMachine u).paging d i).present = true ↔
    (i = 0 ∧ (d = 0x1000 ∨ d = 0x3000 ∨ d = 0x5000)) ∨ i = 1023 ∧ d = 0x5000 := by
  unfold pageEntry sampleMachine
  dsimp only
  split_ifs <;> simp [twoTables, zeroEntry, zeroDirectory, *]

lemma sample_table (d : Nat) : pageTable (sampleMachine u).paging d 0 =
    if d = 0x1000 then 0x2000 else if d = 0x3000 then 0x4000 else if d = 0x5000 then 0x6000 else 0 := by
  unfold pageTable sampleMachine
  dsimp only
  split_ifs <;> rfl

lemma sample_translate {d : Nat} (h : translate (sampleMachine u).paging d v = some e) :
    v = 1 ∧ e = ⟨true, false, false, 1⟩ ∨ d = 0x5000 ∧ v = 0xFFFF0 ∧ e = ⟨true, true, true, 2⟩ := by
  obtain ⟨h1, h2, rfl⟩ := translate_eq_some.mp h
  obtain ⟨hi, hd⟩ | ⟨hi, rfl⟩ := (sample_directories d _).mp h1
  · have hpage : (sampleMachine u).paging.page
        ⟨pageTable (sampleMachine u).paging d (v / 1024), v % 1024⟩ =
          if v % 1024 = 1 then ⟨true, false, false, 1⟩ else zeroPage := by
      rw [hi, sample_table]
      obtain rfl | rfl | rfl := hd <;> simp [State.page, sampleMachine]
    rw [hpage] at h2 ⊢
    split_ifs at h2 ⊢ with hv
    · exact .inl ⟨by omega, rfl⟩
    · cases h2
  · have hpage : (sampleMachine u).paging.page
        ⟨pageTable (sampleMachine u).paging 0x5000 (v / 1024), v % 1024⟩ =
          if v % 1024 = 1008 then ⟨true, true, true, 2⟩ else zeroPage := by
      rw [hi]
      simp [State.page, pageTable, twoTables, sampleMachine]
    rw [hpage] at h2 ⊢
    split_ifs at h2 ⊢ with hv
    · exact .inr ⟨rfl, by omega, rfl⟩
    · cases h2

lemma sample_own {d : Nat} (h : OwnPage (sampleMachine u).paging d v e) :
    v = 0xFFFF0 ∧ e = ⟨true, true, true, 2⟩ := by
  obtain ⟨rfl, _⟩ | ⟨_, h2⟩ := sample_translate h.entry
  · exact absurd (by simp [Linked, getPhysicalAddress, sampleMachine, twoTables, State.page])
      h.unlinked
  · exact h2

lemma sample_inKernel (hu : (sampleMachine u).paging.frameUsed 1 = true) :
    InKernel bumpHeap.live (sampleMachine u) := by
  refine ⟨rfl, show 0x1000 ≤ 0x8000 by decide, fun i hi => ?_, fun v e he => ?_⟩
  · obtain ⟨rfl, _⟩ | ⟨_, h⟩ := (sample_directories _ i).mp hi
    · exact show 0x2000 ≤ 0x8000 by decide
    · cases h
  · obtain ⟨_, rfl⟩ | ⟨h, _⟩ := sample_translate he
    · exact hu
    · cases h

lemma sample_apart {d : Nat} (h : d = 0x3000 ∨ d = 0x5000) :
    Apart bumpHeap.live (sampleMachine u) d := by
  have hd : d ≤ 0x8000 ∧ d ≠ 0x1000 := by omega
  refine ⟨hd.1, hd.2, fun i hi => ?_, fun i j hi hj => ?_⟩
  · obtain ⟨rfl, _⟩ | ⟨rfl, rfl⟩ := (sample_directories _ i).mp hi
    · rw [sample_table]
      obtain rfl | rfl := h
      · exact show 0x4000 ≤ 0x8000 by decide
      · exact show 0x6000 ≤ 0x8000 by decide
    · exact show 0x7000 ≤ 0x8000 by decide
  · obtain ⟨rfl, _⟩ | ⟨_, h'⟩ := (sample_directories _ j).mp hj
    · obtain ⟨rfl, _⟩ | ⟨rfl, rfl⟩ := (sample_directories _ i).mp hi
      · rw [sample_table, sample_table]
        obtain rfl | rfl := h
        · exact show 0x2000 ≠ 0x4000 by decide
        · exact show 0x2000 ≠ 0x6000 by decide
      · exact show 0x2000 ≠ 0x7000 by decide
    · cases h'

lemma sample_owned (hu : ∀ f, f = 1 ∨ f = 2 → (sampleMachine u).paging.frameUsed f = true) :
    Owned bumpHeap.live (sampleMachine u) 0x5000 := by
  refine ⟨sample_apart (.inr rfl), sample_apart (.inl rfl), fun v e he => ?_, fun v e ho => ?_,
    show 32 ≤ 0x100000 by decide⟩
  · obtain ⟨_, rfl⟩ | ⟨_, _, rfl⟩ := sample_translate he
    · exact ⟨by decide, hu _ (.inl rfl)⟩
    · exact ⟨by decide, hu _ (.inr rfl)⟩
  · obtain ⟨_, rfl⟩ := sample_own ho
    refine ⟨hu _ (.inr rfl), fun w e' he' => ?_⟩
    obtain ⟨_, rfl⟩ | ⟨h, _⟩ := sample_translate he'
    · decide
    · cases h

lemma sample_run {q : Nat} {r : ForkEnd}
    (h : (forkPageDir bumpHeap 0x5000 (sampleMachine u)).map Prod.fst = .ok (q, r)) :
    ∃ m', forkPageDir bumpHeap 0x5000 (sampleMachine u) = .ok ((q, r), m') := by
  cases hrun : forkPageDir bumpHeap 0x5000 (sampleMachine u) with
  | error err => rw [hrun] at h; cases h
  | ok x =>
    obtain ⟨qr, m'⟩ := x
    rw [hrun] at h
    cases h
    exact ⟨m', rfl⟩

theorem forkPageDir_copies_sample : ∃ m',
    forkPageDir bumpHeap 0x5000 (sampleMachine 7) = .ok ((0x9000, .done), m') ∧
      ∀ v, v < 0x100000 → ForkedPage (sampleMachine 7) m' 0x5000 0x9000 v := by
  have hu : ∀ f, f = 1 ∨ f = 2 → (sampleMachine 7).paging.frameUsed f = true := by
    rintro f (rfl | rfl)
    · decide +kernel
    · decide +kernel
  obtain ⟨m', h⟩ := sample_run (u := 7) (q := 0x9000) (r := .done) (by decide +kernel)
  exact ⟨m', h, (forkPageDir_copies (sample_inKernel (hu 1 (.inl rfl))) (sample_owned hu) h
    (by decide)).1⟩

end Sample

end MarioBrOS.Paging
