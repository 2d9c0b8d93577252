import MarioBrOS.Paging.ForkPageDir

/-!
# Freeing a directory

`free_page_dir` clears the frame of each page of a table that `base_directory` does not map, whether
the page is there or not: it reads the address in the entry (`freePageDir_clears`). A fork that
fails at a page frees the child with the entry that it has copied from the parent and not yet
changed, so the parent loses that frame (`failed_fork_takes`).
-/

namespace MarioBrOS.Paging

variable {μ : Type} {H : KernelHeap μ} {m₀ m m' m'' : Machine μ} {dir fork t q i j f : Nat}
  {e : PageTableEntry} {r : ForkEnd}

/-! ## One table -/

/-- Pages of the table `t` have been released. -/
structure Released (t : Nat) (m m' : Machine μ) : Prop where
  heap : m'.heap = m.heap
  directories : m'.paging.directories = m.paging.directories
  base : m'.paging.baseDirectory = m.paging.baseDirectory
  tables : ∀ p, p ≠ t → m'.paging.tables p = m.paging.tables p
  address : ∀ j, (m'.paging.page ⟨t, j⟩).address = (m.paging.page ⟨t, j⟩).address
  frames : ∀ f, m.paging.frameUsed f = false → m'.paging.frameUsed f = false

lemma Released.refl (m : Machine μ) : Released t m m :=
  ⟨rfl, rfl, rfl, fun _ _ => rfl, fun _ => rfl, fun _ h => h⟩

lemma Released.trans (h : Released t m m') (h' : Released t m' m'') : Released t m m'' :=
  ⟨h'.heap.trans h.heap, h'.directories.trans h.directories, h'.base.trans h.base,
    fun p hp => (h'.tables p hp).trans (h.tables p hp),
    fun j => (h'.address j).trans (h.address j), fun f hf => h'.frames f (h.frames f hf)⟩

/-- `free_page` on one page of the table, with its frame. -/
lemma freePage_released (hm : m' = { m with paging := freePage ⟨t, j⟩ true m.paging }) :
    Released t m m' ∧ ((m.paging.page ⟨t, j⟩).address ≠ 0 →
      m'.paging.frameUsed (m.paging.page ⟨t, j⟩).address = false) := by
  have key : ∀ s : State, s.tables = m.paging.tables →
      ∀ k, ((s.setPage ⟨t, j⟩ { m.paging.page ⟨t, j⟩ with present := false }).page ⟨t, k⟩).address =
        (m.paging.page ⟨t, k⟩).address := by
    intro s hs k
    rw [page_setPage]
    split_ifs with hk
    · rw [hk]
    · unfold State.page
      rw [hs]
  subst hm
  by_cases ha : (m.paging.page ⟨t, j⟩).address ≠ 0
  · have hfree : freePage ⟨t, j⟩ true m.paging =
        (m.paging.setFrame (m.paging.page ⟨t, j⟩).address false).setPage ⟨t, j⟩
          { m.paging.page ⟨t, j⟩ with present := false } := by
      unfold freePage
      simp [ha]
    rw [hfree]
    refine ⟨⟨rfl, rfl, rfl, fun p hp => Function.update_of_ne hp .., key _ rfl, fun f hf => ?_⟩,
      fun _ => ?_⟩
    · dsimp only
      rw [setPage_frameUsed, frameUsed_setFrame]
      split_ifs
      · rfl
      · exact hf
    · dsimp only
      rw [setPage_frameUsed, frameUsed_setFrame, if_pos rfl]
  · have hfree : freePage ⟨t, j⟩ true m.paging =
        m.paging.setPage ⟨t, j⟩ { m.paging.page ⟨t, j⟩ with present := false } := by
      unfold freePage
      simp [not_not.mp ha]
    rw [hfree]
    exact ⟨⟨rfl, rfl, rfl, fun p hp => Function.update_of_ne hp .., key _ rfl, fun f hf => hf⟩,
      fun h => absurd h ha⟩

/-- What `base_directory` maps does not change with a table that is not its own. -/
lemma Released.getPhysicalAddress (h : Released t m m')
    (hbase : ∀ k, (pageEntry m.paging m.paging.baseDirectory k).present = true →
      pageTable m.paging m.paging.baseDirectory k ≠ t) (x : Nat) :
    Paging.getPhysicalAddress m'.paging m'.paging.baseDirectory x =
      Paging.getPhysicalAddress m.paging m.paging.baseDirectory x := by
  rw [h.base]
  exact getPhysicalAddress_congr (translate_congr (congrFun h.directories _)
    (fun k hk => h.tables _ (hbase k hk)) _)

/-- The pages of a table that the inner loop still has to pass. -/
lemma freePages_spec {left : Nat} (hpres : (pageEntry m.paging dir i).present = true)
    (hbase : ∀ k, (pageEntry m.paging m.paging.baseDirectory k).present = true →
      pageTable m.paging m.paging.baseDirectory k ≠ pageTable m.paging dir i)
    (hleft : left ≤ 1024) (h : freePages H dir i left m = .ok m') :
    Released (pageTable m.paging dir i) m m' ∧ ∀ j, 1024 - left ≤ j → j < 1024 →
      getPhysicalAddress m.paging m.paging.baseDirectory (0x1000 * (j + 1024 * i)) = 0 →
      (m.paging.page ⟨pageTable m.paging dir i, j⟩).address ≠ 0 →
      m'.paging.frameUsed (m.paging.page ⟨pageTable m.paging dir i, j⟩).address = false := by
  induction left generalizing m with
  | zero =>
    cases h
    exact ⟨.refl _, fun j h1 h2 => absurd h2 (by omega)⟩
  | succ left ih =>
    unfold freePages at h
    dsimp only at h
    have hindex : 0x1000 * (1024 - (left + 1) + 1024 * i) / 0x1000 =
        1024 - (left + 1) + 1024 * i := by omega
    have hti : (1024 - (left + 1) + 1024 * i) / 1024 = i := by omega
    have hpi : (1024 - (left + 1) + 1024 * i) % 1024 = 1024 - (left + 1) := by omega
    by_cases hlink : getPhysicalAddress m.paging m.paging.baseDirectory
        (0x1000 * (1024 - (left + 1) + 1024 * i)) = 0
    · -- the base directory does not map the page: it is released
      have ht : HasTable m.paging dir (0x1000 * (1024 - (left + 1) + 1024 * i)) := by
        unfold HasTable
        rw [hindex, hti]
        exact hpres
      have hptr : pagePtr m.paging dir (0x1000 * (1024 - (left + 1) + 1024 * i)) =
          ⟨pageTable m.paging dir i, 1024 - (left + 1)⟩ := by
        unfold pagePtr
        rw [hindex, hti, hpi]
      rw [if_pos hlink, freeVirtualSpace_eq _ _ ht, hptr] at h
      change freePages H dir i left _ = _ at h
      generalize hm : ({ m with
        paging := freePage ⟨pageTable m.paging dir i, 1024 - (left + 1)⟩ true m.paging } :
          Machine μ) = m₁ at h
      obtain ⟨hr, hclear⟩ := freePage_released hm.symm
      have hE : ∀ d k, pageEntry m₁.paging d k = pageEntry m.paging d k := fun d k => by
        unfold pageEntry
        rw [hr.directories]
      have hT : ∀ d k, pageTable m₁.paging d k = pageTable m.paging d k := fun d k => by
        unfold pageTable
        rw [hr.directories]
      have ih := ih (m := m₁) (hE .. ▸ hpres) (fun k hk => by
        rw [hr.base, hE] at hk
        rw [hr.base, hT, hT]
        exact hbase k hk) (by omega) h
      rw [hT] at ih
      obtain ⟨hr', hrest⟩ := ih
      refine ⟨hr.trans hr', fun j h1 h2 h3 h4 => ?_⟩
      by_cases hj : j = 1024 - (left + 1)
      · subst hj
        exact hr'.frames _ (hclear h4)
      · rw [← hr.address] at h4 ⊢
        exact hrest j (by omega) h2 ((hr.getPhysicalAddress hbase _).trans h3) h4
    · -- a page of the base directory is left alone
      rw [if_neg hlink] at h
      obtain ⟨hr, hrest⟩ := ih hpres hbase (by omega) h
      refine ⟨hr, fun j h1 h2 h3 h4 => hrest j ?_ h2 h3 h4⟩
      have : j ≠ 1024 - (left + 1) := by
        rintro rfl
        exact hlink h3
      omega

/-! ## All tables -/

/-- The tables of the directory `fork` from number `k` on can be freed one after the other. -/
structure Freeable (live : μ → Set Nat) (fork k : Nat) (m : Machine μ) : Prop where
  alive : fork ∈ live m.heap
  base : m.paging.baseDirectory ∈ live m.heap
  baseTable : ∀ l, (pageEntry m.paging m.paging.baseDirectory l).present = true →
    pageTable m.paging m.paging.baseDirectory l ∈ live m.heap
  table : ∀ i, k ≤ i → (pageEntry m.paging fork i).present = true →
    pageTable m.paging fork i ∈ live m.heap ∧ pageTable m.paging fork i ≠ fork ∧
      pageTable m.paging fork i ≠ m.paging.baseDirectory ∧
      ∀ l, (pageEntry m.paging m.paging.baseDirectory l).present = true →
        pageTable m.paging m.paging.baseDirectory l ≠ pageTable m.paging fork i
  distinct : ∀ i j, k ≤ i → k ≤ j → (pageEntry m.paging fork i).present = true →
    (pageEntry m.paging fork j).present = true →
    pageTable m.paging fork i = pageTable m.paging fork j → i = j

/-- One table is released and freed. -/
lemma Freeable.next {k : Nat} (h : Freeable H.live fork k m)
    (hpres : (pageEntry m.paging fork k).present = true)
    (hr : Released (pageTable m.paging fork k) m m')
    (hf : Frees H.live (pageTable m.paging fork k) m' m'') :
    Freeable H.live fork (k + 1) m'' ∧ m''.paging.directories fork = m.paging.directories fork ∧
      (∀ i, k + 1 ≤ i → (pageEntry m.paging fork i).present = true →
        m''.paging.tables (pageTable m.paging fork i) = m.paging.tables (pageTable m.paging fork i)) ∧
      (∀ x, getPhysicalAddress m''.paging m''.paging.baseDirectory x =
        getPhysicalAddress m.paging m.paging.baseDirectory x) ∧
      ∀ f, m.paging.frameUsed f = false → m''.paging.frameUsed f = false := by
  obtain ⟨ht, htf, htb, hbt⟩ := h.table k le_rfl hpres
  have hlive : ∀ x, x ∈ H.live m.heap → x ≠ pageTable m.paging fork k → x ∈ H.live m''.heap :=
    fun x hx hne => hf.alive x (hr.heap ▸ hx) hne
  have hb : m''.paging.baseDirectory = m.paging.baseDirectory := hf.base.trans hr.base
  have hdir : ∀ d, d ∈ H.live m.heap → d ≠ pageTable m.paging fork k →
      m''.paging.directories d = m.paging.directories d := fun d hd hne =>
    (hf.directory d (hr.heap ▸ hd) hne).trans (congrFun hr.directories d)
  have htab : ∀ p, p ∈ H.live m.heap → p ≠ pageTable m.paging fork k →
      m''.paging.tables p = m.paging.tables p := fun p hp hne =>
    (hf.table p (hr.heap ▸ hp) hne).trans (hr.tables p hne)
  have hdf := hdir fork h.alive htf.symm
  have hdb := hdir _ h.base htb.symm
  have hE : ∀ i, pageEntry m''.paging fork i = pageEntry m.paging fork i := fun i => by
    unfold pageEntry
    rw [hdf]
  have hT : ∀ i, pageTable m''.paging fork i = pageTable m.paging fork i := fun i => by
    unfold pageTable
    rw [hdf]
  have hEb : ∀ i, pageEntry m''.paging m.paging.baseDirectory i =
      pageEntry m.paging m.paging.baseDirectory i := fun i => by
    unfold pageEntry
    rw [hdb]
  have hTb : ∀ i, pageTable m''.paging m.paging.baseDirectory i =
      pageTable m.paging m.paging.baseDirectory i := fun i => by
    unfold pageTable
    rw [hdb]
  -- the tables that are left are others
  have hne : ∀ i, k + 1 ≤ i → (pageEntry m.paging fork i).present = true →
      pageTable m.paging fork i ≠ pageTable m.paging fork k := fun i hi hp he => by
    have := h.distinct i k (by omega) le_rfl hp hpres he
    omega
  refine ⟨⟨hlive _ h.alive htf.symm, ?_, fun l hl => ?_, fun i hi hp => ?_,
    fun i j hi hj hpi hpj => ?_⟩, hdf, fun i hi hp => htab _ (h.table i (by omega) hp).1 (hne i hi hp),
    fun x => ?_, fun f hfr => (hf.frames f).trans (hr.frames f hfr)⟩
  · rw [hb]
    exact hlive _ h.base htb.symm
  · rw [hb, hEb] at hl
    rw [hb, hTb]
    exact hlive _ (h.baseTable l hl) (hbt l hl)
  · rw [hE] at hp
    obtain ⟨h1, h2, h3, h4⟩ := h.table i (by omega) hp
    rw [hT, hb]
    refine ⟨hlive _ h1 (hne i hi hp), h2, h3, fun l hl => ?_⟩
    rw [hEb] at hl
    rw [hTb]
    exact h4 l hl
  · rw [hE] at hpi hpj
    rw [hT, hT]
    exact h.distinct i j (by omega) (by omega) hpi hpj
  · rw [hb]
    exact getPhysicalAddress_congr (translate_congr hdb
      (fun l hl => htab _ (h.baseTable l hl) (hbt l hl)) _)

lemma freeTables_spec {n : Nat} (hs : Freeable H.live fork (1024 - n) m) (hleft : n ≤ 1024)
    (h : freeTables H fork n m = .ok m') :
    fork ∈ H.live m'.heap ∧ (∀ f, m.paging.frameUsed f = false → m'.paging.frameUsed f = false) ∧
    ∀ i j, 1024 - n ≤ i → i < 1024 → (pageEntry m.paging fork i).present = true → j < 1024 →
      getPhysicalAddress m.paging m.paging.baseDirectory (0x1000 * (j + 1024 * i)) = 0 →
      (m.paging.page ⟨pageTable m.paging fork i, j⟩).address ≠ 0 →
      m'.paging.frameUsed (m.paging.page ⟨pageTable m.paging fork i, j⟩).address = false := by
  induction n generalizing m with
  | zero =>
    cases h
    exact ⟨hs.alive, fun _ hf => hf, fun i j h1 h2 => absurd h2 (by omega)⟩
  | succ n ih =>
    have hnext : 1024 - (n + 1) + 1 = 1024 - n := by omega
    unfold freeTables at h
    dsimp only at h
    by_cases hpres : (pageEntry m.paging fork (1024 - (n + 1))).present = true
    · rw [if_pos hpres] at h
      -- the pages of the table are released, then it is freed
      cases hpages : freePages H fork (1024 - (n + 1)) 1024 m with
      | error err => rw [hpages] at h; cases h
      | ok m₁ =>
        rw [hpages] at h
        dsimp only [bind, Except.bind] at h
        obtain ⟨ht, _, _, hbt⟩ := hs.table _ le_rfl hpres
        obtain ⟨hr, hcleared⟩ := freePages_spec hpres hbt le_rfl hpages
        have htab : pageTable m₁.paging fork (1024 - (n + 1)) =
            pageTable m.paging fork (1024 - (n + 1)) := by
          unfold pageTable
          rw [hr.directories]
        rw [htab] at h
        cases hfree : H.memFree (pageTable m.paging fork (1024 - (n + 1))) m₁ with
        | error err => rw [hfree] at h; cases h
        | ok m₂ =>
          rw [hfree] at h
          dsimp only at h
          have hf := H.frees (hr.heap ▸ ht) hfree
          obtain ⟨hs₂, hd, htabs, hbase, hframes⟩ := hs.next hpres hr hf
          rw [hnext] at hs₂ htabs
          obtain ⟨halive, hframes', hrest⟩ := ih hs₂ (by omega) h
          refine ⟨halive, fun f hfr => hframes' f (hframes f hfr), fun i j h1 h2 h3 h4 h5 h6 => ?_⟩
          by_cases hi : i = 1024 - (n + 1)
          · subst hi
            exact hframes' _ ((hf.frames _).trans (hcleared j (by omega) h4 h5 h6))
          · have hT : pageTable m₂.paging fork i = pageTable m.paging fork i := by
              unfold pageTable
              rw [hd]
            have hp : m₂.paging.page ⟨pageTable m.paging fork i, j⟩ =
                m.paging.page ⟨pageTable m.paging fork i, j⟩ := congrFun (htabs i (by omega) h3) j
            have := hrest i j (by omega) h2
            rw [hT, hp, hbase] at this
            refine this ?_ h4 h5 h6
            unfold pageEntry at h3 ⊢
            rw [hd]
            exact h3
    · rw [if_neg hpres] at h
      have hs' : Freeable H.live fork (1024 - n) m :=
        ⟨hs.alive, hs.base, hs.baseTable, fun i hi hp => hs.table i (by omega) hp,
          fun i j hi hj => hs.distinct i j (by omega) (by omega)⟩
      obtain ⟨halive, hframes, hrest⟩ := ih hs' (by omega) h
      refine ⟨halive, hframes, fun i j h1 h2 h3 h4 h5 h6 => hrest i j ?_ h2 h3 h4 h5 h6⟩
      have : i ≠ 1024 - (n + 1) := by
        rintro rfl
        exact hpres h3
      omega

/-- `free_page_dir` clears the frames of all pages of its tables that `base_directory` does not map.
-/
theorem freePageDir_clears (hs : Freeable H.live fork 0 m) (h : freePageDir H fork m = .ok m')
    (hi : i < 1024) (hj : j < 1024) (hpres : (pageEntry m.paging fork i).present = true)
    (hbase : getPhysicalAddress m.paging m.paging.baseDirectory (0x1000 * (j + 1024 * i)) = 0)
    (ha : (m.paging.page ⟨pageTable m.paging fork i, j⟩).address ≠ 0) :
    m'.paging.frameUsed (m.paging.page ⟨pageTable m.paging fork i, j⟩).address = false := by
  unfold freePageDir at h
  cases htables : freeTables H fork 1024 m with
  | error err => rw [htables] at h; cases h
  | ok m₁ =>
    rw [htables] at h
    dsimp only [bind, Except.bind] at h
    obtain ⟨halive, _, hclear⟩ := freeTables_spec (n := 1024) hs le_rfl htables
    rw [(H.frees halive h).frames]
    exact hclear i j (by omega) hi hpres hj hbase ha

/-! ## A fork that fails at a page -/

/-- What a failed fork should leave as it was: the frames of the parent and its pages. The frames
that are new in use belong to the heap of the kernel. -/
structure TakesNothing (m m' : Machine μ) (dir : Nat) : Prop where
  frames : ∀ v e, v < 0x100000 → translate m.paging dir v = some e →
    m'.paging.frameUsed e.address = true
  translations : ∀ v, v < 0x100000 → translate m'.paging dir v = translate m.paging dir v
  taken : ∀ f, m.paging.frameUsed f = false → m'.paging.frameUsed f = true →
    ∃ v e, translate m'.paging m'.paging.currentDirectory v = some e ∧ e.address = f

/-- The unfinished child can be freed. -/
lemma ForkInv.freeable {tables pages : Nat} (h : ForkInv H.live m₀ dir fork tables pages m)
    (ho : Owned H.live m₀ dir) : Freeable H.live fork 0 m := by
  obtain ⟨_, _, hb⟩ := h.grows.apart ho.base
  rw [← h.grows.base] at hb
  refine ⟨h.apart.alive, hb.alive, fun l hl => hb.table l hl, fun i _ hp => ?_,
    fun i j _ _ hpi hpj => h.distinct i j hpi hpj⟩
  obtain ⟨hnew, hne⟩ := h.newTable i hp
  refine ⟨h.apart.table i hp, hne, ?_, fun l hl he => ?_⟩
  · rintro he
    rw [he, h.grows.base] at hnew
    exact hnew ho.base.alive
  · obtain ⟨hd, _, _⟩ := h.grows.apart ho.base
    rw [h.grows.base] at hl he
    unfold pageEntry at hl
    unfold pageTable at he hnew
    rw [hd] at hl he
    rw [← he] at hnew
    exact hnew (ho.base.table l hl)

/-- The page that could not be copied has lost its frame in the parent. -/
lemma forkPageDir_takes (hk : InKernel H.live m) (ho : Owned H.live m dir)
    (h : forkPageDir H dir m = .ok ((q, r), m')) (hr : r = .noFrame ∨ r = .noWindow) :
    ∃ v e, v < 0x100000 ∧ translate m.paging dir v = some e ∧
      m'.paging.frameUsed e.address = false := by
  obtain ⟨_, h0⟩ | ⟨h0, _⟩ | ⟨fork, m₁, _, _, hends, hfree⟩ := forkPageDir_ok hk ho h
  · obtain hr | hr := hr <;> cases h0.symm.trans hr
  · obtain hr | hr := hr <;> cases h0.symm.trans hr
  · obtain ⟨k, n, e, hkt, hn, hown, hinv⟩ := hends.2 hr
    have hlt : n < 0x100000 := by omega
    have hva : 0x1000 * (n % 1024 + 1024 * (n / 1024)) = 0x1000 * n := by omega
    have hpres := (hinv.entry (n / 1024)).mpr ⟨by omega, hown.present⟩
    have hold : entryOf m₁.paging fork n = e :=
      (hinv.rest n hpres fun hc => absurd hc (lt_irrefl n)).trans hown.entryOf
    have hbase : getPhysicalAddress m₁.paging m₁.paging.baseDirectory (0x1000 * n) = 0 := by
      rw [hinv.grows.base, getPhysicalAddress_congr (hinv.grows.translate_eq ho.base _)]
      exact not_not.mp hown.unlinked
    have hclear := freePageDir_clears (hinv.freeable ho) hfree (i := n / 1024) (j := n % 1024)
      (by omega) (by omega) hpres (hva.symm ▸ hbase)
    change (entryOf m₁.paging fork n).address ≠ 0 →
      m'.paging.frameUsed (entryOf m₁.paging fork n).address = false at hclear
    rw [hold] at hclear
    exact ⟨n, e, hlt, hown.entry, hclear (ho.frame n e hown.entry).1⟩

/-- A fork that has run out of frames or windows has always taken a frame of its parent. -/
theorem failed_fork_takes (hk : InKernel H.live m) (ho : Owned H.live m dir)
    (h : forkPageDir H dir m = .ok ((q, r), m')) (hr : r = .noFrame ∨ r = .noWindow) :
    q = 0 ∧ ¬ TakesNothing m m' dir := by
  refine ⟨?_, fun hn => ?_⟩
  · obtain ⟨h0, _⟩ | ⟨h0, _⟩ | ⟨_, _, h0, _⟩ := forkPageDir_ok hk ho h
    · exact h0
    · obtain hr | hr := hr <;> cases h0.symm.trans hr
    · exact h0
  · obtain ⟨v, e, hv, he, hclear⟩ := forkPageDir_takes hk ho h hr
    rw [hn.frames v e hv he] at hclear
    cases hclear

/-! ## Freeing goes through -/

lemma freePages_total {n : Nat} (hpres : (pageEntry m.paging dir i).present = true)
    (hleft : n ≤ 1024) : ∃ m', freePages H dir i n m = .ok m' := by
  induction n generalizing m with
  | zero => exact ⟨m, rfl⟩
  | succ n ih =>
    unfold freePages
    dsimp only
    have hindex : 0x1000 * (1024 - (n + 1) + 1024 * i) / 0x1000 / 1024 = i := by omega
    split_ifs
    · have ht : HasTable m.paging dir (0x1000 * (1024 - (n + 1) + 1024 * i)) := by
        unfold HasTable
        rw [hindex]
        exact hpres
      rw [freeVirtualSpace_eq _ _ ht]
      refine ih ?_ (by omega)
      have := (freePage_released (m := m) (t := pageTable m.paging dir i)
        (j := 0x1000 * (1024 - (n + 1) + 1024 * i) / 0x1000 % 1024) rfl).1.directories
      unfold pagePtr
      rw [hindex]
      unfold pageEntry at hpres ⊢
      rw [this]
      exact hpres
    · exact ih hpres (by omega)

lemma freePageDir_total (hfree : ∀ p m, ∃ m', H.memFree p m = .ok m') :
    ∃ m', freePageDir H fork m = .ok m' := by
  have htables : ∀ left m, left ≤ 1024 → ∃ m', freeTables H fork left m = .ok m' := by
    intro left
    induction left with
    | zero => exact fun m _ => ⟨m, rfl⟩
    | succ left ih =>
      intro m hleft
      unfold freeTables
      dsimp only
      split_ifs with hpres
      · obtain ⟨m₁, h₁⟩ := freePages_total (H := H) hpres (n := 1024) le_rfl
        obtain ⟨m₂, h₂⟩ := hfree (pageTable m₁.paging fork (1024 - (left + 1))) m₁
        obtain ⟨m₃, h₃⟩ := ih m₂ (by omega)
        rw [h₁]
        dsimp only [bind, Except.bind]
        rw [h₂]
        exact ⟨m₃, h₃⟩
      · exact ih m (by omega)
  obtain ⟨m₁, h₁⟩ := htables 1024 m le_rfl
  obtain ⟨m₂, h₂⟩ := hfree fork m₁
  unfold freePageDir
  rw [h₁]
  exact ⟨m₂, h₂⟩

lemma forkPageDir_total {m₁ m₂ : Machine μ} (hfree : ∀ p m, ∃ m', H.memFree p m = .ok m')
    (halloc : H.memAllocAligned SIZEOF_PAGE_DIRECTORY 0x1000 m = .ok (fork, m₁)) (h0 : fork ≠ 0)
    (hr : r ≠ .done) (htables : forkTables H dir fork 1024 { m₁ with
      paging := m₁.paging.setDirectory fork { zeroDirectory with
        physicalAddress := getPhysicalAddress m₁.paging m₁.paging.currentDirectory fork } } =
          .ok (r, m₂)) :
    ∃ m', forkPageDir H dir m = .ok ((0, r), m') := by
  obtain ⟨m', h⟩ : ∃ m', freePageDir H fork m₂ = .ok m' := freePageDir_total hfree
  refine ⟨m', ?_⟩
  unfold forkPageDir
  rw [halloc]
  dsimp only [bind, Except.bind]
  rw [if_neg h0, htables]
  dsimp only
  rw [if_neg hr, h]
  rfl

section Sample

/-- The child of the sample before its first table. -/
def sampleChild : Machine Nat := { sampleMachine 255 with
  heap := 0x9000 + SIZEOF_PAGE_DIRECTORY
  paging := (sampleMachine 255).paging.setDirectory 0x9000 zeroDirectory }

/-- All frames are in use when the page of the code is to be copied. -/
lemma sample_noFrame : ∃ m', forkPageDir bumpHeap 0x5000 (sampleMachine 255) =
    .ok ((0, .noFrame), m') := by
  have hrun : (forkTables bumpHeap 0x5000 0x9000 1024 sampleChild).map Prod.fst = .ok .noFrame := by
    decide +kernel
  cases htables : forkTables bumpHeap 0x5000 0x9000 1024 sampleChild with
  | error err => rw [htables] at hrun; cases hrun
  | ok x =>
    obtain ⟨r, m₂⟩ := x
    rw [htables] at hrun
    cases hrun
    have halloc : bumpHeap.memAllocAligned SIZEOF_PAGE_DIRECTORY 0x1000 (sampleMachine 255) =
        .ok (0x9000, { sampleMachine 255 with heap := 0x9000 + SIZEOF_PAGE_DIRECTORY }) := rfl
    exact forkPageDir_total (fun p m => ⟨m, rfl⟩) halloc (by decide) (by decide) htables

/-- The frame 2 is the process' own, and clear after its fork has failed. -/
theorem failed_fork_clears_frame : ∃ m', forkPageDir bumpHeap 0x5000 (sampleMachine 255) =
    .ok ((0, .noFrame), m') ∧ ¬ TakesNothing (sampleMachine 255) m' 0x5000 := by
  have hu : ∀ f, f = 1 ∨ f = 2 → (sampleMachine 255).paging.frameUsed f = true := by
    rintro f (rfl | rfl)
    · decide +kernel
    · decide +kernel
  obtain ⟨m', h⟩ := sample_noFrame
  refine ⟨m', h, fun hn => ?_⟩
  obtain ⟨v, e, hv, he, hclear⟩ := forkPageDir_takes (sample_inKernel (hu 1 (.inl rfl)))
    (sample_owned hu) h (.inl rfl)
  rw [hn.frames v e hv he] at hclear
  cases hclear

theorem failed_fork_takes_sample : ∃ m', forkPageDir bumpHeap 0x5000 (sampleMachine 255) =
    .ok ((0, .noFrame), m') ∧ ¬ TakesNothing (sampleMachine 255) m' 0x5000 := by
  have hu : ∀ f, f = 1 ∨ f = 2 → (sampleMachine 255).paging.frameUsed f = true := by
    rintro f (rfl | rfl)
    · decide +kernel
    · decide +kernel
  obtain ⟨m', h⟩ := sample_noFrame
  exact ⟨m', h, (failed_fork_takes (sample_inKernel (hu 1 (.inl rfl))) (sample_owned hu) h
    (.inl rfl)).2⟩

end Sample

end MarioBrOS.Paging
