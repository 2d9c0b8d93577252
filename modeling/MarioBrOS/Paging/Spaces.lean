import MarioBrOS.Lib.Run
import MarioBrOS.Paging.NewPageDir

/-!
# The spaces of the processes

Directories of processes are made by `new_page_dir` and `fork_page_dir`, while the heap of the
kernel grows. However these calls follow each other, no two pages of processes share a frame, unless
`base_directory` maps them, and what a process has in its pages stays there (`spaces_isolated`). A
fork that fails is left out: it may free a frame of its parent (`failed_fork_takes`).
-/

namespace MarioBrOS.Paging

variable {μ : Type} {H : KernelHeap μ} {live : μ → Set Nat} {m₀ m m' : Machine μ}
  {dir new fork rounds heap v : Nat} {e : PageTableEntry} {dirs dirs' : List Nat}

/-- The machine and the directories of the processes. -/
abbrev Spaces (μ : Type) : Type := Machine μ × List Nat

/-- A call that concerns the spaces. -/
inductive SpaceCall where
  | alloc (size alignment : Nat)
  | new
  | fork (dir : Nat)

/-- A call that succeeds. -/
inductive SpaceStep (H : KernelHeap μ) (rounds heap : Nat) : Spaces μ → SpaceCall → Spaces μ → Prop
    where
  | alloc {m m' dirs size alignment p} : H.memAllocAligned size alignment m = .ok (p, m') →
    SpaceStep H rounds heap (m, dirs) (.alloc size alignment) (m', dirs)
  | new {m m' dirs r} : newPageDir H rounds heap m = .ok (some (r, m')) →
    SpaceStep H rounds heap (m, dirs) .new (m', r.pageDir :: dirs)
  | fork {m m' dirs dir q} : dir ∈ dirs → forkPageDir H dir m = .ok ((q, .done), m') →
    SpaceStep H rounds heap (m, dirs) (.fork dir) (m', q :: dirs)

/-- The spaces are apart: each directory has its own tables and frames, and frames that
`base_directory` does not map; no two pages have the same frame. -/
structure Isolated (live : μ → Set Nat) (heap : Nat) (m : Machine μ) (dirs : List Nat) : Prop where
  kernel : InKernel live m
  zero : m.paging.frameUsed 0 = true
  heap : heap = startOfUserHeap m.paging
  base : Apart live m m.paging.baseDirectory
  baseFrame : ∀ v e, translate m.paging m.paging.baseDirectory v = some e →
    e.address ≠ 0 ∧ m.paging.frameUsed e.address = true
  length : m.paging.framesLength ≤ 0x100000
  nodup : dirs.Nodup
  owned : ∀ d ∈ dirs, Owned live m d
  bound : ∀ d ∈ dirs, ∀ v, 0x100000 ≤ v → translate m.paging d v = none
  frames : ∀ d ∈ dirs, ∀ d' ∈ dirs, ∀ v w e e', OwnPage m.paging d v e →
    OwnPage m.paging d' w e' → e.address = e'.address → d = d' ∧ v = w
  unshared : ∀ d ∈ dirs, ∀ v w e e', OwnPage m.paging d v e →
    translate m.paging m.paging.baseDirectory w = some e' → e.address ≠ e'.address

/-! ## Growth -/

lemma Grows.base_translate (g : Grows live m m') (hb : Apart live m m.paging.baseDirectory)
    (v : Nat) :
    translate m'.paging m'.paging.baseDirectory v =
      translate m.paging m.paging.baseDirectory v := by
  rw [g.base]
  exact g.translate_eq hb v

lemma Grows.base_physical (g : Grows live m m') (hb : Apart live m m.paging.baseDirectory)
    (x : Nat) :
    getPhysicalAddress m'.paging m'.paging.baseDirectory x =
      getPhysicalAddress m.paging m.paging.baseDirectory x :=
  getPhysicalAddress_congr (g.base_translate hb _)

lemma Grows.linked (g : Grows live m m') (hb : Apart live m m.paging.baseDirectory) :
    Linked m'.paging v ↔ Linked m.paging v := by
  unfold Linked
  rw [g.base_physical hb]

lemma Grows.startOfUserHeap (g : Grows live m m') (hb : Apart live m m.paging.baseDirectory) :
    Paging.startOfUserHeap m'.paging = Paging.startOfUserHeap m.paging := by
  have key : ∀ n page, findUnmappedFrom m'.paging m'.paging.baseDirectory n page =
      findUnmappedFrom m.paging m.paging.baseDirectory n page := by
    intro n
    induction n with
    | zero => exact fun _ => rfl
    | succ n ih =>
      intro page
      unfold findUnmappedFrom
      rw [g.base_physical hb, ih]
  unfold Paging.startOfUserHeap
  rw [key]

lemma Grows.ownPage (g : Grows live m m') (hb : Apart live m m.paging.baseDirectory)
    (hd : Apart live m dir) :
    OwnPage m'.paging dir v e ↔ OwnPage m.paging dir v e := by
  constructor
  · exact fun ho => ⟨(g.translate_eq hd v).symm.trans ho.entry,
      fun hl => ho.unlinked ((g.linked hb).mpr hl)⟩
  · exact fun ho => ⟨(g.translate_eq hd v).trans ho.entry,
      fun hl => ho.unlinked ((g.linked hb).mp hl)⟩

lemma Owned.grows (ho : Owned live m dir) (g : Grows live m m') : Owned live m' dir := by
  obtain ⟨_, _, hb⟩ := g.apart ho.base
  rw [← g.base] at hb
  refine ⟨(g.apart ho.apart).2.2, hb, fun v e he => ?_, fun v e hoe => ?_, g.length ▸ ho.length⟩
  · rw [g.translate_eq ho.apart] at he
    obtain ⟨h1, h2⟩ := ho.frame v e he
    exact ⟨h1, g.frames _ h2⟩
  · exact g.isPrivate (ho.own v e ((g.ownPage ho.base ho.apart).mp hoe))

/-- Growth keeps the spaces apart. -/
lemma Isolated.grows (h : Isolated live heap m dirs) (g : Grows live m m') :
    Isolated live heap m' dirs := by
  obtain ⟨_, _, hb⟩ := g.apart h.base
  rw [← g.base] at hb
  have hown : ∀ d ∈ dirs, ∀ v e, OwnPage m'.paging d v e ↔ OwnPage m.paging d v e :=
    fun d hd v e => g.ownPage h.base (h.owned d hd).apart
  refine ⟨g.inKernel h.kernel, g.frames 0 h.zero, h.heap.trans (g.startOfUserHeap h.base).symm, hb,
    fun v e he => ?_, g.length ▸ h.length, h.nodup, fun d hd => (h.owned d hd).grows g,
    fun d hd v hv => ?_, fun d hd d' hd' v w e e' hoe hoe' => ?_, fun d hd v w e e' hoe he' => ?_⟩
  · rw [g.base_translate h.base] at he
    obtain ⟨h1, h2⟩ := h.baseFrame v e he
    exact ⟨h1, g.frames _ h2⟩
  · exact (g.translate_eq (h.owned d hd).apart v).trans (h.bound d hd v hv)
  · exact h.frames d hd d' hd' v w e e' ((hown d hd v e).mp hoe) ((hown d' hd' w e').mp hoe')
  · rw [g.base_translate h.base] at he'
    exact h.unshared d hd v w e e' ((hown d hd v e).mp hoe) he'

/-- A directory whose own frames were free before joins the others. -/
lemma Isolated.join (h : Isolated live heap m dirs) (g : Grows live m m') (hnew : new ∉ live m.heap)
    (ho : Owned live m' new) (hbound : ∀ v, 0x100000 ≤ v → translate m'.paging new v = none)
    (hfree : ∀ v e, OwnPage m'.paging new v e → m.paging.frameUsed e.address = false)
    (hframes : ∀ v w e e', OwnPage m'.paging new v e → OwnPage m'.paging new w e' →
      e.address = e'.address → v = w) : Isolated live heap m' (new :: dirs) := by
  have h' := h.grows g
  have hold : ∀ d ∈ dirs, ∀ v e, OwnPage m'.paging d v e → m.paging.frameUsed e.address = true :=
    fun d hd v e hoe => ((h.owned d hd).own v e
      ((g.ownPage h.base (h.owned d hd).apart).mp hoe)).used
  -- the frames of the others were used before, those of `new` were not
  refine ⟨h'.kernel, h'.zero, h'.heap, h'.base, h'.baseFrame, h'.length,
    List.nodup_cons.mpr ⟨fun hd => hnew (h.owned new hd).apart.alive, h.nodup⟩, fun d hd => ?_,
    fun d hd => ?_, fun d hd d' hd' v w e e' hoe hoe' he => ?_, fun d hd v w e e' hoe he' he => ?_⟩
  · obtain rfl | hd := List.mem_cons.mp hd
    · exact ho
    · exact h'.owned d hd
  · obtain rfl | hd := List.mem_cons.mp hd
    · exact hbound
    · exact h'.bound d hd
  · obtain rfl | h1 := List.mem_cons.mp hd
    · obtain rfl | h2 := List.mem_cons.mp hd'
      · exact ⟨rfl, hframes v w e e' hoe hoe' he⟩
      · have := hold d' h2 w e' hoe'
        rw [← he, hfree v e hoe] at this
        cases this
    · obtain rfl | h2 := List.mem_cons.mp hd'
      · have := hold d h1 v e hoe
        rw [he, hfree w e' hoe'] at this
        cases this
      · exact h'.frames d h1 d' h2 v w e e' hoe hoe' he
  · obtain rfl | hd := List.mem_cons.mp hd
    · rw [g.base_translate h.base] at he'
      have h1 := (h.baseFrame w e' he').2
      rw [← he, hfree v e hoe] at h1
      cases h1
    · exact h'.unshared d hd v w e e' hoe he' he

/-! ## The calls -/

/-- A page that `base_directory` maps is linked. -/
lemma linked_of_translate {s : State} (he : translate s s.baseDirectory v = some e)
    (h0 : e.address ≠ 0) : Linked s v := by
  unfold Linked
  rw [getPhysicalAddress_some (e := e) (by rw [Nat.mul_div_cancel_left v (by decide), he])]
  omega

/-- A new process joins the others. -/
lemma Isolated.addNew (h : Isolated H.live heap m dirs) (hs : NewSpace H.live m heap new m') :
    Isolated H.live heap m' (new :: dirs) := by
  have g := hs.grows
  obtain ⟨_, _, hb⟩ := g.apart h.base
  rw [← g.base] at hb
  have hpages : ∀ v e, OwnPage m'.paging new v e → v ∈ userPages heap := by
    intro v e hoe
    by_contra hn
    by_cases hv : v < 0x100000
    · have he := (hs.rest v hv hn).symm.trans hoe.entry
      exact hoe.unlinked ((g.linked h.base).mpr (linked_of_translate he (h.baseFrame v e he).1))
    · exact absurd ((hs.bound v (not_lt.mp hv)).symm.trans hoe.entry) (by simp)
  refine h.join g hs.fresh ⟨hs.apart, hb, fun v e he => ?_, fun v e hoe => ?_, g.length ▸ h.length⟩
    hs.bound (fun v e hoe => ?_) fun v w e e' hoe hoe' he => ?_
  · by_cases hv : v ∈ userPages heap
    · obtain ⟨f, h1, h2, h3⟩ := hs.page v hv
      cases h1.symm.trans he
      refine ⟨?_, h3.used⟩
      rintro rfl
      exact absurd (h.zero.symm.trans h2) (by decide)
    · by_cases hlt : v < 0x100000
      · obtain ⟨h1, h2⟩ := h.baseFrame v e ((hs.rest v hlt hv).symm.trans he)
        exact ⟨h1, g.frames _ h2⟩
      · exact absurd ((hs.bound v (not_lt.mp hlt)).symm.trans he) (by simp)
  · obtain ⟨f, h1, _, h3⟩ := hs.page v (hpages v e hoe)
    cases h1.symm.trans hoe.entry
    exact h3
  · obtain ⟨f, h1, h2, _⟩ := hs.page v (hpages v e hoe)
    cases h1.symm.trans hoe.entry
    exact h2
  · by_contra hvw
    exact hs.frames v (hpages v e hoe) w (hpages w e' hoe') hvw e e' hoe.entry hoe'.entry he

/-- A page of a finished fork that is its own is a copy of one of its parent. -/
lemma ForkInv.own_copied (h : ForkInv H.live m dir fork 1024 (1024 * 1024) m')
    (hb : Apart H.live m m.paging.baseDirectory) (hv : v < 0x100000)
    (hoe : OwnPage m'.paging fork v e) :
    ∃ e₀, OwnPage m.paging dir v e₀ ∧ e = entryOf m'.paging fork v ∧ Copied m m' e₀ e := by
  obtain h1 | h1 := h.translate_cases hv hoe.entry
  · have ho : OwnPage m.paging dir v e :=
      ⟨h1, fun hl => hoe.unlinked ((h.grows.linked hb).mpr hl)⟩
    obtain ⟨h2, h3⟩ := h.translate_own hv ho
    obtain rfl : entryOf m'.paging fork v = e := Option.some.inj (h2.symm.trans hoe.entry)
    exact ⟨_, ho, rfl, h3⟩
  · exact h1

/-- The child of a fork joins the others. -/
lemma Isolated.addFork (h : Isolated H.live heap m dirs) (hd : dir ∈ dirs)
    (hi : ForkInv H.live m dir fork 1024 (1024 * 1024) m') :
    Isolated H.live heap m' (fork :: dirs) := by
  have g := hi.grows
  have hp := h.owned dir hd
  obtain ⟨_, _, hb⟩ := g.apart h.base
  rw [← g.base] at hb
  have hbound : ∀ v, 0x100000 ≤ v → translate m'.paging fork v = none := by
    intro v hv
    unfold translate
    refine if_neg fun hc => ?_
    have := ((hi.entry _).mp hc.1).1
    omega
  have hlt : ∀ v e, translate m'.paging fork v = some e → v < 0x100000 := by
    intro v e he
    by_contra hv
    exact absurd ((hbound v (not_lt.mp hv)).symm.trans he) (by simp)
  refine h.join g hi.new ⟨hi.apart, hb, fun v e he => ?_, fun v e hoe => ?_, g.length ▸ h.length⟩
    hbound (fun v e hoe => ?_) fun v w e e' hoe hoe' he => ?_
  · obtain h1 | ⟨_, _, _, hc⟩ := hi.translate_cases (hlt v e he) he
    · obtain ⟨h2, h3⟩ := hp.frame v e h1
      exact ⟨h2, g.frames _ h3⟩
    · refine ⟨fun h0 => ?_, hc.isPrivate.used⟩
      have := hc.clear
      rw [h0, h.zero] at this
      cases this
  · obtain ⟨_, _, _, hc⟩ := hi.own_copied h.base (hlt v e hoe.entry) hoe
    exact hc.isPrivate
  · obtain ⟨_, _, _, hc⟩ := hi.own_copied h.base (hlt v e hoe.entry) hoe
    exact hc.clear
  · -- a shared frame would have been handed out twice
    have hv := hlt v e hoe.entry
    have hw := hlt w e' hoe'.entry
    obtain ⟨e₁, ho₁, rfl, _⟩ := hi.own_copied h.base hv hoe
    obtain ⟨e₂, ho₂, rfl, _⟩ := hi.own_copied h.base hw hoe'
    by_contra hvw
    exact hi.frames v w e₁ e₂ (by omega) (by omega) hvw ho₁ ho₂ he

/-- One call. -/
lemma SpaceStep.isolated {c : SpaceCall} {s t : Spaces μ} (st : SpaceStep H rounds heap s c t)
    (h : Isolated H.live heap s.1 s.2) :
    Isolated H.live heap t.1 t.2 ∧ Grows H.live s.1 t.1 ∧ s.2 ⊆ t.2 := by
  cases st with
  | alloc halloc =>
    have g := H.grows h.kernel.current halloc
    exact ⟨h.grows g, g, fun _ hd => hd⟩
  | new hrun =>
    have hs := (newPageDir_space h.kernel h.zero h.base h.heap hrun).2.2
    exact ⟨h.addNew hs, hs.grows, List.subset_cons_self ..⟩
  | fork hd hrun =>
    obtain ⟨_, h1⟩ | ⟨_, hi⟩ | ⟨_, _, _, h1, _⟩ := forkPageDir_ok h.kernel (h.owned _ hd) hrun
    · cases h1
    · exact ⟨h.addFork hd hi, hi.grows, List.subset_cons_self ..⟩
    · exact absurd rfl h1

/-- What the processes have in their pages is still there. -/
def Kept (m m' : Machine μ) (dirs : List Nat) : Prop :=
  ∀ d ∈ dirs, (∀ v, translate m'.paging d v = translate m.paging d v) ∧
    ∀ v e, OwnPage m.paging d v e → OwnPage m'.paging d v e ∧ ∀ j, j < 0x1000 →
      m'.paging.physical (0x1000 * e.address + j) = m.paging.physical (0x1000 * e.address + j)

lemma Isolated.kept (h : Isolated live heap m dirs) (g : Grows live m m') : Kept m m' dirs := by
  intro d hd
  have ho := h.owned d hd
  refine ⟨g.translate_eq ho.apart, fun v e hoe => ⟨(g.ownPage h.base ho.apart).mpr hoe,
    fun j hj => g.physical _ ?_⟩⟩
  rw [show (0x1000 * e.address + j) / 0x1000 = e.address by omega]
  exact ho.own v e hoe

/-- **The processes are isolated.** After any run of creations, forks and allocations, in any order,
no two pages of processes share a frame that `base_directory` does not map, no page of a process is
in a frame of it, and the processes that were there have the same pages with the same bytes. -/
theorem spaces_isolated {es : List SpaceCall} (h : Isolated H.live heap m dirs)
    (run : Run (SpaceStep H rounds heap) (m, dirs) es (m', dirs')) :
    Isolated H.live heap m' dirs' ∧ dirs ⊆ dirs' ∧ Kept m m' dirs := by
  obtain ⟨h1, g, h2⟩ := run.invariant
    (I := fun t => Isolated H.live heap t.1 t.2 ∧ Grows H.live m t.1 ∧ dirs ⊆ t.2)
    (fun s c t hi st => by
      obtain ⟨h1, g, h2⟩ := st.isolated hi.1
      exact ⟨h1, hi.2.1.trans g, fun d hd => h2 (hi.2.2 hd)⟩)
    ⟨h, Grows.refl m, fun _ hd => hd⟩
  exact ⟨h1, h2, h.kept g⟩

/-! ### A process beside another one -/

lemma sample_isolated : Isolated bumpHeap.live 0x2000 (sampleMachine 7) [0x5000] := by
  have hu : ∀ f, f = 1 ∨ f = 2 → (sampleMachine 7).paging.frameUsed f = true := by
    rintro f (rfl | rfl)
    · decide +kernel
    · decide +kernel
  have hd : ∀ {d}, d ∈ [0x5000] → d = 0x5000 := fun hd => List.mem_singleton.mp hd
  have ho := sample_owned hu
  refine ⟨sample_inKernel (hu 1 (.inl rfl)), by decide +kernel, by decide +kernel, ho.base,
    fun v e he => ?_, ho.length, List.nodup_singleton _, fun d h => ?_, fun d h v hv => ?_,
    fun d h d' h' v w e e' hoe hoe' _ => ?_, fun d h v w e e' hoe he' => ?_⟩
  · obtain ⟨_, rfl⟩ | ⟨h, _⟩ := sample_translate he
    · exact ⟨by decide, hu 1 (.inl rfl)⟩
    · exact absurd h (by decide)
  · rw [hd h]
    exact ho
  · cases he : translate (sampleMachine 7).paging d v with
    | none => rfl
    | some e =>
      obtain ⟨rfl, _⟩ | ⟨_, rfl, _⟩ := sample_translate he
      · exact absurd hv (by decide)
      · exact absurd hv (by decide)
  · rw [hd h, hd h', (sample_own hoe).1, (sample_own hoe').1]
    exact ⟨rfl, rfl⟩
  · obtain ⟨_, rfl⟩ | ⟨h, _⟩ := sample_translate he'
    · rw [(sample_own hoe).2]
      decide
    · exact absurd h (by decide)

theorem spaces_isolated_sample : ∃ m' d,
    Run (SpaceStep bumpHeap 1025 0x2000) (sampleMachine 7, [0x5000]) [.new] (m', [d, 0x5000]) ∧
    Isolated bumpHeap.live 0x2000 m' [d, 0x5000] ∧ [0x5000] ⊆ [d, 0x5000] ∧
      Kept (sampleMachine 7) m' [0x5000] := by
  obtain ⟨r, m', h⟩ := newPageDir_run
  have run : Run (SpaceStep bumpHeap 1025 0x2000) (sampleMachine 7, [0x5000]) [.new]
      (m', [r.pageDir, 0x5000]) := .single (.new h)
  exact ⟨m', r.pageDir, run, spaces_isolated sample_isolated run⟩

end MarioBrOS.Paging
