import MarioBrOS.Loader.Image
import MarioBrOS.Paging.ForkPageDir
import MarioBrOS.Paging.HeapPages

/-!
# Loading the code of a process

`load_code`, from the file that was found on: the file is read into a buffer, the code pages of the
process are mapped to windows in the current directory, the file is loaded through them, and the
buffer and the windows are given back. `read_inode_data` is a parameter: it may read less than it is
asked for.

`loadCode_image` says what the process then finds in its code pages.
-/

namespace MarioBrOS.Loader

open Paging

variable {σ μ : Type}

/-- `read_inode_data`: inode, buffer, place in the buffer, offset and length; the length read. -/
abbrev ReadInodeData (σ : Type) : Type :=
  σ → Nat → Bytes → Nat → Nat → Nat → Option (σ × Bytes × Nat)

variable (read : ReadInodeData σ) (H : KernelHeap μ)

/-- A call of the memory management. -/
def machine {α : Type} (x : Except String α) : Except LoadError α :=
  x.mapError .machine

/-- The read loop of `load_code`, with `pos` for `current - elf_buffer`. -/
def readLoop (inode size : Nat) : Nat → Nat → σ → Bytes → Option (σ × Bytes)
  | 0, _, _, _ => none
  | fuel + 1, pos, v, elfBuffer =>
    if pos < size then do
      let (v, elfBuffer, n) ← read v inode elfBuffer pos pos (size - pos)
      readLoop inode size fuel (pos + n) v elfBuffer
    else
      some (v, elfBuffer)

/-- The loop that maps the code pages, up to the page number `n`. -/
def mapCode (dir : Nat) : Nat → Machine μ → Except LoadError ((Nat → Nat) × Machine μ)
  | 0, m => pure (fun _ => 0, m)
  | page + 1, m => do
    let (virtuals, m) ← mapCode dir page m
    let physical := getPhysicalAddress m.paging dir (START_OF_USER_CODE + page * 0x1000)
    let (virtual, m) ← machine (requestPhysicalSpace H.memAllocAligned m.paging.currentDirectory
      physical true false m)
    if virtual ≠ 0 then
      pure (Function.update virtuals page virtual, m)
    else
      throw (.machine "Unable to load user code")

/-- The loop that frees the windows, up to the page number `n`. -/
def unmapCode (virtuals : Nat → Nat) : Nat → Machine μ → Except LoadError (Machine μ)
  | 0, m => pure m
  | page + 1, m => do
    let m ← unmapCode virtuals page m
    machine (freeVirtualSpace H.memAllocAligned m.paging.currentDirectory (virtuals page) false m)

/-- `scheduler.c`, `load_code`, for the inode that `find_inode` gives and its `size_low`: the entry
point, if the file was found. `elfBuffer` is what the buffer holds before; one at NULL is a page
fault. -/
def loadCode (fuel inode size dir : Nat) (elfBuffer : Bytes) (v : σ) (m : Machine μ) :
    Except LoadError ((Option Nat × σ) × Machine μ) :=
  if inode = 0 then
    pure ((none, v), m)
  else do
    let (p, m) ← machine (H.memAllocAligned size 1 m)
    if p = 0 then
      throw (.machine "PAGE_FAULT")
    else
      match readLoop read inode size fuel 0 v elfBuffer with
      | none => throw .noFile
      | some (v, elfBuffer) => do
        let (virtuals, m) ← mapCode H dir NB_PAGES m
        let (eip, s) ← checkAndLoad elfBuffer size virtuals m.paging
        let m ← machine (H.memFree p { m with paging := s })
        let m ← unmapCode H virtuals NB_PAGES m
        pure ((some eip, v), m)

/-- Windows have been requested for the first `n` of the frames, one after the other. -/
inductive Windows (frames : Nat → Nat) (m : Machine μ) : Nat → Machine μ → Prop
  | zero : Windows frames m 0 m
  | succ {n va : Nat} {m₁ m₂ : Machine μ} (opened : Windows frames m n m₁)
      (request : requestPhysicalSpace H.memAllocAligned m₁.paging.currentDirectory
        (0x1000 * frames n) true false m₁ = .ok (va, m₂))
      (ne : va ≠ 0) : Windows frames m (n + 1) m₂

/-- A request for a window is refused, after those for the code pages in front of it were served. -/
def WindowFails (frames : Nat → Nat) (m : Machine μ) (n : Nat) : Prop :=
  ∃ i m', i < n ∧ Windows H frames m i m' ∧
    ∀ va m'', requestPhysicalSpace H.memAllocAligned m'.paging.currentDirectory
      (0x1000 * frames i) true false m' = .ok (va, m'') → va = 0

/-- One of the requests of `load_code` is refused: the one for the buffer, or one for a window. -/
inductive MemoryFails (size : Nat) (frames : Nat → Nat) (m : Machine μ) : Prop
  | buffer (h : ∀ p m', H.memAllocAligned size 1 m = .ok (p, m') → p = 0)
  | window {p : Nat} {m' : Machine μ} (buffer : H.memAllocAligned size 1 m = .ok (p, m'))
      (h : WindowFails H frames m' NB_PAGES)

/-- The byte at the address `v` of a process. -/
def processByte (m : Machine μ) (dir v : Nat) : UInt8 :=
  m.paging.physical (getPhysicalAddress m.paging dir v)

/-- In the states `I`, `read_inode_data` reads the file, a piece at a time. -/
def ReadsFile (inode : Nat) (file : Bytes) (size : Nat) (I : σ → Prop) : Prop :=
  ∀ v buffer pos, I v → pos < size → ∃ v' buffer' n,
    read v inode buffer pos pos (size - pos) = some (v', buffer', n) ∧ I v' ∧ 0 < n ∧
      pos + n ≤ size ∧ (∀ i < pos, buffer' i = buffer i) ∧
      ∀ i, pos ≤ i → i < pos + n → buffer' i = file i

/-- The code pages of a process: they have frames of their own, which are none of the heap's. -/
structure CodePages (P : PagedKernelHeap μ) (m : Machine μ) (dir : Nat) (frames : Nat → Nat) :
    Prop where
  apart : Apart P.live m dir
  page : ∀ i < NB_PAGES, ∃ e,
    translate m.paging dir (START_OF_USER_CODE / 0x1000 + i) = some e ∧ e.address = frames i
  distinct : Distinct frames
  outside : ∀ i < NB_PAGES, Outside P.pages m (frames i)
  mapped : ∀ v ∈ P.pages m.heap, ∃ e, translate m.paging m.paging.currentDirectory v = some e

variable {read} {H} {P : PagedKernelHeap μ} {m₀ m m' : Machine μ} {I : σ → Prop} {file : Bytes}
  {inode size dir n v : Nat} {virtuals frames : Nat → Nat} {live : μ → Set Nat}

/-! ## The file -/

/-- The read loop ends with the file. -/
lemma readLoop_file (h : ReadsFile read inode file size I) {fuel pos : Nat} {w : σ}
    (buffer : Bytes) (hw : I w) (hpos : pos ≤ size) (hfuel : size - pos < fuel)
    (hb : ∀ i < pos, buffer i = file i) :
    ∃ w' buffer', readLoop read inode size fuel pos w buffer = some (w', buffer') ∧
      ∀ i < size, buffer' i = file i := by
  induction fuel generalizing pos w buffer with
  | zero => omega
  | succ fuel ih =>
    by_cases hlt : pos < size
    · obtain ⟨w', buffer', n, e, hw', hn, hle, hold, hnew⟩ := h w buffer pos hw hlt
      have hb' : ∀ i < pos + n, buffer' i = file i := by
        intro i hi
        by_cases hip : i < pos
        · rw [hold i hip, hb i hip]
        · exact hnew i (by omega) hi
      obtain ⟨w'', buffer'', e', h'⟩ := ih buffer' hw' hle (by omega) hb'
      refine ⟨w'', buffer'', ?_, h'⟩
      rw [readLoop, if_pos hlt, e]
      exact e'
    · obtain rfl : pos = size := by omega
      exact ⟨w, buffer, if_neg hlt, hb⟩

/-! ## The windows -/

/-- The same machine, with all frames clear. -/
def noFrames (m : Machine μ) : Machine μ :=
  { m with paging := { m.paging with frames := fun _ => 0 } }

lemma noFrames_frameUsed (m : Machine μ) (f : Nat) : (noFrames m).paging.frameUsed f = false := by
  simp [noFrames, State.frameUsed, getBit_eq, Bytes.bit]

lemma noFrames_grows (m : Machine μ) : Grows live (noFrames m) m := by
  refine ⟨fun _ h => h, rfl, rfl, rfl, rfl, fun _ _ _ => rfl, fun _ h => ⟨h, rfl⟩,
    fun _ h => .inl h, fun _ _ _ => rfl, fun _ _ h => h, fun _ _ h => .inl h, fun f hf => ?_,
    fun _ _ => rfl⟩
  rw [noFrames_frameUsed] at hf
  cases hf

/-- The first `n` code pages have windows in the current directory, and their bytes are those of the
machine `m₀`. -/
structure Opened (P : PagedKernelHeap μ) (m₀ m : Machine μ) (frames virtuals : Nat → Nat)
    (n : Nat) : Prop where
  grows : Grows P.live (noFrames m₀) m
  inKernel : InKernel P.live m
  mapped : ∀ v ∈ P.pages m.heap, ∃ e, translate m.paging m.paging.currentDirectory v = some e
  outside : ∀ i < NB_PAGES, Outside P.pages m (frames i)
  bytes : ∀ i < NB_PAGES, ∀ x, x / 0x1000 = frames i → m.paging.physical x = m₀.paging.physical x
  window : ∀ i < n, virtuals i % 0x1000 = 0 ∧ ∃ e,
    translate m.paging m.paging.currentDirectory (virtuals i / 0x1000) = some e ∧
      e.address = frames i

lemma Opened.start (virtuals : Nat → Nat) (hk : InKernel P.live m) (hc : CodePages P m dir frames) :
    Opened P m m frames virtuals 0 :=
  ⟨noFrames_grows m, hk, hc.mapped, hc.outside, fun _ _ _ _ => rfl, nofun⟩

/-- The allocator works. -/
lemma Opened.works (h : Opened P m₀ m frames virtuals n) (g : Grows P.live m m')
    (w : HeapWorks P.pages m m') : Opened P m₀ m' frames virtuals n := by
  refine ⟨h.grows.trans g, g.inKernel h.inKernel, w.mapped g h.mapped,
    fun i hi => w.outside g (h.outside i hi), fun i hi x hx => ?_, fun i hi => ?_⟩
  · have ho : Outside P.pages m (x / 0x1000) := by
      rw [hx]
      exact h.outside i hi
    exact (w.bytes x ho).trans (h.bytes i hi x hx)
  · obtain ⟨hmod, e, he, ha⟩ := h.window i hi
    refine ⟨hmod, e, ?_, ha⟩
    rw [g.current]
    exact g.keeps _ e he

/-- A page that was not there becomes the next window. -/
lemma Opened.map {va : Nat} {k w : Bool} (h : Opened P m₀ m frames virtuals n) (hn : n < NB_PAGES)
    (hva : va % 0x1000 = 0) (ht : HasTable m.paging m.paging.currentDirectory va)
    (hp : (m.paging.page (pagePtr m.paging m.paging.currentDirectory va)).present = false)
    (h' : m' = { m with
      paging := (m.paging.setFrame (frames n) true).setPage
        (pagePtr m.paging m.paging.currentDirectory va) ⟨true, w, k, frames n⟩ }) :
    Opened P m₀ m' frames (Function.update virtuals n va) (n + 1) := by
  have hcur : m'.paging.currentDirectory = m.paging.currentDirectory := by
    rw [h']
    rfl
  have hused : ∀ f, m'.paging.frameUsed f = true ↔ m.paging.frameUsed f = true := by
    intro f
    rw [h', setPage_frameUsed, frameUsed_setFrame]
    split_ifs with hf
    · rw [hf]
      exact iff_of_true rfl (h.outside n hn).used
    · rfl
  -- no page but that of the window is mapped anew
  have htr : ∀ v, translate m'.paging m.paging.currentDirectory v =
      if (pageEntry m.paging m.paging.currentDirectory (v / 1024)).present = true ∧
        (⟨pageTable m.paging m.paging.currentDirectory (v / 1024), v % 1024⟩ : PagePtr) =
          pagePtr m.paging m.paging.currentDirectory va
      then some ⟨true, w, k, frames n⟩ else translate m.paging m.paging.currentDirectory v := by
    intro v
    rw [h']
    exact translate_setPage
  have hkeep : ∀ v e, translate m.paging m.paging.currentDirectory v = some e →
      translate m'.paging m.paging.currentDirectory v = some e := by
    intro v e he
    rw [htr, if_neg fun hc => ne_of_translate he hp hc.2]
    exact he
  refine ⟨?_, ?_, fun v hv => ?_,
    fun i hi => ⟨(hused _).mpr (h.outside i hi).used, fun v hv e he => ?_⟩,
    fun i hi x hx => ?_, fun i hi => ?_⟩
  · have g : Grows P.live (noFrames m₀) { m with paging := m.paging.setFrame (frames n) true } :=
      h.grows.trans setFrame_grows
    rw [h']
    refine g.setPage (a := va) h.grows.current ht (fun v e he => ?_) fun _ =>
      ⟨noFrames_frameUsed m₀ _, ?_⟩
    · rw [h.grows.current] at he
      have hkept := h.grows.keeps v e he
      rw [← h.grows.current] at hkept
      exact ne_of_translate hkept hp
    · dsimp only
      rw [frameUsed_setFrame, if_pos rfl]
  · refine ⟨?_, ?_, fun i hi => ?_, fun v e he => ?_⟩
    · rw [h']
      exact h.inKernel.current
    · rw [h']
      exact h.inKernel.alive
    · rw [h'] at hi ⊢
      exact h.inKernel.table i hi
    · rw [hcur, htr] at he
      rw [hused]
      split_ifs at he with hc
      · cases he
        exact (h.outside n hn).used
      · exact h.inKernel.counted v e he
  · have hv : v ∈ P.pages m.heap := by
      rw [h'] at hv
      exact hv
    obtain ⟨e, he⟩ := h.mapped v hv
    rw [hcur]
    exact ⟨e, hkeep v e he⟩
  · -- a page of the heap is no window
    have hv : v ∈ P.pages m.heap := by
      rw [h'] at hv
      exact hv
    obtain ⟨e', he'⟩ := h.mapped v hv
    rw [hcur, hkeep v e' he'] at he
    rw [← Option.some.inj he]
    exact (h.outside i hi).unmapped v hv e' he'
  · rw [h']
    exact h.bytes i hi x hx
  · rw [hcur]
    by_cases hin : i = n
    · subst hin
      rw [Function.update_self]
      refine ⟨hva, ⟨true, w, k, frames i⟩, ?_, rfl⟩
      rw [htr, if_pos ⟨ht, rfl⟩]
    · rw [Function.update_of_ne hin]
      obtain ⟨hmod, e, he, ha⟩ := h.window i (by omega)
      exact ⟨hmod, e, hkeep _ e he, ha⟩

/-- What the process has at its code pages stays the same. -/
lemma Opened.translate_eq (h : Opened P m₀ m frames virtuals n) (hd : Apart P.live m₀ dir)
    (v : Nat) : translate m.paging dir v = translate m₀.paging dir v := by
  have hd' : Apart P.live (noFrames m₀) dir := ⟨hd.alive, hd.ne, hd.table, hd.other⟩
  exact h.grows.translate_eq hd' v

/-- The allocator works before the windows are opened. -/
lemma CodePages.works (hc : CodePages P m dir frames) (g : Grows P.live m m')
    (w : HeapWorks P.pages m m') : CodePages P m' dir frames ∧
      ∀ i < NB_PAGES, ∀ x, x / 0x1000 = frames i →
        m'.paging.physical x = m.paging.physical x := by
  refine ⟨⟨(g.apart hc.apart).2.2, fun i hi => ?_, hc.distinct,
    fun i hi => w.outside g (hc.outside i hi), w.mapped g hc.mapped⟩, fun i hi x hx => w.bytes x ?_⟩
  · obtain ⟨e, he, ha⟩ := hc.page i hi
    exact ⟨e, (g.translate_eq hc.apart _).trans he, ha⟩
  · rw [hx]
    exact hc.outside i hi

/-- The frame of a code page. -/
lemma CodePages.physical (hc : CodePages P m₀ dir frames) (h : Opened P m₀ m frames virtuals n)
    (hv : START_OF_USER_CODE ≤ v) (hv' : v < 2 ^ 32) :
    getPhysicalAddress m.paging dir v = codeAddress frames v := by
  have hpage : (v - START_OF_USER_CODE) / 0x1000 < NB_PAGES := by
    unfold NB_PAGES START_OF_USER_CODE at *
    omega
  obtain ⟨e, he, ha⟩ := hc.page _ hpage
  have hindex : START_OF_USER_CODE / 0x1000 + (v - START_OF_USER_CODE) / 0x1000 = v / 0x1000 := by
    unfold START_OF_USER_CODE at *
    omega
  rw [hindex, ← h.translate_eq hc.apart] at he
  rw [getPhysicalAddress_some he, ha]
  unfold codeAddress START_OF_USER_CODE at *
  omega

/-- The windows are opened one after the other, up to one that is refused. -/
lemma mapCode_opened (hc : CodePages P m₀ dir frames) (h : Opened P m₀ m frames virtuals 0)
    (hn : n ≤ NB_PAGES) :
    (WindowFails P.toKernelHeap frames m n ∧
      ∃ text, mapCode P.toKernelHeap dir n m = .error (.machine text)) ∨
      ∃ virtuals m', mapCode P.toKernelHeap dir n m = .ok (virtuals, m') ∧
        Windows P.toKernelHeap frames m n m' ∧ Opened P m₀ m' frames virtuals n := by
  induction n with
  | zero =>
    exact .inr ⟨_, m, rfl, .zero, ⟨h.grows, h.inKernel, h.mapped, h.outside, h.bytes, nofun⟩⟩
  | succ n ih =>
    rw [mapCode]
    obtain ⟨⟨i, m₁, hi, hw, hfail⟩, text, e⟩ | ⟨virtuals, m₁, e, hw, h₁⟩ := ih (by omega)
    · rw [e]
      exact .inl ⟨⟨i, m₁, by omega, hw, hfail⟩, text, rfl⟩
    rw [e]
    dsimp only [bind, Except.bind]
    have hphys : getPhysicalAddress m₁.paging dir (START_OF_USER_CODE + n * 0x1000) =
        0x1000 * frames n := by
      have hv' : START_OF_USER_CODE + n * 0x1000 < 2 ^ 32 := by
        unfold NB_PAGES START_OF_USER_CODE at *
        omega
      rw [hc.physical h₁ (by omega) hv', codeAddress, Nat.add_sub_cancel_left,
        Nat.mul_div_cancel _ (by decide), Nat.mul_mod_left, Nat.add_zero]
    rw [hphys]
    cases hr : requestPhysicalSpace P.memAllocAligned m₁.paging.currentDirectory (0x1000 * frames n)
        true false m₁ with
    | error text =>
      refine .inl ⟨⟨n, m₁, Nat.lt_succ_self n, hw, fun va m' h' => ?_⟩, text, rfl⟩
      rw [hr] at h'
      cases h'
    | ok r =>
      obtain ⟨va, m₂⟩ := r
      by_cases h0 : va = 0
      · -- there is no page for the window
        subst h0
        refine .inl ⟨⟨n, m₁, Nat.lt_succ_self n, hw, fun va m' h' => ?_⟩,
          "Unable to load user code", rfl⟩
        rw [hr] at h'
        cases h'
        rfl
      · have hdiv : 0x1000 * frames n / 0x1000 = frames n := Nat.mul_div_cancel_left _ (by decide)
        obtain ⟨hz, _⟩ | ⟨m₃, hget, g, _, hmod, ht, hp, _, e₂⟩ := requestPhysicalSpace_ok
          P.toKernelHeap h₁.inKernel rfl (Nat.mul_mod_right ..) hr
        · exact absurd hz h0
        · have h₃ := h₁.works g (getPage_works P h₁.inKernel rfl hget)
          rw [← g.current] at ht hp e₂
          rw [hdiv] at e₂
          exact .inr ⟨_, m₂, if_pos h0, hw.succ hr h0, h₃.map (by omega) hmod ht hp e₂⟩

/-- The windows show the code pages. -/
lemma Opened.shows (h : Opened P m₀ m frames virtuals NB_PAGES) :
    Shows m.paging virtuals frames := by
  intro i hi j hj
  obtain ⟨hmod, e, he, ha⟩ := h.window i hi
  rw [getPhysicalAddress_window hmod he hj, ha]

/-- The windows are freed, and the process keeps its pages. -/
lemma unmapCode_ok (ht : ∀ i < n, HasTable m.paging m.paging.currentDirectory (virtuals i))
    (hd : ∀ i j, (pageEntry m.paging dir i).present = true →
      (pageEntry m.paging m.paging.currentDirectory j).present = true →
      pageTable m.paging m.paging.currentDirectory j ≠ pageTable m.paging dir i) :
    ∃ m', unmapCode H virtuals n m = .ok m' ∧
      m'.paging.currentDirectory = m.paging.currentDirectory ∧
      m'.paging.directories = m.paging.directories ∧ m'.paging.physical = m.paging.physical ∧
      ∀ v, translate m'.paging dir v = translate m.paging dir v := by
  induction n with
  | zero => exact ⟨m, rfl, rfl, rfl, rfl, fun _ => rfl⟩
  | succ n ih =>
    obtain ⟨m₁, e, hcur, hdir, hphys, htr⟩ := ih fun i hi => ht i (by omega)
    have hE : ∀ d i, pageEntry m₁.paging d i = pageEntry m.paging d i := by
      intro d i
      unfold pageEntry
      rw [hdir]
    have hT : ∀ d i, pageTable m₁.paging d i = pageTable m.paging d i := by
      intro d i
      unfold pageTable
      rw [hdir]
    have hlast : HasTable m₁.paging m₁.paging.currentDirectory (virtuals n) := by
      unfold HasTable
      rw [hE, hcur]
      exact ht n (by omega)
    have hfree := freeVirtualSpace_eq H.memAllocAligned false hlast
    have hpage : ∀ p, freePage p false m₁.paging =
        m₁.paging.setPage p { m₁.paging.page p with present := false } := by
      intro p
      unfold freePage
      simp
    rw [hpage] at hfree
    refine ⟨{ m₁ with
      paging := m₁.paging.setPage (pagePtr m₁.paging m₁.paging.currentDirectory (virtuals n))
        { m₁.paging.page (pagePtr m₁.paging m₁.paging.currentDirectory (virtuals n)) with
          present := false } }, ?_, hcur, hdir, hphys, fun v => ?_⟩
    · rw [unmapCode, e]
      dsimp only [bind, Except.bind]
      rw [hfree]
      rfl
    · dsimp only
      rw [translate_setPage, if_neg]
      · exact htr v
      · -- the pages of the windows are in no table of `dir`
        rintro ⟨hp, hq⟩
        rw [hE] at hp
        have hq' := congrArg PagePtr.table hq
        unfold pagePtr at hq'
        dsimp only at hq'
        rw [hT, hT, hcur] at hq'
        refine hd _ _ hp ?_ hq'.symm
        have := hlast
        unfold HasTable at this
        rw [hE, hcur] at this
        exact this

lemma codeAddress_frame (frames : Nat → Nat) (hv : START_OF_USER_CODE ≤ v) (hv' : v < 2 ^ 32) :
    ∃ i < NB_PAGES, codeAddress frames v / 0x1000 = frames i := by
  refine ⟨(v - START_OF_USER_CODE) / 0x1000, ?_, ?_⟩
  · unfold NB_PAGES START_OF_USER_CODE at *
    omega
  · unfold codeAddress
    omega

/-- The buffer and the windows are given back, and the process sees what was loaded. -/
lemma release_ok {p : Nat} {t : State} (hc : CodePages P m dir frames)
    (h : Opened P m m₀ frames virtuals NB_PAGES) (ht : Within virtuals m₀.paging t)
    (hp : p ∈ P.live m.heap) (hdir : p ≠ dir ∧ p ≠ m.paging.currentDirectory)
    (htable : ∀ i, (pageEntry m.paging dir i).present = true → p ≠ pageTable m.paging dir i)
    (e : P.memFree p { m₀ with paging := t } = .ok m') :
    ∃ m₁, unmapCode P.toKernelHeap virtuals NB_PAGES m' = .ok m₁ ∧
      ∀ v, START_OF_USER_CODE ≤ v → v < 2 ^ 32 → processByte m₁ dir v = codeByte frames t v := by
  have hapart : Apart P.live (noFrames m) dir :=
    ⟨hc.apart.alive, hc.apart.ne, hc.apart.table, hc.apart.other⟩
  have ha := h.grows.apart hapart
  have hcur₀ : m₀.paging.currentDirectory = m.paging.currentDirectory := h.grows.current
  have hp₀ : p ∈ P.live m₀.heap := h.grows.alive hp
  have frees := P.frees (m := { m₀ with paging := t }) hp₀ e
  have hcur := P.freesCurrent (m := { m₀ with paging := t }) hp₀ e
  have hcur' : m'.paging.currentDirectory = m₀.paging.currentDirectory := by
    rw [hcur]
    dsimp only
    rw [ht.paging]
  -- the records of both directories and the tables of `dir`
  have hdirectory : ∀ d, d ∈ P.live m₀.heap → d ≠ p →
      m'.paging.directories d = m₀.paging.directories d := by
    intro d hd hne
    rw [frees.directory d hd hne]
    dsimp only
    rw [ht.paging]
  have hrecord := hdirectory dir ha.2.2.alive hdir.1.symm
  have hrecord' : m'.paging.directories m₀.paging.currentDirectory =
      m₀.paging.directories m₀.paging.currentDirectory :=
    hdirectory _ h.inKernel.alive (hcur₀ ▸ hdir.2.symm)
  have hsame : ∀ i, pageEntry m₀.paging dir i = pageEntry m.paging dir i ∧
      pageTable m₀.paging dir i = pageTable m.paging dir i := by
    intro i
    unfold pageEntry pageTable
    rw [ha.1]
    exact ⟨rfl, rfl⟩
  have htr : ∀ v, translate m'.paging dir v = translate m₀.paging dir v := by
    refine translate_congr hrecord fun i hi => ?_
    rw [frees.table _ (ha.2.2.table i hi)]
    · dsimp only
      rw [ht.paging]
    · rw [(hsame i).2]
      rw [(hsame i).1] at hi
      exact (htable i hi).symm
  have htables : ∀ i < NB_PAGES, HasTable m'.paging m'.paging.currentDirectory (virtuals i) := by
    intro i hi
    obtain ⟨_, e', he', _⟩ := h.window i hi
    unfold HasTable pageEntry
    rw [hcur', hrecord']
    exact (translate_eq_some.mp he').1
  have hother : ∀ i j, (pageEntry m'.paging dir i).present = true →
      (pageEntry m'.paging m'.paging.currentDirectory j).present = true →
      pageTable m'.paging m'.paging.currentDirectory j ≠ pageTable m'.paging dir i := by
    intro i j hi hj
    unfold pageEntry pageTable at *
    rw [hcur', hrecord'] at hj ⊢
    rw [hrecord] at hi ⊢
    exact ha.2.2.other i j hi hj
  obtain ⟨m₁, e₁, _, _, hphys, htr₁⟩ := unmapCode_ok (H := P.toKernelHeap) htables hother
  refine ⟨m₁, e₁, fun v hv hv' => ?_⟩
  obtain ⟨i, hi, hx⟩ := codeAddress_frame frames hv hv'
  have hout : Outside P.pages { m₀ with paging := t } (frames i) := by
    have ho := h.outside i hi
    refine ⟨?_, ?_⟩
    · dsimp only
      rw [ht.paging]
      exact ho.used
    · dsimp only
      rw [ht.paging]
      exact ho.unmapped
  unfold processByte codeByte
  rw [getPhysicalAddress_congr ((htr₁ _).trans (htr _)), hc.physical h hv hv', hphys]
  exact P.freesBytes (m := { m₀ with paging := t }) hp₀ e _ (hx ▸ hout)

/-- `load_code`: unless the request for the buffer or one for a window is refused, it ends with the
entry point of the file as `eip`, and the process finds the image of the file in its code pages. -/
theorem loadCode_image (hk : InKernel P.live m) (hc : CodePages P m dir frames)
    (hf : ValidElf file size) (hsize : size < 2 ^ 32) (hr : ReadsFile read inode file size I)
    (hi : inode ≠ 0) {w : σ} (hw : I w) {fuel : Nat} (hfuel : size < fuel) (elfBuffer : Bytes) :
    (MemoryFails P.toKernelHeap size frames m ∧
      ∃ text, loadCode read P.toKernelHeap fuel inode size dir elfBuffer w m =
        .error (.machine text)) ∨
    ∃ w' m', loadCode read P.toKernelHeap fuel inode size dir elfBuffer w m =
      .ok ((some (file.get32 24), w'), m') ∧
        Image file (processByte m dir) (processByte m' dir) := by
  unfold loadCode
  rw [if_neg hi]
  cases ha : P.memAllocAligned size 1 m with
  | error text =>
    refine .inl ⟨.buffer fun p m' h => ?_, text, rfl⟩
    rw [ha] at h
    cases h
  | ok r =>
    obtain ⟨p, m₁⟩ := r
    dsimp only [machine, Except.mapError, bind, Except.bind]
    by_cases hp : p = 0
    · rw [if_pos hp]
      refine .inl ⟨.buffer fun p' m' h => ?_, "PAGE_FAULT", rfl⟩
      rw [ha] at h
      cases h
      exact hp
    rw [if_neg hp]
    -- the buffer is none of the tables and directories that were there
    obtain ⟨hnot, hlive, _⟩ := P.fresh hk.current ha hp
    have g := P.grows hk.current ha
    have hk₁ := g.inKernel hk
    obtain ⟨hc₁, hbytes⟩ := hc.works g (P.works hk.current ha)
    obtain ⟨w', buffer', e, hfile⟩ := readLoop_file hr elfBuffer hw (Nat.zero_le size)
      hfuel nofun
    rw [e]
    dsimp only
    obtain ⟨hfail, text, e⟩ | ⟨virtuals, m₂, e, _, h₂⟩ := mapCode_opened hc₁
      (.start (fun _ => 0) hk₁ hc₁) le_rfl
    · rw [e]
      exact .inl ⟨.window ha hfail, text, rfl⟩
    rw [e]
    dsimp only
    obtain ⟨t, e, hin, himage⟩ := checkAndLoad_image hf hsize h₂.shows hc.distinct
    rw [checkAndLoad_congr hfile, e]
    dsimp only
    have hlive₂ : p ∈ P.live m₂.heap := h₂.grows.alive hlive
    obtain ⟨m₃, hfree⟩ := P.freesLive (m := { m₂ with paging := t }) hlive₂
    have hdir : p ≠ dir := by
      rintro rfl
      exact hnot hc.apart.alive
    have hcur : p ≠ m₁.paging.currentDirectory := by
      rintro rfl
      rw [g.current] at hnot
      exact hnot hk.alive
    have htable : ∀ i, (pageEntry m₁.paging dir i).present = true →
        p ≠ pageTable m₁.paging dir i := by
      rintro i hi' rfl
      have hd := (g.apart hc.apart).1
      unfold pageEntry at hi'
      unfold pageTable at hnot
      rw [hd] at hi' hnot
      exact hnot (hc.apart.table i hi')
    obtain ⟨m₄, e, hsee⟩ := release_ok hc₁ h₂ hin hlive ⟨hdir, hcur⟩ htable hfree
    rw [hfree]
    dsimp only
    rw [e]
    refine .inr ⟨w', m₄, rfl, himage.congr hf (fun v hv hv' => ?_) hsee⟩
    obtain ⟨i, hi, hx⟩ := codeAddress_frame frames hv hv'
    unfold processByte codeByte
    rw [hc.physical (.start virtuals hk hc) hv hv', h₂.bytes i hi _ hx,
      hbytes i hi _ hx]

/-! ## A process -/

/-- `bumpHeap`, with no page of its own. -/
def bumpPages : PagedKernelHeap Nat where
  toKernelHeap := bumpHeap
  pages _ := ∅
  works {size alignment m p m'} _ h := by
    dsimp only [bumpHeap] at h
    split_ifs at h
    cases h
    exact ⟨fun _ hv => hv.elim, fun _ _ => rfl⟩
  tables {m p m'} h i hi := by
    dsimp only [bumpHeap] at h
    rw [if_neg (by decide)] at h
    cases h
    exact hi
  freesLive _ := ⟨_, rfl⟩
  freesCurrent _ h := by
    cases h
    rfl
  freesBytes _ h := by
    cases h
    exact fun _ _ => rfl

/-- The process at `0x5000` has all code pages, with the frames from 2 on. -/
def codeMachine : Machine Nat where
  heap := 0x8000
  paging := { (sampleMachine 255).paging with
    tables := fun t j =>
      if t = 0x7000 ∧ 1008 ≤ j ∧ j < 1024 then ⟨true, true, true, j - 1006⟩
      else if (t = 0x2000 ∨ t = 0x4000 ∨ t = 0x6000) ∧ j = 1 then ⟨true, false, false, 1⟩
      else zeroPage }

/-- Reads of a file that lies in blocks of 1024 bytes. -/
def sampleRead : ReadInodeData Unit := fun _ _ buffer start offset length =>
  let n := min length (1024 - offset % 1024)
  some ((), fun i => if start ≤ i ∧ i < start + n then
    sampleElf 0xFFFF0000 (offset + (i - start)) else buffer i, n)

lemma codeMachine_used (f : Nat) : codeMachine.paging.frameUsed f = true := by
  have h : codeMachine.paging.frameUsed f = (255 : Nat).testBit (f % 8) := by
    rw [State.frameUsed, getBit_eq]
    rfl
  rw [h]
  have hlt := Nat.mod_lt f (show 8 > 0 by decide)
  generalize f % 8 = k at hlt
  revert k
  decide

lemma codeMachine_inKernel : InKernel bumpPages.live codeMachine := by
  refine ⟨rfl, show 0x1000 ≤ 0x8000 by decide, fun i hi => ?_, fun v e _ => codeMachine_used _⟩
  obtain ⟨rfl, _⟩ | ⟨_, h⟩ := (sample_directories (u := 255) 0x1000 i).mp hi
  · exact show 0x2000 ≤ 0x8000 by decide
  · cases h

lemma codeMachine_codePages : CodePages bumpPages codeMachine 0x5000 (fun i => 2 + i) := by
  have ha := sample_apart (u := 255) (d := 0x5000) (.inr rfl)
  refine ⟨⟨ha.alive, ha.ne, ha.table, ha.other⟩, fun i hi => ?_, fun i _ j _ e => by omega,
    fun i _ => ⟨codeMachine_used _, fun _ hv => hv.elim⟩, fun _ hv => hv.elim⟩
  have hi' : i < 16 := hi
  have hpage : (START_OF_USER_CODE / 0x1000 + i) / 1024 = 1023 ∧
      (START_OF_USER_CODE / 0x1000 + i) % 1024 = 1008 + i := by
    unfold START_OF_USER_CODE
    omega
  refine ⟨⟨true, true, true, 2 + i⟩, translate_eq_some.mpr ⟨?_, rfl, ?_⟩, rfl⟩
  · rw [hpage.1]
    rfl
  · rw [hpage.1, hpage.2]
    have hcond : 0x7000 = 0x7000 ∧ 1008 ≤ 1008 + i ∧ 1008 + i < 1024 := by omega
    have hentry : codeMachine.paging.page ⟨0x7000, 1008 + i⟩ =
        ⟨true, true, true, 1008 + i - 1006⟩ := if_pos hcond
    have hindex : 1008 + i - 1006 = 2 + i := by omega
    rw [hindex] at hentry
    exact hentry

lemma sampleElf_valid : ValidElf (sampleElf 0xFFFF0000) 88 := by
  have hnb : phtEntryNb (sampleElf 0xFFFF0000) = 1 := by decide +kernel
  have hat : segmentAt (sampleElf 0xFFFF0000) 0 = 52 := by decide +kernel
  have hp : programHeader (sampleElf 0xFFFF0000) 0 = ⟨1, 84, 0xFFFF0000, 4, 6⟩ := by decide +kernel
  refine ⟨sampleElf_headerOk (.inl rfl), ⟨by decide, fun n hn => ?_⟩, fun n hn _ => ?_,
    fun k hk n hn hne => ?_⟩
  · obtain rfl : n = 0 := by omega
    rw [hat]
    decide
  · obtain rfl : n = 0 := by omega
    rw [hp]
    exact ⟨.inr (by decide), by decide, .inr (by decide)⟩
  · omega

lemma sampleRead_reads :
    ReadsFile sampleRead 12 (sampleElf 0xFFFF0000) 88 fun _ => True := by
  intro v buffer pos _ hpos
  refine ⟨(), _, _, rfl, trivial, ?_, ?_, fun i hi => if_neg (by omega), fun i h1 h2 => ?_⟩
  · omega
  · omega
  · refine (if_pos ⟨h1, h2⟩).trans ?_
    congr 1
    omega

/-- The file of 88 bytes is loaded. -/
theorem loadCode_image_sample : ∃ m', loadCode sampleRead bumpHeap 100 12 88 0x5000 (fun _ => 0) ()
    codeMachine = .ok ((some 0xFFFF0000, ()), m') ∧
      Image (sampleElf 0xFFFF0000) (processByte codeMachine 0x5000) (processByte m' 0x5000) := by
  have hrun : (loadCode sampleRead bumpHeap 100 12 88 0x5000 (fun _ => 0) () codeMachine).map
      (fun r => r.1.1) = .ok (some 0xFFFF0000) := by decide +kernel
  have hentry : (sampleElf 0xFFFF0000).get32 24 = 0xFFFF0000 := by decide +kernel
  have hfuel : 88 < 100 := by decide
  obtain ⟨_, text, e⟩ | ⟨_, m', e, h⟩ := loadCode_image codeMachine_inKernel codeMachine_codePages
    sampleElf_valid (by decide) sampleRead_reads (show 12 ≠ 0 by decide) trivial hfuel fun _ => 0
  · rw [show loadCode sampleRead bumpHeap 100 12 88 0x5000 (fun _ => 0) () codeMachine = _ from e]
      at hrun
    cases hrun
  · rw [hentry] at e
    exact ⟨m', e, h⟩

end MarioBrOS.Loader
