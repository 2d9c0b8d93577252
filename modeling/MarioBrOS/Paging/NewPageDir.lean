import MarioBrOS.Malloc.Model
import MarioBrOS.Paging.Cloned
import MarioBrOS.Paging.Request
import MarioBrOS.Scheduler.Table

/-!
# The directory of a new process

`new_page_dir` clones `base_directory` and asks for the pages of a process: its code, a page of
stack and a page of heap. The heap page is opened in the current directory for `malloc_new_state`
and closed again. `newPageDir_isolated` says what the process gets: pages of its own, in frames that
were free and that nobody else maps, with an empty heap, and otherwise what `base_directory` has.
-/

namespace MarioBrOS.Paging

open Malloc (mallocNewState)
open Scheduler (PageDirResult)

variable {μ : Type} (H : KernelHeap μ)

/-! ## The pages of a process -/

/-- `paging.c`, `set_user_addresses`: `START_OF_USER_CODE`. -/
def START_OF_USER_CODE : Nat := 0xFFFF0000

/-- `paging.c`, `set_user_addresses`: `START_OF_USER_STACK`. -/
def START_OF_USER_STACK : Nat := START_OF_USER_CODE - 4

/-- `paging.c`, `set_user_addresses`: `START_OF_USER_HEAP`, the first page that `base_directory`
does not map. -/
def startOfUserHeap (s : State) : Nat :=
  0x1000 * findUnmappedFrom s s.baseDirectory (1024 * 1024 - 1) 1

/-- The requests of `new_page_dir`, with what it throws if one is refused. -/
def userRequests (heap : Nat) : List (Nat × String) :=
  (List.range 16).map (fun i => (START_OF_USER_CODE + 0x1000 * i, "Unable to add user code!")) ++
    [(START_OF_USER_STACK, "Unable to add user stack!"), (heap, "Unable to add user heap!")]

/-- The requests, one after the other. -/
def requestPages (dir : Nat) : List (Nat × String) → Machine μ → Except String (Machine μ)
  | [], m => pure m
  | (address, message) :: rest, m => do
    let (b, m) ← requestVirtualSpace H.memAllocAligned dir address false true m
    if b then requestPages dir rest m else throw message

/-- The memory that the current directory sees. -/
def view (s : State) : Bytes := fun x => s.physical (getPhysicalAddress s s.currentDirectory x)

/-- `malloc_new_state` on a page of the current directory: it changes bytes of this page only. -/
def initHeapPage (address : Nat) (s : State) : State :=
  let frame := getPhysicalAddress s s.currentDirectory address / 0x1000
  { s with
    physical := fun y =>
      if y / 0x1000 = frame then (mallocNewState (view s) address).mem (address + y % 0x1000)
      else s.physical y }

/-- `paging.c`, `new_page_dir`, unless its clone takes more than so many rounds. It does not look
whether it has got a window; a write to a null pointer ends in the page fault handler. -/
def newPageDir (rounds heap : Nat) (m : Machine μ) :
    Except String (Option (PageDirResult × Machine μ)) := do
  let r ← cloneDirectory H rounds m.paging.baseDirectory m
  match r with
  | none => pure none
  | some (new, m) => do
    let m ← requestPages H new (userRequests heap) m
    let cur := m.paging.currentDirectory
    let heapPhysical := getPhysicalAddress m.paging new heap
    let (heapVirtual, m) ← requestPhysicalSpace H.memAllocAligned cur heapPhysical true false m
    if heapVirtual = 0 then
      throw "PAGE_FAULT"
    else do
      let m := { m with paging := initHeapPage heapVirtual m.paging }
      let m ← freeVirtualSpace H.memAllocAligned cur heapVirtual false m
      pure (some (⟨new, heap, heap + 0x1000⟩, m))

variable {H} {live : μ → Set Nat} {m₀ m m' m₁ : Machine μ} {s t : State}
  {new i j v w a p f va : Nat} {pages : List Nat} {b : Bool} {e : PageTableEntry}

/-! ## An empty heap -/

/-- The bytes of a page with one free block, where `c` was. -/
def emptyPage (c : Nat → UInt8) (j : Nat) : UInt8 :=
  if j < 4 then Bytes.byteOf 0x800 j else if j < 12 then 0
  else if 0xFFC ≤ j then Bytes.byteOf 0x800 (j - 0xFFC) else c j

lemma set32_add (c : Bytes) (a k j n : Nat) : c.set32 (a + k) n (a + j) =
    if k ≤ j ∧ j < k + 4 then Bytes.byteOf n (j - k) else c (a + j) := by
  unfold Bytes.set32
  rw [show a + j - (a + k) = j - k by omega]
  by_cases h : k ≤ j ∧ j < k + 4
  · rw [if_pos h, if_pos (by omega)]
  · rw [if_neg h, if_neg (by omega)]

/-- `malloc_new_state` writes the same bytes wherever the page is. -/
lemma mallocNewState_page {c : Bytes} (ha : a % 0x1000 = 0) (hlt : a < 2 ^ 32) (hj : j < 0x1000) :
    (mallocNewState c a).mem (a + j) = emptyPage (fun j => c (a + j)) j := by
  have hsize : (Malloc.setSize c a 0x1000).get32 a % 2 ^ 31 = 0x800 := by
    have h := Bytes.get32_lt c a
    unfold Malloc.setSize
    rw [Bytes.get32_set32 (by omega)]
    omega
  have hused : Malloc.setUsed (Malloc.setSize c a 0x1000) a false =
      (Malloc.setSize c a 0x1000).set32 a 0x800 := by
    unfold Malloc.setUsed
    rw [hsize]
    rfl
  have hword : (Malloc.setUsed (Malloc.setSize c a 0x1000) a false).get32 a = 0x800 := by
    have h8 : 0x800 < 2 ^ 32 := by omega
    rw [hused]
    exact Bytes.get32_set32 h8
  have hend : Malloc.getEndHeader (Malloc.setUsed (Malloc.setSize c a 0x1000) a false) a =
      a + 0xFFC := by
    unfold Malloc.getEndHeader Malloc.getSize
    rw [hword]
    unfold add32 sub32
    omega
  have hzero : ∀ k, Bytes.byteOf 0 k = 0 := fun k => by
    unfold Bytes.byteOf
    rw [Nat.zero_div]
    rfl
  unfold mallocNewState Malloc.setNext Malloc.setPrev Malloc.setBlock
  dsimp only
  rw [hend, hword, hused, set32_add, set32_add, set32_add, hzero, hzero]
  have h0 := set32_add (Malloc.setSize c a 0x1000) a 0 j 0x800
  rw [Nat.add_zero] at h0
  rw [h0]
  unfold Malloc.setSize
  have h1 := set32_add c a 0 j (0x1000 / 2 % 2 ^ 31 + 2 ^ 31 * (c.get32 a / 2 ^ 31))
  rw [Nat.add_zero] at h1
  rw [h1]
  unfold emptyPage
  split_ifs <;> first | omega | rfl

/-! ## Pages are added -/

/-- The directory `new` between two requests: the pages `pages` have been given to it. -/
structure NewInv (live : μ → Set Nat) (m₀ : Machine μ) (new : Nat) (pages : List Nat)
    (m : Machine μ) : Prop where
  grows : Grows live m₀ m
  apart : Apart live m new
  fresh : new ∉ live m₀.heap
  newTable : ∀ i, (pageEntry m.paging new i).present = true →
    pageTable m.paging new i ∉ live m₀.heap
  own : OwnTables m new
  page : ∀ v ∈ pages, ∃ f, translate m.paging new v = some ⟨true, true, true, f⟩ ∧
    m₀.paging.frameUsed f = false ∧ Private m.paging f
  rights : ∀ v ∈ pages, (pageEntry m.paging new (v / 1024)).user = true ∧
    (pageEntry m.paging new (v / 1024)).rw = true
  frames : ∀ v ∈ pages, ∀ w ∈ pages, v ≠ w → ∀ e e', translate m.paging new v = some e →
    translate m.paging new w = some e' → e.address ≠ e'.address
  rest : ∀ v, v < 0x100000 → v ∉ pages →
    translate m.paging new v = translate m₀.paging m₀.paging.baseDirectory v

lemma NewInv.ofCloned (h : Cloned live m₀ m₀.paging.baseDirectory new m) :
    NewInv live m₀ new [] m :=
  ⟨h.grows, h.apart, h.fresh, h.newTable, h.own, fun _ hv => absurd hv (List.not_mem_nil),
    fun _ hv => absurd hv (List.not_mem_nil), fun _ hv => absurd hv (List.not_mem_nil),
    fun v hv _ => h.same v hv⟩

/-- Growth keeps it. -/
lemma NewInv.step (h : NewInv live m₀ new pages m) (g : Grows live m m') :
    NewInv live m₀ new pages m' := by
  obtain ⟨hd, _, ha⟩ := g.apart h.apart
  have htr := g.translate_eq h.apart
  have hE : ∀ i, pageEntry m'.paging new i = pageEntry m.paging new i := fun i => by
    unfold pageEntry
    rw [hd]
  have hT : ∀ i, pageTable m'.paging new i = pageTable m.paging new i := fun i => by
    unfold pageTable
    rw [hd]
  refine ⟨h.grows.trans g, ha, h.fresh, fun i hi => ?_, h.own.congr hd, fun v hv => ?_,
    fun v hv => ?_, fun v hv w hw hne e e' he he' => ?_, fun v hv hn => ?_⟩
  · rw [hE] at hi
    rw [hT]
    exact h.newTable i hi
  · obtain ⟨f, h1, h2, h3⟩ := h.page v hv
    exact ⟨f, (htr v).trans h1, h2, g.isPrivate h3⟩
  · rw [hE]
    exact h.rights v hv
  · exact h.frames v hv w hw hne e e' ((htr v).symm.trans he) ((htr w).symm.trans he')
  · exact (htr v).trans (h.rest v hv hn)

/-- The directory itself changes, and tables of its own: the pages stay what they were. -/
lemma NewInv.change (h : NewInv live m₀ new pages m)
    (hc : s.currentDirectory = m.paging.currentDirectory)
    (hkd : s.kernelDirectory = m.paging.kernelDirectory)
    (hb : s.baseDirectory = m.paging.baseDirectory) (hl : s.framesLength = m.paging.framesLength)
    (hf : s.frames = m.paging.frames) (hp : s.physical = m.paging.physical)
    (hd : ∀ d, d ≠ new → s.directories d = m.paging.directories d)
    (ht : ∀ q, s.tables q ≠ m.paging.tables q → q ∉ live m₀.heap ∧
      ∀ i, (pageEntry m.paging m.paging.currentDirectory i).present = true →
        pageTable m.paging m.paging.currentDirectory i ≠ q)
    (hE : ∀ i, (pageEntry s new i).present = true → pageTable s new i ∈ live m.heap ∧
      pageTable s new i ∉ live m₀.heap ∧
      ∀ j, (pageEntry m.paging m.paging.currentDirectory j).present = true →
        pageTable m.paging m.paging.currentDirectory j ≠ pageTable s new i)
    (ho : OwnTables { m with paging := s } new)
    (hr : ∀ v ∈ pages, (pageEntry s new (v / 1024)).user = true ∧
      (pageEntry s new (v / 1024)).rw = true)
    (htr : ∀ v, translate s new v = translate m.paging new v) :
    NewInv live m₀ new pages { m with paging := s } := by
  have hcur : m.paging.currentDirectory = m₀.paging.currentDirectory := h.grows.current
  have hdc := hd _ h.apart.ne.symm
  have hEc : ∀ j, pageEntry s m.paging.currentDirectory j =
      pageEntry m.paging m.paging.currentDirectory j := fun j => by
    unfold pageEntry
    rw [hdc]
  have hTc : ∀ j, pageTable s m.paging.currentDirectory j =
      pageTable m.paging m.paging.currentDirectory j := fun j => by
    unfold pageTable
    rw [hdc]
  -- no table of the directory in force is written
  have htc : ∀ q i, (pageEntry m.paging m.paging.currentDirectory i).present = true →
      pageTable m.paging m.paging.currentDirectory i = q → s.tables q = m.paging.tables q :=
    fun q i hi he => by
      by_contra hn
      exact (ht q hn).2 i hi he
  have hu : ∀ f, s.frameUsed f = m.paging.frameUsed f := fun f => by
    unfold State.frameUsed
    rw [hf]
  have hpriv : ∀ f, Private m.paging f → Private s f := fun f hpf => by
    refine ⟨(hu f).trans hpf.used, fun v e he => hpf.unmapped v e ?_⟩
    rw [hc, translate_congr hdc fun i hi => htc _ i hi rfl] at he
    exact he
  refine ⟨h.grows.own hc hkd hb hl hf hp (fun d hd' => hd d ?_) (fun q hq => ?_),
    ⟨h.apart.alive, hc ▸ h.apart.ne, fun i hi => (hE i hi).1, fun i j hi hj => ?_⟩, h.fresh,
    fun i hi => (hE i hi).2.1, ho, fun v hv => ?_, hr, fun v hv w hw hne e e' he he' => ?_,
    fun v hv hn => (htr v).trans (h.rest v hv hn)⟩
  · rintro rfl
    obtain h1 | h1 := hd'
    · exact h.fresh h1
    · exact h.apart.ne (h1.trans hcur.symm)
  · by_contra hn
    obtain ⟨h1, h2⟩ := ht q hn
    obtain h3 | ⟨i, h3, h4⟩ := hq
    · exact h1 h3
    · rw [← hcur] at h3 h4
      exact h2 i h3 h4
  · dsimp only at hi hj ⊢
    rw [hc] at hj ⊢
    rw [hEc] at hj
    rw [hTc]
    exact (hE i hi).2.2 j hj
  · obtain ⟨f, h1, h2, h3⟩ := h.page v hv
    exact ⟨f, (htr v).trans h1, h2, hpriv f h3⟩
  · exact h.frames v hv w hw hne e e' ((htr v).symm.trans he) ((htr w).symm.trans he')

/-- `get_page` for the user. -/
lemma NewInv.getPage {q : PagePtr} (h : NewInv H.live m₀ new pages m) (hk : InKernel H.live m₀)
    (ha : a < 2 ^ 32) (hrun : Paging.getPage H.memAllocAligned new a false true m = .ok (q, m')) :
    NewInv H.live m₀ new pages m' ∧ HasTable m'.paging new a ∧ q = pagePtr m'.paging new a ∧
      (pageEntry m'.paging new (a / 0x1000 / 1024)).user = true ∧
      (pageEntry m'.paging new (a / 0x1000 / 1024)).rw = true := by
  have hkm := h.grows.inKernel hk
  by_cases ht : HasTable m.paging new a
  · rw [getPage_eq _ ht] at hrun
    cases hrun
    have hsame : SameSpaces m.paging (ensureRights new (a / 0x1000 / 1024) false true m.paging) :=
      ensureRights_same
    have hentry : ∀ i, pageEntry (ensureRights new (a / 0x1000 / 1024) false true m.paging) new i =
        if i = a / 0x1000 / 1024 then
          { pageEntry m.paging new (a / 0x1000 / 1024) with user := true, rw := true }
        else pageEntry m.paging new i := fun i => by
      unfold ensureRights
      dsimp only
      rw [pageEntry_setEntry]
      simp
    refine ⟨h.change rfl rfl rfl rfl rfl rfl (fun d hd => Function.update_of_ne hd ..)
      (fun q hq => absurd rfl hq) (fun i hi => ?_) (h.own.same hsame)
      (fun v hv => ?_) (hsame.translate new), hsame.hasTable ht, (hsame.pagePtr new a).symm, ?_, ?_⟩
    · rw [hsame.present] at hi
      rw [hsame.table]
      exact ⟨h.apart.table i hi, h.newTable i hi, fun j hj => h.apart.other i j hi hj⟩
    · rw [hentry]
      split_ifs
      · exact ⟨rfl, rfl⟩
      · exact h.rights v hv
    · dsimp only
      rw [hentry, if_pos rfl]
    · dsimp only
      rw [hentry, if_pos rfl]
  · rw [getPage_makes _ ht] at hrun
    unfold makePageTable at hrun
    by_cases hold : pageTable m.paging new (a / 0x1000 / 1024) ≠ 0
    · rw [if_pos hold] at hrun
      cases hrun
    rw [if_neg hold] at hrun
    obtain ⟨_, hmake, hrun⟩ := bind_eq_ok.mp hrun
    obtain ⟨⟨table, m₁⟩, halloc, hmake⟩ := bind_eq_ok.mp hmake
    dsimp only at hmake
    by_cases h0 : table = 0
    · rw [if_pos h0] at hmake
      cases hmake
    rw [if_neg h0] at hmake
    cases hmake
    cases hrun
    have g := H.grows hkm.current halloc
    obtain ⟨hf1, hf2, _⟩ := H.fresh hkm.current halloc h0
    have hf3 := H.fresh_table hkm halloc h0
    rw [← g.current] at hf3
    have h₁ := h.step g
    obtain ⟨hd, _, _⟩ := g.apart h.apart
    have habs : ¬ (pageEntry m₁.paging new (a / 0x1000 / 1024)).present = true := by
      unfold pageEntry
      rw [hd]
      exact ht
    -- the new block is no table of the directory yet
    have hne : ∀ i, (pageEntry m₁.paging new i).present = true →
        pageTable m₁.paging new i ≠ table := by
      intro i hi
      unfold pageEntry at hi
      unfold pageTable
      rw [hd] at hi ⊢
      rintro rfl
      exact hf1 (h.apart.table i hi)
    have hfresh : table ∉ H.live m₀.heap := fun hl => hf1 (h.grows.alive hl)
    generalize hen : (⟨true, true, !false, getPhysicalAddress m₁.paging
      m₁.paging.currentDirectory table / 0x1000⟩ : PageDirectoryEntry) = en
    have hen' : en.present = true ∧ en.user = true ∧ en.rw = true := by
      subst hen
      exact ⟨rfl, rfl, rfl⟩
    have hE := fun i => pageEntry_setEntry (m₁.paging.setTable table fun _ => zeroPage) new new
      (a / 0x1000 / 1024) i table en
    have hT := fun i => pageTable_setEntry (m₁.paging.setTable table fun _ => zeroPage) new new
      (a / 0x1000 / 1024) i table en
    simp only [true_and] at hE hT
    have htr := fun v => translate_newTable v (a / 0x1000 / 1024) en hne
    generalize hs : (m₁.paging.setTable table fun _ => zeroPage).setDirectory new
      (((m₁.paging.setTable table fun _ => zeroPage).directories new).setEntry
        (a / 0x1000 / 1024) en table) = s at hE hT htr
    have hE' : ∀ i, pageEntry s new i =
        if i = a / 0x1000 / 1024 then en else pageEntry m₁.paging new i := hE
    have hT' : ∀ i, pageTable s new i =
        if i = a / 0x1000 / 1024 then table else pageTable m₁.paging new i := hT
    refine ⟨h₁.change (by rw [← hs]; rfl) (by rw [← hs]; rfl)
      (by rw [← hs]; rfl) (by rw [← hs]; rfl) (by rw [← hs]; rfl) (by rw [← hs]; rfl)
      (fun d hd' => ?_) (fun q hq => ?_) (fun i hi => ?_)
      (h₁.own.install en (p := table) (by omega) hne hE' hT') (fun v hv => ?_) (fun v => ?_), ?_,
      rfl, ?_, ?_⟩
    · rw [← hs]
      exact Function.update_of_ne hd' ..
    · obtain rfl : q = table := by
        by_contra hq'
        refine hq ?_
        rw [← hs]
        exact Function.update_of_ne hq' ..
      exact ⟨hfresh, hf3⟩
    · rw [hE'] at hi
      rw [hT']
      split_ifs at hi ⊢ with hi'
      · exact ⟨hf2, hfresh, hf3⟩
      · exact ⟨h₁.apart.table i hi, h₁.newTable i hi, fun j hj => h₁.apart.other i j hi hj⟩
    · rw [hE']
      split_ifs
      · exact hen'.2
      · exact h₁.rights v hv
    · rw [htr]
      split_ifs with hv
      · unfold translate
        rw [hv, if_neg fun hc => habs hc.1]
      · rfl
    · unfold HasTable
      dsimp only
      rw [hE', if_pos rfl]
      exact hen'.1
    · dsimp only
      rw [hE', if_pos rfl]
      exact hen'.2.1
    · dsimp only
      rw [hE', if_pos rfl]
      exact hen'.2.2

/-- The entry of the page of `a` is that of no other page. -/
lemma OwnTables.pagePtr_inj {dir : Nat} (h : OwnTables m dir)
    (hv : (pageEntry m.paging dir (v / 1024)).present = true) (ht : HasTable m.paging dir a)
    (he : (⟨pageTable m.paging dir (v / 1024), v % 1024⟩ : PagePtr) = pagePtr m.paging dir a) :
    v = a / 0x1000 := by
  obtain ⟨h1, h2⟩ := PagePtr.mk.inj he
  have := h.distinct _ _ hv ht h1
  omega

/-- The page of `a` gets a frame that is free. -/
lemma NewInv.map (h : NewInv H.live m₀ new pages m) (hk : InKernel H.live m₀)
    (ht : HasTable m.paging new a)
    (hr : (pageEntry m.paging new (a / 0x1000 / 1024)).user = true ∧
      (pageEntry m.paging new (a / 0x1000 / 1024)).rw = true)
    (hp : (m.paging.page (pagePtr m.paging new a)).present = false)
    (hf : m.paging.frameUsed f = false) :
    NewInv H.live m₀ new (a / 0x1000 :: pages)
      { m with
        paging := (m.paging.setFrame f true).setPage (pagePtr m.paging new a)
          ⟨true, true, true, f⟩ } := by
  have hkm := h.grows.inKernel hk
  have hf₀ : m₀.paging.frameUsed f = false := by
    by_contra hc
    rw [Bool.not_eq_false] at hc
    rw [h.grows.frames f hc] at hf
    cases hf
  have hcurrent : m.paging.currentDirectory = m₀.paging.currentDirectory := h.grows.current
  have hother := fun j hj => h.apart.other _ j ht hj
  generalize hs : (m.paging.setFrame f true).setPage (pagePtr m.paging new a)
    ⟨true, true, true, f⟩ = s
  have hdirs : s.directories = m.paging.directories := by
    rw [← hs]
    rfl
  have hE : ∀ d i, pageEntry s d i = pageEntry m.paging d i := fun d i => by
    unfold pageEntry
    rw [hdirs]
  have hT : ∀ d i, pageTable s d i = pageTable m.paging d i := fun d i => by
    unfold pageTable
    rw [hdirs]
  have htabs : ∀ q, q ≠ pageTable m.paging new (a / 0x1000 / 1024) →
      s.tables q = m.paging.tables q := fun q hq => by
    rw [← hs]
    exact Function.update_of_ne hq ..
  have hused : ∀ g, s.frameUsed g = if g = f then true else m.paging.frameUsed g := fun g => by
    rw [← hs, setPage_frameUsed, frameUsed_setFrame]
  have hcur : s.currentDirectory = m.paging.currentDirectory := by
    rw [← hs]
    rfl
  have htrc : ∀ v, translate s m.paging.currentDirectory v =
      translate m.paging m.paging.currentDirectory v :=
    translate_congr (by rw [hdirs]) fun i hi => htabs _ (hother i hi)
  -- the new page, and the others
  have hself : translate s new (a / 0x1000) = some ⟨true, true, true, f⟩ := by
    rw [← hs, translate_setPage, if_pos ⟨ht, rfl⟩]
    rfl
  have hrest : ∀ v, v ≠ a / 0x1000 → translate s new v = translate m.paging new v := by
    intro v hv
    have key : translate (m.paging.setFrame f true) new v = translate m.paging new v := rfl
    rw [← hs, translate_setPage, if_neg fun hc => hv (h.own.pagePtr_inj hc.1 ht hc.2)]
    exact key
  have hpriv : ∀ g, Private m.paging g → Private s g := fun g hg => by
    refine ⟨?_, fun v e he => ?_⟩
    · rw [hused]
      split_ifs
      · rfl
      · exact hg.used
    · rw [hcur, htrc] at he
      exact hg.unmapped v e he
  have hprivf : Private s f := by
    refine ⟨by rw [hused, if_pos rfl], fun v e he => ?_⟩
    rw [hcur, htrc] at he
    rintro rfl
    rw [hkm.counted v e he] at hf
    cases hf
  have hne : ∀ v ∈ pages, v ≠ a / 0x1000 := by
    rintro v hv rfl
    obtain ⟨g, h1, _, _⟩ := h.page _ hv
    obtain ⟨_, h2, h3⟩ := translate_eq_some.mp h1
    exact ne_of_translate h1 hp rfl
  have hold : ∀ v ∈ pages, ∀ e, translate s new v = some e → e.address ≠ f := by
    intro v hv e he
    obtain ⟨g, h1, _, h3⟩ := h.page v hv
    rw [hrest v (hne v hv), h1] at he
    cases he
    rintro rfl
    exact absurd (h3.used.symm.trans hf) (by decide)
  have hg : Grows H.live m₀ { m with paging := m.paging.setFrame f true } :=
    h.grows.trans setFrame_grows
  refine ⟨hg.own hcur (by rw [← hs]; rfl) (by rw [← hs]; rfl) (by rw [← hs]; rfl)
    (by rw [← hs]; rfl) (by rw [← hs]; rfl) (fun d _ => congrFun hdirs d) (fun q hq => htabs q ?_),
    ⟨h.apart.alive, hcur ▸ h.apart.ne, fun i hi => ?_, fun i j hi hj => ?_⟩, h.fresh,
    fun i hi => ?_, h.own.congr (congrFun hdirs new), fun v hv => ?_, fun v hv => ?_,
    fun v hv w hw hvw e e' he he' => ?_, fun v hv hn => ?_⟩
  · rintro rfl
    obtain h1 | ⟨i, h1, h2⟩ := hq
    · exact h.newTable _ ht h1
    · rw [← hcurrent] at h1 h2
      exact hother i h1 h2
  · dsimp only at hi ⊢
    rw [hE] at hi
    rw [hT]
    exact h.apart.table i hi
  · dsimp only at hi hj ⊢
    rw [hcur] at hj ⊢
    rw [hE] at hi hj
    rw [hT, hT]
    exact h.apart.other i j hi hj
  · dsimp only at hi ⊢
    rw [hE] at hi
    rw [hT]
    exact h.newTable i hi
  · obtain rfl | hv := List.mem_cons.mp hv
    · exact ⟨f, hself, hf₀, hprivf⟩
    · obtain ⟨g, h1, h2, h3⟩ := h.page v hv
      exact ⟨g, (hrest v (hne v hv)).trans h1, h2, hpriv g h3⟩
  · dsimp only
    rw [hE]
    obtain rfl | hv := List.mem_cons.mp hv
    · exact hr
    · exact h.rights v hv
  · dsimp only at he he'
    obtain rfl | hv := List.mem_cons.mp hv
    · obtain rfl | hw := List.mem_cons.mp hw
      · exact absurd rfl hvw
      · rw [hself] at he
        cases he
        exact (hold w hw e' he').symm
    · obtain rfl | hw := List.mem_cons.mp hw
      · rw [hself] at he'
        cases he'
        exact hold v hv e he
      · rw [hrest v (hne v hv)] at he
        rw [hrest w (hne w hw)] at he'
        exact h.frames v hv w hw hvw e e' he he'
  · obtain ⟨h1, h2⟩ := not_or.mp (fun hc => hn (List.mem_cons.mpr hc))
    exact (hrest v h1).trans (h.rest v hv h2)

/-- A request that is granted. -/
lemma NewInv.request (h : NewInv H.live m₀ new pages m) (hk : InKernel H.live m₀)
    (ha : a < 2 ^ 32)
    (hrun : requestVirtualSpace H.memAllocAligned new a false true m = .ok (true, m')) :
    NewInv H.live m₀ new (a / 0x1000 :: pages) m' := by
  unfold requestVirtualSpace at hrun
  obtain ⟨⟨q, m₁⟩, hget, hrun⟩ := bind_eq_ok.mp hrun
  dsimp only at hrun
  obtain ⟨h₁, ht, rfl, hr⟩ := h.getPage hk ha hget
  by_cases hp : (m₁.paging.page (pagePtr m₁.paging new a)).present = true
  · rw [if_pos hp] at hrun
    cases hrun
  rw [if_neg hp] at hrun
  obtain ⟨⟨b, t⟩, hm, hrun⟩ := bind_eq_ok.mp hrun
  cases hrun
  obtain ⟨hb, _⟩ | ⟨_, hne, hframe⟩ := mapPage_ok hm
  · cases hb
  · obtain ⟨_, _, habs, rfl⟩ := mapPageToFrame_ok hframe
    obtain ⟨e, _⟩ | hfree := firstFrame_cases m₁.paging
    · exact absurd e hne
    · exact h₁.map hk ht hr habs hfree.free

/-- All requests. -/
lemma NewInv.requests {rs : List (Nat × String)} (h : NewInv H.live m₀ new pages m)
    (hk : InKernel H.live m₀) (ha : ∀ r ∈ rs, r.1 < 2 ^ 32)
    (hrun : requestPages H new rs m = .ok m') :
    NewInv H.live m₀ new ((rs.map fun r => r.1 / 0x1000).reverse ++ pages) m' := by
  induction rs generalizing m pages with
  | nil =>
    cases hrun
    exact h
  | cons r rs ih =>
    obtain ⟨address, message⟩ := r
    unfold requestPages at hrun
    obtain ⟨⟨b, m₁⟩, hreq, hrun⟩ := bind_eq_ok.mp hrun
    dsimp only at hrun
    cases b with
    | false => cases hrun
    | true =>
      have h₁ := h.request hk (ha _ List.mem_cons_self) hreq
      have := ih h₁ (fun r hr => ha r (List.mem_cons_of_mem _ hr)) hrun
      simpa using this

/-! ## The heap page -/

/-- Bytes of frames that were free at first change. -/
lemma NewInv.setPhysical (h : NewInv live m₀ new pages m) (bytes : Bytes)
    (hb : ∀ x, bytes x ≠ m.paging.physical x → m₀.paging.frameUsed (x / 0x1000) = false) :
    NewInv live m₀ new pages { m with paging := { m.paging with physical := bytes } } := by
  have g := h.grows
  refine ⟨⟨g.alive, g.current, g.kernel, g.base, g.length, g.directory, g.hasTable, g.newTable,
    g.table, g.keeps, g.adds, g.frames, fun x hx => ?_⟩, ⟨h.apart.alive, h.apart.ne, h.apart.table,
    h.apart.other⟩, h.fresh, h.newTable, ⟨h.own.lt, h.own.distinct⟩, fun v hv => ?_, h.rights,
    h.frames, h.rest⟩
  · dsimp only
    by_contra hn
    have : bytes x ≠ m.paging.physical x := fun he => hn (he.trans (g.physical x hx))
    exact absurd (hx.used.symm.trans (hb x this)) (by decide)
  · obtain ⟨f, h1, h2, h3⟩ := h.page v hv
    exact ⟨f, h1, h2, ⟨h3.used, h3.unmapped⟩⟩

/-- A page of the current directory that has been opened and closed again. -/
lemma NewInv.window {k w : Bool} (h : NewInv live m₀ new pages m) (s : State) (bytes : Bytes)
    (ht : HasTable m.paging m.paging.currentDirectory va)
    (hp : (m.paging.page (pagePtr m.paging m.paging.currentDirectory va)).present = false)
    (hf : m₀.paging.frameUsed f = false)
    (hb : ∀ x, bytes x ≠ m.paging.physical x → x / 0x1000 = f)
    (hs : s = ({ (m.paging.setFrame f true).setPage
      (pagePtr m.paging m.paging.currentDirectory va) ⟨true, w, k, f⟩ with
        physical := bytes } : State)) :
    NewInv live m₀ new pages { m with
        paging := freePage (pagePtr s m.paging.currentDirectory va) false s } ∧
      ∀ v, translate (freePage (pagePtr s m.paging.currentDirectory va) false s) new v =
        translate m.paging new v := by
  have g : Grows live m { m with
      paging := (m.paging.setFrame f true).setPage
        (pagePtr m.paging m.paging.currentDirectory va) ⟨false, w, k, f⟩ } :=
    (setFrame_grows : Grows live m { m with paging := m.paging.setFrame f true }).setPage
      (a := va) rfl ht (fun v e he => ne_of_translate he hp) fun hc => nomatch hc
  have h' := (h.step g).setPhysical bytes fun x hx => by
    rw [hb x hx]
    exact hf
  have hfree : freePage (pagePtr s m.paging.currentDirectory va) false s =
      { (m.paging.setFrame f true).setPage (pagePtr m.paging m.paging.currentDirectory va)
        ⟨false, w, k, f⟩ with physical := bytes } := by
    have hptr : pagePtr s m.paging.currentDirectory va =
        pagePtr m.paging m.paging.currentDirectory va := by
      rw [hs]
      rfl
    have hpage : s.page (pagePtr m.paging m.paging.currentDirectory va) = ⟨true, w, k, f⟩ := by
      rw [hs]
      exact page_setPage_self ..
    unfold freePage
    rw [hptr, hpage, hs]
    simp only [Bool.false_eq_true, false_and, if_false]
    exact setPage_setPage ({ m.paging.setFrame f true with physical := bytes } : State) ..
  rw [hfree]
  exact ⟨h', g.translate_eq h.apart⟩

/-! ## The whole directory -/

/-- The pages of a process. -/
def userPages (heap : Nat) : List Nat := (userRequests heap).map fun r => r.1 / 0x1000

/-- What a process reads at an address. -/
def userByte (s : State) (dir x : Nat) : UInt8 := s.physical (getPhysicalAddress s dir x)

/-- The directory `new` of a process, made in `m`: each of its pages can be read and written by the
user and has a frame that was free, is in use and is not mapped by the kernel; no two of them have
the same frame; all other pages are those of `base_directory`. Its heap is one free block. -/
structure NewSpace (live : μ → Set Nat) (m : Machine μ) (heap new : Nat) (m' : Machine μ) :
    Prop where
  grows : Grows live m m'
  apart : Apart live m' new
  fresh : new ∉ live m.heap
  page : ∀ v ∈ userPages heap, ∃ f, translate m'.paging new v = some ⟨true, true, true, f⟩ ∧
    m.paging.frameUsed f = false ∧ Private m'.paging f
  rights : ∀ v ∈ userPages heap, (pageEntry m'.paging new (v / 1024)).user = true ∧
    (pageEntry m'.paging new (v / 1024)).rw = true
  frames : ∀ v ∈ userPages heap, ∀ w ∈ userPages heap, v ≠ w → ∀ e e',
    translate m'.paging new v = some e → translate m'.paging new w = some e' →
      e.address ≠ e'.address
  rest : ∀ v, v < 0x100000 → v ∉ userPages heap →
    translate m'.paging new v = translate m.paging m.paging.baseDirectory v
  bound : ∀ v, 0x100000 ≤ v → translate m'.paging new v = none
  empty : ∃ c : Bytes, ∀ j, j < 0x1000 →
    userByte m'.paging new (heap + j) = (mallocNewState c heap).mem (heap + j)

lemma findUnmappedFrom_lt (s : State) (dir n page : Nat) :
    findUnmappedFrom s dir n page = 0 ∨ findUnmappedFrom s dir n page < page + n := by
  induction n generalizing page with
  | zero => exact .inl rfl
  | succ n ih =>
    unfold findUnmappedFrom
    split_ifs
    · exact .inr (by omega)
    · obtain h | h := ih (page + 1)
      · exact .inl h
      · exact .inr (by omega)

/-- Where the heap of a process starts. -/
lemma startOfUserHeap_page (s : State) :
    startOfUserHeap s % 0x1000 = 0 ∧ startOfUserHeap s < 2 ^ 32 := by
  have h := findUnmappedFrom_lt s s.baseDirectory (1024 * 1024 - 1) 1
  unfold startOfUserHeap
  omega

/-- The address of a window. -/
lemma requestPhysicalSpace_lt {alloc : MemAllocAligned μ} {dir physical : Nat} {k w : Bool}
    (h : requestPhysicalSpace alloc dir physical k w m = .ok (va, m')) : va < 2 ^ 32 := by
  have hlt := findUnmappedFrom_lt m.paging dir (1024 * 1024 - 1) 1
  unfold requestPhysicalSpace findUnmappedPage at h
  dsimp only at h
  split_ifs at h with hi
  · cases h
    decide
  · generalize findUnmappedFrom m.paging dir (1024 * 1024 - 1) 1 = index at h hi hlt
    obtain ⟨⟨q, m₁⟩, _, h⟩ := bind_eq_ok.mp h
    obtain ⟨t, _, h⟩ := bind_eq_ok.mp h
    cases h
    omega

lemma userRequests_lt {heap : Nat} (hheap : heap < 2 ^ 32) :
    ∀ r ∈ userRequests heap, r.1 < 2 ^ 32 := by
  intro r hr
  unfold userRequests START_OF_USER_STACK START_OF_USER_CODE at hr
  obtain hr | hr := List.mem_append.mp hr
  · obtain ⟨i, hi, rfl⟩ := List.mem_map.mp hr
    have := List.mem_range.mp hi
    dsimp only
    omega
  · obtain rfl | hr := List.mem_cons.mp hr
    · decide
    · obtain rfl := List.mem_singleton.mp hr
      exact hheap

/-- The last request is for the heap. -/
lemma heap_mem_userPages (heap : Nat) : heap / 0x1000 ∈ userPages heap := by
  unfold userPages userRequests
  simp

/-- What `new_page_dir` calls, unless it throws. -/
lemma newPageDir_cases {rounds heap : Nat} {o : Option (PageDirResult × Machine μ)}
    (h : newPageDir H rounds heap m = .ok o) :
    (o = none ∧ cloneDirectory H rounds m.paging.baseDirectory m = .ok none) ∨
    ∃ new va, ∃ m₁ m₂ m₃ m₄ : Machine μ,
      cloneDirectory H rounds m.paging.baseDirectory m = .ok (some (new, m₁)) ∧
      requestPages H new (userRequests heap) m₁ = .ok m₂ ∧
      requestPhysicalSpace H.memAllocAligned m₂.paging.currentDirectory
        (getPhysicalAddress m₂.paging new heap) true false m₂ = .ok (va, m₃) ∧
      va ≠ 0 ∧
      freeVirtualSpace H.memAllocAligned m₂.paging.currentDirectory va false
        { m₃ with paging := initHeapPage va m₃.paging } = .ok m₄ ∧
      o = some (⟨new, heap, heap + 0x1000⟩, m₄) := by
  unfold newPageDir at h
  obtain ⟨c, hclone, h⟩ := bind_eq_ok.mp h
  cases c with
  | none =>
    cases h
    exact .inl ⟨rfl, hclone⟩
  | some c =>
    obtain ⟨new, m₁⟩ := c
    obtain ⟨m₂, hreq, h⟩ := bind_eq_ok.mp h
    obtain ⟨⟨va, m₃⟩, hwin, h⟩ := bind_eq_ok.mp h
    dsimp only at h
    by_cases hva : va = 0
    · rw [if_pos hva] at h
      cases h
    rw [if_neg hva] at h
    obtain ⟨m₄, hclose, h⟩ := bind_eq_ok.mp h
    cases h
    exact .inr ⟨new, va, m₁, m₂, m₃, m₄, hclone, hreq, hwin, hva, hclose, rfl⟩

/-- What `new_page_dir` makes, unless it throws. -/
lemma newPageDir_space {rounds heap : Nat} {r : PageDirResult} (hk : InKernel H.live m)
    (hz : m.paging.frameUsed 0 = true) (hb : Apart H.live m m.paging.baseDirectory)
    (hheap : heap = startOfUserHeap m.paging)
    (h : newPageDir H rounds heap m = .ok (some (r, m'))) :
    r.firstFreeBlock = heap ∧ r.unallocatedMem = heap + 0x1000 ∧
      NewSpace H.live m heap r.pageDir m' := by
  obtain ⟨hpage, hlt⟩ := startOfUserHeap_page m.paging
  rw [← hheap] at hpage hlt
  obtain ⟨hnone, _⟩ | ⟨new, va, m₁, m₂, m₃, m₄, hclone, hreq, hwin, hva, hclose, ho⟩ :=
    newPageDir_cases h
  · cases hnone
  cases ho
  have h₂ := (NewInv.ofCloned (cloneDirectory_cloned hk hz hb hclone)).requests hk
    (userRequests_lt hlt) hreq
  have hk₂ := h₂.grows.inKernel hk
  have hmem : ∀ v, v ∈ ((userRequests heap).map fun r => r.1 / 0x1000).reverse ++ [] ↔
      v ∈ userPages heap := fun v => by simp [userPages]
  obtain ⟨f, htr, hfree, hpriv⟩ := h₂.page _ ((hmem _).mpr (heap_mem_userPages heap))
  have hphys : getPhysicalAddress m₂.paging new heap = 0x1000 * f := by
    rw [getPhysicalAddress_some htr, hpage]
    rfl
  have hf : 0x1000 * f / 0x1000 = f := by omega
  rw [hphys] at hwin
  have hvalt := requestPhysicalSpace_lt hwin
  obtain ⟨h0, _⟩ | ⟨mw, _, g, _, hvap, ht, habs, _, rfl⟩ :=
    requestPhysicalSpace_ok H hk₂ rfl (by omega) hwin
  · exact absurd h0 hva
  dsimp only at hclose
  rw [hf] at hclose
  rw [← g.current] at ht habs hclose
  have hw := h₂.step g
  generalize hs : (mw.paging.setFrame f true).setPage
    (pagePtr mw.paging mw.paging.currentDirectory va) ⟨true, false, !true, f⟩ = s
  have hcur : s.currentDirectory = mw.paging.currentDirectory := by
    rw [← hs]
    rfl
  have htrs : translate s mw.paging.currentDirectory (va / 0x1000) =
      some ⟨true, false, !true, f⟩ := by
    rw [← hs, translate_setPage, if_pos ⟨ht, rfl⟩]
    rfl
  have hframe : getPhysicalAddress s s.currentDirectory va / 0x1000 = f := by
    rw [hcur, getPhysicalAddress_some htrs, hvap]
    dsimp only
    omega
  have htab : HasTable (initHeapPage va s) mw.paging.currentDirectory va :=
    (translate_eq_some.mp htrs).1
  -- only the frame of the heap is written through the window
  have hbytes : ∀ y, (initHeapPage va s).physical y =
      if y / 0x1000 = f then (mallocNewState (view s) va).mem (va + y % 0x1000)
      else mw.paging.physical y := by
    intro y
    unfold initHeapPage
    rw [hframe, ← hs]
    rfl
  obtain ⟨hN, htrN⟩ := hw.window (k := !true) (w := false)
    (initHeapPage va s) (initHeapPage va s).physical ht habs hfree (fun y hy => by
      by_contra hn
      exact hy ((hbytes y).trans (if_neg hn))) (by rw [hs]; rfl)
  rw [hs, freeVirtualSpace_eq _ _ htab] at hclose
  cases hclose
  refine ⟨rfl, rfl, hN.grows, hN.apart, hN.fresh, fun v hv => hN.page v ((hmem v).mpr hv),
    fun v hv => hN.rights v ((hmem v).mpr hv),
    fun v hv w hw => hN.frames v ((hmem v).mpr hv) w ((hmem w).mpr hw),
    fun v hv hn => hN.rest v hv fun hc => hn ((hmem v).mp hc), fun v hv => ?_,
    fun x => view s (va + (x - heap)), fun j hj => ?_⟩
  · unfold translate
    refine if_neg fun hc => ?_
    have := hN.own.lt _ hc.1
    omega
  · -- the page of the heap is where the window was
    have htrf := (htrN (heap / 0x1000)).trans ((g.translate_eq h₂.apart _).trans htr)
    have hkeep : ∀ (q : PagePtr) (u : State), (freePage q false u).physical = u.physical :=
      fun q u => by
        unfold freePage
        simp
    unfold userByte
    dsimp only
    rw [getPhysicalAddress_window hpage htrf hj, hkeep, hbytes, if_pos (by dsimp only; omega)]
    dsimp only
    rw [show (0x1000 * f + j) % 0x1000 = j by omega, mallocNewState_page hvap hvalt hj,
      mallocNewState_page hpage hlt hj]
    simp only [Nat.add_sub_cancel_left]

/-- The loop of the clone comes to an end. -/
lemma newPageDir_ends {rounds heap : Nat} (hk : InKernel H.live m)
    (hz : m.paging.frameUsed 0 = true) (hb : Apart H.live m m.paging.baseDirectory)
    (hrounds : 1024 < rounds) : newPageDir H rounds heap m ≠ .ok none := by
  intro h
  obtain ⟨_, hclone⟩ | ⟨_, _, _, _, _, _, _, _, _, _, _, ho⟩ := newPageDir_cases h
  · exact cloneDirectory_ends hk hz (.inr hb) hrounds hclone
  · cases ho

/-- **A new address space.** `new_page_dir` ends, and unless it throws it makes a directory with
pages of its own, and leaves all other directories and the frames that the kernel does not map as
they were. -/
theorem newPageDir_isolated {rounds heap : Nat} (hk : InKernel H.live m)
    (hz : m.paging.frameUsed 0 = true) (hb : Apart H.live m m.paging.baseDirectory)
    (hheap : heap = startOfUserHeap m.paging) (hrounds : 1024 < rounds) :
    newPageDir H rounds heap m ≠ .ok none ∧
    ∀ r m', newPageDir H rounds heap m = .ok (some (r, m')) →
      (r.firstFreeBlock = heap ∧ r.unallocatedMem = heap + 0x1000 ∧
        NewSpace H.live m heap r.pageDir m') ∧
      (∀ d, Apart H.live m d → ∀ v, translate m'.paging d v = translate m.paging d v) ∧
      ∀ x, Private m.paging (x / 0x1000) → m'.paging.physical x = m.paging.physical x := by
  refine ⟨newPageDir_ends hk hz hb hrounds, fun r m' h => ?_⟩
  obtain ⟨h1, h2, hs⟩ := newPageDir_space hk hz hb hheap h
  exact ⟨⟨h1, h2, hs⟩, fun d hd => hs.grows.translate_eq hd, hs.grows.physical⟩

/-! ### A process beside another one -/

lemma newPageDir_run : ∃ r m', newPageDir bumpHeap 1025 0x2000 (sampleMachine 7) =
    .ok (some (r, m')) := by
  have h : (newPageDir bumpHeap 1025 0x2000 (sampleMachine 7)).map Option.isSome = .ok true := by
    decide +kernel
  cases hrun : newPageDir bumpHeap 1025 0x2000 (sampleMachine 7) with
  | error err => rw [hrun] at h; cases h
  | ok o =>
    cases o with
    | none => rw [hrun] at h; cases h
    | some x => exact ⟨x.1, x.2, rfl⟩

theorem newPageDir_isolated_sample : ∃ r m',
    newPageDir bumpHeap 1025 0x2000 (sampleMachine 7) = .ok (some (r, m')) ∧
      r.firstFreeBlock = 0x2000 ∧ r.unallocatedMem = 0x2000 + 0x1000 ∧
      NewSpace bumpHeap.live (sampleMachine 7) 0x2000 r.pageDir m' := by
  obtain ⟨r, m', h⟩ := newPageDir_run
  exact ⟨r, m', h, ((newPageDir_isolated (sample_inKernel (by decide +kernel)) (by decide +kernel)
    (sample_apart (.inl rfl)) (by decide +kernel) (by decide)).2 r m' h).1⟩

end MarioBrOS.Paging
