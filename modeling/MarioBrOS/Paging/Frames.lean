import MarioBrOS.Lib.Run
import MarioBrOS.Paging.Model

/-!
# Which frames are handed out

`paging_install` makes the bitset of the frames as long as there are whole frames below
`UPPER_MEMORY`, but `empty_bitset` rounds the length up to a multiple of 32, and the search runs to
the length. The frames in between do not exist. `first_false_bit` finds the first clear frame, so
they are handed out when, and only when, all existing frames are in use (`Exhausted`).
-/

namespace MarioBrOS.Paging

/-- `bitset.c`, `empty_bitset`: the bits and the length. -/
def emptyBitset (length : Nat) : Bytes × Nat :=
  (memSet (fun _ => 0) 0 0 (ceilMultiple length 32 / 8), ceilMultiple length 32)

/-- The part of `paging_install` that sets up the bitset of the frames. -/
def installFrames (upperMemory : Nat) (s : State) : State :=
  let (bits, length) := emptyBitset (floorRatio upperMemory 0x1000)
  { s with frames := setBit bits 0 true, framesLength := length }

/-- The calls that take and release frames: `map_page`, the frame search of `fork_page_dir`,
`map_page_to_frame` and `free_page`. -/
inductive FrameCall where
  | map (page : PagePtr) (isKernel isWritable : Bool)
  | search
  | mapTo (page : PagePtr) (frame : Nat) (isKernel isWritable : Bool)
  | free (page : PagePtr) (setFrameFree : Bool)

/-- The calls that search for a frame. -/
def FrameCall.searches : FrameCall → Prop
  | .map .. => True
  | .search => True
  | .mapTo .. => False
  | .free .. => False

/-- A call, with the frame it hands out, if it does. -/
inductive FrameStep : State → FrameCall × Option Nat → State → Prop where
  | map {s page k w t} :
    mapPage page k w s = .ok (true, t) → FrameStep s (.map page k w, some s.firstFrame) t
  | mapFails {s page k w t} :
    mapPage page k w s = .ok (false, t) → FrameStep s (.map page k w, none) t
  | search {s frame t} : takeFrame s = some (frame, t) → FrameStep s (.search, some frame) t
  | searchFails {s} : takeFrame s = none → FrameStep s (.search, none) s
  | mapTo {s page frame k w t} :
    mapPageToFrame page frame k w s = .ok t → FrameStep s (.mapTo page frame k w, none) t
  | free {s page f} : FrameStep s (.free page f, none) (freePage page f s)

/-- All `n` frames that exist are in use, but the bitset has a clear bit. -/
def Exhausted (n : Nat) (s : State) : Prop :=
  (∀ frame, frame < n → s.frameUsed frame = true) ∧
    ∃ frame, frame < s.framesLength ∧ s.frameUsed frame = false

/-- What the bitset keeps: its length, and that frame 0 is in use. -/
structure FramesOk (n : Nat) (s : State) : Prop where
  length : s.framesLength = n
  zero : s.frameUsed 0 = true

variable {n : Nat} {s t : State} {page : PagePtr} {frame : Nat} {k w f : Bool}

/-- A successful `map_page_to_frame`. -/
lemma mapPageToFrame_ok (h : mapPageToFrame page frame k w s = .ok t) :
    frame ≠ 0 ∧ frame < 0x100000 ∧ (s.page page).present = false ∧
      t = (s.setFrame frame true).setPage page ⟨true, w, !k, frame⟩ := by
  unfold mapPageToFrame at h
  by_cases hf : frame = 0 ∨ frame ≥ 0x100000
  · rw [if_pos hf] at h
    cases h
  · rw [if_neg hf] at h
    by_cases hp : (s.page page).present
    · rw [if_pos hp] at h
      cases h
    · rw [if_neg hp] at h
      cases h
      rw [not_or, not_le] at hf
      exact ⟨hf.1, hf.2, by simpa using hp, rfl⟩

/-- A `map_page` that does not throw. -/
lemma mapPage_ok {b : Bool} (h : mapPage page k w s = .ok (b, t)) :
    (b = false ∧ s.firstFrame = 2 ^ 32 - 1 ∧ t = s) ∨
    (b = true ∧ s.firstFrame ≠ 2 ^ 32 - 1 ∧ mapPageToFrame page s.firstFrame k w s = .ok t) := by
  unfold mapPage at h
  by_cases hf : s.firstFrame = 2 ^ 32 - 1
  · rw [if_pos hf] at h
    cases h
    exact .inl ⟨rfl, hf, rfl⟩
  · rw [if_neg hf] at h
    cases hm : mapPageToFrame page s.firstFrame k w s with
    | error e => rw [hm] at h; cases h
    | ok u =>
      rw [hm] at h
      cases h
      exact .inr ⟨rfl, hf, rfl⟩

/-- A frame search that succeeds. -/
lemma takeFrame_some (h : takeFrame s = some (frame, t)) :
    s.firstFrame ≠ 2 ^ 32 - 1 ∧ frame = s.firstFrame ∧ t = s.setFrame frame true := by
  unfold takeFrame at h
  by_cases hf : s.firstFrame = 2 ^ 32 - 1
  · rw [if_pos hf] at h
    cases h
  · rw [if_neg hf] at h
    cases h
    exact ⟨hf, rfl, rfl⟩

/-- The frame a search finds is the first clear one. -/
lemma firstFrame_spec (hl : 32 ∣ s.framesLength) (h : s.firstFrame ≠ 2 ^ 32 - 1) :
    s.firstFrame < s.framesLength ∧ s.frameUsed s.firstFrame = false ∧
      ∀ g, g < s.firstFrame → s.frameUsed g = true := by
  simp only [State.frameUsed, getBit_eq]
  rcases firstFalseBit_first (m := s.frames) hl with ⟨e, _⟩ | h'
  · exact absurd e h
  · exact h'

/-- Setting a bit, and clearing one other than frame 0, keeps the bitset. -/
lemma FramesOk.setFrame {v : Bool} (h : FramesOk n s) (hf : frame = 0 → v = true) :
    FramesOk n (s.setFrame frame v) := by
  refine ⟨h.length, ?_⟩
  rw [frameUsed_setFrame]
  by_cases h0 : 0 = frame
  · rw [if_pos h0, hf h0.symm]
  · rw [if_neg h0, h.zero]

/-- Entries are no part of the bitset. -/
lemma FramesOk.setPage {e : PageTableEntry} (h : FramesOk n s) : FramesOk n (s.setPage page e) :=
  ⟨h.length, h.zero⟩

/-- Each call keeps the bitset. -/
lemma FrameStep.framesOk {e : FrameCall × Option Nat} (st : FrameStep s e t) (h : FramesOk n s) :
    FramesOk n t := by
  have mapTo : ∀ {page frame k w t}, mapPageToFrame page frame k w s = .ok t → FramesOk n t := by
    intro page frame k w t hm
    obtain ⟨_, _, _, rfl⟩ := mapPageToFrame_ok hm
    exact (h.setFrame fun _ => rfl).setPage
  cases st with
  | map hm =>
    rcases mapPage_ok hm with ⟨hb, _⟩ | ⟨_, _, hm⟩
    · cases hb
    · exact mapTo hm
  | mapFails hm =>
    rcases mapPage_ok hm with ⟨_, _, rfl⟩ | ⟨hb, _⟩
    · exact h
    · cases hb
  | search hs =>
    obtain ⟨_, _, rfl⟩ := takeFrame_some hs
    exact h.setFrame fun _ => rfl
  | searchFails => exact h
  | mapTo hm => exact mapTo hm
  | @free page f =>
    have hs : FramesOk n (if f = true ∧ (s.page page).address ≠ 0
        then s.setFrame (s.page page).address false else s) := by
      by_cases hf : f = true ∧ (s.page page).address ≠ 0
      · rw [if_pos hf]
        exact h.setFrame fun h0 => absurd h0 hf.2
      · rw [if_neg hf]
        exact h
    exact hs.setPage

/-- The frame a call hands out is not 0, and it exists exactly when the frames are not exhausted. -/
lemma FrameStep.handsOut {c : FrameCall} {u : Nat} (st : FrameStep s (c, some frame) t)
    (h : FramesOk n s) (hn : 32 ∣ n) :
    c.searches ∧ frame ≠ 0 ∧ (frame + 1 ≤ u ↔ ¬ Exhausted u s) := by
  have found : s.firstFrame ≠ 2 ^ 32 - 1 →
      s.firstFrame ≠ 0 ∧ (s.firstFrame + 1 ≤ u ↔ ¬ Exhausted u s) := by
    intro hne
    obtain ⟨hlt, hclear, hbelow⟩ := firstFrame_spec (h.length ▸ hn) hne
    refine ⟨fun h0 => ?_, fun hle he => ?_, fun hne => ?_⟩
    · rw [h0, h.zero] at hclear
      cases hclear
    · rw [he.1 _ hle] at hclear
      cases hclear
    · by_contra hgt
      exact hne ⟨fun g hg => hbelow g (by omega), _, hlt, hclear⟩
  cases st with
  | map hm =>
    rcases mapPage_ok hm with ⟨hb, _⟩ | ⟨_, hne, _⟩
    · cases hb
    · exact ⟨trivial, found hne⟩
  | search hs =>
    obtain ⟨hne, rfl, _⟩ := takeFrame_some hs
    exact ⟨trivial, found hne⟩

/-- A call that searches and hands out nothing found no clear frame. -/
lemma FrameStep.handsOut_none {c : FrameCall} {u : Nat} (st : FrameStep s (c, none) t)
    (h : FramesOk n s) (hn : 32 ∣ n) (hlt : n < 2 ^ 32) (hc : c.searches) : ¬ Exhausted u s := by
  have none : s.firstFrame = 2 ^ 32 - 1 → ¬ Exhausted u s := by
    rintro e ⟨_, g, hg, hclear⟩
    rcases firstFalseBit_first (m := s.frames) (h.length.symm ▸ hn : 32 ∣ s.framesLength) with
      ⟨_, hall⟩ | ⟨hfirst, _⟩
    · rw [State.frameUsed, getBit_eq, hall g hg] at hclear
      cases hclear
    · have hlen := h.length
      rw [State.firstFrame] at e
      omega
  cases st with
  | mapFails hm =>
    rcases mapPage_ok hm with ⟨_, e, _⟩ | ⟨hb, _⟩
    · exact none e
    · cases hb
  | searchFails hs =>
    refine none ?_
    by_contra hne
    rw [takeFrame, if_neg hne] at hs
    cases hs
  | mapTo => exact hc.elim
  | free => exact hc.elim

/-- What holds of the bitset after a run. -/
lemma run_framesOk {es} (r : Run FrameStep s es t) (h : FramesOk n s) : FramesOk n t :=
  r.invariant (fun _ _ _ h st => st.framesOk h) h

/-- The bitset `paging_install` sets up. -/
lemma installFrames_framesOk (upperMemory : Nat) (s : State) :
    FramesOk (ceilMultiple (upperMemory / 0x1000) 32) (installFrames upperMemory s) := by
  refine ⟨rfl, ?_⟩
  rw [State.frameUsed, getBit_eq]
  have hb := bit_setBit (emptyBitset (floorRatio upperMemory 0x1000)).1 0 true 0
  rw [if_pos rfl] at hb
  exact hb

/-- The length of the bitset: the number of whole frames, rounded up. -/
lemma frames_length {upperMemory : Nat} (hu : upperMemory < 2 ^ 32) :
    upperMemory / 0x1000 ≤ ceilMultiple (upperMemory / 0x1000) 32 ∧
      ceilMultiple (upperMemory / 0x1000) 32 < 2 ^ 32 ∧
      32 ∣ ceilMultiple (upperMemory / 0x1000) 32 := by
  obtain ⟨h1, h2, h3⟩ := ceilMultiple_spec (n := upperMemory / 0x1000) (k := 32) (by omega) (by omega)
  exact ⟨h1, by omega, h3⟩

/-- Whether a frame handed out exists. -/
def FrameExists (upperMemory frame : Nat) : Prop :=
  frame ≠ 0 ∧ frame + 1 ≤ upperMemory / 0x1000

instance (upperMemory frame : Nat) : Decidable (FrameExists upperMemory frame) :=
  inferInstanceAs (Decidable (_ ∧ _))

/-- For every `UPPER_MEMORY` and every sequence of calls from the bitset that `paging_install` sets
up: all frames handed out are real memory if and only if no frame is searched for in a state in
which all whole frames below `UPPER_MEMORY` are in use and the rounded bitset has a clear bit left.
No state is like that when the number of whole frames is a multiple of 32. -/
theorem only_real_memory {upperMemory : Nat} (hu : upperMemory < 2 ^ 32) {s t es}
    (r : Run FrameStep (installFrames upperMemory s) es t) :
    ((∀ c frame, (c, some frame) ∈ es → FrameExists upperMemory frame) ↔
      Run (Guarded (fun s e => e.1.searches → ¬ Exhausted (upperMemory / 0x1000) s) FrameStep)
        (installFrames upperMemory s) es t) ∧
    (upperMemory / 0x1000 % 32 = 0 → ¬ Exhausted (upperMemory / 0x1000) t) := by
  obtain ⟨hle, hlt, hdvd⟩ := frames_length hu
  have h0 := installFrames_framesOk upperMemory s
  refine ⟨⟨fun hall => ?_, fun hg c frame hm => ?_⟩, fun hmod he => ?_⟩
  · induction r with
    | nil => exact .nil
    | @snoc es t e u r st ih =>
      obtain ⟨c, out⟩ := e
      have ht := run_framesOk r h0
      refine .snoc (ih fun c f hm => hall c f (List.mem_append_left _ hm)) ⟨fun hc => ?_, st⟩
      cases out with
      | none => exact st.handsOut_none ht hdvd hlt hc
      | some frame =>
        exact (st.handsOut ht hdvd).2.2.mp (hall c frame (by simp)).2
  · induction hg with
    | nil => simp at hm
    | snoc hg st ih =>
      rcases List.mem_append.mp hm with hm | hm
      · exact ih hg.of_guarded hm
      · cases List.mem_singleton.mp hm
        obtain ⟨hc, hne, hiff⟩ := st.2.handsOut (u := upperMemory / 0x1000)
          (run_framesOk hg.of_guarded h0) hdvd
        exact ⟨hne, hiff.mpr (st.1 hc)⟩
  · obtain ⟨hall, g, hg, hclear⟩ := he
    have hlen : ceilMultiple (upperMemory / 0x1000) 32 = upperMemory / 0x1000 := by
      rw [ceilMultiple, if_neg (by omega)]
    rw [(run_framesOk r h0).length, hlen] at hg
    rw [hall g hg] at hclear
    cases hclear

/-- No page is mapped. -/
def emptyState : State where
  frames := fun _ => 0
  framesLength := 0
  physical := fun _ => 0
  directories := fun _ => zeroDirectory
  tables := fun _ _ => zeroPage
  currentDirectory := 0
  kernelDirectory := 0
  baseDirectory := 0

/-- The search finds the first clear frame, if there is one. -/
lemma firstFrame_eq (hl : 32 ∣ s.framesLength) (hlt : frame < s.framesLength)
    (hu : ∀ g, s.frameUsed g = decide (g < frame)) : s.firstFrame = frame := by
  simp only [State.frameUsed, getBit_eq] at hu
  have hclear : s.frames.bit 0 frame = false := by simp [hu]
  rcases firstFalseBit_first (m := s.frames) hl with ⟨_, hall⟩ | ⟨_, hfree, hbelow⟩
  · rw [hall frame hlt] at hclear
    cases hclear
  · rw [hu, decide_eq_false_iff_not, not_lt] at hfree
    refine le_antisymm (le_of_not_gt fun hgt => ?_) hfree
    rw [hbelow frame hgt] at hclear
    cases hclear

/-- The search takes the first clear frame, if there is one. -/
lemma takeFrame_eq (hl : 32 ∣ s.framesLength) (hlt : frame < s.framesLength)
    (h32 : s.framesLength < 2 ^ 32) (hu : ∀ g, s.frameUsed g = decide (g < frame)) :
    takeFrame s = some (frame, s.setFrame frame true) := by
  rw [takeFrame, firstFrame_eq hl hlt hu, if_neg (by omega)]

/-- Frame `frame` is clear. -/
lemma not_exhausted (hu : ∀ g, s.frameUsed g = decide (g < frame)) (hn : frame < n) :
    ¬ Exhausted n s := by
  intro h
  have hused := h.1 frame hn
  simp [hu] at hused

/-- Searches one after the other find the frames in their order, and none of them is made in a state
without a clear frame below `n`. -/
lemma searches (k : Nat) (hl : 32 ∣ s.framesLength) (hlt : s.framesLength < 2 ^ 32)
    (hu : ∀ g, s.frameUsed g = decide (g < frame)) (hk : frame + k ≤ s.framesLength)
    (hn : frame + k ≤ n) :
    ∃ es t, Run (Guarded (fun s e => e.1.searches → ¬ Exhausted n s) FrameStep) s es t ∧
      t.framesLength = s.framesLength ∧ ∀ g, t.frameUsed g = decide (g < frame + k) := by
  induction k with
  | zero => exact ⟨[], s, .nil, rfl, hu⟩
  | succ k ih =>
    obtain ⟨es, t, r, hlen, ht⟩ := ih (by omega) (by omega)
    have hstep := takeFrame_eq (hlen.symm ▸ hl) (by omega) (by omega) ht
    have hclear : ¬ Exhausted n t := not_exhausted ht (by omega)
    refine ⟨_, _, r.snoc ⟨fun _ => hclear, .search hstep⟩, hlen, fun g => ?_⟩
    rw [frameUsed_setFrame, ht]
    by_cases hg : g = frame + k
    · simp [hg]
    · rw [if_neg hg]
      exact decide_eq_decide.mpr (by omega)

/-- After `paging_install` frame 0 is in use and no other. -/
lemma installFrames_used (upperMemory g : Nat) (s : State) :
    (installFrames upperMemory s).frameUsed g = decide (g < 1) := by
  rw [State.frameUsed, getBit_eq]
  refine (bit_setBit _ 0 true g).trans ?_
  by_cases hg : g = 0
  · simp [hg]
  · rw [if_neg hg, decide_eq_false (by omega)]
    simp [Bytes.bit, memSet_apply]

/-- `UPPER_MEMORY` for a `mem_upper` of 8196: the machine has 2049 frames and can boot, and the
bitset has 2080 bits. -/
def oddMemory : Nat := 1024 * 8196

lemma oddMemory_length : (installFrames oddMemory emptyState).framesLength = 2080 := by
  decide +kernel

/-- On that machine `k` searches find the frames up to `k`, and the next one finds frame `k + 1`. -/
lemma oddMemory_searches (k : Nat) (hk : k ≤ 2048) :
    ∃ es t, Run (Guarded (fun s e => e.1.searches → ¬ Exhausted 2049 s) FrameStep)
        (installFrames oddMemory emptyState) es t ∧
      takeFrame t = some (1 + k, t.setFrame (1 + k) true) ∧
      ∀ g, t.frameUsed g = decide (g < 1 + k) := by
  have hlen := oddMemory_length
  obtain ⟨es, t, r, ht, hu⟩ := searches k (hlen ▸ by decide) (hlen ▸ by decide)
    (installFrames_used oddMemory · emptyState) (by omega) (by omega : 1 + k ≤ 2049)
  rw [hlen] at ht
  exact ⟨es, t, r, takeFrame_eq (ht ▸ by decide) (by omega) (by omega) hu, hu⟩

/-- The 2048 frames behind frame 0 are found one after the other, and all of them exist. -/
theorem only_real_memory_found :
    ∃ es t, Run FrameStep (installFrames oddMemory emptyState) es t ∧ (.search, some 2048) ∈ es ∧
      ∀ c frame, (c, some frame) ∈ es → FrameExists oddMemory frame := by
  obtain ⟨es, t, r, ht, hu⟩ := oddMemory_searches 2047 (by decide)
  have r' := r.snoc ⟨fun _ => not_exhausted hu (by decide), .search ht⟩
  refine ⟨_, _, r'.of_guarded, ?_, ?_⟩
  · exact List.mem_append_right _ (List.mem_singleton.mpr rfl)
  · exact (only_real_memory (by decide) r'.of_guarded).1.mpr r'

/-- The search that follows finds frame 2049, which does not exist. -/
theorem only_real_memory_odd :
    ∃ es t, Run FrameStep (installFrames oddMemory emptyState) es t ∧
      ∃ c frame, (c, some frame) ∈ es ∧ ¬ FrameExists oddMemory frame := by
  obtain ⟨es, t, r, ht, _⟩ := oddMemory_searches 2048 (by decide)
  refine ⟨_, _, r.of_guarded.snoc (.search ht), .search, 2049, ?_, by decide⟩
  exact List.mem_append_right _ (List.mem_singleton.mpr rfl)

end MarioBrOS.Paging
