import MarioBrOS.Paging.Clone

/-!
# The clone of a directory that rests

`clone_directory` of a directory that is not the current one: no allocation changes it, so the clone
translates alike (`cloneDirectory_cloned`). Its tables are different ones, and new.
-/

namespace MarioBrOS.Paging

variable {μ : Type} {H : KernelHeap μ} {live : μ → Set Nat} {m₀ m m' m₁ : Machine μ}
  {dir copy i j p : Nat} {b : Bool}

/-- A call returns, and what follows it returns. -/
lemma bind_eq_ok {α β : Type} {x : Except String α} {f : α → Except String β} {r : β} :
    (x >>= f) = .ok r ↔ ∃ a, x = .ok a ∧ f a = .ok r := by
  cases x with
  | error err => exact ⟨nofun, nofun⟩
  | ok a =>
    constructor
    · intro h
      exact ⟨a, rfl, h⟩
    · rintro ⟨_, h, hf⟩
      cases h
      exact hf

/-- The directory has different tables, for the addresses there are. -/
structure OwnTables (m : Machine μ) (dir : Nat) : Prop where
  lt : ∀ i, (pageEntry m.paging dir i).present = true → i < 1024
  distinct : ∀ i j, (pageEntry m.paging dir i).present = true →
    (pageEntry m.paging dir j).present = true →
    pageTable m.paging dir i = pageTable m.paging dir j → i = j

lemma OwnTables.congr (h : OwnTables m dir)
    (hd : m'.paging.directories dir = m.paging.directories dir) : OwnTables m' dir := by
  have hE : ∀ i, pageEntry m'.paging dir i = pageEntry m.paging dir i := fun i => by
    unfold pageEntry
    rw [hd]
  have hT : ∀ i, pageTable m'.paging dir i = pageTable m.paging dir i := fun i => by
    unfold pageTable
    rw [hd]
  refine ⟨fun i hi => ?_, fun i j hi hj he => ?_⟩
  · rw [hE] at hi
    exact h.lt i hi
  · rw [hE] at hi hj
    rw [hT, hT] at he
    exact h.distinct i j hi hj he

lemma OwnTables.same (h : OwnTables m dir) (hs : SameSpaces m.paging m'.paging) :
    OwnTables m' dir := by
  refine ⟨fun i hi => ?_, fun i j hi hj he => ?_⟩
  · rw [hs.present] at hi
    exact h.lt i hi
  · rw [hs.present] at hi hj
    rw [hs.table, hs.table] at he
    exact h.distinct i j hi hj he

/-- A table that the directory does not have yet. -/
lemma OwnTables.install (h : OwnTables m dir) (en : PageDirectoryEntry) (hi : i < 1024)
    (hp : ∀ j, (pageEntry m.paging dir j).present = true → pageTable m.paging dir j ≠ p)
    (hE : ∀ j, pageEntry m'.paging dir j = if j = i then en else pageEntry m.paging dir j)
    (hT : ∀ j, pageTable m'.paging dir j = if j = i then p else pageTable m.paging dir j) :
    OwnTables m' dir := by
  refine ⟨fun j hj => ?_, fun j k hj hk he => ?_⟩
  · rw [hE] at hj
    split_ifs at hj with h1
    · omega
    · exact h.lt j hj
  · rw [hE] at hj hk
    rw [hT, hT] at he
    split_ifs at hj hk he with h1 h2 h2
    · omega
    · exact absurd he.symm (hp k hk)
    · exact absurd he (hp j hj)
    · exact h.distinct j k hj hk he

lemma cloneTable_own (hk : InKernel H.live m₀) (h : CloneInv H.live m₀ dir copy m)
    (ho : OwnTables m copy) (hi : i < 1024) (hrun : cloneTable H dir copy i m = .ok (b, m')) :
    OwnTables m' copy := by
  unfold cloneTable at hrun
  split_ifs at hrun with hc
  · unfold clonePageTable at hrun
    obtain ⟨_, htable, hrun⟩ := bind_eq_ok.mp hrun
    obtain ⟨⟨q, m₁⟩, ha, htable⟩ := bind_eq_ok.mp htable
    dsimp only at htable
    by_cases h0 : q = 0
    · rw [if_pos h0] at htable
      cases htable
    rw [if_neg h0] at htable
    cases htable
    cases hrun
    have hkm := h.grows.inKernel hk
    have g := H.grows hkm.current ha
    obtain ⟨hfresh, _, _⟩ := H.fresh hkm.current ha h0
    obtain ⟨hd, _, _⟩ := g.apart h.apart
    -- the tables that the copy has were live before the allocation
    refine (ho.congr hd).install (pageEntry m₁.paging dir i) (p := q) hi (fun j hj => ?_)
      (fun j => ?_) fun j => ?_
    · unfold pageEntry at hj
      unfold pageTable
      rw [hd] at hj ⊢
      rintro rfl
      exact hfresh (h.apart.table j hj)
    · dsimp only
      rw [pageEntry_setEntry]
      simp only [true_and]
      rfl
    · dsimp only
      rw [pageTable_setEntry]
      simp only [true_and]
      rfl
  · cases hrun
    exact ho

lemma cloneTables_own {left : Nat} (hk : InKernel H.live m₀) (hz : m₀.paging.frameUsed 0 = true)
    (h : CloneInv H.live m₀ dir copy m) (ho : OwnTables m copy)
    (hrun : cloneTables H dir copy left m = .ok (b, m')) : OwnTables m' copy := by
  induction left generalizing m b with
  | zero =>
    cases hrun
    exact ho
  | succ left ih =>
    unfold cloneTables at hrun
    obtain ⟨⟨b₁, m₁⟩, hfirst, hrun⟩ := bind_eq_ok.mp hrun
    obtain ⟨⟨b₂, m₂⟩, hrest, hrun⟩ := bind_eq_ok.mp hrun
    cases hrun
    exact ih (cloneTable_spec hk hz h hfirst).1.inv (cloneTable_own hk h ho (by omega) hfirst)
      hrest

lemma cloneLoop_own {rounds : Nat} (hk : InKernel H.live m₀) (hz : m₀.paging.frameUsed 0 = true)
    (h : CloneInv H.live m₀ dir copy m) (ho : OwnTables m copy)
    (hrun : cloneLoop H dir copy rounds m = .ok (some m')) : OwnTables m' copy := by
  induction rounds generalizing m with
  | zero => cases hrun
  | succ rounds ih =>
    unfold cloneLoop at hrun
    obtain ⟨⟨b, m₁⟩, htables, hrun⟩ := bind_eq_ok.mp hrun
    dsimp only at hrun
    have ho₁ := cloneTables_own hk hz h ho htables
    cases b with
    | true =>
      cases hrun
      exact ho₁
    | false => exact ih (cloneTables_spec hk hz h le_rfl htables).1.inv ho₁ hrun

/-- The physical addresses of the tables are written to the directory of the copy. -/
lemma cloneAddresses_other (dir copy left : Nat) (s : State) :
    (cloneAddresses dir copy left s).tables = s.tables ∧
      (cloneAddresses dir copy left s).frames = s.frames ∧
      (cloneAddresses dir copy left s).physical = s.physical ∧
      ∀ d, d ≠ copy → (cloneAddresses dir copy left s).directories d = s.directories d := by
  induction left generalizing s with
  | zero => exact ⟨rfl, rfl, rfl, fun _ _ => rfl⟩
  | succ left ih =>
    unfold cloneAddresses
    dsimp only
    split_ifs with hp
    · obtain ⟨h1, h2, h3, h4⟩ := ih (s.setDirectory copy ((s.directories copy).setEntry
        (1024 - (left + 1)) _ (pageTable s copy (1024 - (left + 1)))))
      exact ⟨h1, h2, h3, fun d hd => (h4 d hd).trans (Function.update_of_ne hd ..)⟩
    · exact ih s

/-- A clone of a directory that is not the current one. -/
structure Cloned (live : μ → Set Nat) (m : Machine μ) (dir copy : Nat) (m' : Machine μ) :
    Prop where
  grows : Grows live m m'
  apart : Apart live m' copy
  fresh : copy ∉ live m.heap
  newTable : ∀ i, (pageEntry m'.paging copy i).present = true →
    pageTable m'.paging copy i ∉ live m.heap
  own : OwnTables m' copy
  same : ∀ v, v < 0x100000 → translate m'.paging copy v = translate m.paging dir v

lemma cloneDirectory_cloned {rounds : Nat} (hk : InKernel H.live m)
    (hz : m.paging.frameUsed 0 = true) (ha : Apart H.live m dir)
    (h : cloneDirectory H rounds dir m = .ok (some (copy, m'))) :
    Cloned H.live m dir copy m' := by
  obtain ⟨copy', m₁, o, halloc, h0, hl, ho⟩ := cloneDirectory_ok h
  cases o with
  | none => cases ho
  | some m₃ =>
    cases ho
    obtain ⟨hinv, hE⟩ := CloneInv.start hk (.inr ha) halloc h0
    obtain ⟨hsearch, hall⟩ := cloneLoop_spec hk hz hinv hl
    have hsame : SameSpaces m₃.paging (cloneAddresses dir copy 1024 m₃.paging) :=
      cloneAddresses_same 1024 m₃.paging
    obtain ⟨h1, h2, h3, h4⟩ := cloneAddresses_other dir copy 1024 m₃.paging
    have habs : ∀ i, ¬ (pageEntry (clearDirectory copy m₁).paging copy i).present = true :=
      fun i hi => by
        rw [hE] at hi
        cases hi
    have hsynced : Synced dir copy (clearDirectory copy m₁) := fun v _ hp => absurd hp (habs _)
    have hown := cloneLoop_own hk hz hinv
      ⟨fun i hi => absurd hi (habs i), fun i j hi => absurd hi (habs i)⟩ hl
    have hi := hsearch.inv
    have hnecopy : copy ≠ m₃.paging.currentDirectory := hi.apart.ne
    refine ⟨hi.grows.own hsame.current hsame.kernel hsame.base hsame.length h2 h3
      (fun d hd => h4 d ?_) fun q _ => congrFun h1 q, ⟨hi.apart.alive, ?_, fun i hp => ?_,
      fun i j hp hq => ?_⟩, hi.new, fun i hp => ?_, hown.same hsame, fun v hv => ?_⟩
    · rintro rfl
      obtain hd | hd := hd
      · exact hi.new hd
      · exact hnecopy (hd.trans hi.grows.current.symm)
    · dsimp only
      rw [hsame.current]
      exact hnecopy
    · dsimp only at hp ⊢
      rw [hsame.present] at hp
      rw [hsame.table]
      exact hi.apart.table i hp
    · dsimp only at hp hq ⊢
      rw [hsame.current] at hq ⊢
      rw [hsame.present] at hp hq
      rw [hsame.table, hsame.table]
      exact hi.apart.other i j hp hq
    · dsimp only at hp ⊢
      rw [hsame.present] at hp
      rw [hsame.table]
      exact hi.newTable i hp
    · -- the base is not the current directory, so it did not grow in the meantime
      dsimp only
      rw [hsame.translate, ← hi.grows.translate_eq ha v]
      by_cases hp : (pageEntry m₃.paging copy (v / 1024)).present = true
      · exact hsearch.synced hsynced (quietClone_of_apart hk hz ha copy m₁ halloc h0) v hv hp
      · have hp' : ¬ (pageEntry m₃.paging dir (v / 1024)).present = true := fun hc =>
          hp (hall _ (by omega) hc)
        unfold translate
        rw [if_neg fun hc => hp hc.1, if_neg fun hc => hp' hc.1]

/-- A clone that has rounds enough ends. -/
lemma cloneDirectory_ends {rounds dir : Nat} (hk : InKernel H.live m)
    (hz : m.paging.frameUsed 0 = true) (hs : Sees H.live m dir) (hrounds : 1024 < rounds) :
    cloneDirectory H rounds dir m ≠ .ok none := by
  intro h
  obtain ⟨copy, m₁, o, ha, h0, hl, ho⟩ := cloneDirectory_ok h
  obtain ⟨hinv, _⟩ := CloneInv.start hk hs ha h0
  cases o with
  | none =>
    refine cloneLoop_terminates hk hz hinv ?_ hl
    have := Finset.card_filter_le (Finset.range 1024)
      fun i => (pageEntry (clearDirectory copy m₁).paging copy i).present = false
    rw [Finset.card_range] at this
    exact this.trans_lt hrounds
  | some m₃ => cases ho

end MarioBrOS.Paging
