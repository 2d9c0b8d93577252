import MarioBrOS.Fs.Inter
import MarioBrOS.Lib.Run
import Mathlib.Data.List.Perm.Subperm
import Mathlib.Data.List.Nodup

/-!
# The descriptor table

Runs of calls on file descriptors. Next to the state of the kernel stand the entries of the open
descriptors, as their own calls left them, and the words of the heap that failed calls to `openfile`
have kept. `Described` is the invariant: the table holds these entries, each at the index behind its
descriptor, and nothing else. A call to `close` that shrinks the table fills no more slots of the
new one than there are open descriptors, so the invariant survives if the memory of the others is
clear (`descriptor_table`).
-/

namespace MarioBrOS.Fs

/-! ## Searching the table -/

section Search

variable {fdt : Nat → FdtEntry} {i j n r : Nat}

/-- `freeSlot` stops at the first free slot, or behind the last one. -/
lemma freeSlot_spec (h : freeSlot fdt n i = r) :
    r ≤ i + n ∧ (r < i + n → (fdt r).inode = 0) ∧
      ∀ j, i ≤ j → j < r → (fdt j).inode ≠ 0 := by
  induction n generalizing i with
  | zero =>
    cases h
    exact ⟨Nat.le_refl _, fun h => absurd h (Nat.lt_irrefl _), fun j h1 h2 => absurd h1 (by
      rw [freeSlot] at h2
      omega)⟩
  | succ n ih =>
    rw [freeSlot] at h
    split at h
    · rename_i hi
      rcases ih h with ⟨h1, h2, h3⟩
      refine ⟨by omega, fun hr => h2 (by omega), fun j hj hr => ?_⟩
      by_cases e : j = i
      · exact e ▸ hi
      · exact h3 j (by omega) hr
    · rename_i hi
      cases h
      exact ⟨by omega, fun _ => not_not.mp hi, fun j h1 h2 => absurd h1 (by omega)⟩

/-- An entry that `lastOpen` finds is in use and lies behind `i`. -/
lemma lastOpen_some (h : lastOpen fdt i n = some j) : i < j ∧ j < n ∧ (fdt j).inode ≠ 0 := by
  induction n with
  | zero => cases h
  | succ n ih =>
    rw [lastOpen] at h
    split at h
    · cases h
    · split at h
      · cases h
        exact ⟨by omega, by omega, by assumption⟩
      · rcases ih h with ⟨h1, h2, h3⟩
        exact ⟨h1, by omega, h3⟩

/-- If `lastOpen` finds nothing, no entry behind `i` is in use. -/
lemma lastOpen_none (h : lastOpen fdt i n = none) (hj : i < j) (hn : j < n) :
    (fdt j).inode = 0 := by
  induction n with
  | zero => omega
  | succ n ih =>
    rw [lastOpen] at h
    split at h
    · omega
    · split at h
      · cases h
      · rename_i h0
        by_cases e : j = n
        · exact e ▸ not_not.mp h0
        · exact ih h (by omega)

end Search

/-! ## The invariant -/

/-- The table holds the entries of the open descriptors, each at the index behind its descriptor,
and no others; `fdt_num` counts these descriptors and the words that failed calls have kept. -/
structure Described (s : Inter) (opened : List FdtEntry) (lost : List Nat) : Prop where
  pointers : (opened.map FdtEntry.this ++ lost).Nodup
  bounded : ∀ f ∈ opened.map FdtEntry.this ++ lost, 0 < f ∧ f < 2 ^ 32
  inode_ne : ∀ e ∈ opened, e.inode ≠ 0
  index_lt : ∀ e ∈ opened, s.deref e.this < s.fdtSize
  entry : ∀ e ∈ opened, s.fdt (s.deref e.this) = e
  others : ∀ i, i < s.fdtSize → (s.fdt i).inode ≠ 0 →
    s.fdt i ∈ opened ∧ s.deref (s.fdt i).this = i
  num : s.fdtNum = opened.length + lost.length
  size_pos : 0 < s.fdtSize

/-- There are fewer words of the heap than addresses. -/
lemma pointers_length_lt {pointers : List Nat} (hnd : pointers.Nodup)
    (hb : ∀ f ∈ pointers, 0 < f ∧ f < 2 ^ 32) : pointers.length < 2 ^ 32 := by
  have hsub : pointers ⊆ (List.range (2 ^ 32 - 1)).map (· + 1) := by
    intro f hf
    have := hb f hf
    exact List.mem_map.mpr ⟨f - 1, List.mem_range.mpr (by omega), by omega⟩
  have hle := (List.subperm_of_subset hnd hsub).length_le
  rw [List.length_map, List.length_range] at hle
  omega

namespace Described

variable {s : Inter} {opened : List FdtEntry} {lost : List Nat} {e e' : FdtEntry} {f i : Nat}

lemma this_nodup (D : Described s opened lost) : (opened.map FdtEntry.this).Nodup :=
  (List.nodup_append.mp D.pointers).1

lemma nodup (D : Described s opened lost) : opened.Nodup := List.Nodup.of_map _ D.this_nodup

/-- An open descriptor has one entry. -/
lemma this_inj (D : Described s opened lost) (h : e ∈ opened) (h' : e' ∈ opened)
    (ht : e.this = e'.this) : e = e' :=
  List.inj_on_of_nodup_map D.this_nodup h h' ht

/-- Distinct open descriptors have distinct indices. -/
lemma index_inj (D : Described s opened lost) (h : e ∈ opened) (h' : e' ∈ opened)
    (hi : s.deref e.this = s.deref e'.this) : e = e' := by
  rw [← D.entry e h, ← D.entry e' h', hi]

/-- There are fewer descriptors than addresses. -/
lemma num_lt (D : Described s opened lost) : opened.length + lost.length < 2 ^ 32 := by
  have h := pointers_length_lt D.pointers D.bounded
  rwa [List.length_append, List.length_map] at h

/-- There are no more open descriptors than slots. -/
lemma length_le (D : Described s opened lost) : opened.length ≤ s.fdtSize := by
  have hnd : (opened.map fun e => s.deref e.this).Nodup :=
    D.nodup.map_on fun e he e' he' h => D.index_inj he he' h
  have hsub : opened.map (fun e => s.deref e.this) ⊆ List.range s.fdtSize := by
    intro i hi
    rcases List.mem_map.mp hi with ⟨e, he, rfl⟩
    exact List.mem_range.mpr (D.index_lt e he)
  have hle := (List.subperm_of_subset hnd hsub).length_le
  rwa [List.length_map, List.length_range] at hle

/-- A fresh table is empty. -/
lemma install (v : Volume) (memory : Nat → FdtEntry) (deref : Nat → Nat) :
    Described (Inter.install v memory deref) [] [] where
  pointers := List.nodup_nil
  bounded := by simp
  inode_ne := by simp
  index_lt := by simp
  entry := by simp
  others i hi h := by
    have hi' : i < 256 := hi
    exact absurd (by simp only [Inter.install, if_pos hi']) h
  num := rfl
  size_pos := Nat.succ_pos 255

/-- The invariant is about the table and the words behind open descriptors. -/
lemma congr {t : Inter} (D : Described s opened lost) (h1 : t.fdt = s.fdt)
    (h2 : t.fdtSize = s.fdtSize) (h3 : t.fdtNum = s.fdtNum)
    (h4 : ∀ e ∈ opened, t.deref e.this = s.deref e.this) : Described t opened lost where
  pointers := D.pointers
  bounded := D.bounded
  inode_ne := D.inode_ne
  index_lt e he := by
    rw [h4 e he, h2]
    exact D.index_lt e he
  entry e he := by
    rw [h4 e he, h1]
    exact D.entry e he
  others i hi h := by
    rw [h1] at h ⊢
    rcases D.others i (h2 ▸ hi) h with ⟨hm, hd⟩
    exact ⟨hm, (h4 _ hm).trans hd⟩
  num := h3.trans D.num
  size_pos := h2 ▸ D.size_pos

lemma withVolume (D : Described s opened lost) (v : Volume) :
    Described (s.withVolume v) opened lost :=
  D.congr rfl rfl rfl fun _ _ => rfl

/-! ## Opening -/

/-- The index that `openfile` finds is that of a free slot, and the descriptors stay where they are.
-/
lemma reserve (D : Described s opened lost) (memory : Nat → FdtEntry)
    (hf : f ∉ opened.map FdtEntry.this ++ lost) (h0 : 0 < f ∧ f < 2 ^ 32) :
    Described (s.reserve f memory) opened (f :: lost) ∧
      (s.reserve f memory).deref f < (s.reserve f memory).fdtSize ∧
      ((s.reserve f memory).fdt ((s.reserve f memory).deref f)).inode = 0 := by
  generalize hr : freeSlot s.fdt s.fdtSize 0 = r
  rcases freeSlot_spec hr with ⟨hle, hfree, hused⟩
  rw [Nat.zero_add] at hle hfree
  have hsize := D.size_pos
  -- the table, as long as before or doubled, holds what it held, and nothing behind
  have hT : ∃ T : Inter, s.reserve f memory =
        { T with deref := Function.update s.deref f r, fdtNum := add32 s.fdtNum 1 } ∧
      s.fdtSize ≤ T.fdtSize ∧ r < T.fdtSize ∧ (∀ i, i < s.fdtSize → T.fdt i = s.fdt i) ∧
      ∀ i, s.fdtSize ≤ i → i < T.fdtSize → (T.fdt i).inode = 0 := by
    unfold Inter.reserve
    rw [hr]
    dsimp only
    by_cases h : r = s.fdtSize
    · refine ⟨s.double memory, by rw [if_pos h]; rfl, ?_, ?_, fun i hi => if_pos hi, ?_⟩
      · exact Nat.le_mul_of_pos_left _ (by omega)
      · show r < 2 * s.fdtSize
        omega
      · intro i h1 h2
        have h2 : i < 2 * s.fdtSize := h2
        unfold Inter.double
        dsimp only
        rw [if_neg (by omega), if_pos h2]
    · exact ⟨s, by rw [if_neg h], Nat.le_refl _, by omega, fun i _ => rfl, fun i h1 h2 => by omega⟩
  rcases hT with ⟨T, hT, hge, hrT, hold, hnew⟩
  rw [hT]
  have hne : ∀ e ∈ opened, e.this ≠ f := fun e he h =>
    hf (List.mem_append_left _ (List.mem_map.mpr ⟨e, he, h⟩))
  have hd : ∀ e ∈ opened, Function.update s.deref f r e.this = s.deref e.this := fun e he =>
    Function.update_of_ne (hne e he) _ _
  have hp : (opened.map FdtEntry.this ++ f :: lost).Nodup :=
    List.nodup_middle.mpr (List.nodup_cons.mpr ⟨hf, D.pointers⟩)
  have hb : ∀ g ∈ opened.map FdtEntry.this ++ f :: lost, 0 < g ∧ g < 2 ^ 32 := by
    intro g hg
    rcases List.mem_cons.mp (List.perm_middle.mem_iff.mp hg) with rfl | hg
    · exact h0
    · exact D.bounded g hg
  have hlt := pointers_length_lt hp hb
  rw [List.length_append, List.length_map, List.length_cons] at hlt
  refine ⟨⟨hp, hb, D.inode_ne, ?_, ?_, ?_, ?_, ?_⟩, ?_, ?_⟩
  · intro e he
    show Function.update s.deref f r e.this < T.fdtSize
    rw [hd e he]
    exact Nat.lt_of_lt_of_le (D.index_lt e he) hge
  · intro e he
    show T.fdt (Function.update s.deref f r e.this) = e
    rw [hd e he, hold _ (D.index_lt e he), D.entry e he]
  · intro i hi h
    have hlti : i < s.fdtSize := by
      by_contra hc
      exact h (hnew i (by omega) hi)
    have h : (T.fdt i).inode ≠ 0 := h
    show T.fdt i ∈ opened ∧ Function.update s.deref f r (T.fdt i).this = i
    rw [hold i hlti] at h ⊢
    rcases D.others i hlti h with ⟨hm, hi'⟩
    exact ⟨hm, (hd _ hm).trans hi'⟩
  · show add32 s.fdtNum 1 = _
    rw [D.num, List.length_cons, add32_of_lt (by omega), Nat.add_assoc]
  · exact Nat.lt_of_lt_of_le hsize hge
  · show Function.update s.deref f r f < T.fdtSize
    rw [Function.update_self]
    exact hrT
  · show (T.fdt (Function.update s.deref f r f)).inode = 0
    rw [Function.update_self]
    by_cases h : r < s.fdtSize
    · rw [hold r h]
      exact hfree h
    · exact hnew r (by omega) hrT

/-- A descriptor whose word points to a free slot is opened by filling the slot. -/
lemma fill (D : Described s opened (f :: lost)) (hlt : s.deref f < s.fdtSize)
    (hfree : (s.fdt (s.deref f)).inode = 0) (ht : e.this = f) (hi : e.inode ≠ 0) :
    Described (s.setEntry (s.deref f) e) (e :: opened) lost := by
  subst ht
  have hne : ∀ e' ∈ opened, s.deref e'.this ≠ s.deref e.this := by
    intro e' he' h
    rw [← h, D.entry e' he'] at hfree
    exact D.inode_ne e' he' hfree
  have hmem : ∀ g, g ∈ (e :: opened).map FdtEntry.this ++ lost →
      g ∈ opened.map FdtEntry.this ++ e.this :: lost := by
    intro g hg
    exact List.perm_middle.mem_iff.mpr (by rwa [List.map_cons, List.cons_append] at hg)
  refine ⟨?_, fun g hg => D.bounded g (hmem g hg), ?_, ?_, ?_, ?_, ?_, D.size_pos⟩
  · have h := D.pointers
    rw [List.nodup_middle] at h
    rwa [List.map_cons, List.cons_append]
  · intro e' he'
    rcases List.mem_cons.mp he' with rfl | he'
    · exact hi
    · exact D.inode_ne e' he'
  · intro e' he'
    rcases List.mem_cons.mp he' with rfl | he'
    · exact hlt
    · exact D.index_lt e' he'
  · intro e' he'
    show Function.update s.fdt (s.deref e.this) e (s.deref e'.this) = e'
    rcases List.mem_cons.mp he' with rfl | he'
    · exact Function.update_self ..
    · rw [Function.update_of_ne (hne e' he')]
      exact D.entry e' he'
  · intro i hi' h
    have h : (Function.update s.fdt (s.deref e.this) e i).inode ≠ 0 := h
    show Function.update s.fdt (s.deref e.this) e i ∈ e :: opened ∧
      s.deref (Function.update s.fdt (s.deref e.this) e i).this = i
    by_cases hx : i = s.deref e.this
    · subst hx
      rw [Function.update_self]
      exact ⟨List.mem_cons_self, rfl⟩
    · rw [Function.update_of_ne hx] at h ⊢
      rcases D.others i hi' h with ⟨hm, hd⟩
      exact ⟨List.mem_cons_of_mem _ hm, hd⟩
  · show s.fdtNum = _
    rw [D.num, List.length_cons, List.length_cons]
    omega

/-! ## Closing -/

/-- Giving up the entry of an open descriptor. -/
lemma release (D : Described s opened lost) (he : e ∈ opened) :
    Described (s.release (s.deref e.this)) (opened.erase e) lost := by
  have hsub : ((opened.erase e).map FdtEntry.this ++ lost).Sublist
      (opened.map FdtEntry.this ++ lost) :=
    ((List.erase_sublist).map _).append_right _
  have hin : ∀ e' ∈ opened.erase e, e' ∈ opened ∧ s.deref e'.this ≠ s.deref e.this := by
    intro e' he'
    rcases D.nodup.mem_erase_iff.mp he' with ⟨hne, hm⟩
    exact ⟨hm, fun h => hne (D.index_inj hm he h)⟩
  refine ⟨D.pointers.sublist hsub, fun g hg => D.bounded g (hsub.subset hg),
    fun e' he' => D.inode_ne e' (hin e' he').1, fun e' he' => D.index_lt e' (hin e' he').1, ?_, ?_,
    ?_, D.size_pos⟩
  · intro e' he'
    exact (Function.update_of_ne (hin e' he').2 _ _).trans (D.entry e' (hin e' he').1)
  · intro i hi h
    by_cases hx : i = s.deref e.this
    · subst hx
      refine absurd ?_ h
      show (Function.update s.fdt (s.deref e.this) _ (s.deref e.this)).inode = 0
      rw [Function.update_self]
    · have hfdt : (s.release (s.deref e.this)).fdt i = s.fdt i := Function.update_of_ne hx _ _
      rw [hfdt] at h ⊢
      rcases D.others i hi h with ⟨hm, hd⟩
      refine ⟨D.nodup.mem_erase_iff.mpr ⟨fun h' => hx ?_, hm⟩, hd⟩
      rw [← hd, h']
  · have hlt := D.num_lt
    have hpos := List.length_pos_of_mem he
    show sub32 s.fdtNum 1 = _
    rw [D.num, List.length_erase_of_mem he, sub32_of_le (by omega) hlt]
    omega

/-- What holds after `i` rounds of the loop that shrinks the table: the first `m` slots of the new
one hold open descriptors, the others are as `mem_alloc` returned them, and the descriptors not yet
moved are in the old one, unless there are none. -/
structure Shrunk (opened : List FdtEntry) (memory : Nat → FdtEntry) (size i m : Nat)
    (c : Shrinking) : Prop where
  le : m ≤ i
  filled : ∀ k, k < m → c.tmp k ∈ opened ∧ c.deref (c.tmp k).this = k
  clear : ∀ k, m ≤ k → c.tmp k = memory k
  left : ∀ k, i ≤ k → k < size → (c.fdt k).inode ≠ 0 →
    c.fdt k ∈ opened ∧ c.deref (c.fdt k).this = k
  all : ∀ e ∈ opened, (c.deref e.this < m ∧ c.tmp (c.deref e.this) = e) ∨
    (i ≤ c.deref e.this ∧ c.deref e.this < size ∧ c.fdt (c.deref e.this) = e)
  stop : m = i ∨ ∀ k, i ≤ k → k < size → (c.fdt k).inode = 0

section Shrink

variable {memory : Nat → FdtEntry} {size m n : Nat} {c : Shrinking}

/-- An entry in use at the current index stays where it is. -/
lemma Shrunk.stay (S : Shrunk opened memory size i m c) (hi : i < size)
    (h : (c.fdt i).inode ≠ 0) :
    Shrunk opened memory size (i + 1) (i + 1)
      { c with tmp := Function.update c.tmp i (c.fdt i) } := by
  have hm : m = i := S.stop.resolve_right fun hs => h (hs i (Nat.le_refl _) hi)
  subst hm
  rcases S.left m (Nat.le_refl _) hi h with ⟨hin, hd⟩
  refine ⟨Nat.le_refl _, ?_, ?_, fun k hk => S.left k (by omega), ?_, .inl rfl⟩
  · intro k hk
    dsimp only
    by_cases e : k = m
    · subst e
      rw [Function.update_self]
      exact ⟨hin, hd⟩
    · rw [Function.update_of_ne e]
      exact S.filled k (by omega)
  · intro k hk
    exact (Function.update_of_ne (by omega) _ _).trans (S.clear k (by omega))
  · intro e he
    dsimp only
    rcases S.all e he with ⟨h1, h2⟩ | ⟨h1, h2, h3⟩
    · rw [Function.update_of_ne (by omega)]
      exact .inl ⟨by omega, h2⟩
    · by_cases hx : c.deref e.this = m
      · rw [hx, Function.update_self]
        exact .inl ⟨by omega, by rw [← h3, hx]⟩
      · exact .inr ⟨by omega, h2, h3⟩

/-- An entry in use further up is moved to the current index. -/
lemma Shrunk.move (S : Shrunk opened memory size i m c) (D : Described s opened lost) {j : Nat}
    (hi : i < size) (h : (c.fdt i).inode = 0) (hij : i < j) (hj : j < size)
    (hne : (c.fdt j).inode ≠ 0) :
    Shrunk opened memory size (i + 1) (i + 1)
      { fdt := Function.update c.fdt j { c.fdt j with inode := 0 }
        tmp := Function.update c.tmp i (c.fdt j)
        deref := Function.update c.deref (c.fdt j).this i } := by
  have hm : m = i := S.stop.resolve_right fun hs => hne (hs j (by omega) hj)
  subst hm
  rcases S.left j (by omega) hj hne with ⟨hin, hd⟩
  -- the words of the other descriptors are not touched
  have hother : ∀ e ∈ opened, c.deref e.this ≠ j →
      Function.update c.deref (c.fdt j).this m e.this = c.deref e.this := by
    intro e he hx
    refine Function.update_of_ne (fun h' => hx ?_) _ _
    rw [h', hd]
  refine ⟨Nat.le_refl _, ?_, ?_, ?_, ?_, .inl rfl⟩
  · intro k hk
    dsimp only
    by_cases e : k = m
    · subst e
      rw [Function.update_self, Function.update_self]
      exact ⟨hin, rfl⟩
    · rcases S.filled k (by omega) with ⟨h1, h2⟩
      rw [Function.update_of_ne e, hother _ h1 (by omega)]
      exact ⟨h1, h2⟩
  · intro k hk
    exact (Function.update_of_ne (by omega) _ _).trans (S.clear k (by omega))
  · intro k hk hk' hk0
    dsimp only at hk0 ⊢
    by_cases e : k = j
    · subst e
      rw [Function.update_self] at hk0
      exact absurd rfl hk0
    · rw [Function.update_of_ne e] at hk0 ⊢
      rcases S.left k (by omega) hk' hk0 with ⟨h1, h2⟩
      exact ⟨h1, (hother _ h1 (by omega)).trans h2⟩
  · intro e he
    dsimp only
    by_cases hx : c.deref e.this = j
    · rcases S.all e he with ⟨h1, _⟩ | ⟨_, _, h3⟩
      · omega
      · rw [hx] at h3
        rw [h3, Function.update_self, Function.update_self]
        exact .inl ⟨by omega, rfl⟩
    · rw [hother e he hx]
      rcases S.all e he with ⟨h1, h2⟩ | ⟨h1, h2, h3⟩
      · rw [Function.update_of_ne (by omega)]
        exact .inl ⟨by omega, h2⟩
      · have hnei : c.deref e.this ≠ m := fun h' => by
          rw [h'] at h3
          exact D.inode_ne e he (h3 ▸ h)
        rw [Function.update_of_ne hx]
        exact .inr ⟨by omega, h2, h3⟩

/-- One round of the loop. -/
lemma Shrunk.step (S : Shrunk opened memory size i m c) (D : Described s opened lost)
    (hi : i < size) : ∃ m', Shrunk opened memory size (i + 1) m' (shrinkStep size i c) := by
  unfold shrinkStep
  split
  · exact ⟨i + 1, S.stay hi (by assumption)⟩
  · rename_i h
    have h := not_not.mp h
    split
    · rename_i j hj
      rcases lastOpen_some hj with ⟨h1, h2, h3⟩
      exact ⟨i + 1, S.move D hi h h1 h2 h3⟩
    · rename_i hnone
      have hstop : ∀ k, i ≤ k → k < size → (c.fdt k).inode = 0 := by
        intro k h1 h2
        by_cases e : k = i
        · exact e ▸ h
        · exact lastOpen_none hnone (by omega) h2
      refine ⟨m, Nat.le_succ_of_le S.le, S.filled, S.clear, fun k hk => S.left k (by omega), ?_,
        .inr fun k hk => hstop k (by omega)⟩
      intro e he
      rcases S.all e he with hl | ⟨h1, h2, h3⟩
      · exact .inl hl
      · have h0 := hstop _ h1 h2
        rw [h3] at h0
        exact absurd h0 (D.inode_ne e he)

/-- The loop. -/
lemma Shrunk.loop (S : Shrunk opened memory size i m c) (D : Described s opened lost)
    (hn : i + n ≤ size) : ∃ m', Shrunk opened memory size (i + n) m' (shrinkLoop size n i c) := by
  induction n generalizing i m c with
  | zero => exact ⟨m, S⟩
  | succ n ih =>
    rcases S.step D (by omega) with ⟨m', S'⟩
    rw [shrinkLoop, show i + (n + 1) = i + 1 + n by omega]
    exact ih S' (by omega)

end Shrink

/-- Shrinking the table moves every entry, if the slots that it leaves are clear. -/
lemma shrink (D : Described s opened lost) {memory : Nat → FdtEntry}
    (hlt : opened.length < s.fdtSize / 4)
    (hclear : ∀ k, opened.length ≤ k → k < s.fdtSize / 2 → (memory k).inode = 0) :
    Described (s.shrink memory) opened lost := by
  have S0 : Shrunk opened memory s.fdtSize 0 0 ⟨s.fdt, memory, s.deref⟩ :=
    ⟨Nat.le_refl _, fun k hk => absurd hk (Nat.not_lt_zero _), fun _ _ => rfl,
      fun k _ hk => D.others k hk,
      fun e he => .inr ⟨Nat.zero_le _, D.index_lt e he, D.entry e he⟩, .inl rfl⟩
  rcases S0.loop D (n := s.fdtSize / 4) (by omega) with ⟨m, S⟩
  rw [Nat.zero_add] at S
  unfold Inter.shrink
  generalize shrinkLoop s.fdtSize (s.fdtSize / 4) 0 ⟨s.fdt, memory, s.deref⟩ = c at S
  -- the loop does not run out of slots before it runs out of descriptors
  have hm : m ≤ opened.length := by
    have hnd : ((List.range m).map c.tmp).Nodup := by
      refine List.nodup_range.map_on fun k hk k' hk' h => ?_
      rw [← (S.filled k (List.mem_range.mp hk)).2, h, (S.filled k' (List.mem_range.mp hk')).2]
    have hsub : (List.range m).map c.tmp ⊆ opened := by
      intro e he
      rcases List.mem_map.mp he with ⟨k, hk, rfl⟩
      exact (S.filled k (List.mem_range.mp hk)).1
    have h := (List.subperm_of_subset hnd hsub).length_le
    rwa [List.length_map, List.length_range] at h
  have hall : ∀ e ∈ opened, c.deref e.this < m ∧ c.tmp (c.deref e.this) = e := by
    intro e he
    refine (S.all e he).resolve_right ?_
    rintro ⟨h1, h2, h3⟩
    rcases S.stop with h | h
    · omega
    · have h0 := h _ h1 h2
      rw [h3] at h0
      exact D.inode_ne e he h0
  have hge : opened.length ≤ m := by
    have hnd : (opened.map fun e => c.deref e.this).Nodup := by
      refine D.nodup.map_on fun e he e' he' h => ?_
      rw [← (hall e he).2, h, (hall e' he').2]
    have hsub : opened.map (fun e => c.deref e.this) ⊆ List.range m := by
      intro k hk
      rcases List.mem_map.mp hk with ⟨e, he, rfl⟩
      exact List.mem_range.mpr (hall e he).1
    have h := (List.subperm_of_subset hnd hsub).length_le
    rwa [List.length_map, List.length_range] at h
  have hle := S.le
  refine ⟨D.pointers, D.bounded, D.inode_ne, fun e he => ?_, fun e he => (hall e he).2, ?_, D.num,
    ?_⟩
  · have := (hall e he).1
    show c.deref e.this < s.fdtSize / 2
    omega
  · intro k hk h
    by_cases hkm : k < m
    · exact S.filled k hkm
    · refine absurd ?_ h
      show (c.tmp k).inode = 0
      rw [S.clear k (by omega)]
      exact hclear k (by omega) hk
  · show 0 < s.fdtSize / 2
    omega

end Described

/-! ## What the calls do -/

namespace Inter

variable {s t : Inter} {path : List UInt8} {oflag fperm f r i : Nat} {memory : Nat → FdtEntry}

lemma withVolume_reserve (v : Volume) :
    (s.withVolume v).reserve f memory = (s.reserve f memory).withVolume v := by
  unfold reserve withVolume
  dsimp only
  split <;> rfl

lemma createAt_eq {inode : Nat} (h : s.createAt path fperm = some (t, inode)) :
    ∃ v, t = s.withVolume v := by
  unfold createAt at h
  simp only [Option.bind_eq_bind, Option.bind_eq_some_iff, Option.some.injEq, Prod.mk.injEq] at h
  rcases h with ⟨_, _, ⟨v, _⟩, _, rfl, _⟩
  exact ⟨v, rfl⟩

lemma fill_eq {inode : Nat} (h : s.fill inode oflag f = some (t, r)) :
    ∃ v, t = (s.withVolume v).setEntry (s.deref f) (newEntry v inode oflag f) ∧ r = f := by
  have hv : ∃ w : Volume, (w.setInode inode).bind (fun v =>
      some ((s.withVolume v).setEntry (s.deref f) (newEntry v inode oflag f), f)) =
        some (t, r) := by
    unfold fill at h
    split at h
    · rcases Option.bind_eq_some_iff.mp h with ⟨w, _, h⟩
      exact ⟨w, h⟩
    · rcases Option.bind_eq_some_iff.mp h with ⟨w, _, h⟩
      exact ⟨w, h⟩
  rcases hv with ⟨_, h⟩
  rcases Option.bind_eq_some_iff.mp h with ⟨v, _, h⟩
  rcases Prod.mk.inj (Option.some.inj h) with ⟨h1, h2⟩
  exact ⟨v, h1.symm, h2.symm⟩

/-- A call to `openfile` is refused, fails once it has reserved a descriptor, or fills its entry. -/
lemma openfile_cases (h : s.openfile path oflag fperm f memory = some (t, r)) :
    (∃ v, t = s.withVolume v ∧ r = 0) ∨ (∃ v, t = (s.reserve f memory).withVolume v ∧ r = 0) ∨
      ∃ v inode, inode ≠ 0 ∧ r = f ∧ t = ((s.reserve f memory).withVolume v).setEntry
        ((s.reserve f memory).deref f) (newEntry v inode oflag f) := by
  unfold openfile at h
  simp only [Option.bind_eq_bind, Option.bind_eq_some_iff, Prod.exists] at h
  rcases h with ⟨v, inode, _, h⟩
  split at h
  · cases h
    exact .inl ⟨v, rfl, rfl⟩
  split at h
  · cases h
    exact .inl ⟨v, rfl, rfl⟩
  rw [withVolume_reserve] at h
  have hv : ∃ v' inode', (if inode' = 0 then some ((s.reserve f memory).withVolume v', 0) else
      ((s.reserve f memory).withVolume v').fill inode' oflag f) = some (t, r) := by
    split at h
    · exact ⟨v, inode, h⟩
    · rcases Option.bind_eq_some_iff.mp h with ⟨⟨u, inode'⟩, hu, h⟩
      rcases createAt_eq hu with ⟨v', rfl⟩
      exact ⟨v', inode', h⟩
  rcases hv with ⟨v', inode', h⟩
  by_cases h0 : inode' = 0
  · rw [if_pos h0] at h
    rcases Prod.mk.inj (Option.some.inj h) with ⟨h1, h2⟩
    exact .inr (.inl ⟨v', h1.symm, h2.symm⟩)
  · rw [if_neg h0] at h
    rcases fill_eq h with ⟨w, rfl, rfl⟩
    exact .inr (.inr ⟨w, inode', h0, rfl, rfl⟩)

/-- At most the position and the size in entry `i` change. -/
structure Touched (s t : Inter) (i : Nat) : Prop where
  size : t.fdtSize = s.fdtSize
  num : t.fdtNum = s.fdtNum
  deref : t.deref = s.deref
  other : ∀ j, j ≠ i → t.fdt j = s.fdt j
  inode : (t.fdt i).inode = (s.fdt i).inode
  this : (t.fdt i).this = (s.fdt i).this

lemma Touched.refl (s : Inter) (i : Nat) : Touched s s i :=
  ⟨rfl, rfl, rfl, fun _ _ => rfl, rfl, rfl⟩

lemma Touched.trans {u : Inter} (h : Touched s t i) (h' : Touched t u i) : Touched s u i :=
  ⟨h'.size.trans h.size, h'.num.trans h.num, h'.deref.trans h.deref,
    fun j hj => (h'.other j hj).trans (h.other j hj), h'.inode.trans h.inode, h'.this.trans h.this⟩

lemma touched_withVolume (s : Inter) (v : Volume) (i : Nat) : Touched s (s.withVolume v) i :=
  ⟨rfl, rfl, rfl, fun _ _ => rfl, rfl, rfl⟩

lemma touched_setEntry {e : FdtEntry} (hi : e.inode = (s.fdt i).inode)
    (ht : e.this = (s.fdt i).this) : Touched s (s.setEntry i e) i where
  size := rfl
  num := rfl
  deref := rfl
  other _ hj := Function.update_of_ne hj _ _
  inode := by
    show (Function.update s.fdt i e i).inode = _
    rw [Function.update_self, hi]
  this := by
    show (Function.update s.fdt i e i).this = _
    rw [Function.update_self, ht]

lemma touched_setPos (s : Inter) (i pos : Nat) : Touched s (s.setPos i pos) i :=
  touched_setEntry rfl rfl

lemma touched_extend (s : Inter) (i : Nat) : Touched s (s.extend i) i := by
  unfold extend
  dsimp only
  split
  · exact (touched_setEntry (e := { s.fdt i with size := (s.fdt i).pos }) rfl rfl).trans
      (touched_withVolume ..)
  · exact .refl s i

lemma lseek_touched {offset : Int} {seek : Nat} (h : s.lseek f offset seek = some (t, r)) :
    Touched s t (s.deref f) := by
  unfold lseek at h
  split at h
  · cases h
    exact .refl ..
  · rcases Option.bind_eq_some_iff.mp h with ⟨e, _, h⟩
    cases h
    exact touched_setPos ..

/-- The entry that the check of a descriptor finds is the one at its index. -/
lemma checkFd_entry {e : FdtEntry} (h : s.checkFd f = some (some e)) :
    s.fdt (s.deref f) = e := by
  unfold checkFd at h
  split at h
  · cases h
  · unfold entryAt at h
    split at h
    · rw [Option.bind_eq_bind, Option.bind_some] at h
      split at h
      · cases h
      · exact Option.some.inj (Option.some.inj h)
    · cases h

lemma read_touched {buffer buffer' : Bytes} {offset length : Nat}
    (h : s.read f buffer offset length = some (t, buffer', r)) : Touched s t (s.deref f) := by
  unfold read at h
  rcases Option.bind_eq_some_iff.mp h with ⟨o, _, h⟩
  cases o with
  | none =>
    cases h
    exact .refl ..
  | some e =>
    dsimp only at h
    split at h
    · cases h
      exact .refl ..
    split at h
    · cases h
      exact .refl ..
    rcases Option.bind_eq_some_iff.mp h with ⟨⟨v, _, done⟩, _, h⟩
    rw [← (Prod.mk.inj (Option.some.inj h)).1]
    exact (touched_withVolume s v _).trans (touched_setPos ..)

lemma writeLoop_touched {buffer : Bytes} {length n offset written : Nat}
    (h : writeLoop buffer i length n s offset written = some (t, r)) : Touched s t i := by
  induction n generalizing s offset written with
  | zero => cases h
  | succ n ih =>
    rw [writeLoop] at h
    split at h
    · cases h
      exact .refl ..
    rcases Option.bind_eq_some_iff.mp h with ⟨⟨v, done⟩, _, h⟩
    dsimp only at h
    split at h
    · rw [← (Prod.mk.inj (Option.some.inj h)).1]
      exact touched_withVolume ..
    · exact ((touched_withVolume s v i).trans (touched_setPos ..)).trans (ih h)

lemma write_touched {buffer : Bytes} {offset length : Nat}
    (h : s.write f buffer offset length = some (t, r)) : Touched s t (s.deref f) := by
  unfold write at h
  rcases Option.bind_eq_some_iff.mp h with ⟨o, _, h⟩
  cases o with
  | none =>
    cases h
    exact .refl ..
  | some e =>
    dsimp only at h
    split at h
    · cases h
      exact .refl ..
    split at h
    · cases h
      exact .refl ..
    rcases Option.bind_eq_some_iff.mp h with ⟨⟨v, alloc⟩, _, h⟩
    dsimp only at h
    split at h
    · rw [← (Prod.mk.inj (Option.some.inj h)).1]
      exact touched_withVolume ..
    rcases Option.bind_eq_some_iff.mp h with ⟨⟨u, written⟩, hu, h⟩
    have T := (touched_withVolume s v _).trans (writeLoop_touched hu)
    have e : u.extend (u.deref f) = t := (Prod.mk.inj (Option.some.inj h)).1
    rw [← e, T.deref]
    exact T.trans (touched_extend ..)

end Inter

/-- A call that touches the entry of an open descriptor leaves the others as they are. -/
lemma Described.touched {s t : Inter} {opened : List FdtEntry} {lost : List Nat} {e : FdtEntry}
    (D : Described s opened lost) (he : e ∈ opened) (T : Inter.Touched s t (s.deref e.this)) :
    Described t (t.fdt (t.deref e.this) :: opened.erase e) lost := by
  have hthis : (t.fdt (t.deref e.this)).this = e.this := by
    rw [T.deref, T.this, D.entry e he]
  have hinode : (t.fdt (t.deref e.this)).inode = e.inode := by
    rw [T.deref, T.inode, D.entry e he]
  have hin : ∀ e' ∈ opened.erase e, e' ∈ opened ∧ s.deref e'.this ≠ s.deref e.this := by
    intro e' he'
    rcases D.nodup.mem_erase_iff.mp he' with ⟨hne, hm⟩
    exact ⟨hm, fun h => hne (D.index_inj hm he h)⟩
  have hperm : (opened.map FdtEntry.this ++ lost).Perm
      ((t.fdt (t.deref e.this) :: opened.erase e).map FdtEntry.this ++ lost) := by
    rw [List.map_cons, hthis]
    exact ((List.perm_cons_erase he).map FdtEntry.this).append_right lost
  refine ⟨hperm.nodup_iff.mp D.pointers, fun f hf => D.bounded f (hperm.mem_iff.mpr hf), ?_, ?_, ?_,
    ?_, ?_, T.size ▸ D.size_pos⟩
  · intro e' he'
    rcases List.mem_cons.mp he' with rfl | he'
    · exact hinode ▸ D.inode_ne e he
    · exact D.inode_ne e' (hin e' he').1
  · intro e' he'
    rw [T.deref, T.size]
    rcases List.mem_cons.mp he' with rfl | he'
    · rw [hthis]
      exact D.index_lt e he
    · exact D.index_lt e' (hin e' he').1
  · intro e' he'
    rcases List.mem_cons.mp he' with rfl | he'
    · rw [hthis]
    · rw [T.deref, T.other _ (hin e' he').2]
      exact D.entry e' (hin e' he').1
  · intro i hi h
    rw [T.size] at hi
    by_cases hx : i = s.deref e.this
    · have hi' : t.fdt i = t.fdt (t.deref e.this) := by rw [hx, T.deref]
      rw [hi']
      exact ⟨List.mem_cons_self, by rw [hthis, T.deref, hx]⟩
    · rw [T.other i hx] at h ⊢
      rcases D.others i hi h with ⟨hm, hd⟩
      rw [T.deref]
      refine ⟨List.mem_cons_of_mem _ (D.nodup.mem_erase_iff.mpr ⟨fun h' => hx ?_, hm⟩), hd⟩
      rw [← hd, h']
  · have hpos := List.length_pos_of_mem he
    rw [T.num, D.num, List.length_cons, List.length_erase_of_mem he]
    omega

end MarioBrOS.Fs
