import MarioBrOS.Malloc.Shape
import Mathlib.Data.List.Chain

/-!
# Replacing blocks

Splitting, merging and flagging blocks rewrite the bytes of one stretch of the heap and leave the
rest alone: `Shape.splice` is the rule for all of them. With it `merge_with_next` and `merge` are
followed on the list of blocks. What `merge` restores is `Coalesced`: every free block is on the
list and no two neighbours are free.
-/

namespace MarioBrOS.Malloc

open Bytes

variable {h : Heap} {m m' : Bytes} {b c : Block} {bs l r old mid : List Block} {fl fl' : List Nat}
  {a e size : Nat}

/-- The blocks `old` between `a` and `e` give way to the blocks `mid`. A node of the free list among
them keeps its links. -/
lemma Shape.splice (s : Shape h (l ++ old ++ r) fl) (mid : List Block) (m' : Bytes)
    (hl : Tiles Block.addr Block.size h.startOfHeap l a)
    (hmid : Tiles Block.addr Block.size a mid e)
    (hr : Tiles Block.addr Block.size e r h.unallocatedMem)
    (hm : ∀ x, x < a ∨ e ≤ x → m' x = h.mem x)
    (hok : ∀ b ∈ mid, BlockOk m' b)
    (hfl : ∀ x ∈ fl, (∃ b ∈ l ++ r, b.addr = x ∧ b.owner = none) ∨
      (∃ b ∈ mid, b.addr = x ∧ b.owner = none) ∧ ∀ y, x + 4 ≤ y → y < x + 12 → m' y = h.mem y) :
    Shape { h with mem := m' } (l ++ mid ++ r) fl := by
  have outside : ∀ b ∈ l ++ r, ∀ x, b.addr ≤ x → x < b.addr + b.size → m' x = h.mem x := by
    intro b hb x h1 h2
    refine hm x ?_
    rcases List.mem_append.mp hb with hb | hb
    · have := hl.bounds hb; omega
    · have := hr.bounds hb; omega
  have keep : ∀ x ∈ fl, ∀ y, x + 4 ≤ y → y < x + 12 → m' y = h.mem y := by
    intro x hx
    rcases hfl x hx with ⟨b, hb, rfl, _⟩ | ⟨_, hk⟩
    · have hmin := (s.blocks b (by grind)).min
      exact fun y h1 h2 => outside b hb y (by omega) (by omega)
    · exact hk
  refine ⟨s.lo, s.hi, ?_, ?_, ?_, s.nodup, ?_⟩
  · exact tiles_append.mpr ⟨e, tiles_append.mpr ⟨a, hl, hmid⟩, hr⟩
  · intro b hb
    rcases List.mem_append.mp hb with hb | hb
    · rcases List.mem_append.mp hb with hb | hb
      · exact (s.blocks b (by simp [hb])).congr (outside b (by simp [hb]))
      · exact hok b hb
    · exact (s.blocks b (by simp [hb])).congr (outside b (by simp [hb]))
  · refine s.links.congr (fun x hx => ?_) fun x hx => ?_
    · exact get32_congr fun y h1 h2 => keep x hx y (by omega) (by omega)
    · exact get32_congr fun y h1 h2 => keep x hx y (by omega) (by omega)
  · intro x hx
    rcases hfl x hx with ⟨b, hb, hbx, hf⟩ | ⟨⟨b, hb, hbx, hf⟩, _⟩
    · exact ⟨b, by grind, hbx, hf⟩
    · exact ⟨b, by grind, hbx, hf⟩

/-- A block off the free list gives way to the blocks `mid`. -/
lemma Shape.replace (s : Shape h (l ++ b :: r) fl) (mid : List Block) (m' : Bytes)
    (hb : b.addr ∉ fl)
    (hmid : Tiles Block.addr Block.size b.addr mid (b.addr + b.size))
    (hm : ∀ x, x < b.addr ∨ b.addr + b.size ≤ x → m' x = h.mem x)
    (hok : ∀ c ∈ mid, BlockOk m' c) : Shape { h with mem := m' } (l ++ mid ++ r) fl := by
  obtain ⟨hl, hr⟩ := tiles_mid.mp s.tiles
  have s' : Shape h (l ++ [b] ++ r) fl := by simpa using s
  refine s'.splice mid m' hl hmid hr hm hok fun x hx => .inl ?_
  obtain ⟨c, hc, hcx, hf⟩ := s.free x hx
  have hcb : c ≠ b := by rintro rfl; exact hb (hcx ▸ hx)
  exact ⟨c, by grind, hcx, hf⟩

/-! ## The order of free blocks -/

/-- No two neighbours are free. -/
abbrev NoAdjacent (bs : List Block) : Prop :=
  bs.IsChain fun b c => b.owner.isSome ∨ c.owner.isSome

/-- Every free block is on the list and no two neighbours are free. -/
structure Coalesced (bs : List Block) (fl : List Nat) : Prop where
  complete : ∀ b ∈ bs, b.owner = none → b.addr ∈ fl
  chain : NoAdjacent bs

/-- Neighbours, looked at from one block. -/
lemma noAdjacent_mid : NoAdjacent (l ++ b :: r) ↔
    NoAdjacent l ∧ NoAdjacent r ∧ (∀ c ∈ l.getLast?, c.owner.isSome ∨ b.owner.isSome) ∧
      ∀ c ∈ r.head?, b.owner.isSome ∨ c.owner.isSome := by
  have right : NoAdjacent (b :: r) ↔
      NoAdjacent r ∧ ∀ c ∈ r.head?, b.owner.isSome ∨ c.owner.isSome := by
    cases r with
    | nil => simp
    | cons c r => simp [and_comm]
  rw [NoAdjacent, List.isChain_split, ← NoAdjacent, ← NoAdjacent, right]
  have left : NoAdjacent (l ++ [b]) ↔
      NoAdjacent l ∧ ∀ c ∈ l.getLast?, c.owner.isSome ∨ b.owner.isSome := by
    rcases List.eq_nil_or_concat l with rfl | ⟨l, c, rfl⟩
    · simp
    · simp [List.concat_eq_append]
  rw [left]
  tauto

/-! ## Merging -/

/-- `merge_with_next` unlinks the next block, if it is free, and then rewrites two header words. -/
lemma mergeWithNext_eq (h : Heap) (a : Nat) :
    mergeWithNext h a =
      if getNextBlock h a ≠ 0 ∧ getUsed h.mem (getNextBlock h a) = false then
        let h' := remove h (getNextBlock h a)
        let newSize := add32 (getSize h'.mem a) (getSize h'.mem (getNextBlock h a))
        let m := setSize h'.mem a newSize
        { h' with mem := setSize m (getEndHeader m a) newSize }
      else
        h := rfl

@[simp] lemma mergeWithNext_unallocatedMem (h : Heap) (a : Nat) :
    (mergeWithNext h a).unallocatedMem = h.unallocatedMem := by
  rw [mergeWithNext_eq]; split_ifs <;> simp

@[simp] lemma mergeWithNext_startOfHeap (h : Heap) (a : Nat) :
    (mergeWithNext h a).startOfHeap = h.startOfHeap := by
  rw [mergeWithNext_eq]; split_ifs <;> simp

/-- Nothing is merged at the end of the heap or in front of a used block. -/
lemma Shape.mergeWithNext_used (s : Shape h (l ++ b :: r) fl)
    (hr : ∀ c ∈ r.head?, c.owner.isSome) : mergeWithNext h b.addr = h := by
  have hnext := s.getNextBlock
  rw [mergeWithNext_eq, if_neg]
  rintro ⟨h0, hu⟩
  cases r with
  | nil => exact h0 (by simpa using hnext)
  | cons c r =>
    rw [hnext] at hu
    have := s.getUsed (b := c) (by simp)
    simp only [List.head?_cons, Option.map_some, Option.getD_some] at hu
    rw [this, hr c (by simp)] at hu
    cases hu

/-- A free block swallows the free block behind it. -/
lemma Shape.mergeWithNext_free {fl1 fl2 : List Nat}
    (s : Shape h (l ++ b :: c :: r) (fl1 ++ c.addr :: fl2)) (hb : b.owner = none)
    (hc : c.owner = none) :
    Shape (mergeWithNext h b.addr) (l ++ ⟨b.addr, b.size + c.size, none⟩ :: r) (fl1 ++ fl2) := by
  have hbd := s.bounds (b := b) (by simp)
  have hcd := s.bounds (b := c) (by simp)
  have hhi := s.hi
  have hlo := s.lo
  obtain ⟨hl, hbc, hr⟩ := tiles_mid.mp s.tiles
  have hnext : Malloc.getNextBlock h b.addr = c.addr := by simpa using s.getNextBlock
  have hused : Malloc.getUsed h.mem c.addr = false := by simpa [hc] using s.getUsed (b := c) (by simp)
  have s1 := s.remove
  have hbe := (s.blocks b (by simp)).even
  have hce := (s.blocks c (by simp)).even
  have hb1 := (s1.blocks b (by simp)).first
  have hcl := (s1.blocks c (by simp)).last
  rw [mergeWithNext_eq, if_pos ⟨by omega, by rw [hnext, hused]⟩, hnext]
  simp only [s1.getSize (b := b) (by simp), s1.getSize (b := c) (by simp)]
  rw [add32_of_lt (by omega)]
  generalize hmem : (Malloc.remove h c.addr).mem = m1 at *
  -- the first header is rewritten, and with it the place of the end header
  have hw : (setSize m1 b.addr (b.size + c.size)).get32 b.addr = (b.size + c.size) / 2 := by
    rw [get32_setSize (by omega), hb1, hb]
    simp only [Option.isSome_none, Bool.false_eq_true, if_false]
    omega
  have hend : getEndHeader (setSize m1 b.addr (b.size + c.size)) b.addr = c.addr + c.size - 4 := by
    rw [getEndHeader, Malloc.getSize, hw, add32_of_lt (by omega), sub32_of_le (by omega) (by omega)]
    omega
  rw [hend]
  have hout : ∀ x, x < b.addr ∨ b.addr + 4 ≤ x → x < c.addr + c.size - 4 ∨ c.addr + c.size ≤ x →
      setSize (setSize m1 b.addr (b.size + c.size)) (c.addr + c.size - 4) (b.size + c.size) x =
        m1 x := by
    intro x h1 h2
    rw [setSize_outside (by omega), setSize_outside (by omega)]
  have s2 : Shape (Malloc.remove h c.addr) (l ++ [b, c] ++ r) (fl1 ++ fl2) := by simpa using s1
  have s3 := s2.splice (a := b.addr) (e := c.addr + c.size) [⟨b.addr, b.size + c.size, none⟩]
    (setSize (setSize m1 b.addr (b.size + c.size)) (c.addr + c.size - 4) (b.size + c.size))
    (by simpa using hl) ⟨rfl, by simp only [Tiles]; omega⟩ (by simpa [hbc] using hr) ?_ ?_ ?_
  · simpa using s3
  · intro x hx
    rw [hmem]
    exact hout x (by omega) (by omega)
  · intro d hd
    obtain rfl : d = ⟨b.addr, b.size + c.size, none⟩ := by simpa using hd
    refine ⟨by simp only; omega, by simp only; omega, ?_, ?_, by simp⟩
    · rw [setSize, get32_set32_of_disjoint (by simp only; omega), hw]
      simp
    · have e : b.addr + (b.size + c.size) - 4 = c.addr + c.size - 4 := by omega
      simp only [e]
      rw [get32_setSize (by omega)]
      omega
  · intro x hx
    obtain ⟨d, hd, rfl, hf⟩ := s1.free x hx
    have hdc : d ≠ c := by
      rintro rfl
      have := s.nodup
      rw [List.nodup_middle, List.nodup_cons] at this
      exact this.1 hx
    by_cases hdb : d = b
    · right
      subst hdb
      refine ⟨⟨_, List.mem_singleton.mpr rfl, rfl, rfl⟩, fun y h1 h2 => ?_⟩
      rw [hmem]
      exact hout y (by omega) (by omega)
    · left
      exact ⟨d, by grind, rfl, hf⟩

/-- What `merge_with_next` makes of a free block `b` when all free blocks are on the list. -/
lemma Shape.mergeWithNext_cases (s : Shape h (l ++ b :: r) fl) (hb : b.owner = none)
    (hc : ∀ c ∈ l ++ b :: r, c.owner = none → c.addr ∈ fl) (hr : NoAdjacent r) :
    ∃ B R fl', Shape (mergeWithNext h b.addr) (l ++ B :: R) fl' ∧
      (∀ c ∈ l ++ B :: R, c.owner = none → c.addr ∈ fl') ∧
      B.addr = b.addr ∧ B.owner = none ∧ b.size ≤ B.size ∧
      (∀ c ∈ r.head?, c.owner = none → b.size + c.size ≤ B.size) ∧
      NoAdjacent R ∧ (∀ c ∈ R.head?, c.owner.isSome) ∧
      R.filterMap Block.owner = r.filterMap Block.owner := by
  by_cases hu : ∀ c ∈ r.head?, c.owner.isSome
  · refine ⟨b, r, fl, ?_, hc, rfl, hb, le_refl _, fun c hcr hf => ?_, hr, hu, rfl⟩
    · rw [s.mergeWithNext_used hu]; exact s
    · have := hu c hcr
      rw [hf] at this; cases this
  · push Not at hu
    obtain ⟨c, hcr, hcn⟩ := hu
    cases r with
    | nil => cases hcr
    | cons d r =>
      obtain rfl : d = c := by simpa using hcr
      have hcf : d.owner = none := by simpa using hcn
      obtain ⟨fl1, fl2, rfl⟩ := List.append_of_mem (hc d (by simp) hcf)
      have hchain := (noAdjacent_mid (l := [])).mp hr
      refine ⟨_, r, fl1 ++ fl2, s.mergeWithNext_free hb hcf, ?_, rfl, rfl, by simp,
        fun c hc _ => ?_, hchain.2.1, fun c hc => ?_, by simp [hcf]⟩
      · intro c hcm hcf'
        have old : ∀ c ∈ l ++ b :: r, c.owner = none → c.addr ∈ fl1 ++ fl2 := by
          intro c hcm hcf'
          have hin := hc c (by grind) hcf'
          have hpos : 0 < d.size := by have := s.bounds (b := d) (by simp); omega
          have hnm := Tiles.not_mem (l := l ++ [b]) (r := r) (by simpa using s.tiles) hpos
          have hne : c.addr ≠ d.addr := by
            intro e
            obtain rfl := s.eq_of_addr (b := d) (c := c) (by simp) (by grind) e
            exact hnm (by grind)
          grind
        rcases List.mem_append.mp hcm with hm | hm
        · exact old c (by grind) hcf'
        · rcases List.mem_cons.mp hm with rfl | hm
          · exact old b (by simp) hb
          · exact old c (by grind) hcf'
      · obtain rfl : d = c := by simpa using hc
        exact le_refl _
      · have := hchain.2.2.2 c hc
        simpa [hcf] using this

@[simp] lemma merge_unallocatedMem (h : Heap) (a : Nat) :
    (merge h a).1.unallocatedMem = h.unallocatedMem := by
  simp only [merge]; split_ifs <;> simp

@[simp] lemma merge_startOfHeap (h : Heap) (a : Nat) :
    (merge h a).1.startOfHeap = h.startOfHeap := by
  simp only [merge]; split_ifs <;> simp

/-- `merge` of a free block leaves a coalesced heap when only its own two seams were not. -/
lemma Shape.merge (s : Shape h (l ++ b :: r) fl) (hb : b.owner = none)
    (hc : ∀ c ∈ l ++ b :: r, c.owner = none → c.addr ∈ fl) (hl : NoAdjacent l)
    (hr : NoAdjacent r) :
    ∃ l' B r' fl', Shape (merge h b.addr).1 (l' ++ B :: r') fl' ∧ Coalesced (l' ++ B :: r') fl' ∧
      B.addr = (Malloc.merge h b.addr).2 ∧ B.owner = none ∧ b.size ≤ B.size ∧
      (∀ p ∈ l.getLast?, p.owner = none → p.size + b.size ≤ B.size) ∧
      (l' ++ B :: r').filterMap Block.owner = (l ++ r).filterMap Block.owner := by
  obtain ⟨B, R, fl1, s1, hc1, haddr, hB, hle, _, hR, hRh, hown⟩ := s.mergeWithNext_cases hb hc hr
  have hprev : Malloc.getPrevBlock (mergeWithNext h b.addr) b.addr =
      (l.getLast?.map Block.addr).getD 0 := haddr ▸ s1.getPrevBlock
  have hRB : NoAdjacent (B :: R) :=
    (noAdjacent_mid (l := [])).mpr ⟨.nil, hR, by simp, fun c hc => .inr (hRh c hc)⟩
  by_cases hp : ∃ p ∈ l.getLast?, p.owner = none
  · -- the block before is free, and takes in what the first merge left
    obtain ⟨p, hpl, hpf⟩ := hp
    obtain ⟨l0, rfl⟩ : ∃ l0, l = l0 ++ [p] := by
      rcases List.eq_nil_or_concat l with rfl | ⟨l0, q, rfl⟩
      · simp at hpl
      · exact ⟨l0, by simp_all⟩
    have hl0 := noAdjacent_mid.mp hl
    have s1' : Shape (mergeWithNext h b.addr) (l0 ++ p :: B :: R) fl1 := by simpa using s1
    have hpb := s1'.bounds (b := p) (by simp)
    have hlo := s1'.lo
    have hpu : Malloc.getUsed (mergeWithNext h b.addr).mem p.addr = false := by
      simpa [hpf] using s1'.getUsed (b := p) (by simp)
    obtain ⟨B2, R2, fl2, s2, hc2, haddr2, hB2, _, hle2, hR2, hRh2, hown2⟩ :=
      s1'.mergeWithNext_cases hpf (by simpa using hc1) hRB
    have e : Malloc.merge h b.addr = (mergeWithNext (mergeWithNext h b.addr) p.addr, p.addr) := by
      have hprev' : Malloc.getPrevBlock (mergeWithNext h b.addr) b.addr = p.addr := by
        simpa using hprev
      simp only [Malloc.merge, hprev']
      rw [if_pos ⟨by omega, hpu⟩]
    rw [e]
    refine ⟨l0, B2, R2, fl2, s2, ⟨hc2, ?_⟩, haddr2, hB2, ?_, ?_, ?_⟩
    · refine noAdjacent_mid.mpr ⟨hl0.1, hR2, fun c hc => ?_, fun c hc => .inr (hRh2 c hc)⟩
      have := hl0.2.2.1 c hc
      simp only [hpf, Option.isSome_none, Bool.false_eq_true, or_false] at this
      exact .inl this
    · have := hle2 B (by simp) hB
      omega
    · intro q hq _
      obtain rfl : p = q := by simpa using hq
      have := hle2 B (by simp) hB
      omega
    · simp [hB2, hown2, hB, hpf, hown]
  · -- no free block lies before it
    have e : Malloc.merge h b.addr = (mergeWithNext h b.addr, b.addr) := by
      simp only [Malloc.merge, hprev]
      rw [if_neg]
      rintro ⟨h0, hu⟩
      rcases List.eq_nil_or_concat l with rfl | ⟨l0, q, rfl⟩
      · exact h0 rfl
      · rw [List.concat_eq_append] at hp hu s1
        have := s1.getUsed (b := q) (by simp)
        simp only [List.getLast?_append, List.getLast?_singleton, Option.some_or, Option.map_some,
          Option.getD_some] at hu
        rw [hu] at this
        exact hp ⟨q, by simp, by simpa using this.symm⟩
    rw [e]
    refine ⟨l, B, R, fl1, s1, ⟨hc1, ?_⟩, haddr, hB, hle, fun p hpl hpf => ?_, ?_⟩
    · refine noAdjacent_mid.mpr ⟨hl, hR, fun c hc => .inl ?_, fun c hc => .inr (hRh c hc)⟩
      by_contra hn
      exact hp ⟨c, hc, by simpa using hn⟩
    · exact absurd ⟨p, hpl, hpf⟩ hp
    · simp [hB, hown]

end MarioBrOS.Malloc
