import MarioBrOS.Malloc.Model
import MarioBrOS.Lib.Links
import MarioBrOS.Lib.Tiles

/-!
# The shape of a heap

The abstract heap is a list of blocks with their owners. `Shape h bs fl` says that the bytes of `h`
represent the blocks `bs`, which tile the heap, and that the free list runs through the addresses
`fl`. The shape is weaker than the invariant of the allocator: a free block may be missing from the
list and free blocks may be adjacent, so that it holds at every point inside `mem_alloc_aligned` and
`mem_free`. Each function on blocks has one lemma that says how it changes `bs` and `fl`.
-/

namespace MarioBrOS.Malloc

open Bytes

/-- A live allocation: the pointer, the size and the alignment asked for. -/
structure Alloc where
  ptr : Nat
  size : Nat
  alignment : Nat
  deriving DecidableEq, Repr

/-- A block of the heap, with the allocation it serves, if it is used. -/
structure Block where
  addr : Nat
  size : Nat
  owner : Option Alloc
  deriving DecidableEq, Repr

/-- The allocation lies between the headers of its block, behind zero padding. -/
structure AllocOk (m : Bytes) (b : Block) (al : Alloc) : Prop where
  lo : b.addr + 4 ≤ al.ptr
  hi : al.ptr + al.size ≤ b.addr + b.size - 4
  aligned : al.alignment ∣ al.ptr
  padding : ∀ x, b.addr + 4 ≤ x → x < al.ptr → m x = 0

/-- The bytes of a block: both headers hold its size, the first one says whether it is used. -/
structure BlockOk (m : Bytes) (b : Block) : Prop where
  even : b.size % 2 = 0
  min : 16 ≤ b.size
  first : m.get32 b.addr = b.size / 2 + if b.owner.isSome then 2 ^ 31 else 0
  last : m.get32 (b.addr + b.size - 4) % 2 ^ 31 = b.size / 2
  alloc : ∀ al, b.owner = some al → AllocOk m b al

/-- The blocks `bs` tile the heap and the free list runs through `fl`. -/
structure Shape (h : Heap) (bs : List Block) (fl : List Nat) : Prop where
  lo : 4 ≤ h.startOfHeap
  hi : h.unallocatedMem < 2 ^ 32
  tiles : Tiles Block.addr Block.size h.startOfHeap bs h.unallocatedMem
  blocks : ∀ b ∈ bs, BlockOk h.mem b
  links : Links 0 (getPrev h.mem) (getNext h.mem) 0 h.firstFreeBlock fl
  nodup : fl.Nodup
  free : ∀ x ∈ fl, ∃ b ∈ bs, b.addr = x ∧ b.owner = none

variable {h : Heap} {m m' : Bytes} {b c : Block} {bs l r : List Block} {fl fl' : List Nat}
  {size : Nat} {used : Bool}

/-! ## The bytes of a block -/

/-- A block depends on its own bytes only. -/
lemma BlockOk.congr (ok : BlockOk m b)
    (hm : ∀ x, b.addr ≤ x → x < b.addr + b.size → m' x = m x) : BlockOk m' b := by
  have hmin := ok.min
  refine ⟨ok.even, ok.min, ?_, ?_, fun al hal => ?_⟩
  · rw [get32_congr fun x h1 h2 => hm x h1 (by omega), ok.first]
  · rw [get32_congr fun x h1 h2 => hm x (by omega) (by omega), ok.last]
  · have hok := ok.alloc al hal
    have hhi := hok.hi
    refine ⟨hok.lo, hok.hi, hok.aligned, fun x h1 h2 => ?_⟩
    rw [hm x (by omega) (by omega), hok.padding x h1 h2]

/-- A free block does not depend on its links. -/
lemma BlockOk.congr_links (ok : BlockOk m b) (hf : b.owner = none)
    (hm : ∀ x, b.addr ≤ x → x < b.addr + b.size → x < b.addr + 4 ∨ b.addr + 12 ≤ x → m' x = m x) :
    BlockOk m' b := by
  have hmin := ok.min
  refine ⟨ok.even, ok.min, ?_, ?_, by simp [hf]⟩
  · rw [get32_congr fun x h1 h2 => hm x h1 (by omega) (by omega), ok.first]
  · rw [get32_congr fun x h1 h2 => hm x (by omega) (by omega) (by omega), ok.last]

/-- `get_size` of a block. -/
lemma BlockOk.getSize (ok : BlockOk m b) (hlt : b.size < 2 ^ 32) : getSize m b.addr = b.size := by
  have he := ok.even
  rw [Malloc.getSize, ok.first]
  split <;> omega

/-- `get_used` of a block. -/
lemma BlockOk.getUsed (ok : BlockOk m b) (hlt : b.size < 2 ^ 32) :
    getUsed m b.addr = b.owner.isSome := by
  rw [Malloc.getUsed, ok.first]
  by_cases hu : b.owner.isSome
  · simp only [hu, if_true, decide_eq_true_eq]; omega
  · simp only [hu, Bool.false_eq_true, if_false, decide_eq_false_iff_not]; omega

/-- `set_size` leaves the other bytes alone. -/
lemma setSize_outside {a x : Nat} (hx : x < a ∨ a + 4 ≤ x) : setSize m a size x = m x :=
  set32_apply_of_outside hx

/-- The header after `set_size`. -/
lemma get32_setSize {a : Nat} (hs : size < 2 ^ 32) :
    (setSize m a size).get32 a = size / 2 + 2 ^ 31 * (m.get32 a / 2 ^ 31) := by
  have h1 := get32_lt m a
  rw [setSize, get32_set32 (by omega)]
  omega

/-- `set_block`, wherever the end header comes to lie apart from the first one. -/
lemma setBlock_apart {a e : Nat} (used : Bool) (he : size % 2 = 0) (hs : size < 2 ^ 32)
    (hend : sub32 (add32 a size) 4 = e) (hout : e + 4 ≤ a ∨ a + 4 ≤ e) :
    (setBlock m a size used).get32 a = size / 2 + (if used then 2 ^ 31 else 0) ∧
    (setBlock m a size used).get32 e = size / 2 + (if used then 2 ^ 31 else 0) ∧
    ∀ x, x < a ∨ a + 4 ≤ x → x < e ∨ e + 4 ≤ x → setBlock m a size used x = m x := by
  have h1 := get32_lt m a
  have hbit : (if used then 2 ^ 31 else 0 : Nat) = 0 ∨ (if used then 2 ^ 31 else 0 : Nat) = 2 ^ 31 := by
    cases used <;> simp
  have hw : (setUsed (setSize m a size) a used).get32 a =
      size / 2 + if used then 2 ^ 31 else 0 := by
    rw [setUsed, get32_setSize hs, get32_set32 (by omega)]
    omega
  have hsize : getSize (setUsed (setSize m a size) a used) a = size := by
    rw [getSize, hw]
    omega
  simp only [setBlock, getEndHeader, hsize, hend, hw]
  refine ⟨?_, ?_, fun x hx1 hx2 => ?_⟩
  · rw [get32_set32_of_disjoint (by omega), hw]
  · rw [get32_set32 (by omega)]
  · rw [set32_apply_of_outside hx2, setUsed, set32_apply_of_outside hx1, setSize_outside hx1]

/-- `set_block` writes the two headers. -/
lemma setBlock_eq {a : Nat} (used : Bool) (he : size % 2 = 0) (hmin : 8 ≤ size) (hs : a + size < 2 ^ 32) :
    (setBlock m a size used).get32 a = size / 2 + (if used then 2 ^ 31 else 0) ∧
    (setBlock m a size used).get32 (a + size - 4) = size / 2 + (if used then 2 ^ 31 else 0) ∧
    ∀ x, x < a ∨ a + 4 ≤ x → x < a + size - 4 ∨ a + size ≤ x → setBlock m a size used x = m x := by
  have hend : sub32 (add32 a size) 4 = a + size - 4 := by
    rw [add32_of_lt hs, sub32_of_le (by omega) (by omega)]
  obtain ⟨hfirst, hlast, hrest⟩ := setBlock_apart (m := m) used he (by omega) hend (by omega)
  exact ⟨hfirst, hlast, fun x hx1 hx2 => hrest x hx1 (by omega)⟩

/-- A free block made by `set_block`. -/
lemma setBlock_free {a : Nat} (he : size % 2 = 0) (hmin : 16 ≤ size) (hs : a + size < 2 ^ 32) :
    BlockOk (setBlock m a size false) ⟨a, size, none⟩ := by
  obtain ⟨h1, h2, _⟩ := setBlock_eq (m := m) false he (by omega) hs
  refine ⟨he, hmin, by simpa using h1, ?_, by simp⟩
  have hs2 : size / 2 % 2 ^ 31 = size / 2 := by omega
  simpa [h2] using hs2

/-! ## Reading the shape -/

/-- Blocks lie in the heap. -/
lemma Shape.bounds (s : Shape h bs fl) (hb : b ∈ bs) :
    h.startOfHeap ≤ b.addr ∧ b.addr + b.size ≤ h.unallocatedMem ∧ 16 ≤ b.size :=
  ⟨(s.tiles.bounds hb).1, (s.tiles.bounds hb).2, (s.blocks b hb).min⟩

/-- `get_size` of a block. -/
lemma Shape.getSize (s : Shape h bs fl) (hb : b ∈ bs) : getSize h.mem b.addr = b.size := by
  have hbd := s.bounds hb
  have hhi := s.hi
  exact (s.blocks b hb).getSize (by omega)

/-- `get_used` of a block. -/
lemma Shape.getUsed (s : Shape h bs fl) (hb : b ∈ bs) :
    getUsed h.mem b.addr = b.owner.isSome := by
  have hbd := s.bounds hb
  have hhi := s.hi
  exact (s.blocks b hb).getUsed (by omega)

/-- Different blocks are apart. -/
lemma Shape.apart (s : Shape h bs fl) (hb : b ∈ bs) (hc : c ∈ bs) (hne : c.addr ≠ b.addr) :
    c.addr + c.size ≤ b.addr ∨ b.addr + b.size ≤ c.addr :=
  s.tiles.apart hb hc fun e => hne (e ▸ rfl)

/-- A block is known by its address. -/
lemma Shape.eq_of_addr (s : Shape h bs fl) (hb : b ∈ bs) (hc : c ∈ bs) (e : c.addr = b.addr) :
    c = b :=
  s.tiles.eq_of_lo_eq (fun d hd => by have := (s.blocks d hd).min; omega) hb hc e

/-- Different nodes of the free list are apart. -/
lemma Shape.node_apart (s : Shape h bs fl) {x y : Nat} (hx : x ∈ fl) (hy : y ∈ fl) (hne : x ≠ y) :
    x + 16 ≤ y ∨ y + 16 ≤ x := by
  obtain ⟨b, hb, rfl, _⟩ := s.free x hx
  obtain ⟨c, hc, rfl, _⟩ := s.free y hy
  have h1 := (s.blocks b hb).min
  have h2 := (s.blocks c hc).min
  rcases s.apart hc hb hne with h | h <;> omega

/-- `get_next_block`. -/
lemma Shape.getNextBlock (s : Shape h (l ++ b :: r) fl) :
    getNextBlock h b.addr = (r.head?.map Block.addr).getD 0 := by
  have hb : b ∈ l ++ b :: r := by simp
  have hbd := s.bounds hb
  have hhi := s.hi
  have htr := (tiles_mid.mp s.tiles).2
  unfold Malloc.getNextBlock
  rw [s.getSize hb, add32_of_lt (by omega)]
  cases r with
  | nil =>
    have e : b.addr + b.size = h.unallocatedMem := htr
    simp [e]
  | cons c r =>
    have hc := (s.bounds (b := c) (by simp)).2
    have e : c.addr = b.addr + b.size := htr.1
    simp only [List.head?_cons, Option.map_some, Option.getD_some]
    rw [if_neg (by omega), e]

/-- `get_prev_block` at the end of the blocks `l`. -/
lemma getPrevBlock_of_tiles {p : Nat} (hlo : 4 ≤ h.startOfHeap) (hp : p < 2 ^ 32)
    (ht : Tiles Block.addr Block.size h.startOfHeap l p) (hok : ∀ b ∈ l, BlockOk h.mem b) :
    getPrevBlock h p = (l.getLast?.map Block.addr).getD 0 := by
  have hle := ht.le
  have h4 : sub32 p 4 = p - 4 := sub32_of_le (by omega) hp
  unfold getPrevBlock
  rw [h4]
  rcases List.eq_nil_or_concat l with rfl | ⟨l', b, rfl⟩
  · have e : h.startOfHeap = p := ht
    simp only [List.getLast?_nil, Option.map_none, Option.getD_none]
    rw [if_pos (by omega)]
  · rw [List.concat_eq_append] at ht hok ⊢
    have hb := hok b (by simp)
    have hmin := hb.min
    have heven := hb.even
    obtain ⟨hl, hr⟩ := tiles_mid.mp ht
    have e : b.addr + b.size = p := hr
    have hbl := hl.le
    have hlast : Malloc.getSize h.mem (p - 4) = b.size := by
      have := hb.last
      rw [e] at this
      rw [Malloc.getSize, this]
      omega
    simp only [List.getLast?_append, List.getLast?_singleton, Option.some_or, Option.map_some,
      Option.getD_some]
    rw [if_neg (by omega), hlast, sub32_of_le (by omega) hp]
    omega

/-- `get_prev_block`. -/
lemma Shape.getPrevBlock (s : Shape h (l ++ b :: r) fl) :
    getPrevBlock h b.addr = (l.getLast?.map Block.addr).getD 0 := by
  have hbd := s.bounds (b := b) (by simp)
  have hhi := s.hi
  exact getPrevBlock_of_tiles s.lo (by omega) (tiles_mid.mp s.tiles).1 fun c hc =>
    s.blocks c (by simp [hc])

/-! ## Writing links -/

/-- Writes to links of free blocks keep every block. -/
lemma Shape.blocks_of_links (s : Shape h bs fl)
    (hm : ∀ x, (∀ c ∈ bs, c.owner = none → x < c.addr + 4 ∨ c.addr + 12 ≤ x) → m' x = h.mem x) :
    ∀ b ∈ bs, BlockOk m' b := by
  intro b hb
  have ok := s.blocks b hb
  have others : ∀ x, b.addr ≤ x → x < b.addr + b.size → ∀ c ∈ bs, c.addr ≠ b.addr →
      x < c.addr + 4 ∨ c.addr + 12 ≤ x := by
    intro x h1 h2 c hc hne
    have hmin := (s.blocks c hc).min
    rcases s.apart hb hc hne with h | h <;> omega
  cases hf : b.owner with
  | none =>
    refine ok.congr_links hf fun x h1 h2 h3 => hm x fun c hc _ => ?_
    by_cases hne : c.addr = b.addr
    · omega
    · exact others x h1 h2 c hc hne
  | some al =>
    refine ok.congr fun x h1 h2 => hm x fun c hc hcf => ?_
    by_cases hne : c.addr = b.addr
    · rw [s.eq_of_addr hb hc hne, hf] at hcf; cases hcf
    · exact others x h1 h2 c hc hne

/-- A node's `next` after a write to a node's `next`. -/
lemma getNext_setNext {x a v : Nat} (hap : x ≠ a → x + 16 ≤ a ∨ a + 16 ≤ x) (hv : v < 2 ^ 32) :
    getNext (setNext m a v) x = if x = a then v else getNext m x := by
  by_cases hx : x = a
  · rw [if_pos hx, hx, getNext, setNext, get32_set32 hv]
  · have := hap hx
    rw [if_neg hx, getNext, setNext, get32_set32_of_disjoint (by omega), getNext]

/-- A node's `prev` after a write to a node's `prev`. -/
lemma getPrev_setPrev {x a v : Nat} (hap : x ≠ a → x + 16 ≤ a ∨ a + 16 ≤ x) (hv : v < 2 ^ 32) :
    getPrev (setPrev m a v) x = if x = a then v else getPrev m x := by
  by_cases hx : x = a
  · rw [if_pos hx, hx, getPrev, setPrev, get32_set32 hv]
  · have := hap hx
    rw [if_neg hx, getPrev, setPrev, get32_set32_of_disjoint (by omega), getPrev]

/-- A node's `prev` after a write to a node's `next`. -/
lemma getPrev_setNext {x a v : Nat} (hap : x ≠ a → x + 16 ≤ a ∨ a + 16 ≤ x) :
    getPrev (setNext m a v) x = getPrev m x := by
  unfold getPrev setNext
  by_cases hx : x = a
  · rw [get32_set32_of_disjoint (by omega)]
  · have := hap hx
    rw [get32_set32_of_disjoint (by omega)]

/-- A node's `next` after a write to a node's `prev`. -/
lemma getNext_setPrev {x a v : Nat} (hap : x ≠ a → x + 16 ≤ a ∨ a + 16 ≤ x) :
    getNext (setPrev m a v) x = getNext m x := by
  unfold getNext setPrev
  by_cases hx : x = a
  · rw [get32_set32_of_disjoint (by omega)]
  · have := hap hx
    rw [get32_set32_of_disjoint (by omega)]

lemma setNext_outside {a v x : Nat} (hx : x < a + 8 ∨ a + 12 ≤ x) : setNext m a v x = m x :=
  set32_apply_of_outside (by omega)

lemma setPrev_outside {a v x : Nat} (hx : x < a + 4 ∨ a + 8 ≤ x) : setPrev m a v x = m x :=
  set32_apply_of_outside (by omega)

/-- A node is an address. -/
lemma Shape.node_lt (s : Shape h bs fl) {x : Nat} (hx : x ∈ fl) : x < 2 ^ 32 := by
  obtain ⟨b, hb, rfl, _⟩ := s.free x hx
  have := s.bounds hb
  have := s.hi
  omega

/-! ## The list operations -/

@[simp] lemma remove_unallocatedMem (h : Heap) (c : Nat) :
    (remove h c).unallocatedMem = h.unallocatedMem := by
  simp only [remove]; split_ifs <;> rfl

@[simp] lemma remove_startOfHeap (h : Heap) (c : Nat) :
    (remove h c).startOfHeap = h.startOfHeap := by
  simp only [remove]; split_ifs <;> rfl

/-- The memory after `remove`. -/
lemma remove_mem (h : Heap) (c : Nat) :
    (remove h c).mem =
      let m := if getPrev h.mem c ≠ 0 then setNext h.mem (getPrev h.mem c) (getNext h.mem c)
        else h.mem
      if getNext h.mem c ≠ 0 then setPrev m (getNext h.mem c) (getPrev h.mem c) else m := by
  simp only [remove]; split_ifs <;> rfl

lemma remove_firstFreeBlock (h : Heap) (c : Nat) :
    (remove h c).firstFreeBlock =
      if getPrev h.mem c ≠ 0 then h.firstFreeBlock else getNext h.mem c := by
  simp only [remove]; split_ifs <;> rfl

/-- `remove` takes a node off the list. -/
lemma Shape.remove {c : Nat} {l r : List Nat} (s : Shape h bs (l ++ c :: r)) :
    Shape (remove h c) bs (l ++ r) := by
  have hprev := s.links.prev_eq
  have hnext := s.links.next_eq
  have hnull := s.links.ne_null
  have hap : ∀ x ∈ l ++ r, ∀ y ∈ l ++ c :: r, x ≠ y → x + 16 ≤ y ∨ y + 16 ≤ x := fun x hx y hy =>
    s.node_apart (by grind) hy
  have hmem := remove_mem h c
  have hffb := remove_firstFreeBlock h c
  have slinks := s.links
  generalize ha : getPrev h.mem c = a at *
  generalize hb : getNext h.mem c = b at *
  have hal : a = 0 ∧ l = [] ∨ a ∈ l ∧ l ≠ [] := by
    cases hg : l.getLast? with
    | none => left; simp_all
    | some y =>
      right
      rw [hg, Option.getD_some] at hprev
      exact ⟨hprev ▸ List.mem_of_getLast? hg, by rintro rfl; simp at hg⟩
  have hbr : b = 0 ∨ b ∈ r := by
    cases r with
    | nil => left; simpa using hnext
    | cons y r => right; simp_all
  have ha2 : a ≠ 0 → a ∈ l ++ c :: r := fun h0 => by grind
  have hb2 : b ≠ 0 → b ∈ l ++ c :: r := fun h0 => by grind
  have halt : a < 2 ^ 32 := ha ▸ get32_lt _ _
  have hblt : b < 2 ^ 32 := hb ▸ get32_lt _ _
  -- which links are written depends on whether there are cells on both sides
  have hp : ∀ x ∈ l ++ r, getPrev (Malloc.remove h c).mem x =
      if x = b then a else getPrev h.mem x := by
    intro x hx
    have hx0 : x ≠ 0 := hnull x (by grind)
    rw [hmem]
    by_cases ha0 : a = 0 <;> by_cases hb0 : b = 0 <;>
      simp only [ha0, hb0, ne_eq, not_true_eq_false, not_false_eq_true, if_true, if_false, hx0]
    · rw [← ha0, getPrev_setPrev (hap x hx b (hb2 hb0)) halt]
    · rw [getPrev_setNext (hap x hx a (ha2 ha0))]
    · rw [getPrev_setPrev (hap x hx b (hb2 hb0)) halt, getPrev_setNext (hap x hx a (ha2 ha0))]
  have hn : ∀ x ∈ l ++ r, getNext (Malloc.remove h c).mem x =
      if x = a then b else getNext h.mem x := by
    intro x hx
    have hx0 : x ≠ 0 := hnull x (by grind)
    rw [hmem]
    by_cases ha0 : a = 0 <;> by_cases hb0 : b = 0 <;>
      simp only [ha0, hb0, ne_eq, not_true_eq_false, not_false_eq_true, if_true, if_false, hx0]
    · rw [getNext_setPrev (hap x hx b (hb2 hb0))]
    · rw [← hb0, getNext_setNext (hap x hx a (ha2 ha0)) hblt]
    · rw [getNext_setPrev (hap x hx b (hb2 hb0)), getNext_setNext (hap x hx a (ha2 ha0)) hblt]
  -- links are written in the headers of free blocks only
  have hout : ∀ x, (∀ c ∈ bs, c.owner = none → x < c.addr + 4 ∨ c.addr + 12 ≤ x) →
      (Malloc.remove h c).mem x = h.mem x := by
    intro x hx
    have node : ∀ y ∈ l ++ c :: r, x < y + 4 ∨ y + 12 ≤ x := by
      intro y hy
      obtain ⟨d, hd, rfl, hf⟩ := s.free y hy
      exact hx d hd hf
    have hna : a ≠ 0 → setNext h.mem a b x = h.mem x := fun h0 =>
      setNext_outside (by have := node a (ha2 h0); omega)
    have hpb : ∀ m : Bytes, b ≠ 0 → setPrev m b a x = m x := fun m h0 =>
      setPrev_outside (by have := node b (hb2 h0); omega)
    rw [hmem]
    by_cases ha0 : a = 0 <;> by_cases hb0 : b = 0 <;>
      simp only [ha0, hb0, ne_eq, not_true_eq_false, not_false_eq_true, if_true, if_false]
    · rw [← ha0, hpb _ hb0]
    · rw [← hb0, hna ha0]
    · rw [hpb _ hb0, hna ha0]
  have hlinks : Links 0 (getPrev (Malloc.remove h c).mem) (getNext (Malloc.remove h c).mem) 0
      (if l = [] then getNext h.mem c else h.firstFreeBlock) (l ++ r) :=
    slinks.unlink s.nodup (fun h0 => hnull 0 h0 rfl)
      (fun x hx => by rw [ha, hb]; exact hp x hx) fun x hx => by rw [ha, hb]; exact hn x hx
  rw [hb] at hlinks
  refine ⟨by simpa using s.lo, by simpa using s.hi, by simpa using s.tiles,
    s.blocks_of_links hout, ?_, s.nodup.sublist (by simp), fun x hx => s.free x (by grind)⟩
  rw [hffb]
  rcases hal with ⟨h0, hl⟩ | ⟨hm, hl⟩
  · rw [if_pos hl] at hlinks
    rwa [if_neg (by simpa using h0)]
  · rw [if_neg hl] at hlinks
    rwa [if_pos (hnull a (by simp [hm]))]

@[simp] lemma insertAfter_unallocatedMem (h : Heap) (c b : Nat) :
    (insertAfter h c b).unallocatedMem = h.unallocatedMem := by
  simp only [insertAfter]; split_ifs <;> rfl

@[simp] lemma insertAfter_startOfHeap (h : Heap) (c b : Nat) :
    (insertAfter h c b).startOfHeap = h.startOfHeap := by
  simp only [insertAfter]; split_ifs <;> rfl

/-- `insert_after` at the start pushes a free block to the front of the list. -/
lemma Shape.insert (s : Shape h bs fl) (hc : c ∈ bs) (hf : c.owner = none) (hcl : c.addr ∉ fl) :
    Shape (insertAfter h c.addr 0) bs (c.addr :: fl) := by
  have hcb := s.bounds hc
  have hhi := s.hi
  have hlo := s.lo
  have hnull := s.links.ne_null
  have hhead := s.links.head_eq
  have hmem : (insertAfter h c.addr 0).mem =
      let m := setPrev (setNext h.mem c.addr h.firstFreeBlock) c.addr 0
      if h.firstFreeBlock ≠ 0 then setPrev m h.firstFreeBlock c.addr else m := rfl
  have hffb : (insertAfter h c.addr 0).firstFreeBlock = c.addr := rfl
  have hlinks := s.links
  have hfl : h.firstFreeBlock ≠ 0 → h.firstFreeBlock ∈ fl := by
    cases fl with
    | nil => intro h0; exact absurd (by simpa using hhead) h0
    | cons y fl => intro _; simp_all
  generalize h.firstFreeBlock = f at *
  have hflt : f < 2 ^ 32 := by
    by_cases h0 : f = 0
    · omega
    · exact s.node_lt (hfl h0)
  -- the headers of free blocks do not overlap
  have hap : ∀ x, x = c.addr ∨ x ∈ fl → ∀ y, y = c.addr ∨ y ∈ fl → x ≠ y →
      x + 16 ≤ y ∨ y + 16 ≤ x := by
    have key : ∀ x ∈ fl, x + 16 ≤ c.addr ∨ c.addr + 16 ≤ x := by
      intro x hx
      obtain ⟨b, hb, rfl, _⟩ := s.free x hx
      have hbb := s.bounds hb
      have hne : b.addr ≠ c.addr := fun e => hcl (e ▸ hx)
      rcases s.apart hc hb hne with h | h <;> omega
    rintro x (rfl | hx) y (rfl | hy) hne
    · exact absurd rfl hne
    · have := key y hy; omega
    · exact key x hx
    · exact s.node_apart hx hy hne
  have hout : ∀ x, (∀ c ∈ bs, c.owner = none → x < c.addr + 4 ∨ c.addr + 12 ≤ x) →
      (insertAfter h c.addr 0).mem x = h.mem x := by
    intro x hx
    have hxc := hx c hc hf
    have hm1 : setPrev (setNext h.mem c.addr f) c.addr 0 x = h.mem x := by
      rw [setPrev_outside (by omega), setNext_outside (by omega)]
    rw [hmem]
    by_cases h0 : f = 0
    · simpa [h0] using hm1
    · obtain ⟨d, hd, e, hdf⟩ := s.free f (hfl h0)
      have hxd := hx d hd hdf
      simp only [ne_eq, h0, not_false_eq_true, if_true]
      rw [setPrev_outside (by omega), hm1]
  have hnext : ∀ x, x = c.addr ∨ x ∈ fl → getNext (insertAfter h c.addr 0).mem x =
      if x = c.addr then f else getNext h.mem x := by
    intro x hx
    have hxc := hap x hx c.addr (.inl rfl)
    rw [hmem]
    by_cases h0 : f = 0
    · simp only [ne_eq, h0, not_true_eq_false, if_false]
      rw [getNext_setPrev hxc, getNext_setNext hxc (by omega)]
    · simp only [ne_eq, h0, not_false_eq_true, if_true]
      rw [getNext_setPrev (hap x hx f (.inr (hfl h0))), getNext_setPrev hxc,
        getNext_setNext hxc hflt]
  have hprev : ∀ x, x = c.addr ∨ x ∈ fl → getPrev (insertAfter h c.addr 0).mem x =
      if x = f then c.addr else if x = c.addr then 0 else getPrev h.mem x := by
    intro x hx
    have hx0 : x ≠ 0 := by
      rcases hx with rfl | hx
      · omega
      · exact hnull x hx
    have hxc := hap x hx c.addr (.inl rfl)
    rw [hmem]
    by_cases h0 : f = 0
    · simp only [ne_eq, h0, not_true_eq_false, if_false, hx0]
      rw [getPrev_setPrev hxc (by omega), getPrev_setNext hxc]
    · simp only [ne_eq, h0, not_false_eq_true, if_true]
      rw [getPrev_setPrev (hap x hx f (.inr (hfl h0))) (by omega), getPrev_setPrev hxc (by omega),
        getPrev_setNext hxc]
  have hcf : c.addr ≠ f := by
    rintro rfl
    exact hcl (hfl (by omega))
  refine ⟨by simpa using s.lo, by simpa using s.hi, by simpa using s.tiles,
    s.blocks_of_links hout, ?_, List.nodup_cons.mpr ⟨hcl, s.nodup⟩, ?_⟩
  · rw [hffb]
    refine hlinks.push (by omega) hcl s.nodup ?_ ?_ ?_ ?_ ?_
    · rw [hnext _ (.inl rfl), if_pos rfl]
    · rw [hprev _ (.inl rfl), if_neg hcf, if_pos rfl]
    · intro h0
      rw [hprev _ (.inr (hfl h0)), if_pos rfl]
    · intro x hx hxf
      have hxc : x ≠ c.addr := by rintro rfl; exact hcl hx
      rw [hprev _ (.inr hx), if_neg hxf, if_neg hxc]
    · intro x hx
      have hxc : x ≠ c.addr := by rintro rfl; exact hcl hx
      rw [hnext _ (.inr hx), if_neg hxc]
  · intro x hx
    rcases List.mem_cons.mp hx with rfl | hx
    · exact ⟨c, hc, rfl, hf⟩
    · exact s.free x hx

end MarioBrOS.Malloc
