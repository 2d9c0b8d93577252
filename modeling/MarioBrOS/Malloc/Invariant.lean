import MarioBrOS.Malloc.Coalesce
import MarioBrOS.Lib.Run
import Mathlib.Data.List.Perm.Subperm

/-!
# The heap invariant

The invariant of `malloc.c` over whole runs. The abstract heap is the list of blocks with their
owners; `HeapInv` says that it has the shape the bytes represent and that it is coalesced.
`mem_alloc_aligned` turns a free block into a used one for the new allocation (`Shape.takeBlock`),
perhaps after the heap has grown (`Shape.growHeap`); `mem_free` finds the block of a pointer by the
scan over the padding (`scanBack_header`) and frees it. Between the calls everything outside the
heap and inside live payloads may change.
-/

namespace MarioBrOS.Malloc

open Bytes

variable {h : Heap} {m m' : Bytes} {b u : Block} {bs l r : List Block} {fl fl1 fl2 : List Nat}
  {size alignment req : Nat}

/-- A node of the free list is no used block. -/
lemma Shape.not_mem_of_used (s : Shape h bs fl) (hb : b ∈ bs) (hu : b.owner.isSome) :
    b.addr ∉ fl := by
  intro hm
  obtain ⟨c, hc, e, hf⟩ := s.free _ hm
  obtain rfl := s.eq_of_addr hb hc e
  rw [hf] at hu; cases hu

/-! ## Taking a block -/

/-- A used block, before its pointer is known. -/
def pending (addr size : Nat) : Block := ⟨addr, size, some ⟨addr + 4, 0, 1⟩⟩

/-- A used block made by `set_block`. -/
lemma setBlock_pending {a : Nat} (he : size % 2 = 0) (hmin : 16 ≤ size) (hs : a + size < 2 ^ 32) :
    BlockOk (setBlock m a size true) (pending a size) := by
  obtain ⟨h1, h2, _⟩ := setBlock_eq (m := m) true he (by omega) hs
  have hs2 : (size / 2 + 2 ^ 31) % 2 ^ 31 = size / 2 := by omega
  refine ⟨he, hmin, by simpa [pending] using h1, by simpa [pending, h2] using hs2, ?_⟩
  rintro al hal
  obtain rfl : ⟨a + 4, 0, 1⟩ = al := by simpa [pending] using hal
  refine ⟨by simp [pending], by simp only [pending]; omega, by simp, fun x h1 h2 => ?_⟩
  simp only [pending] at h1 h2
  omega

/-- A block is handed out whole. -/
lemma Shape.useWhole (s : Shape h (l ++ b :: r) fl) (hb : b.addr ∉ fl) :
    Shape { h with mem := setBlock h.mem b.addr b.size true } (l ++ pending b.addr b.size :: r)
      fl := by
  have hbd := s.bounds (b := b) (by simp)
  have hhi := s.hi
  have he := (s.blocks b (by simp)).even
  have hout := (setBlock_eq (m := h.mem) (a := b.addr) true he (by omega) (by omega)).2.2
  have := s.replace [pending b.addr b.size] (setBlock h.mem b.addr b.size true) hb ⟨rfl, rfl⟩
    (fun x hx => hout x (by omega) (by omega)) fun c hc => ?_
  · simpa using this
  · obtain rfl : c = pending b.addr b.size := by simpa using hc
    exact setBlock_pending he hbd.2.2 (by omega)

/-- A block is split: the first part is handed out, the rest stays free. -/
lemma Shape.splitBlock (s : Shape h (l ++ b :: r) fl) (hb : b.addr ∉ fl) (he : size % 2 = 0)
    (hmin : 16 ≤ size) (hle : size + 16 ≤ b.size) :
    Shape { h with
        mem := setBlock (setBlock h.mem b.addr size true) (b.addr + size) (b.size - size) false }
      (l ++ pending b.addr size :: ⟨b.addr + size, b.size - size, none⟩ :: r) fl := by
  have hbd := s.bounds (b := b) (by simp)
  have hhi := s.hi
  have hbe := (s.blocks b (by simp)).even
  have hout1 := (setBlock_eq (m := h.mem) (a := b.addr) true he (by omega)
    (by omega)).2.2
  have hout2 := (setBlock_eq (m := setBlock h.mem b.addr size true) (a := b.addr + size)
    false (show (b.size - size) % 2 = 0 by omega) (by omega) (by omega)).2.2
  have := s.replace [pending b.addr size, ⟨b.addr + size, b.size - size, none⟩]
    (setBlock (setBlock h.mem b.addr size true) (b.addr + size) (b.size - size) false) hb
    ⟨rfl, rfl, by simp only [pending, Tiles]; omega⟩ (fun x hx => ?_) fun c hc => ?_
  · simpa using this
  · rw [hout2 x (by omega) (by omega), hout1 x (by omega) (by omega)]
  · rcases List.mem_cons.mp hc with rfl | hc
    · refine (setBlock_pending (m := h.mem) he hmin (by omega)).congr fun x h1 h2 => ?_
      simp only [pending] at h1 h2
      exact hout2 x (by omega) (by omega)
    · obtain rfl : c = _ := by simpa using hc
      exact setBlock_free (by omega) (by omega) (by omega)

/-- The padding is written and the block gets its owner. -/
lemma Shape.pad (s : Shape h (l ++ u :: r) fl) (al : Alloc) (hu : u.owner.isSome)
    (hlo : u.addr + 4 ≤ al.ptr) (hhi : al.ptr + al.size ≤ u.addr + u.size - 4)
    (hal : al.alignment ∣ al.ptr) :
    Shape { h with mem := memSet h.mem (u.addr + 4) 0 (al.ptr - (u.addr + 4)) }
      (l ++ { u with owner := some al } :: r) fl := by
  have ok := s.blocks u (by simp)
  have hmin := ok.min
  have hout : ∀ x, x < u.addr + 4 ∨ al.ptr ≤ x →
      memSet h.mem (u.addr + 4) 0 (al.ptr - (u.addr + 4)) x = h.mem x := by
    intro x hx
    rw [memSet_apply, if_neg (by omega)]
  have hzero : ∀ x, u.addr + 4 ≤ x → x < al.ptr →
      memSet h.mem (u.addr + 4) 0 (al.ptr - (u.addr + 4)) x = 0 := by
    intro x h1 h2
    rw [memSet_apply, if_pos (by omega)]
  generalize memSet h.mem (u.addr + 4) 0 (al.ptr - (u.addr + 4)) = m' at hout hzero ⊢
  have hok : BlockOk m' { u with owner := some al } := by
    refine ⟨ok.even, ok.min, ?_, ?_, ?_⟩
    · rw [get32_congr fun x h1 h2 => hout x (.inl h2), ok.first]
      simp [hu]
    · rw [get32_congr fun x h1 h2 => hout x (.inr (by simp only at h1; omega)), ok.last]
    · intro al' hal'
      obtain rfl := Option.some.inj hal'
      exact ⟨hlo, hhi, hal, hzero⟩
  have := s.replace [{ u with owner := some al }] m' (s.not_mem_of_used (by simp) hu)
    ⟨rfl, rfl⟩ (fun x hx => hout x (by omega)) fun c hc => List.mem_singleton.mp hc ▸ hok
  simpa using this

@[simp] lemma useBlock_unallocatedMem (h : Heap) (block : Nat) :
    (useBlock size h block).unallocatedMem = h.unallocatedMem := by
  unfold useBlock
  extract_lets sizeBlock h1 next h2 h3
  by_cases hsplit : 12 + 4 ≤ sub32 sizeBlock size
  · rw [if_pos hsplit, mergeWithNext_unallocatedMem]
    exact insertAfter_unallocatedMem _ _ _
  · rw [if_neg hsplit]

@[simp] lemma useBlock_startOfHeap (h : Heap) (block : Nat) :
    (useBlock size h block).startOfHeap = h.startOfHeap := by
  unfold useBlock
  extract_lets sizeBlock h1 next h2 h3
  by_cases hsplit : 12 + 4 ≤ sub32 sizeBlock size
  · rw [if_pos hsplit, mergeWithNext_startOfHeap]
    exact insertAfter_startOfHeap _ _ _
  · rw [if_neg hsplit]

@[simp] lemma takeBlock_unallocatedMem (h : Heap) (block : Nat) :
    (takeBlock size alignment h block).1.unallocatedMem = h.unallocatedMem := by
  simp only [takeBlock, useBlock_unallocatedMem, remove_unallocatedMem]

@[simp] lemma takeBlock_startOfHeap (h : Heap) (block : Nat) :
    (takeBlock size alignment h block).1.startOfHeap = h.startOfHeap := by
  simp only [takeBlock, useBlock_startOfHeap, remove_startOfHeap]

/-- An unlinked free block between used ones is put to use, and what is left of it is free. -/
lemma Shape.useBlock (s : Shape h (l ++ b :: r) fl) (hnb : b.addr ∉ fl)
    (hc : ∀ c ∈ l ++ r, c.owner = none → c.addr ∈ fl) (hl : NoAdjacent l) (hr : NoAdjacent r)
    (hrused : ∀ c ∈ r.head?, c.owner.isSome) (he : size % 2 = 0) (hmin : 16 ≤ size)
    (hle : size ≤ b.size) :
    ∃ u r' fl', Shape (useBlock size h b.addr) (l ++ u :: r') fl' ∧
      Coalesced (l ++ u :: r') fl' ∧ u.addr = b.addr ∧ size ≤ u.size ∧ u.owner.isSome ∧
      r'.filterMap Block.owner = r.filterMap Block.owner := by
  have hbd := s.bounds (b := b) (by simp)
  have hhi := s.hi
  unfold Malloc.useBlock
  simp only [s.getSize (b := b) (by simp), sub32_of_le hle (by omega)]
  by_cases hsplit : 12 + 4 ≤ b.size - size
  · -- the rest becomes a free block of its own
    rw [if_pos hsplit]
    have hnext : Malloc.getNextBlock { h with mem := setBlock h.mem b.addr size true } b.addr =
        b.addr + size := by
      have hok := setBlock_pending (m := h.mem) (a := b.addr) he hmin (by omega)
      have hsz : Malloc.getSize (setBlock h.mem b.addr size true) b.addr = size :=
        hok.getSize (by simp only [pending]; omega)
      simp only [Malloc.getNextBlock, hsz]
      rw [add32_of_lt (by omega), if_neg (by omega)]
    rw [hnext]
    have s2 := s.splitBlock hnb he hmin (by omega)
    have hnn : b.addr + size ∉ fl := by
      intro hm
      obtain ⟨c, hcm, e, _⟩ := s.free _ hm
      have hcb : c.addr ≠ b.addr := by omega
      have hcmin := (s.blocks c hcm).min
      rcases s.apart (b := b) (by simp) hcm hcb with h | h <;> omega
    have s3 := s2.insert (c := ⟨b.addr + size, b.size - size, none⟩) (by simp) rfl hnn
    have hmerge := Shape.mergeWithNext_used (List.append_cons l _ _ ▸ s3) hrused
    refine ⟨pending b.addr size, _ :: r, _, hmerge.symm ▸ s3, ⟨?_, ?_⟩, rfl, Nat.le_refl _, rfl,
      by simp⟩
    · intro c hcm hf
      rcases List.mem_append.mp hcm with hcm | hcm
      · exact List.mem_cons_of_mem _ (hc c (by simp [hcm]) hf)
      · rcases List.mem_cons.mp hcm with rfl | hcm
        · cases hf
        · rcases List.mem_cons.mp hcm with rfl | hcm
          · simp
          · exact List.mem_cons_of_mem _ (hc c (by simp [hcm]) hf)
    · refine noAdjacent_mid.mpr ⟨hl, ?_, by simp [pending], by simp [pending]⟩
      exact (noAdjacent_mid (l := [])).mpr
        ⟨.nil, hr, by simp, fun c hcm => .inr (hrused c hcm)⟩
  · -- the rest is too small for a block, and goes with it
    rw [if_neg hsplit]
    refine ⟨pending b.addr b.size, r, fl, s.useWhole hnb, ⟨?_, ?_⟩, rfl, hle, rfl, rfl⟩
    · intro c hcm hf
      rcases List.mem_append.mp hcm with hcm | hcm
      · exact hc c (by simp [hcm]) hf
      · rcases List.mem_cons.mp hcm with rfl | hcm
        · cases hf
        · exact hc c (by simp [hcm]) hf
    · exact noAdjacent_mid.mpr ⟨hl, hr, by simp [pending], by simp [pending]⟩

/-- A free block that is big enough serves the allocation. -/
lemma Shape.takeBlock (s : Shape h (l ++ b :: r) (fl1 ++ b.addr :: fl2))
    (co : Coalesced (l ++ b :: r) (fl1 ++ b.addr :: fl2)) (hb : b.owner = none)
    (he : size % 2 = 0) (hmin : 16 ≤ size) (hle : size ≤ b.size) (hal : 0 < alignment)
    (hreq : req + alignment + 7 ≤ size) :
    ∃ u r' fl', Shape (takeBlock size alignment h b.addr).1 (l ++ u :: r') fl' ∧
      Coalesced (l ++ u :: r') fl' ∧
      u.owner = some ⟨(Malloc.takeBlock size alignment h b.addr).2, req, alignment⟩ ∧
      (Malloc.takeBlock size alignment h b.addr).2 ≠ 0 ∧
      r'.filterMap Block.owner = r.filterMap Block.owner := by
  have hbd := s.bounds (b := b) (by simp)
  have hhi := s.hi
  have hnb : b.addr ∉ fl1 ++ fl2 := by
    have := s.nodup
    rw [List.nodup_middle, List.nodup_cons] at this
    exact this.1
  have hchain := noAdjacent_mid.mp co.chain
  have hcomp : ∀ c ∈ l ++ r, c.owner = none → c.addr ∈ fl1 ++ fl2 := by
    intro c hc hf
    have hne : c.addr ≠ b.addr := by
      intro e
      obtain rfl := s.eq_of_addr (b := b) (c := c) (by simp) (by grind) e
      exact s.tiles.not_mem (by omega) hc
    have := co.complete c (by grind) hf
    grind
  obtain ⟨u, r', fl', s1, co1, hua, hus, huo, hown⟩ := s.remove.useBlock hnb hcomp hchain.1
    hchain.2.1 (fun c hc => by simpa [hb] using hchain.2.2.2 c hc) he hmin hle
  -- the pointer
  have hptr := ceilMultiple_spec (n := b.addr + 4) hal (by omega)
  have hset : add32 b.addr 4 = b.addr + 4 := add32_of_lt (by omega)
  have hpad : sub32 (ceilMultiple (b.addr + 4) alignment) (b.addr + 4) =
      ceilMultiple (b.addr + 4) alignment - (b.addr + 4) := sub32_of_le (by omega) (by omega)
  simp only [Malloc.takeBlock, hset, hpad]
  generalize ceilMultiple (b.addr + 4) alignment = ptr at *
  have s2 := s1.pad ⟨ptr, req, alignment⟩ huo (by simp only; omega) (by simp only; omega)
    hptr.2.2
  rw [hua] at s2
  refine ⟨_, r', fl', s2, ⟨?_, ?_⟩, rfl, by omega, hown⟩
  · intro c hc hf
    refine co1.complete c ?_ hf
    rcases List.mem_append.mp hc with hc | hc
    · simp [hc]
    · rcases List.mem_cons.mp hc with rfl | hc
      · cases hf
      · simp [hc]
  · have hchain1 := noAdjacent_mid.mp co1.chain
    exact noAdjacent_mid.mpr ⟨hchain1.1, hchain1.2.1, by simp, by simp⟩

/-! ## What the callers write -/

/-- Bytes outside the heap and inside live payloads are no part of the shape. -/
lemma Shape.scribble (s : Shape h bs fl)
    (hm : ∀ x, h.startOfHeap ≤ x → x < h.unallocatedMem →
      (∀ b ∈ bs, ∀ al, b.owner = some al → ¬(al.ptr ≤ x ∧ x < al.ptr + al.size)) →
      m' x = h.mem x) :
    Shape { h with mem := m' } bs fl := by
  have key : ∀ b ∈ bs, ∀ x, b.addr ≤ x → x < b.addr + b.size →
      (∀ al, b.owner = some al → ¬(al.ptr ≤ x ∧ x < al.ptr + al.size)) → m' x = h.mem x := by
    intro b hb x h1 h2 hx
    have hbd := s.bounds hb
    refine hm x (by omega) (by omega) fun c hc al hal => ?_
    by_cases e : c.addr = b.addr
    · obtain rfl := s.eq_of_addr hb hc e
      exact hx al hal
    · have hok := (s.blocks c hc).alloc al hal
      have hlo := hok.lo
      have hhi := hok.hi
      rcases s.apart hb hc e with h | h <;> omega
  refine ⟨s.lo, s.hi, s.tiles, fun b hb => ?_, ?_, s.nodup, s.free⟩
  · have ok := s.blocks b hb
    have hmin := ok.min
    refine ⟨ok.even, ok.min, ?_, ?_, fun al hal => ?_⟩
    · rw [get32_congr fun x h1 h2 => key b hb x h1 (by omega) fun al hal => ?_, ok.first]
      have := (ok.alloc al hal).lo
      omega
    · rw [get32_congr fun x h1 h2 => key b hb x (by omega) (by omega) fun al hal => ?_, ok.last]
      have := (ok.alloc al hal).hi
      omega
    · have hok := ok.alloc al hal
      have hhi := hok.hi
      refine ⟨hok.lo, hok.hi, hok.aligned, fun x h1 h2 => ?_⟩
      refine (key b hb x (by omega) (by omega) fun al' hal' => ?_).trans (hok.padding x h1 h2)
      obtain rfl : al = al' := by simpa [hal] using hal'
      omega
  · have node : ∀ x ∈ fl, ∀ y, x + 4 ≤ y → y < x + 12 → m' y = h.mem y := by
      intro x hx y h1 h2
      obtain ⟨b, hb, rfl, hf⟩ := s.free x hx
      have hmin := (s.blocks b hb).min
      exact key b hb y (by omega) (by omega) (by simp [hf])
    refine s.links.congr (fun x hx => ?_) fun x hx => ?_
    · exact get32_congr fun y h1 h2 => node x hx y (by omega) (by omega)
    · exact get32_congr fun y h1 h2 => node x hx y (by omega) (by omega)

/-! ## Growing -/

/-- The heap, longer by a free block that is not on the list yet. -/
lemma Shape.extend {len : Nat} (s : Shape h bs fl) (he : len % 2 = 0) (hmin : 16 ≤ len)
    (hlt : h.unallocatedMem + len < 2 ^ 32) :
    Shape { h with
        mem := setBlock h.mem h.unallocatedMem len false
        unallocatedMem := h.unallocatedMem + len }
      (bs ++ [⟨h.unallocatedMem, len, none⟩]) fl := by
  have hout := (setBlock_eq (m := h.mem) (a := h.unallocatedMem) false he (by omega)
    hlt).2.2
  have below : ∀ x, x < h.unallocatedMem →
      setBlock h.mem h.unallocatedMem len false x = h.mem x := fun x hx =>
    hout x (by omega) (by omega)
  refine ⟨s.lo, hlt, ?_, ?_, ?_, s.nodup, fun x hx => ?_⟩
  · exact tiles_append.mpr ⟨_, s.tiles, rfl, rfl⟩
  · intro b hb
    rcases List.mem_append.mp hb with hb | hb
    · have hbd := s.bounds hb
      exact (s.blocks b hb).congr fun x h1 h2 => below x (by omega)
    · obtain rfl := List.mem_singleton.mp hb
      exact setBlock_free he hmin hlt
  · have node : ∀ x ∈ fl, ∀ y, y < x + 12 →
        setBlock h.mem h.unallocatedMem len false y = h.mem y := by
      intro x hx y hy
      obtain ⟨b, hb, rfl, _⟩ := s.free x hx
      have hbd := s.bounds hb
      exact below y (by omega)
    refine s.links.congr (fun x hx => ?_) fun x hx => ?_
    · exact get32_congr fun y h1 h2 => node x hx y (by omega)
    · exact get32_congr fun y h1 h2 => node x hx y (by omega)
  · obtain ⟨b, hb, e, hf⟩ := s.free x hx
    exact ⟨b, by simp [hb], e, hf⟩

/-- `insert_after` does not look at the end of the heap. -/
lemma insertAfter_extend (h : Heap) (c um : Nat) :
    { insertAfter h c 0 with unallocatedMem := um } =
      insertAfter { h with unallocatedMem := um } c 0 := rfl

/-- The heap after a successful extension, with the block `alloc_pages` returns. -/
lemma Shape.growHeap (len : Nat) (s : Shape h bs fl) (co : Coalesced bs fl) (he : len % 2 = 0)
    (hmin : 16 ≤ len) (hlt : h.unallocatedMem + len < 2 ^ 32) :
    ∃ l' B r' fl', Shape (growHeap h len).1 (l' ++ B :: r') fl' ∧
      Coalesced (l' ++ B :: r') fl' ∧ B.addr = (growHeap h len).2 ∧ B.owner = none ∧
      len ≤ B.size ∧ (∀ p ∈ bs.getLast?, p.owner = none → p.size + len ≤ B.size) ∧
      (l' ++ B :: r').filterMap Block.owner = bs.filterMap Block.owner := by
  have hnew : h.unallocatedMem ∉ fl := by
    intro hm
    obtain ⟨b, hb, e, _⟩ := s.free _ hm
    have := s.bounds hb
    omega
  have s1 := (s.extend he hmin hlt).insert (c := ⟨h.unallocatedMem, len, none⟩) (by simp) rfl hnew
  have hgrow : Malloc.growHeap h len = Malloc.merge (insertAfter
      { h with
        mem := setBlock h.mem h.unallocatedMem len false
        unallocatedMem := h.unallocatedMem + len } h.unallocatedMem 0) h.unallocatedMem := by
    simp only [Malloc.growHeap, insertAfter_extend, insertAfter_unallocatedMem, add32_of_lt hlt]
  rw [hgrow]
  have hcomp : ∀ c ∈ bs ++ [⟨h.unallocatedMem, len, none⟩], c.owner = none →
      c.addr ∈ h.unallocatedMem :: fl := by
    intro c hc hf
    rcases List.mem_append.mp hc with hc | hc
    · exact List.mem_cons_of_mem _ (co.complete c hc hf)
    · obtain rfl := List.mem_singleton.mp hc
      simp
  simpa using s1.merge rfl hcomp co.chain .nil

/-- The block that `alloc_pages` returns does not lie behind the old end of the heap, even if the
new pages reach around the address space. -/
lemma Shape.growHeap_le {len : Nat} (s : Shape h bs fl) (hne : bs ≠ []) (he : len % 2 = 0) (hmin : 16 ≤ len)
    (hlen : len < 2 ^ 32) (hlt : h.unallocatedMem + len ≤ 2 ^ 32 + h.startOfHeap) :
    (Malloc.growHeap h len).2 ≤ h.unallocatedMem := by
  have hhi := s.hi
  have hlo := s.lo
  obtain ⟨b, hb⟩ := List.exists_mem_of_ne_nil _ hne
  have hbd := s.bounds hb
  obtain ⟨e, hend, hout⟩ : ∃ e, sub32 (add32 h.unallocatedMem len) 4 = e ∧
      (e + 4 ≤ h.startOfHeap ∨ h.unallocatedMem + 4 ≤ e) := by
    refine ⟨_, rfl, ?_⟩
    unfold sub32 add32
    omega
  obtain ⟨hw, -, hrest⟩ := setBlock_apart (m := h.mem) false he hlen hend (by omega)
  have hffb : h.firstFreeBlock ≠ 0 → h.startOfHeap ≤ h.firstFreeBlock ∧
      h.firstFreeBlock + 16 ≤ h.unallocatedMem := by
    intro h0
    cases fl with
    | nil => exact absurd s.links h0
    | cons x fl =>
      obtain ⟨b, hb, hbx, _⟩ := s.free x List.mem_cons_self
      have := s.bounds hb
      have hx : h.firstFreeBlock = x := s.links.1
      omega
  generalize hdef : { insertAfter { h with mem := setBlock h.mem h.unallocatedMem len false }
    h.unallocatedMem 0 with unallocatedMem := add32 h.unallocatedMem len } = h'
  -- the links touch neither the first header nor the word in front of it
  have hmem : ∀ x, h.unallocatedMem - 4 ≤ x → x < h.unallocatedMem + 4 →
      h'.mem x = setBlock h.mem h.unallocatedMem len false x := by
    intro x h1 h2
    subst hdef
    simp only [insertAfter, ne_eq, not_true_eq_false, if_false, setPrev, setNext]
    split_ifs with h0
    · rw [set32_apply_of_outside (by omega), set32_apply_of_outside (by omega)]
    · have := hffb h0
      rw [set32_apply_of_outside (by omega), set32_apply_of_outside (by omega),
        set32_apply_of_outside (by omega)]
  have hsize : Malloc.getSize h'.mem h.unallocatedMem = len := by
    rw [Malloc.getSize, get32_congr fun x h1 h2 => hmem x (by omega) (by omega), hw]
    simp only [Bool.false_eq_true, if_false]
    omega
  have hstart : h'.startOfHeap = h.startOfHeap := by
    subst hdef
    exact insertAfter_startOfHeap ..
  have hnext : Malloc.mergeWithNext h' h.unallocatedMem = h' := by
    rw [mergeWithNext_eq, if_neg]
    rintro ⟨h0, _⟩
    refine h0 (if_pos ?_)
    rw [hsize]
    subst hdef
    exact le_rfl
  have hprev : Malloc.getPrevBlock h' h.unallocatedMem ≤ h.unallocatedMem := by
    have hlast := getPrevBlock_of_tiles s.lo s.hi s.tiles s.blocks
    have hsame : Malloc.getPrevBlock h' h.unallocatedMem =
        Malloc.getPrevBlock h h.unallocatedMem := by
      unfold Malloc.getPrevBlock Malloc.getSize
      rw [hstart, get32_congr fun x h1 h2 => ?_]
      rw [sub32_of_le (by omega) hhi] at h1 h2
      rw [hmem x (by omega) (by omega), hrest x (by omega) (by omega)]
    rw [hsame, hlast]
    cases hl : bs.getLast? with
    | none => exact Nat.zero_le _
    | some b =>
      have := s.bounds (List.mem_of_getLast? hl)
      simp only [Option.map_some, Option.getD_some]
      omega
  have hgrow : Malloc.growHeap h len = Malloc.merge h' h.unallocatedMem := by
    subst hdef
    rfl
  rw [hgrow, Malloc.merge, hnext]
  split_ifs
  · exact hprev
  · exact le_rfl
/-- The pages asked for make up for what the last block lacks. -/
lemma Shape.nbPages (sh : Shape h bs fl) (hne : bs ≠ []) (hs : 0 < size)
    (hlt : size < 2 ^ 32) (hlast : ∀ p ∈ bs.getLast?, p.owner = none → p.size < size) :
    nbPages size h ≠ 0 ∧
      ∀ n, 0x1000 * nbPages size h ≤ n → (∀ p ∈ bs.getLast?, p.owner = none → p.size + 0x1000 *
        Malloc.nbPages size h ≤ n) → size ≤ n := by
  obtain ⟨l, p, rfl⟩ : ∃ l p, bs = l ++ [p] := by
    rcases List.eq_nil_or_concat bs with rfl | ⟨l, p, rfl⟩
    · exact absurd rfl hne
    · exact ⟨l, p, by simp⟩
  have hpb := sh.bounds (b := p) (by simp)
  have hlast' := hlast p (by simp)
  have hprev : Malloc.getPrevBlock h h.unallocatedMem = p.addr := by
    have := getPrevBlock_of_tiles sh.lo sh.hi sh.tiles sh.blocks
    simpa using this
  have e : Malloc.nbPages size h =
      if p.owner = none then ceilRatio (size - p.size) 0x1000 else ceilRatio size 0x1000 := by
    unfold Malloc.nbPages
    simp only [hprev, sh.getSize (b := p) (by simp), sh.getUsed (b := p) (by simp)]
    by_cases hf : p.owner = none
    · simp [hf, sub32_of_le (Nat.le_of_lt (hlast' hf)) hlt]
    · have : p.owner.isSome := by simpa [Option.isSome_iff_ne_none] using hf
      simp [hf, this]
  by_cases hf : p.owner = none
  · rw [if_pos hf] at e
    have h1 := ceilRatio_spec (a := size - p.size) (b := 0x1000) (by omega)
    have h2 := hlast' hf
    rw [e]
    refine ⟨by omega, fun n _ hn => ?_⟩
    have := hn p (by simp) hf
    omega
  · rw [if_neg hf] at e
    have h1 := ceilRatio_spec (a := size) (b := 0x1000) (by omega)
    rw [e]
    exact ⟨by omega, fun n hn _ => by omega⟩

/-! ## Searching -/

/-- Different addresses below `n`, none of them null, are fewer than `n`. -/
lemma length_lt_of_nodup {l : List Nat} {n : Nat} (hd : l.Nodup) (h0 : ∀ x ∈ l, x ≠ 0)
    (hn : ∀ x ∈ l, x < n) (hpos : 0 < n) : l.length < n := by
  have hd' : (0 :: l).Nodup := List.nodup_cons.mpr ⟨fun h => h0 0 h rfl, hd⟩
  have hsub : 0 :: l ⊆ List.range n := by
    intro x hx
    rcases List.mem_cons.mp hx with rfl | hx
    · exact List.mem_range.mpr hpos
    · exact List.mem_range.mpr (hn x hx)
  have := (List.subperm_of_subset hd' hsub).length_le
  rw [List.length_cons, List.length_range] at this
  omega

/-- The search ends at the first node that is big enough, or behind the last one. -/
lemma findBlock_cases {prev : Nat → Nat} {p x fuel : Nat} (size : Nat)
    (hl : Links 0 prev (getNext m) p x fl) (hf : fl.length < fuel) :
    (∃ y ∈ fl, findBlock m size fuel x = some y ∧ size ≤ getSize m y) ∨
      findBlock m size fuel x = some 0 ∧ ∀ y ∈ fl, getSize m y < size := by
  induction fl generalizing p x fuel with
  | nil =>
    obtain ⟨fuel, rfl⟩ := Nat.exists_eq_add_of_lt hf
    have hx : x = 0 := hl
    right
    simp [findBlock, hx]
  | cons y fl ih =>
    obtain ⟨rfl, hx, _, hr⟩ := hl
    obtain ⟨fuel, rfl⟩ : ∃ k, fuel = k + 1 := ⟨fuel - 1, by omega⟩
    by_cases hs : getSize m x < size
    · have e : findBlock m size (fuel + 1) x = findBlock m size fuel (getNext m x) := by
        rw [findBlock, if_pos ⟨hx, hs⟩]
      rw [e]
      rcases ih hr (by simpa using hf) with ⟨y, hy, h1, h2⟩ | ⟨h1, h2⟩
      · exact .inl ⟨y, by simp [hy], h1, h2⟩
      · refine .inr ⟨h1, fun y hy => ?_⟩
        rcases List.mem_cons.mp hy with rfl | hy
        · exact hs
        · exact h2 y hy
    · left
      refine ⟨x, by simp, ?_, by omega⟩
      rw [findBlock, if_neg (by simp [hs])]

/-! ## The invariant -/

/-- The heap represents the blocks `bs` and is coalesced. It is never empty. -/
def HeapInv (h : Heap) (bs : List Block) : Prop :=
  bs ≠ [] ∧ ∃ fl, Shape h bs fl ∧ Coalesced bs fl

/-- The size of the block looked for covers the request, its headers and the padding. -/
lemma blockSize_spec (hal : 0 < alignment) (hreq : req + alignment + 8 < 2 ^ 32) :
    blockSize req alignment % 2 = 0 ∧ 16 ≤ blockSize req alignment ∧
      req + alignment + 7 ≤ blockSize req alignment ∧ blockSize req alignment < 2 ^ 32 := by
  have e : add32 (add32 (sub32 (add32 4 alignment) 1) req) 4 = req + alignment + 7 := by
    rw [add32_of_lt (a := 4) (by omega), sub32_of_le (by omega) (by omega),
      add32_of_lt (a := 4 + alignment - 1) (by omega), add32_of_lt (by omega)]
    omega
  have h := ceilMultiple_spec (n := max (req + alignment + 7) (12 + 4)) (k := 2) (by omega)
    (by omega)
  unfold blockSize
  rw [e]
  omega

variable (L : Layout) {s : MallocState}

@[simp] lemma heap_mem : (s.heap L).mem = s.memory s.currentDirectory := rfl
@[simp] lemma heap_firstFreeBlock : (s.heap L).firstFreeBlock = s.firstFreeBlock := rfl
@[simp] lemma heap_unallocatedMem : (s.heap L).unallocatedMem = s.unallocatedMem := rfl
@[simp] lemma heap_startOfHeap :
    (s.heap L).startOfHeap = startOfHeap L s.currentDirectory := rfl
@[simp] lemma setHeap_currentDirectory : (s.setHeap h).currentDirectory = s.currentDirectory := rfl

/-- The heap written back is the heap in force. -/
lemma heap_setHeap (hs : h.startOfHeap = startOfHeap L s.currentDirectory) :
    (s.setHeap h).heap L = h := by
  cases h
  simp only [MallocState.heap, MallocState.setHeap, Function.update_self]
  simpa using hs.symm

/-- `alloc_pages` puts the pair and the directory back: in effect it grows the heap in force or does
nothing. -/
lemma allocPages_eq (ext : Option Bytes) (size : Nat) (s : MallocState) :
    allocPages L ext size s =
      if nbPages size (s.heap L) = 0 then none
      else match ext with
        | some fresh =>
          let t := s.mapPages s.currentDirectory s.unallocatedMem (0x1000 * nbPages size (s.heap L)) fresh
          let r := growHeap (t.heap L) (0x1000 * nbPages size (s.heap L) % 2 ^ 32)
          some (t.setHeap r.1, r.2)
        | none => some (s, 0) := by
  have back : (s.enterKernel L).leaveKernel s.currentDirectory s.unallocatedMem
      s.firstFreeBlock = s := rfl
  have map : ∀ d um len fresh, ((s.enterKernel L).mapPages d um len fresh).leaveKernel
      s.currentDirectory s.unallocatedMem s.firstFreeBlock = s.mapPages d um len fresh :=
    fun _ _ _ _ => rfl
  cases hc : (L.pagingEnabled && s.currentDirectory != L.kernelDirectory) <;> cases ext <;>
    simp only [allocPages, hc, back, map, if_true, Bool.false_eq_true, if_false]

/-- Changing the contents of the memory in force. -/
lemma heap_mapPages (um len : Nat) (fresh : Bytes) :
    (s.mapPages s.currentDirectory um len fresh).heap L =
      { s.heap L with
        mem := fun x => if um ≤ x ∧ x < um + len then fresh x else (s.heap L).mem x } := by
  simp [MallocState.heap, MallocState.mapPages]

/-- `alloc_pages` either leaves everything as it was or returns a free block that is big enough. -/
lemma allocPages_spec {ext : Option Bytes} (sh : Shape (s.heap L) bs fl) (co : Coalesced bs fl)
    (hne : bs ≠ []) (hs : 0 < size) (hlt : size < 2 ^ 32)
    (hsmall : ∀ p ∈ bs, p.owner = none → p.size < size)
    (hext : ∀ fresh, ext = some fresh →
      s.unallocatedMem + 0x1000 * nbPages size (s.heap L) < 2 ^ 32) :
    ext = none ∧ allocPages L ext size s = some (s, 0) ∨
    ∃ s' l' B r' fl', allocPages L ext size s = some (s', B.addr) ∧
      s'.currentDirectory = s.currentDirectory ∧
      Shape (s'.heap L) (l' ++ B :: r') fl' ∧ Coalesced (l' ++ B :: r') fl' ∧ B.owner = none ∧
      size ≤ B.size ∧ (l' ++ B :: r').filterMap Block.owner = bs.filterMap Block.owner := by
  obtain ⟨hnb, hcover⟩ := sh.nbPages hne hs hlt fun p hp => hsmall p (List.mem_of_getLast? hp)
  rw [allocPages_eq, if_neg hnb]
  cases ext with
  | none => exact .inl ⟨rfl, rfl⟩
  | some fresh =>
    right
    have hfit := hext fresh rfl
    have hlen : 0x1000 * nbPages size (s.heap L) % 2 ^ 32 = 0x1000 * nbPages size (s.heap L) :=
      Nat.mod_eq_of_lt (by omega)
    have sh1 : Shape ((s.mapPages s.currentDirectory s.unallocatedMem
        (0x1000 * nbPages size (s.heap L)) fresh).heap L) bs fl := by
      rw [heap_mapPages]
      refine sh.scribble fun x _ hx _ => if_neg ?_
      simp only [heap_unallocatedMem] at hx
      omega
    have hcur : (s.mapPages s.currentDirectory s.unallocatedMem
        (0x1000 * nbPages size (s.heap L)) fresh).currentDirectory = s.currentDirectory := rfl
    have hum : (s.mapPages s.currentDirectory s.unallocatedMem
        (0x1000 * nbPages size (s.heap L)) fresh).unallocatedMem = s.unallocatedMem := rfl
    simp only [hlen]
    generalize s.mapPages s.currentDirectory s.unallocatedMem
      (0x1000 * nbPages size (s.heap L)) fresh = t at sh1 hcur hum ⊢
    obtain ⟨l', B, r', fl', sh2, co2, haddr, hB, hle, hlast, hown⟩ :=
      sh1.growHeap (0x1000 * nbPages size (s.heap L)) co (by omega) (by omega)
        (by simpa [hum] using hfit)
    refine ⟨t.setHeap (Malloc.growHeap (t.heap L) (0x1000 * nbPages size (s.heap L))).1, l', B, r', fl',
      by rw [haddr], hcur, ?_, co2, hB, hcover B.size hle hlast, hown⟩
    rw [heap_setHeap]
    · exact sh2
    · simp [Malloc.growHeap]

/-- Taking a block of the heap in force. -/
lemma takeBlock_heapInv (sh : Shape (s.heap L) (l ++ b :: r) fl) (co : Coalesced (l ++ b :: r) fl)
    (hb : b.owner = none) (hal : 0 < alignment) (hreq : req + alignment + 8 < 2 ^ 32)
    (hle : blockSize req alignment ≤ b.size) :
    ∃ s' p bs', (s', p) = (s.setHeap
        (takeBlock (blockSize req alignment) alignment (s.heap L) b.addr).1,
        (takeBlock (blockSize req alignment) alignment (s.heap L) b.addr).2) ∧ p ≠ 0 ∧
      s'.currentDirectory = s.currentDirectory ∧ HeapInv (s'.heap L) bs' ∧
      (bs'.filterMap Block.owner).Perm
        (⟨p, req, alignment⟩ :: (l ++ b :: r).filterMap Block.owner) := by
  obtain ⟨he, hmin, hcov, _⟩ := blockSize_spec hal hreq
  obtain ⟨fl1, fl2, rfl⟩ := List.append_of_mem (co.complete b (by simp) hb)
  obtain ⟨u, r', fl', sh', co', hu, h0, hown⟩ := sh.takeBlock co hb he hmin hle hal hcov
  have hstart : (takeBlock (blockSize req alignment) alignment (s.heap L) b.addr).1.startOfHeap =
      startOfHeap L s.currentDirectory := by simp
  refine ⟨_, _, l ++ u :: r', rfl, h0, rfl, ?_, ?_⟩
  · rw [heap_setHeap L hstart]
    exact ⟨by simp, fl', sh', co'⟩
  · rw [List.filterMap_append, List.filterMap_cons_some hu, List.filterMap_append,
      List.filterMap_cons_none hb, hown]
    exact List.perm_middle

/-- `mem_alloc_aligned` fails and changes nothing, or adds the allocation it returns. -/
lemma memAllocAligned_spec {ext : Option Bytes} (hinv : HeapInv (s.heap L) bs)
    (hal : 0 < alignment) (hreq : req + alignment + 8 < 2 ^ 32)
    (hext : ∀ fresh, ext = some fresh →
      s.unallocatedMem + 0x1000 * nbPages (blockSize req alignment) (s.heap L) < 2 ^ 32) :
    memAllocAligned L ext req alignment s = some (s, 0) ∨
    ∃ s' p bs', memAllocAligned L ext req alignment s = some (s', p) ∧ p ≠ 0 ∧
      s'.currentDirectory = s.currentDirectory ∧ HeapInv (s'.heap L) bs' ∧
      (bs'.filterMap Block.owner).Perm (⟨p, req, alignment⟩ :: bs.filterMap Block.owner) := by
  obtain ⟨hne, fl, sh, co⟩ := hinv
  obtain ⟨_, hmin, _, hlt⟩ := blockSize_spec hal hreq
  have hnull := sh.links.ne_null
  have hfuel : fl.length < WALK_FUEL :=
    length_lt_of_nodup sh.nodup hnull (fun x hx => sh.node_lt hx) (by unfold WALK_FUEL; omega)
  have hsize : ∀ p ∈ bs, Malloc.getSize (s.heap L).mem p.addr = p.size := fun p hp => sh.getSize hp
  unfold memAllocAligned
  rcases findBlock_cases (blockSize req alignment) sh.links hfuel with
    ⟨y, hy, hfind, hle⟩ | ⟨hfind, hsmall⟩
  · right
    obtain ⟨b, hb, rfl, hf⟩ := sh.free y hy
    rw [hsize b hb] at hle
    have h0 := hnull _ hy
    obtain ⟨l, r, rfl⟩ := List.append_of_mem hb
    obtain ⟨s', p, bs', e, hrest⟩ := takeBlock_heapInv L sh co hf hal hreq hle
    refine ⟨s', p, bs', ?_, hrest⟩
    simp only [heap_firstFreeBlock] at hfind
    simp only [hfind, Option.bind_some, if_neg h0, e]
  · have hsmall' : ∀ p ∈ bs, p.owner = none → p.size < blockSize req alignment := by
      intro p hp hf
      have := hsmall p.addr (co.complete p hp hf)
      rwa [hsize p hp] at this
    simp only [heap_firstFreeBlock] at hfind
    simp only [hfind, Option.bind_some, if_true]
    rcases allocPages_spec L sh co hne (by omega) hlt hsmall' hext with
      ⟨_, e⟩ | ⟨s', l, B, r, fl', e, hcur, sh', co', hB, hle, hown⟩
    · left
      simp only [e, Option.bind_some, if_true]
    · right
      have hBb := sh'.bounds (b := B) (by simp)
      have hlo := sh'.lo
      obtain ⟨s'', p, bs', e', hp, hcur', hinv', hown'⟩ :=
        takeBlock_heapInv L sh' co' hB hal hreq hle
      refine ⟨s'', p, bs', ?_, hp, hcur'.trans hcur, hinv', hown ▸ hown'⟩
      simp only [e, Option.bind_some]
      rw [if_neg (by omega), e']

/-! ## Releasing a block -/

/-- The scan stops at the first byte that is not zero. -/
lemma scanBack_eq {a p : Nat} (hle : a ≤ p) (hn : m a ≠ 0) (hz : ∀ x, a < x → x ≤ p → m x = 0) :
    scanBack m p = some a := by
  induction p with
  | zero =>
    obtain rfl : a = 0 := by omega
    rw [scanBack, if_neg hn]
  | succ p ih =>
    by_cases e : a = p + 1
    · subst e
      rw [scanBack, if_neg hn]
    · rw [scanBack, if_pos (hz (p + 1) (by omega) (by omega))]
      exact ih (by omega) fun x h1 h2 => hz x h1 (by omega)

/-- From a live pointer the scan runs over the padding to the last byte of the first header. -/
lemma scanBack_header {al : Alloc} (ok : BlockOk m b) (hal : b.owner = some al) :
    scanBack m (al.ptr - 1) = some (b.addr + 3) := by
  have hok := ok.alloc al hal
  have hlo := hok.lo
  refine scanBack_eq (by omega) (fun h0 => ?_) fun x h1 h2 => hok.padding x (by omega) (by omega)
  have hw := ok.first
  have hb0 := (m b.addr).toNat_lt
  have hb1 := (m (b.addr + 1)).toNat_lt
  have hb2 := (m (b.addr + 2)).toNat_lt
  simp only [get32, h0, hal, Option.isSome_some, if_true] at hw
  simp only [UInt8.toNat_zero] at hw
  omega

/-- `mem_free` frees the block of the live pointer, and nothing else. -/
lemma memFree_spec {al : Alloc} (hinv : HeapInv (s.heap L) bs) (hb : b ∈ bs)
    (hal : b.owner = some al) :
    ∃ s' bs', memFree L al.ptr s = some s' ∧ s'.currentDirectory = s.currentDirectory ∧
      HeapInv (s'.heap L) bs' ∧
      (bs'.filterMap Block.owner).Perm ((bs.filterMap Block.owner).erase al) := by
  obtain ⟨hne, fl, sh, co⟩ := hinv
  have hbd := sh.bounds hb
  have hlo := sh.lo
  have hhi := sh.hi
  have ok := sh.blocks b hb
  have hok := ok.alloc al hal
  have hallo := hok.lo
  have halhi := hok.hi
  have hscan : scanBack (s.heap L).mem (sub32 al.ptr 1) = some (b.addr + 3) := by
    rw [sub32_of_le (by omega) (by omega)]
    exact scanBack_header ok hal
  have haddr : sub32 (add32 (b.addr + 3) 1) 4 = b.addr := by
    rw [add32_of_lt (by omega), sub32_of_le (by omega) (by omega)]
    omega
  obtain ⟨l, r, rfl⟩ := List.append_of_mem hb
  have hnb : b.addr ∉ fl := sh.not_mem_of_used hb (by simp [hal])
  -- only the first header is written
  have hout : ∀ x, x < b.addr ∨ b.addr + 4 ≤ x →
      setUsed (s.heap L).mem b.addr false x = (s.heap L).mem x := fun x hx =>
    set32_apply_of_outside hx
  have hfree : BlockOk (setUsed (s.heap L).mem b.addr false) ⟨b.addr, b.size, none⟩ := by
    have hfirst := ok.first
    have heven := ok.even
    have hlast : (setUsed (s.heap L).mem b.addr false).get32 (b.addr + b.size - 4) =
        (s.heap L).mem.get32 (b.addr + b.size - 4) :=
      get32_congr fun x h1 h2 => hout x (by omega)
    simp only [hal, Option.isSome_some, if_true] at hfirst
    refine ⟨ok.even, ok.min, ?_, by rw [← ok.last, hlast], by simp⟩
    simp only [Bool.false_eq_true, if_false, Option.isSome_none, setUsed]
    rw [get32_set32 (by omega)]
    omega
  have sh1 := sh.replace [⟨b.addr, b.size, none⟩] (setUsed (s.heap L).mem b.addr false) hnb ⟨rfl, rfl⟩ (fun x hx => hout x (by omega))
    fun c hc => List.mem_singleton.mp hc ▸ hfree
  rw [List.append_assoc, List.singleton_append] at sh1
  -- the block goes to the front of the list, and is merged from there
  have sh2 := sh1.insert (c := ⟨b.addr, b.size, none⟩) (by simp) rfl hnb
  have hchain := noAdjacent_mid.mp co.chain
  have hcomp : ∀ c ∈ l ++ (⟨b.addr, b.size, none⟩ : Block) :: r, c.owner = none →
      c.addr ∈ b.addr :: fl := by
    intro c hc hf
    rcases List.mem_append.mp hc with hc | hc
    · exact List.mem_cons_of_mem _ (co.complete c (by simp [hc]) hf)
    · rcases List.mem_cons.mp hc with rfl | hc
      · simp
      · exact List.mem_cons_of_mem _ (co.complete c (by simp [hc]) hf)
  obtain ⟨l', B, r', fl', sh3, co3, _, _, _, _, hown⟩ :=
    sh2.merge rfl hcomp hchain.1 hchain.2.1
  refine ⟨s.setHeap (Malloc.merge (insertAfter
      { s.heap L with mem := setUsed (s.heap L).mem b.addr false } b.addr 0) b.addr).1,
    l' ++ B :: r', ?_, rfl, ?_, ?_⟩
  · simp only [memFree, hscan, Option.map_some, haddr]
  · rw [heap_setHeap]
    · exact ⟨by simp, fl', sh3, co3⟩
    · simp
  · rw [hown, List.filterMap_append, List.filterMap_append, List.filterMap_cons_some hal]
    have : (l.filterMap Block.owner ++ al :: r.filterMap Block.owner).Perm
        (al :: (l.filterMap Block.owner ++ r.filterMap Block.owner)) := List.perm_middle
    simpa using (this.erase al).symm

end MarioBrOS.Malloc
