import Mathlib.Algebra.BigOperators.Group.Finset.Basic
import Mathlib.Algebra.Order.BigOperators.Group.Finset
import MarioBrOS.Fs.BlockAlloc

/-!
# Counters and bitmaps

Blocks and inodes are counted the same way: each group has a bitmap and a counter, the superblock
their total. `Tallied` says that the counters are right. Taking a clear bit or freeing a set one
keeps it, as long as both counters move along.
-/

namespace MarioBrOS.Fs

/-- What the bitmaps allocate. -/
inductive Resource where
  | blocks
  | inodes
  deriving DecidableEq

namespace Resource

/-- The bitmap of group `k`. -/
def bitmap : Resource → Nat → Region
  | blocks => .blockBitmap
  | inodes => .inodeBitmap

/-- The offset of the counter in the descriptor of a group. -/
def counter : Resource → Nat
  | blocks => 12
  | inodes => 14

end Resource

namespace Volume

variable {v v' : Volume} {r q : Resource} {n k j i : Nat}

/-- How many there are in each group. -/
def perGroup (v : Volume) : Resource → Nat
  | .blocks => v.spb.blockPerGroup
  | .inodes => v.spb.inodePerGroup

/-- The counter of group `k`. -/
def unalloc (v : Volume) (r : Resource) (k : Nat) : Nat := v.bgpt.get16 (32 * k + r.counter)

/-- The counter of the superblock. -/
def unallocNum (v : Volume) : Resource → Nat
  | .blocks => v.spb.unallocBlockNum
  | .inodes => v.spb.unallocInodeNum

/-- The counter of each group is the number of clear bits of its bitmap, that of the superblock is
their sum. -/
structure Tallied (v : Volume) (r : Resource) : Prop where
  group : ∀ k, k < v.geometry.groups →
    v.unalloc r k = clearBits (v.bitmapBit (r.bitmap k)) (v.perGroup r)
  total : v.unallocNum r = ∑ k ∈ Finset.range v.geometry.groups, v.unalloc r k

/-! ## Sizes -/

lemma perGroup_le (L : v.geometry.Layout) : v.perGroup r ≤ 8 * v.geometry.bytes := by
  cases r
  · exact L.blockPerGroup_le
  · exact L.inodePerGroup_le

lemma bitmap_not_descriptors (L : v.geometry.Layout) (hk : k < v.geometry.groups) :
    ¬ v.geometry.InRegion .descriptors (v.geometry.start (r.bitmap k)) := by
  cases r
  · exact L.blockBitmap_not_descriptors hk
  · exact L.inodeBitmap_not_descriptors hk

/-- Different bitmaps lie in different blocks. -/
lemma bitmap_start_ne (L : v.geometry.Layout) (hk : k < v.geometry.groups)
    (hj : j < v.geometry.groups) (h : ¬ (r = q ∧ j = k)) :
    v.geometry.start (r.bitmap j) ≠ v.geometry.start (q.bitmap k) := by
  refine L.start_ne (by cases r <;> exact hj) (by cases q <;> exact hk) (by cases r <;> rfl)
    (by cases q <;> rfl) fun e => h ?_
  cases r <;> cases q <;> cases e <;> exact ⟨rfl, rfl⟩

/-- The numbers of blocks and of inodes are 32-bit words. -/
lemma groups_mul_perGroup_lt (L : v.geometry.Layout) :
    v.geometry.groups * v.perGroup r < 2 ^ 32 := by
  cases r
  · exact @number_lt v v.geometry.groups L 0 (le_refl _)
  · have h1 := L.inodes_lt
    have h2 := L.inodePerGroup_pos
    have h3 := Nat.div_mul_le_self (v.geometry.inodeNum + v.geometry.inodePerGroup - 1)
      v.geometry.inodePerGroup
    rw [L.coherent] at h3
    show v.geometry.groups * v.geometry.inodePerGroup < 2 ^ 32
    omega

/-- The total is a 32-bit word. -/
lemma Tallied.total_le (h : v.Tallied r) :
    v.unallocNum r ≤ v.geometry.groups * v.perGroup r := by
  have hs := Finset.sum_le_card_nsmul (Finset.range v.geometry.groups) (v.unalloc r)
    (v.perGroup r) fun k hk => by
      rw [h.group k (Finset.mem_range.mp hk)]
      exact clearBits_le _ _
  rwa [← h.total, Finset.card_range] at hs

/-- The total leaves room for a set bit. -/
lemma Tallied.total_lt (h : v.Tallied r) (hk : k < v.geometry.groups) (hi : i < v.perGroup r)
    (hset : v.bitmapBit (r.bitmap k) i = true) :
    v.unallocNum r < v.geometry.groups * v.perGroup r := by
  have hs : ∑ j ∈ Finset.range v.geometry.groups, v.unalloc r j <
      ∑ _j ∈ Finset.range v.geometry.groups, v.perGroup r := by
    refine Finset.sum_lt_sum (fun j hj => ?_) ⟨k, Finset.mem_range.mpr hk, ?_⟩
    · rw [h.group j (Finset.mem_range.mp hj)]
      exact clearBits_le _ _
    · rw [h.group k hk]
      exact clearBits_lt hi hset
  rwa [← h.total, Finset.sum_const, Finset.card_range] at hs

/-- A clear bit is counted. -/
lemma Tallied.unalloc_pos (h : v.Tallied r) (hk : k < v.geometry.groups)
    (hi : i < v.perGroup r) (hclear : v.bitmapBit (r.bitmap k) i = false) :
    0 < v.unalloc r k ∧ 0 < v.unallocNum r := by
  have hpos : 0 < v.unalloc r k := h.group k hk ▸ clearBits_pos hi hclear
  refine ⟨hpos, ?_⟩
  rw [h.total]
  exact hpos.trans_le
    (Finset.single_le_sum (f := v.unalloc r) (fun _ _ => Nat.zero_le _) (Finset.mem_range.mpr hk))

/-! ## Marking -/

/-- A mark in one bitmap leaves the others. -/
lemma Marked.bitmapBit_of_ne {value : Bool} (L : v.geometry.Layout)
    (hm : Marked v v' (q.bitmap k) i value) (hk : k < v.geometry.groups)
    (hj : j < v.geometry.groups) (h : ¬ (r = q ∧ j = k)) (hn : n < v.perGroup r) :
    v'.bitmapBit (r.bitmap j) n = v.bitmapBit (r.bitmap j) n :=
  hm.bit_of_ne (bitmap_start_ne L hk hj h) (bitmap_not_descriptors L hj)
    (hn.trans_le (perGroup_le L))

/-- The sum of the counters moves along with one of them. -/
lemma sum_eq_succ {f g : Nat → Nat} (hk : k < n) (h : f k = g k + 1)
    (hne : ∀ j, j < n → j ≠ k → f j = g j) :
    ∑ j ∈ Finset.range n, f j = ∑ j ∈ Finset.range n, g j + 1 := by
  rw [← Finset.add_sum_erase _ f (Finset.mem_range.mpr hk),
    ← Finset.add_sum_erase _ g (Finset.mem_range.mpr hk), h,
    Finset.sum_congr rfl fun j hj => hne j (Finset.mem_range.mp (Finset.mem_of_mem_erase hj))
      (Finset.ne_of_mem_erase hj)]
  exact Nat.add_right_comm _ _ _

/-- Counters that move by one with a bit that changes stay right. -/
lemma Tallied.of_marked {b : Bool} (L : v.geometry.Layout) (h : v.Tallied r)
    (hm : Marked v v' (r.bitmap k) i b) (hk : k < v.geometry.groups) (hi : i < v.perGroup r)
    (hp : v'.perGroup r = v.perGroup r) (hbit : v.bitmapBit (r.bitmap k) i = !b)
    (hne : ∀ j, j ≠ k → v'.unalloc r j = v.unalloc r j)
    (hmove : if b then v.unalloc r k = v'.unalloc r k + 1 ∧
        v.unallocNum r = v'.unallocNum r + 1 else
      v'.unalloc r k = v.unalloc r k + 1 ∧ v'.unallocNum r = v.unallocNum r + 1) :
    v'.Tallied r := by
  have hother : ∀ j, j < v.geometry.groups → j ≠ k →
      clearBits (v'.bitmapBit (r.bitmap j)) (v.perGroup r) =
        clearBits (v.bitmapBit (r.bitmap j)) (v.perGroup r) := fun j hj hjk =>
    clearBits_congr fun n hn => hm.bitmapBit_of_ne L hk hj (fun e => hjk e.2) hn
  have hle := perGroup_le (r := r) L
  have hsame : ∀ n, n < v.perGroup r → n ≠ i →
      v'.bitmapBit (r.bitmap k) n = v.bitmapBit (r.bitmap k) n := fun n hn hni => by
    rw [hm.bit n (hn.trans_le hle), if_neg hni]
  have hnew : v'.bitmapBit (r.bitmap k) i = b := by
    rw [hm.bit i (hi.trans_le hle), if_pos rfl]
  have hold := h.group k hk
  have htotal := h.total
  constructor
  · -- the counters of the groups
    intro j hj
    rw [hm.geometry] at hj
    rw [hp]
    by_cases hjk : j = k
    · subst hjk
      cases b with
      | true =>
        have hc := clearBits_set hi hbit hnew hsame
        rw [if_pos rfl] at hmove
        omega
      | false =>
        have hc := clearBits_clear hi hbit hnew hsame
        rw [if_neg (by decide)] at hmove
        omega
    · rw [hne j hjk, hother j hj hjk, h.group j hj]
  · -- their sum
    rw [hm.geometry]
    cases b with
    | true =>
      rw [if_pos rfl] at hmove
      have hs := sum_eq_succ (f := v.unalloc r) (g := v'.unalloc r) hk hmove.1
        fun j _ hjk => (hne j hjk).symm
      omega
    | false =>
      rw [if_neg (by decide)] at hmove
      have hs := sum_eq_succ (f := v'.unalloc r) (g := v.unalloc r) hk hmove.1
        fun j _ hjk => hne j hjk
      omega

/-- Counters of the other kind do not matter. -/
lemma Tallied.of_other {value : Bool} (L : v.geometry.Layout) (h : v.Tallied r)
    (hm : Marked v v' (q.bitmap k) i value) (hk : k < v.geometry.groups) (hr : r ≠ q)
    (hp : v'.perGroup r = v.perGroup r) (hu : v'.unalloc r = v.unalloc r)
    (hn : v'.unallocNum r = v.unallocNum r) : v'.Tallied r where
  group j hj := by
    rw [hm.geometry] at hj
    rw [hu, hp, h.group j hj]
    exact (clearBits_congr fun n hlt =>
      hm.bitmapBit_of_ne L hk hj (fun e => hr e.1) hlt).symm
  total := by
    rw [hm.geometry, hn, hu, h.total]

/-- Neither the buffers nor the hint for the next free inode matter. -/
lemma Tallied.setStdBuf (h : v.Tallied r) (buf : Bytes) : (v.setStdBuf buf).Tallied r := by
  cases r <;> exact ⟨h.group, h.total⟩

lemma Tallied.setFirstFreeInode (h : v.Tallied r) (n : Nat) :
    (v.setFirstFreeInode n).Tallied r := by
  cases r <;> exact ⟨h.group, h.total⟩

end Volume

end MarioBrOS.Fs
