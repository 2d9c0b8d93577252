import MarioBrOS.Lib.Fields
import Mathlib.Data.BitVec
import Mathlib.Data.Nat.Bitwise
import Mathlib.Logic.Function.Basic

/-!
# The segments

`gdt.c`: the table of segment descriptors that `add_segment` and `write_tss` fill, and the selectors
they hand out. The processor takes a descriptor apart again (`Segment.decode`) and adds the base of
the segment to an offset (`Segment.translate`).

`Added` says what a sequence of calls of `add_segment` leaves: the processor reads each descriptor
as it was asked for. `gdtInstall_flat` is `gdt_install`: the segments of the kernel and of the
processes are the whole address space, and the selectors that the assembly files spell out are the
right ones.
-/

namespace MarioBrOS.Interrupts

/-- `gdt.h`, `gdt_entry_t`. -/
structure GdtEntry where
  limitLow : Nat
  baseLow : Nat
  baseMiddle : Nat
  access : Nat
  readWrite : Nat
  dirConform : Nat
  executable : Nat
  alwaysOne : Nat
  privilege : Nat
  present : Nat
  limitHigh : Nat
  available : Nat
  alwaysZero : Nat
  size : Nat
  granularity : Nat
  baseHigh : Nat
  deriving DecidableEq, Repr

/-- The bit fields of an entry, with their widths. -/
def GdtEntry.fields (e : GdtEntry) : List (Nat × Nat) :=
  [(16, e.limitLow), (16, e.baseLow), (8, e.baseMiddle), (1, e.access), (1, e.readWrite),
    (1, e.dirConform), (1, e.executable), (1, e.alwaysOne), (2, e.privilege), (1, e.present),
    (4, e.limitHigh), (1, e.available), (1, e.alwaysZero), (1, e.size), (1, e.granularity),
    (8, e.baseHigh)]

/-- The 8 bytes of an entry. -/
def GdtEntry.bits (e : GdtEntry) : Nat := pack e.fields

/-- `gdt.c`, `GDT_SIZE`. -/
def GDT_SIZE : Nat := 8

/-- `sizeof(gdt_entry_t)`. -/
def SIZEOF_GDT_ENTRY : Nat := 8

/-- The globals of `gdt.c`. -/
structure Gdt where
  gdt : Nat → GdtEntry
  currentEntry : Nat

/-- What `add_segment` is asked for. -/
structure SegmentRequest where
  base : Nat
  limit : Nat
  code : Bool
  ring : Nat
  deriving DecidableEq, Repr

/-- The entry that `add_segment` writes. -/
def segmentEntry (q : SegmentRequest) : GdtEntry where
  limitLow := q.limit &&& 0xFFFF
  baseLow := q.base &&& 0xFFFF
  baseMiddle := (q.base >>> 16) &&& 0xFF
  access := 0
  readWrite := 1
  dirConform := 0
  executable := q.code.toNat
  alwaysOne := 1
  privilege := q.ring
  present := (q.base != q.limit).toNat
  limitHigh := (q.limit >>> 16) &&& 0xF
  available := 1
  alwaysZero := 0
  size := 1
  granularity := 1
  baseHigh := (q.base >>> 24) &&& 0xFF

/-- `gdt.c`, `add_segment`: the value of `*address` and the table. -/
def addSegment (q : SegmentRequest) (g : Gdt) : Option (Nat × Gdt) :=
  if g.currentEntry = GDT_SIZE then
    none
  else
    some ((g.currentEntry * SIZEOF_GDT_ENTRY) ||| q.ring,
      ⟨Function.update g.gdt g.currentEntry (segmentEntry q), g.currentEntry + 1⟩)

/-- `sizeof(TSS_ENTRY)`. -/
def SIZEOF_TSS : Nat := 104

/-- The entry that `write_tss` writes, for a `TSS_ENTRY` at address `base`. -/
def tssEntry (base : Nat) : GdtEntry where
  limitLow := SIZEOF_TSS &&& 0xFFFF
  baseLow := base &&& 0xFFFF
  baseMiddle := (base >>> 16) &&& 0xFF
  access := 1
  readWrite := 0
  dirConform := 0
  executable := 1
  alwaysOne := 0
  privilege := 0
  present := 1
  limitHigh := (SIZEOF_TSS >>> 16) &&& 0xF
  available := 0
  alwaysZero := 0
  size := 1
  granularity := 0
  baseHigh := (base >>> 24) &&& 0xFF

/-- `gdt.h`, `tss_t`: the stack of the kernel. All other fields stay 0. -/
structure Tss where
  esp0 : BitVec 32
  ss0 : BitVec 16
  deriving DecidableEq, Repr

/-- `gdt.c`, `write_tss`, on the entry number `entry`: the value of `TSS_SEGMENT`, the table, and
`TSS_ENTRY`. -/
def writeTss (base ss0 : Nat) (stack : BitVec 32) (entry : Nat) (g : Gdt) : Nat × Gdt × Tss :=
  ((g.currentEntry * SIZEOF_GDT_ENTRY) ||| 0,
    ⟨Function.update g.gdt entry (tssEntry base), g.currentEntry + 1⟩, ⟨stack, BitVec.ofNat 16 ss0⟩)

/-- Calls of `add_segment`, one after the other. -/
def addSegments : List SegmentRequest → Gdt → Option (List Nat × Gdt)
  | [], g => some ([], g)
  | q :: qs, g => do
    let (sel, g) ← addSegment q g
    let (sels, g) ← addSegments qs g
    some (sel :: sels, g)

/-- The segments of `gdt_install`: the null segment, code, data and stack of the kernel, and code,
data and stack of the processes. -/
def segments : List SegmentRequest :=
  [⟨0, 0, false, 0⟩, ⟨0, 0xFFFFF, true, 0⟩, ⟨0, 0xFFFFF, false, 0⟩, ⟨0, 0xFFFFF, false, 0⟩,
    ⟨0, 0xFFFFF, true, 3⟩, ⟨0, 0xFFFFF, false, 3⟩, ⟨0, 0xFFFFF, false, 3⟩]

/-- `KERNEL_CODE_SEGMENT`, among the selectors of `gdt_install`. -/
def kernelCodeSegment (sels : List Nat) : Nat := sels.getD 1 0

/-- `KERNEL_STACK_SEGMENT`, among the selectors of `gdt_install`. -/
def kernelStackSegment (sels : List Nat) : Nat := sels.getD 3 0

/-- `gdt.c`, `gdt_install`, with `TSS_ENTRY` at address `tss` and `START_OF_KERNEL_STACK = stack`:
the selectors, the one of the task segment last, the table, and `TSS_ENTRY`. -/
def gdtInstall (tss : Nat) (stack : BitVec 32) (g : Gdt) : Option (List Nat × Gdt × Tss) := do
  let (sels, g) ← addSegments segments g
  let (sel, g, t) := writeTss tss (kernelStackSegment sels) stack g.currentEntry g
  some (sels ++ [sel], g, t)

/-! ## The processor's view -/

/-- What the processor reads in a descriptor. -/
structure Segment where
  base : Nat
  limit : Nat
  /-- The four bits of the type. -/
  kind : List Nat
  /-- A code or data segment, not one of the system. -/
  user : Nat
  dpl : Nat
  present : Nat
  big : Nat
  pages : Nat
  deriving DecidableEq, Repr

/-- The fields of a descriptor. -/
def descriptorFields : List Nat := [16, 16, 8, 1, 1, 1, 1, 1, 2, 1, 4, 1, 1, 1, 1, 8]

/-- A descriptor, taken apart. -/
def Segment.decode (n : Nat) : Segment :=
  let f := (unpack descriptorFields n).getD
  { base := f 1 0 + 2 ^ 16 * f 2 0 + 2 ^ 24 * f 15 0
    limit := f 0 0 + 2 ^ 16 * f 10 0
    kind := [f 3 0, f 4 0, f 5 0, f 6 0]
    user := f 7 0
    dpl := f 8 0
    present := f 9 0
    big := f 13 0
    pages := f 14 0 }

/-- The last offset of the segment. -/
def Segment.last (s : Segment) : Nat :=
  if s.pages = 1 then s.limit * 2 ^ 12 + (2 ^ 12 - 1) else s.limit

/-- The linear address of an offset into the segment. -/
def Segment.translate (s : Segment) (offset : Nat) : Option Nat :=
  if s.present = 1 ∧ offset ≤ s.last then some ((s.base + offset) % 2 ^ 32) else none

/-- A selector: the index of the descriptor, the table and the privilege asked for. -/
structure Selector where
  index : Nat
  ldt : Nat
  rpl : Nat
  deriving DecidableEq, Repr

/-- A selector, taken apart. -/
def Selector.decode (n : Nat) : Selector :=
  let f := (unpack [2, 1, 13] n).getD
  ⟨f 2 0, f 1 0, f 0 0⟩

/-! ## What the table holds -/

/-- What the processor should read. -/
def SegmentRequest.segment (q : SegmentRequest) : Segment where
  base := q.base
  limit := q.limit % 2 ^ 20
  kind := [0, 1, 0, q.code.toNat]
  user := 1
  dpl := q.ring
  present := (q.base != q.limit).toNat
  big := 1
  pages := 1

/-- A request that fits: an address, and a ring. -/
structure SegmentRequest.Fits (q : SegmentRequest) : Prop where
  base : q.base < 2 ^ 32
  ring : q.ring < 4

variable {q : SegmentRequest} {qs : List SegmentRequest} {g g' : Gdt} {sels : List Nat}

lemma toNat_mod_two (b : Bool) : b.toNat % 2 = b.toNat :=
  Nat.mod_eq_of_lt (Bool.toNat_lt b)

/-- An address in three parts. -/
lemma base_parts {n : Nat} (h : n < 2 ^ 32) :
    (n &&& 0xFFFF) % 2 ^ 16 + 2 ^ 16 * (((n >>> 16) &&& 0xFF) % 2 ^ 8) +
      2 ^ 24 * (((n >>> 24) &&& 0xFF) % 2 ^ 8) = n := by
  have e16 : n &&& 0xFFFF = n % 2 ^ 16 := Nat.and_two_pow_sub_one_eq_mod n 16
  have e8 (m : Nat) : m &&& 0xFF = m % 2 ^ 8 := Nat.and_two_pow_sub_one_eq_mod m 8
  simp only [e16, e8, Nat.shiftRight_eq_div_pow]
  omega

/-- A limit in two parts. -/
lemma limit_parts (n : Nat) :
    (n &&& 0xFFFF) % 2 ^ 16 + 2 ^ 16 * (((n >>> 16) &&& 0xF) % 2 ^ 4) = n % 2 ^ 20 := by
  have e16 : n &&& 0xFFFF = n % 2 ^ 16 := Nat.and_two_pow_sub_one_eq_mod n 16
  have e4 (m : Nat) : m &&& 0xF = m % 2 ^ 4 := Nat.and_two_pow_sub_one_eq_mod m 4
  simp only [e16, e4, Nat.shiftRight_eq_div_pow]
  omega

/-- The processor reads the fields of the entry, each cut to its width. -/
lemma decode_bits (e : GdtEntry) : Segment.decode e.bits =
    { base := e.baseLow % 2 ^ 16 + 2 ^ 16 * (e.baseMiddle % 2 ^ 8) + 2 ^ 24 * (e.baseHigh % 2 ^ 8)
      limit := e.limitLow % 2 ^ 16 + 2 ^ 16 * (e.limitHigh % 2 ^ 4)
      kind := [e.access % 2 ^ 1, e.readWrite % 2 ^ 1, e.dirConform % 2 ^ 1, e.executable % 2 ^ 1]
      user := e.alwaysOne % 2 ^ 1
      dpl := e.privilege % 2 ^ 2
      present := e.present % 2 ^ 1
      big := e.size % 2 ^ 1
      pages := e.granularity % 2 ^ 1 } := by
  unfold Segment.decode GdtEntry.bits
  rw [show descriptorFields = e.fields.map Prod.fst from rfl, unpack_pack]
  rfl

/-- A segment is read as it was asked for. -/
lemma decode_segmentEntry (hq : q.Fits) : Segment.decode (segmentEntry q).bits = q.segment := by
  have hr : q.ring % 2 ^ 2 = q.ring := Nat.mod_eq_of_lt hq.ring
  rw [decode_bits, segmentEntry, SegmentRequest.segment]
  simp only [base_parts hq.base, limit_parts, hr, Nat.pow_one, toNat_mod_two, Nat.reduceMod]

/-- The selector of an entry of the table. -/
lemma decode_selector {i ring : Nat} (hi : i < GDT_SIZE) (hr : ring < 4) :
    Selector.decode ((i * SIZEOF_GDT_ENTRY) ||| ring) = ⟨i, 0, ring⟩ := by
  have e : (i * SIZEOF_GDT_ENTRY) ||| ring = 2 ^ 3 * i + ring := by
    rw [Nat.two_pow_add_eq_or_of_lt (by omega), Nat.mul_comm]
    rfl
  have hi : i < 8 := hi
  simp only [e, Selector.decode, unpack, Selector.mk.injEq, List.getD_cons_zero,
    List.getD_cons_succ]
  omega

/-- What calls of `add_segment` leave: the entries from the current one on are those asked for, and
the selectors are theirs. -/
structure Added (qs : List SegmentRequest) (g : Gdt) (sels : List Nat) (g' : Gdt) : Prop where
  current : g'.currentEntry = g.currentEntry + qs.length
  length : sels.length = qs.length
  entry : ∀ i q, qs[i]? = some q → g'.gdt (g.currentEntry + i) = segmentEntry q
  selector : ∀ i q, qs[i]? = some q →
    sels[i]? = some (((g.currentEntry + i) * SIZEOF_GDT_ENTRY) ||| q.ring)
  other : ∀ j, j < g.currentEntry ∨ g.currentEntry + qs.length ≤ j → g'.gdt j = g.gdt j

/-- `add_segment` again and again. -/
lemma addSegments_added (h : g.currentEntry + qs.length ≤ GDT_SIZE) :
    ∃ sels g', addSegments qs g = some (sels, g') ∧ Added qs g sels g' := by
  induction qs generalizing g with
  | nil =>
    refine ⟨[], g, rfl, rfl, rfl, fun i q hq => ?_, fun i q hq => ?_, fun _ _ => rfl⟩
    · simp at hq
    · simp at hq
  | cons q qs ih =>
    rw [List.length_cons] at h
    have hne : g.currentEntry ≠ GDT_SIZE := by omega
    obtain ⟨sels, g', hrun, ha⟩ := @ih
      ⟨Function.update g.gdt g.currentEntry (segmentEntry q), g.currentEntry + 1⟩ (by simp; omega)
    refine ⟨((g.currentEntry * SIZEOF_GDT_ENTRY) ||| q.ring) :: sels, g',
      by simp [addSegments, addSegment, hne, hrun], ?_⟩
    have hsum (i : Nat) : g.currentEntry + (i + 1) = g.currentEntry + 1 + i := by omega
    constructor
    · exact ha.current.trans (hsum _).symm
    · rw [List.length_cons, ha.length, List.length_cons]
    · intro i p hp
      cases i with
      | zero =>
        obtain rfl := Option.some.inj hp
        rw [Nat.add_zero, ha.other _ (.inl (Nat.lt_succ_self _))]
        exact Function.update_self ..
      | succ i =>
        rw [hsum]
        exact ha.entry i p hp
    · intro i p hp
      cases i with
      | zero =>
        obtain rfl := Option.some.inj hp
        rfl
      | succ i =>
        rw [hsum]
        exact ha.selector i p hp
    · intro j hj
      rw [List.length_cons] at hj
      rw [ha.other j (by simp; omega)]
      exact Function.update_of_ne (by omega) _ _

/-- The table is full. -/
lemma addSegments_none (hg : g.currentEntry ≤ GDT_SIZE)
    (h : GDT_SIZE < g.currentEntry + qs.length) : addSegments qs g = none := by
  induction qs generalizing g with
  | nil => exact absurd hg (Nat.not_le_of_lt h)
  | cons q qs ih =>
    rw [List.length_cons] at h
    by_cases he : g.currentEntry = GDT_SIZE
    · simp [addSegments, addSegment, he]
    · have hrun := @ih ⟨Function.update g.gdt g.currentEntry (segmentEntry q), g.currentEntry + 1⟩
        (by simp; omega) (by simp; omega)
      simp [addSegments, addSegment, he, hrun]

/-- **The processor reads the segments as they were asked for.** Calls of `add_segment` return if
and only if there is room for all of them; each selector then leads to a descriptor with the base,
limit, kind and ring asked for, and no other entry changes. -/
theorem addSegments_decode (g : Gdt) (qs : List SegmentRequest) (hg : g.currentEntry ≤ GDT_SIZE)
    (hq : ∀ q ∈ qs, q.Fits) :
    ((addSegments qs g).isSome ↔ g.currentEntry + qs.length ≤ GDT_SIZE) ∧
    ∀ sels g', addSegments qs g = some (sels, g') →
      (∀ i q, qs[i]? = some q → ∃ sel, sels[i]? = some sel ∧
        Selector.decode sel = ⟨g.currentEntry + i, 0, q.ring⟩ ∧
        Segment.decode (g'.gdt (Selector.decode sel).index).bits = q.segment) ∧
      ∀ j, j < g.currentEntry ∨ g.currentEntry + qs.length ≤ j → g'.gdt j = g.gdt j := by
  by_cases h : g.currentEntry + qs.length ≤ GDT_SIZE
  · obtain ⟨sels, g', hrun, ha⟩ := addSegments_added h
    refine ⟨by simp [hrun, h], fun sels' g'' hrun' => ?_⟩
    obtain ⟨rfl, rfl⟩ := Prod.mk.inj (Option.some.inj (hrun.symm.trans hrun'))
    refine ⟨fun i q hi => ?_, ha.other⟩
    have hlt : i < qs.length := (List.getElem?_eq_some_iff.mp hi).1
    have hfit := hq q (List.mem_of_getElem? hi)
    have hsel := decode_selector (i := g.currentEntry + i) (by omega) hfit.ring
    refine ⟨_, ha.selector i q hi, hsel, ?_⟩
    rw [hsel, ha.entry i q hi]
    exact decode_segmentEntry hfit
  · rw [addSegments_none hg (Nat.lt_of_not_le h)]
    refine ⟨by simpa using h, fun sels g' hrun => absurd hrun (by simp)⟩

theorem addSegments_decode_two :
    ((addSegments (segments.take 2) ⟨fun _ => segmentEntry ⟨0, 0, false, 0⟩, 0⟩).isSome ↔
      0 + 2 ≤ GDT_SIZE) ∧
    ∀ sels g', addSegments (segments.take 2) ⟨fun _ => segmentEntry ⟨0, 0, false, 0⟩, 0⟩ =
        some (sels, g') →
      (∀ i q, (segments.take 2)[i]? = some q → ∃ sel, sels[i]? = some sel ∧
        Selector.decode sel = ⟨0 + i, 0, q.ring⟩ ∧
        Segment.decode (g'.gdt (Selector.decode sel).index).bits = q.segment) ∧
      ∀ j, j < 0 ∨ 0 + 2 ≤ j → g'.gdt j = segmentEntry ⟨0, 0, false, 0⟩ :=
  addSegments_decode ⟨fun _ => segmentEntry ⟨0, 0, false, 0⟩, 0⟩ (segments.take 2) (Nat.zero_le _)
    fun q hq => by
    simp only [segments, List.take_succ_cons, List.take_zero, List.mem_cons, List.not_mem_nil,
      or_false] at hq
    rcases hq with rfl | rfl <;> exact ⟨by decide, by decide⟩

/-- The segment of a request with base 0 and all pages is the whole address space. -/
lemma translate_flat {offset : Nat} (hb : q.base = 0) (hl : q.limit = 0xFFFFF)
    (ho : offset < 2 ^ 32) : q.segment.translate offset = some offset := by
  have hlast : q.segment.last = 2 ^ 32 - 1 := by
    simp [Segment.last, SegmentRequest.segment, hl]
  have hp : q.segment.present = 1 := by
    simp [SegmentRequest.segment, hb, hl]
  rw [Segment.translate, if_pos ⟨hp, by omega⟩]
  simp only [SegmentRequest.segment, hb, Nat.zero_add, Nat.mod_eq_of_lt ho]

/-- The requests of `gdt_install` fit. -/
lemma segments_fits : ∀ q ∈ segments, q.Fits := by
  intro q hq
  have h : ∀ q ∈ segments, q.base < 2 ^ 32 ∧ q.ring < 4 := by decide
  exact ⟨(h q hq).1, (h q hq).2⟩

/-- All but the null segment are the whole address space. -/
lemma segments_flat : ∀ q ∈ segments.tail, q.base = 0 ∧ q.limit = 0xFFFFF := by decide

/-- What `gdt_install` does, entry by entry. -/
structure Installed (tss : Nat) (g' : Gdt) : Prop where
  segment : ∀ i q, segments[i]? = some q → Segment.decode (g'.gdt i).bits = q.segment
  task : Segment.decode (g'.gdt 7).bits = ⟨tss, SIZEOF_TSS, [1, 0, 0, 1], 0, 0, 1, 1, 0⟩

lemma gdtInstall_installed (g : Nat → GdtEntry) {tss : Nat} (stack : BitVec 32)
    (ht : tss < 2 ^ 32) :
    ∃ g', gdtInstall tss stack ⟨g, 0⟩ =
        some ([0, 0x08, 0x10, 0x18, 0x23, 0x2B, 0x33, 0x38], g', ⟨stack, 0x18⟩) ∧
      Installed tss g' := by
  obtain ⟨sels, g', hrun, ha⟩ :=
    addSegments_added (g := ⟨g, 0⟩) (show 0 + segments.length ≤ 8 from Nat.le_succ 7)
  have hcur : g'.currentEntry = 7 := ha.current
  have hsels : (addSegments segments ⟨g, 0⟩).map Prod.fst =
      some [0, 0x08, 0x10, 0x18, 0x23, 0x2B, 0x33] := by
    simp [addSegments, addSegment, segments, GDT_SIZE, SIZEOF_GDT_ENTRY]
  rw [hrun] at hsels
  obtain rfl := Option.some.inj hsels
  refine ⟨⟨Function.update g'.gdt 7 (tssEntry tss), 8⟩, ?_, ?_, ?_⟩
  · simp [gdtInstall, hrun, writeTss, hcur, SIZEOF_GDT_ENTRY, kernelStackSegment]
  · intro i q hi
    have hlt : i < 7 := (List.getElem?_eq_some_iff.mp hi).1
    have he : Function.update g'.gdt 7 (tssEntry tss) i = segmentEntry q := by
      rw [Function.update_of_ne hlt.ne, ← Nat.zero_add i, ha.entry i q hi]
    have hd := decode_segmentEntry (segments_fits q (List.mem_of_getElem? hi))
    rwa [← he] at hd
  · have he : Function.update g'.gdt 7 (tssEntry tss) 7 = tssEntry tss := Function.update_self ..
    have hd : Segment.decode (tssEntry tss).bits =
        ⟨tss, SIZEOF_TSS, [1, 0, 0, 1], 0, 0, 1, 1, 0⟩ := by
      rw [decode_bits, tssEntry]
      simp only [base_parts ht, limit_parts]
      rfl
    rwa [← he] at hd

/-- What `gdt_install` sets up, with the selectors `sels`: the null segment leads nowhere, the six
others leave every offset as it is and are for the ring of their selector, and the last one is the
task segment. -/
structure Flat (tss : Nat) (sels : List Nat) (g : Gdt) : Prop where
  null : ∀ offset, (Segment.decode (g.gdt 0).bits).translate offset = none
  flat : ∀ sel ∈ (sels.take 7).tail, ∀ offset, offset < 2 ^ 32 →
    (Segment.decode (g.gdt (Selector.decode sel).index).bits).translate offset = some offset
  ring : ∀ sel ∈ sels, (Segment.decode (g.gdt (Selector.decode sel).index).bits).dpl =
    (Selector.decode sel).rpl
  task : Segment.decode (g.gdt 7).bits = ⟨tss, SIZEOF_TSS, [1, 0, 0, 1], 0, 0, 1, 1, 0⟩

/-- **`gdt_install` sets up a flat address space.** The selectors are those that the assembly files
load: `0x08` and `0x10` in the interrupt stubs and, with `0x18`, in `gdt_flush`, and `0x38` in
`tss_flush`. -/
theorem gdtInstall_flat (g : Nat → GdtEntry) (tss : Nat) (stack : BitVec 32) (ht : tss < 2 ^ 32) :
    ∃ g', gdtInstall tss stack ⟨g, 0⟩ =
        some ([0, 0x08, 0x10, 0x18, 0x23, 0x2B, 0x33, 0x38], g', ⟨stack, 0x18⟩) ∧
      Flat tss [0, 0x08, 0x10, 0x18, 0x23, 0x2B, 0x33, 0x38] g' := by
  obtain ⟨g', hrun, hg⟩ := gdtInstall_installed g stack ht
  refine ⟨g', hrun, ?_⟩
  constructor
  · intro offset
    rw [hg.segment 0 ⟨0, 0, false, 0⟩ rfl]
    rfl
  · have hflat : ∀ sel ∈ [0x08, 0x10, 0x18, 0x23, 0x2B, 0x33],
        ∃ q ∈ segments.tail, segments[(Selector.decode sel).index]? = some q := by decide
    intro sel hsel offset ho
    obtain ⟨q, hq, hi⟩ := hflat sel hsel
    obtain ⟨hb, hl⟩ := segments_flat q hq
    rw [hg.segment _ q hi]
    exact translate_flat hb hl ho
  · have hring : ∀ sel ∈ [0, 0x08, 0x10, 0x18, 0x23, 0x2B, 0x33],
        ∃ q, segments[(Selector.decode sel).index]? = some q ∧
          q.ring = (Selector.decode sel).rpl := by
      decide
    intro sel hsel
    have hsplit : sel ∈ [0, 0x08, 0x10, 0x18, 0x23, 0x2B, 0x33] ++ [0x38] := hsel
    rcases List.mem_append.mp hsplit with hs | hs
    · obtain ⟨q, hi, hr⟩ := hring sel hs
      rw [hg.segment _ q hi]
      exact hr
    · obtain rfl := List.mem_singleton.mp hs
      exact congrArg Segment.dpl hg.task
  · exact hg.task

theorem gdtInstall_flat_mega : ∃ g',
    gdtInstall (2 ^ 20) 0x400000 ⟨fun _ => segmentEntry ⟨0, 0, false, 0⟩, 0⟩ =
      some ([0, 0x08, 0x10, 0x18, 0x23, 0x2B, 0x33, 0x38], g', ⟨0x400000, 0x18⟩) ∧
    Flat (2 ^ 20) [0, 0x08, 0x10, 0x18, 0x23, 0x2B, 0x33, 0x38] g' :=
  gdtInstall_flat _ (2 ^ 20) _ (by decide)

end MarioBrOS.Interrupts
