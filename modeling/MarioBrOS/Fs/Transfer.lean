import MarioBrOS.Fs.Descriptor
import MarioBrOS.Fs.Grow
import MarioBrOS.Fs.Inter

/-!
# Writing through the system call

`syscall_write` repeats the loop of `write`, with `sys_buf` between the user and the disk. A round
of `write_inode_data` stores at most one block, so it makes no difference where its bytes come from
(`writeInodeData_congr`), and the two loops go through the same volumes and positions
(`syscallLoop_eq`). What `mem_copy` fills is never shorter than `sys_buf`, and longer if more bytes
than that are left: each round reads that much of the process, however little there is to write. The
errors of `write` all become 0. So the system call does what `write` does on a valid descriptor and
a transfer that fits in `sys_buf`, if the process has all that is read, and only then
(`syscallWrite_refines`).
-/

namespace MarioBrOS.Fs

/-- A copy depends on the bytes it copies only. -/
lemma Bytes.blit_congr {m b b' : Bytes} {d s s' n : Nat}
    (h : ∀ x, x < n → b (s + x) = b' (s' + x)) : m.blit d b s n = m.blit d b' s' n := by
  funext x
  by_cases hx : d ≤ x ∧ x < d + n
  · rw [Bytes.blit_apply_of_inside hx, Bytes.blit_apply_of_inside hx, h _ (by omega)]
  · rw [Bytes.blit_apply_of_outside (by omega), Bytes.blit_apply_of_outside (by omega)]

namespace Volume

variable {v v' : Volume} {inode offset length done : Nat} {buffer buffer' : Bytes}
  {start start' : Nat}

/-- A transfer ends with its block, or before. -/
lemma updateBlock_congr {ofs n address : Nat}
    (h : ∀ x, x < n → buffer (start + x) = buffer' (start' + x)) :
    v.updateBlock buffer start ofs n address = v.updateBlock buffer' start' ofs n address := by
  unfold updateBlock
  dsimp only
  rw [Bytes.blit_congr h]

/-- A write depends on the bytes it writes only, which are at most one block. -/
lemma writeInodeData_congr
    (h : ∀ x, x < length → x < v.blockSize → buffer (start + x) = buffer' (start' + x)) :
    v.writeInodeData inode buffer start offset length =
      v.writeInodeData inode buffer' start' offset length := by
  unfold writeInodeData
  cases hv : v.setInode inode with
  | none => rfl
  | some w =>
    have hw : w.blockSize = v.blockSize := by rw [setInode_eq hv]; rfl
    rw [Option.bind_eq_bind, Option.bind_some, Option.bind_eq_bind, Option.bind_some]
    congr 1
    funext slot
    congr 1
    funext found
    have hle := w.width_le offset length
    exact congrArg (fun u => some (u, w.width offset length))
      (updateBlock_congr fun x hx => h x (by omega) (by omega))

/-- A write returns what lies in the block of its offset, and leaves the superblock. -/
lemma writeInodeData_spec
    (h : v.writeInodeData inode buffer start offset length = some (v', done)) :
    v'.spb = v.spb ∧ done = v.width offset length ∧
      inodeSlot v.blockSize (offset / v.blockSize) ≠ none := by
  unfold writeInodeData at h
  rcases Option.bind_eq_some_iff.mp h with ⟨w, hw, h⟩
  rcases Option.bind_eq_some_iff.mp h with ⟨slot, hslot, h⟩
  rcases Option.bind_eq_some_iff.mp h with ⟨found, _, h⟩
  rcases Prod.mk.inj (Option.some.inj h) with ⟨h1, h2⟩
  have e := setInode_eq hw
  have hb : w.blockSize = v.blockSize := by rw [e]; rfl
  refine ⟨?_, ?_, ?_⟩
  · rw [← h1]
    show w.spb = v.spb
    rw [e]
  · rw [← h2, e]
    rfl
  · rw [← hb, hslot]
    nofun

/-- A write at an offset within reach ends. -/
lemma writeInodeData_some (hs : v.spb.blockSize ≤ 7)
    (hi : inodeSlot v.blockSize (offset / v.blockSize) ≠ none) :
    ∃ v', v.writeInodeData inode buffer start offset length =
      some (v', v.width offset length) := by
  rcases v.setInode_isSome inode with ⟨w, hw⟩
  have e := setInode_eq hw
  have hb : w.blockSize = v.blockSize := by rw [e]; rfl
  rcases Option.ne_none_iff_exists'.mp hi with ⟨slot, hslot⟩
  rcases slotBlock_isSome (v := w) (by rw [e]; exact hs) slot with ⟨r, hr⟩
  have hwidth : w.width offset length = v.width offset length := by rw [e]; rfl
  refine ⟨(w.setStdBuf r.1).updateBlock buffer start (offset % w.blockSize) (w.width offset length)
    (w.block r.2), ?_⟩
  unfold writeInodeData
  rw [hw, Option.bind_eq_bind, Option.bind_some, hb, hslot, Option.bind_eq_bind, Option.bind_some,
    hr, Option.bind_eq_bind, Option.bind_some, ← hb, ← hwidth]
  rfl

end Volume

namespace Inter

variable {s : Inter} {f : Nat} {memory : UserMemory} {sysBuf : Bytes}
  {i length n offset pos written : Nat}

lemma ok_bind {α β : Type} (a : α) (k : α → Except Fault β) : (Except.ok a >>= k) = k a := rfl

lemma defined_bind {α β : Type} (a : α) (k : α → Except Fault β) :
    (defined (some a) >>= k) = k a := rfl

/-- The state of `write` in its loop, at position `pos` of the file behind entry `i`. -/
def during (s : Inter) (i : Nat) (v : Volume) (pos : Nat) : Inter := (s.withVolume v).setPos i pos

lemma during_fdt {v : Volume} : (s.during i v pos).fdt i = { s.fdt i with pos := pos } :=
  Function.update_self ..

lemma during_during {v v' : Volume} {pos' : Nat} :
    ((s.during i v pos).withVolume v').setPos i pos' = s.during i v' pos' := by
  have h : Function.update (s.during i v pos).fdt i
      { (s.during i v pos).fdt i with pos := pos' } =
      Function.update s.fdt i { s.fdt i with pos := pos' } := by
    rw [during_fdt]
    exact Function.update_idem ..
  unfold setPos setEntry
  exact congrArg (fun fdt => ({ s with volume := v', fdt := fdt } : Inter)) h

lemma during_pos {v : Volume} : s.during i v (s.fdt i).pos = s.withVolume v := by
  unfold during setPos setEntry
  exact congrArg (fun fdt => ({ s with volume := v, fdt := fdt } : Inter))
    (Function.update_eq_self i s.fdt)

/-- The process has what all rounds copy: there is a second one if the transfer goes on behind its
first block, which must be one that `write_inode_data` reaches. -/
def UserMemory.Serves (memory : UserMemory) (pos offset length : Nat) : Prop :=
  memory.Has offset SYS_BUF ∧
    (SYS_BUF - pos % SYS_BUF < length → inodeSlot SYS_BUF (pos / SYS_BUF) ≠ none →
      memory.Has (add32 offset (SYS_BUF - pos % SYS_BUF)) SYS_BUF)

/-- What a round copies if it fits in `sys_buf`. -/
lemma fillSysBuf_of_has (hl : n ≤ SYS_BUF) (h : memory.Has offset SYS_BUF) :
    fillSysBuf memory sysBuf offset (max n SYS_BUF) =
      .ok (memCopy sysBuf 0 memory.bytes offset SYS_BUF) := by
  unfold fillSysBuf
  rw [max_eq_right hl, min_self, if_pos h, if_neg (Nat.lt_irrefl _)]

lemma fillSysBuf_of_not_has (hl : n ≤ SYS_BUF) (h : ¬ memory.Has offset SYS_BUF) :
    fillSysBuf memory sysBuf offset (max n SYS_BUF) = .error .pageFault := by
  unfold fillSysBuf
  rw [max_eq_right hl, min_self, if_neg h]

/-- The rest of a transfer, once its first block is full, is in one block. -/
lemma UserMemory.Serves.next (h : memory.Serves pos offset length) (hl : length ≤ SYS_BUF)
    (hr : SYS_BUF - pos % SYS_BUF < length) (hs : inodeSlot SYS_BUF (pos / SYS_BUF) ≠ none) :
    memory.Serves (add32 pos (SYS_BUF - pos % SYS_BUF)) (add32 offset (SYS_BUF - pos % SYS_BUF))
      (length - (SYS_BUF - pos % SYS_BUF)) := by
  refine ⟨h.2 hr hs, fun hr' => ?_⟩
  unfold SYS_BUF add32 at *
  omega

/-- A round with blocks of the size of `sys_buf`. -/
lemma width_sysBuf {v : Volume} (hb : v.blockSize = SYS_BUF) :
    v.width pos n = if SYS_BUF - pos % SYS_BUF < n then SYS_BUF - pos % SYS_BUF else n := by
  unfold Volume.width
  rw [hb]

variable (sysBuf n offset pos) in
/-- The two loops go through the same volumes and positions, if what is left fits in `sys_buf` and
the process has what is copied. -/
lemma syscallLoop_eq {v : Volume} (hb : v.blockSize = SYS_BUF) (hw : written ≤ length)
    (hl : length ≤ SYS_BUF)
    (hm : written ≠ length → memory.Serves pos offset (length - written)) :
    (syscallLoop memory (s.fdt i).inode length n v sysBuf offset pos written).map
        (fun r => (s.during i r.1 r.2.2.1, r.2.2.2)) =
      defined (writeLoop memory.bytes i length n (s.during i v pos) offset written) := by
  induction n generalizing v sysBuf offset pos written with
  | zero => rfl
  | succ n ih =>
    rw [syscallLoop, writeLoop]
    split
    · rfl
    · next hne =>
      have hl' : length ≤ 2048 := hl
      have hleft : sub32 length written = length - written := sub32_of_le hw (by omega)
      -- the round stores the same bytes from `sys_buf`
      have hcopy : v.writeInodeData (s.fdt i).inode
            (memCopy sysBuf 0 memory.bytes offset SYS_BUF) 0 pos (length - written) =
          v.writeInodeData (s.fdt i).inode memory.bytes offset pos (length - written) := by
        refine Volume.writeInodeData_congr fun x _ hx => ?_
        rw [hb] at hx
        rw [memCopy_apply, if_pos (by omega), Nat.zero_add, Nat.sub_zero]
      rw [hleft, fillSysBuf_of_has (by omega) (hm hne).1, ok_bind, hcopy, during_fdt]
      show _ = defined (Option.bind
        (v.writeInodeData (s.fdt i).inode memory.bytes offset pos (length - written)) _)
      cases h : v.writeInodeData (s.fdt i).inode memory.bytes offset pos (length - written) with
      | none => rfl
      | some r =>
        rcases r with ⟨v', done⟩
        rcases Volume.writeInodeData_spec h with ⟨hspb, hdone, hslot⟩
        rw [width_sysBuf hb] at hdone
        rw [hb] at hslot
        rw [defined_bind, Option.bind_some]
        dsimp only
        have hb' : v'.blockSize = SYS_BUF := by
          rw [← hb]
          unfold Volume.blockSize
          rw [hspb]
        split
        · rfl
        · have hle : written + done ≤ length := by
            split_ifs at hdone <;> omega
          have hadd : add32 written done = written + done := add32_of_lt (by omega)
          show _ = defined (writeLoop memory.bytes i length n
            (((s.during i v pos).withVolume v').setPos i
              (add32 ((s.during i v pos).fdt i).pos done)) _ _)
          rw [during_fdt, during_during, hadd]
          refine ih _ _ _ hb' hle fun hne' => ?_
          split_ifs at hdone with hr
          · rw [hdone, Nat.sub_add_eq]
            exact (hm hne).next (by omega) hr hslot
          · omega

variable (sysBuf) in
/-- Otherwise the system call reads what the process does not have, in its first round or in its
second one. -/
lemma syscallLoop_fault {v : Volume} (hb : v.spb.blockSize = 1) (h0 : length ≠ 0)
    (hl : length ≤ SYS_BUF) (hm : ¬ memory.Serves pos offset length) (inode : Nat) :
    syscallLoop memory inode length (length + 1) v sysBuf offset pos 0 = .error .pageFault := by
  have hbs : v.blockSize = SYS_BUF := by
    unfold Volume.blockSize
    rw [hb]
    rfl
  have hl' : length ≤ 2048 := hl
  have hleft : sub32 length 0 = length := sub32_of_le (Nat.zero_le _) (by omega)
  rw [syscallLoop, if_neg (Ne.symm h0), hleft]
  by_cases hhas : memory.Has offset SYS_BUF
  · have hrest : SYS_BUF - pos % SYS_BUF < length ∧ inodeSlot SYS_BUF (pos / SYS_BUF) ≠ none ∧
        ¬ memory.Has (add32 offset (SYS_BUF - pos % SYS_BUF)) SYS_BUF := by
      unfold UserMemory.Serves at hm
      tauto
    obtain ⟨hr, hslot, hnot⟩ := hrest
    obtain ⟨v', hwrite⟩ : ∃ v', v.writeInodeData inode
        (memCopy sysBuf 0 memory.bytes offset SYS_BUF) 0 pos length =
          some (v', v.width pos length) :=
      Volume.writeInodeData_some (by rw [hb]; decide) (by rw [hbs]; exact hslot)
    rw [width_sysBuf hbs, if_pos hr] at hwrite
    obtain ⟨k, rfl⟩ := Nat.exists_eq_succ_of_ne_zero h0
    have hroom : SYS_BUF - pos % SYS_BUF ≠ 0 := by
      unfold SYS_BUF
      omega
    have hadd : add32 0 (SYS_BUF - pos % SYS_BUF) = SYS_BUF - pos % SYS_BUF := by
      rw [add32_of_lt (by omega), Nat.zero_add]
    rw [fillSysBuf_of_has hl hhas, ok_bind, hwrite, defined_bind]
    dsimp only
    rw [if_neg hroom, hadd, syscallLoop, if_neg (by omega),
      fillSysBuf_of_not_has (by rw [sub32_of_le (by omega) (by omega)]; omega) hnot]
    rfl
  · rw [fillSysBuf_of_not_has hl hhas]
    rfl

/-- The blocks that a write on a valid descriptor needs are there. -/
def Enough (s : Inter) (f length : Nat) : Prop :=
  ∀ e, s.checkFd f = some (some e) → ∃ v n,
    s.volume.prepareBlocks e.inode (s.blocksUsed e) (s.blocksToUse e length) = some (v, n) ∧
      (s.blocksUsed e < s.blocksToUse e length → n = s.blocksToUse e length - s.blocksUsed e)

/-- Neither function looks behind the table, and the system call does what `write` does with the
bytes of the process, with stores into `sys_buf` besides. -/
def SyscallRefines (s : Inter) (f : Nat) (memory : UserMemory) (sysBuf : Bytes)
    (offset length : Nat) : Prop :=
  s.checkFd f ≠ none ∧
    (s.syscallWrite f memory sysBuf offset length).map (fun r => (r.1, r.2.2)) =
      defined (s.write f memory.bytes offset length)

variable (memory sysBuf offset) in
/-- Both functions on a valid descriptor, once the blocks are there. -/
lemma write_valid {e : FdtEntry} (he : s.checkFd f = some (some e)) (hw : e.mode &&& O_WRONLY ≠ 0)
    (h0 : length ≠ 0) {v : Volume} {k : Nat}
    (hp : s.volume.prepareBlocks e.inode (s.blocksUsed e) (s.blocksToUse e length) = some (v, k))
    (hk : s.blocksUsed e < s.blocksToUse e length → k = s.blocksToUse e length - s.blocksUsed e) :
    s.write f memory.bytes offset length =
        (writeLoop memory.bytes (s.deref f) length (length + 1) (s.withVolume v) offset 0).map
          (fun r => (r.1.extend (r.1.deref f), r.2)) ∧
      s.syscallWrite f memory sysBuf offset length =
        (syscallLoop memory e.inode length (length + 1) v sysBuf offset e.pos 0).map
          (fun r => ((s.during (s.deref f) r.1 r.2.2.1).extend (s.deref f), r.2.1, r.2.2.2)) := by
  have hc : ¬ (s.blocksUsed e < s.blocksToUse e length ∧
      k ≠ s.blocksToUse e length - s.blocksUsed e) := fun h => h.2 (hk h.1)
  constructor
  · unfold write
    rw [he, Option.bind_eq_bind, Option.bind_some]
    dsimp only
    rw [if_neg hw, if_neg h0, hp, Option.bind_eq_bind, Option.bind_some]
    dsimp only
    rw [if_neg hc]
    show Option.bind (writeLoop memory.bytes (s.deref f) length (length + 1) (s.withVolume v) offset 0) _ = _
    cases writeLoop memory.bytes (s.deref f) length (length + 1) (s.withVolume v) offset 0 <;> rfl
  · unfold syscallWrite
    rw [he, defined_bind]
    dsimp only
    rw [if_neg hw, if_neg h0, hp, defined_bind]
    dsimp only
    rw [if_neg hc]
    cases syscallLoop memory e.inode length (length + 1) v sysBuf offset e.pos 0 with
    | error => rfl
    | ok r =>
      have hd : ((s.withVolume v).withVolume r.1).setPos (s.deref f) r.2.2.1 =
          s.during (s.deref f) r.1 r.2.2.1 := rfl
      exact congrArg (fun t : Inter => Except.ok (t.extend (s.deref f), r.2.1, r.2.2.2)) hd

/-- A valid descriptor and a transfer that fits. -/
lemma refines_of_fits {e : FdtEntry} (hb : s.volume.spb.blockSize = 1) (h0 : length ≠ 0)
    (hen : s.Enough f length) (he : s.checkFd f = some (some e)) (hw : e.mode &&& O_WRONLY ≠ 0)
    (hl : length ≤ SYS_BUF) (hm : memory.Serves e.pos offset length) :
    s.SyscallRefines f memory sysBuf offset length := by
  rcases hen e he with ⟨v, k, hp, hk⟩
  rcases write_valid memory sysBuf offset he hw h0 hp hk with
    ⟨h1, h2⟩
  have hsize : v.blockSize = SYS_BUF := by
    unfold Volume.blockSize
    rw [Volume.prepareBlocks_blockSize hp, hb]
    rfl
  have hloop := syscallLoop_eq sysBuf (length + 1) offset e.pos (s := s) (i := s.deref f)
    hsize (Nat.zero_le length) hl fun _ => hm
  have hpos : s.during (s.deref f) v e.pos = s.withVolume v := by
    rw [← checkFd_entry he]
    exact during_pos
  rw [checkFd_entry he, hpos] at hloop
  have hne : s.checkFd f ≠ none := by
    rw [he]
    nofun
  refine ⟨hne, ?_⟩
  rw [h1, h2]
  cases hsys : syscallLoop memory e.inode length (length + 1) v sysBuf offset e.pos 0 with
  | error fault =>
    rw [hsys] at hloop
    cases hwr : writeLoop memory.bytes (s.deref f) length (length + 1) (s.withVolume v) offset 0 with
    | none =>
      rw [hwr] at hloop
      cases hloop
      rfl
    | some r =>
      rw [hwr] at hloop
      cases hloop
  | ok r =>
    rw [hsys] at hloop
    cases hwr : writeLoop memory.bytes (s.deref f) length (length + 1) (s.withVolume v) offset 0 with
    | none =>
      rw [hwr] at hloop
      cases hloop
    | some r' =>
      rw [hwr] at hloop
      have hr : (s.during (s.deref f) r.1 r.2.2.1, r.2.2.2) = r' := Except.ok.inj hloop
      rw [← hr]
      rfl

/-- A valid descriptor and a transfer that does not fit: the first round stores behind `sys_buf`, or
it goes wrong before that. -/
lemma fault_of_long {e : FdtEntry} (h0 : length ≠ 0) (hlen : length < 2 ^ 32)
    (hen : s.Enough f length) (he : s.checkFd f = some (some e)) (hw : e.mode &&& O_WRONLY ≠ 0)
    (hl : SYS_BUF < length) :
    s.syscallWrite f memory sysBuf offset length =
      .error (if memory.Has offset SYS_BUF then .overrun else .pageFault) := by
  rcases hen e he with ⟨v, k, hp, hk⟩
  have hfill : fillSysBuf memory sysBuf offset (max length SYS_BUF) =
      .error (if memory.Has offset SYS_BUF then .overrun else .pageFault) := by
    unfold fillSysBuf
    rw [max_eq_left (by omega), min_eq_right (by omega)]
    by_cases hm : memory.Has offset SYS_BUF
    · rw [if_pos hm, if_pos hl, if_pos hm]
    · rw [if_neg hm, if_neg hm]
  rw [(write_valid memory sysBuf offset he hw h0 hp hk).2, syscallLoop, if_neg (Ne.symm h0),
    sub32_of_le (Nat.zero_le _) hlen, Nat.sub_zero, hfill]
  rfl

/-- A valid descriptor and a transfer that reads what the process does not have. -/
lemma fault_of_not_serves {e : FdtEntry} (hb : s.volume.spb.blockSize = 1) (h0 : length ≠ 0)
    (hen : s.Enough f length) (he : s.checkFd f = some (some e)) (hw : e.mode &&& O_WRONLY ≠ 0)
    (hl : length ≤ SYS_BUF) (hm : ¬ memory.Serves e.pos offset length) :
    s.syscallWrite f memory sysBuf offset length = .error .pageFault := by
  rcases hen e he with ⟨v, k, hp, hk⟩
  have hsize : v.spb.blockSize = 1 := by
    rw [Volume.prepareBlocks_blockSize hp, hb]
  rw [(write_valid memory sysBuf offset he hw h0 hp hk).2, syscallLoop_fault sysBuf hsize h0 hl hm]
  rfl

/-- `write` does not fault. -/
lemma defined_ne_error {α : Type} (o : Option α) {fault : Fault} (h : fault ≠ .undefined) :
    defined o ≠ .error fault := by
  cases o with
  | none => exact fun e => h (Except.error.inj e).symm
  | some a => nofun

/-- **Writing through the system call.** With blocks of 2048 bytes, enough of them, and something to
write, the system call does what `write` does exactly on a valid descriptor open for writing and a
transfer that fits in `sys_buf`, if the process has the 2048 bytes that each round reads. -/
theorem syscallWrite_refines (s : Inter) (f : Nat) (memory : UserMemory) (sysBuf : Bytes)
    (offset length : Nat) (hb : s.volume.spb.blockSize = 1) (h0 : 0 < length)
    (hl : length < 2 ^ 32) (hen : s.Enough f length) :
    s.SyscallRefines f memory sysBuf offset length ↔
      ∃ e, s.checkFd f = some (some e) ∧ e.mode &&& O_WRONLY ≠ 0 ∧ length ≤ SYS_BUF ∧
        memory.Serves e.pos offset length := by
  have h0 : length ≠ 0 := by omega
  constructor
  · rintro ⟨hc, h⟩
    cases he : s.checkFd f with
    | none => exact absurd he hc
    | some o =>
      cases o with
      | none =>
        unfold syscallWrite write at h
        rw [he] at h
        have h : (0 : Nat) = INVALID := (Prod.mk.inj (Except.ok.inj h)).2
        exact absurd h (by decide)
      | some e =>
        by_cases hw : e.mode &&& O_WRONLY = 0
        · unfold syscallWrite write at h
          rw [he, defined_bind, Option.bind_eq_bind, Option.bind_some] at h
          dsimp only at h
          rw [if_pos hw, if_pos hw] at h
          have h : (0 : Nat) = NO_PERMISSION := (Prod.mk.inj (Except.ok.inj h)).2
          exact absurd h (by decide)
        · by_cases hlong : SYS_BUF < length
          · rw [fault_of_long h0 hl hen he hw hlong] at h
            exact absurd h.symm (defined_ne_error _ (by split <;> nofun))
          · refine ⟨e, rfl, hw, not_lt.mp hlong, ?_⟩
            by_contra hm
            rw [fault_of_not_serves hb h0 hen he hw (not_lt.mp hlong) hm] at h
            exact absurd h.symm (defined_ne_error _ nofun)
  · rintro ⟨e, he, hw, hfit, hm⟩
    exact refines_of_fits hb h0 hen he hw hfit hm

/-- A file of two blocks of 2048 bytes, open for reading and writing. -/
def twoBlocks (pos : Nat) : Inter where
  volume := ⟨fun _ => 0, ⟨32, 64, 0, 0, 1, 64, 32, 1⟩, fun _ => 0, fun _ => 0, fun _ => 0⟩
  fdt i := if i = 0 then ⟨12, pos, 4096, O_RDWR, 1⟩ else ⟨0, 0, 0, 0, 0⟩
  fdtSize := 256
  fdtNum := 1
  deref _ := 0

lemma twoBlocks_checkFd (pos : Nat) :
    (twoBlocks pos).checkFd 1 = some (some ⟨12, pos, 4096, O_RDWR, 1⟩) := rfl

/-- The blocks of the file are enough for what stays inside them. -/
lemma twoBlocks_enough {pos length : Nat} (h0 : 0 < length) (h : pos + length ≤ 4096) :
    (twoBlocks pos).Enough 1 length := by
  intro e he
  cases (twoBlocks_checkFd pos).symm.trans he
  have hu : (twoBlocks pos).blocksUsed ⟨12, pos, 4096, O_RDWR, 1⟩ = 2 := by
    simp [blocksUsed, twoBlocks, Volume.blockSize]
  have ht : (twoBlocks pos).blocksToUse ⟨12, pos, 4096, O_RDWR, 1⟩ length ≤ 2 := by
    show 1 + sub32 (add32 pos length) 1 / 2048 ≤ 2
    rw [add32_of_lt (by omega), sub32_of_le (by omega) (by omega)]
    omega
  rw [hu]
  refine ⟨(twoBlocks pos).volume, 0, ?_, fun h => by omega⟩
  unfold Volume.prepareBlocks
  exact if_pos (.inr ht)

/-- A process with 4096 bytes from its buffer on, all 7. -/
def twoPages : UserMemory := ⟨fun _ => 7, fun x => x < 4096⟩

/-- A transfer of 100 bytes over the end of the first block. -/
theorem syscallWrite_refines_twoBlocks :
    (twoBlocks 2000).SyscallRefines 1 twoPages (fun _ => 0) 0 100 := by
  have hm : twoPages.Serves 2000 0 100 := by
    have h : ∀ offset, offset ≤ 2048 → twoPages.Has offset SYS_BUF := fun offset ho x hx => by
      have hx' : x < 2048 := hx
      simp only [twoPages, decide_eq_true_eq]
      omega
    exact ⟨h 0 (by decide), fun _ _ => h _ (by unfold SYS_BUF add32; omega)⟩
  exact (syscallWrite_refines (twoBlocks 2000) 1 _ _ 0 100 rfl (by decide) (by decide)
    (twoBlocks_enough (by decide) (by decide))).mpr
    ⟨_, twoBlocks_checkFd 2000, by decide, by decide, hm⟩

/-- A transfer of 3000 bytes inside the two blocks stores behind `sys_buf`. -/
theorem syscallWrite_overruns :
    (twoBlocks 0).Enough 1 3000 ∧ (twoBlocks 0).syscallWrite 1 twoPages (fun _ => 0) 0 3000 =
      .error .overrun ∧ ¬ (twoBlocks 0).SyscallRefines 1 twoPages (fun _ => 0) 0 3000 := by
  have hen : (twoBlocks 0).Enough 1 3000 := twoBlocks_enough (by decide) (by decide)
  have hm : twoPages.Has 0 SYS_BUF := fun x hx => by
    have hx' : x < 2048 := hx
    simp only [twoPages, decide_eq_true_eq]
    omega
  have hrun : (twoBlocks 0).syscallWrite 1 twoPages (fun _ => 0) 0 3000 = .error .overrun := by
    rw [fault_of_long (by decide) (by decide) hen (twoBlocks_checkFd 0) (by decide) (by decide),
      if_pos hm]
  refine ⟨hen, hrun, fun h => ?_⟩
  have h2 := h.2
  rw [hrun] at h2
  have hne : Fault.overrun ≠ .undefined := nofun
  exact defined_ne_error _ hne h2.symm

end Inter

end MarioBrOS.Fs
