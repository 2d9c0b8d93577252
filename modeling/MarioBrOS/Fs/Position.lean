import MarioBrOS.Fs.Descriptor
import Mathlib.Tactic.SplitIfs

/-!
# Positions

Where `lseek`, `read` and `syscall_read` leave the position of a descriptor. `lseek` clamps the
position asked for to the file, except that SEEK_END counts back from the position instead of the
end; so calls in a row are right exactly as long as SEEK_END, for a position inside the file, finds
the descriptor at its end (`seeks_clamp`). A read clamps its length by a 32-bit sum; one that wraps
around goes on to the end of the block, and nothing else does (`reads_stop`).
-/

namespace MarioBrOS.Fs

/-! ## Seeking -/

/-- The position that a seek command names, counted from the start of the file; SEEK_END counts back
from the end. -/
def seekBase (size pos : Nat) (offset : Int) (seek : Nat) : Int :=
  if seek = SEEK_SET then offset
  else if seek = SEEK_CUR then pos + offset
  else size - offset

/-- The position clamped to the file. -/
def seekTarget (size pos : Nat) (offset : Int) (seek : Nat) : Nat :=
  (max 0 (min (seekBase size pos offset seek) size)).toNat

/-- An argument of `lseek` that is one of its commands and a 32-bit offset. -/
def SeekCall (c : Int × Nat) : Prop :=
  (c.2 = SEEK_SET ∨ c.2 = SEEK_CUR ∨ c.2 = SEEK_END) ∧ -2 ^ 31 ≤ c.1 ∧ c.1 < 2 ^ 31

/-- The condition on one call: counted back from the end, a position inside the file is asked for at
the end of the file only. -/
def SeekReady (size pos : Nat) (c : Int × Nat) : Prop :=
  c.2 = SEEK_END → 0 ≤ c.1 → c.1 ≤ size → pos = size

/-- The condition on a sequence of calls, at the positions that they ought to lead to. -/
def SeeksReady (size : Nat) : Nat → List (Int × Nat) → Prop
  | _, [] => True
  | pos, c :: cs => SeekReady size pos c ∧ SeeksReady size (seekTarget size pos c.1 c.2) cs

variable {e : FdtEntry} {offset : Int} {seek size pos : Nat}

lemma seekTarget_le : seekTarget size pos offset seek ≤ size := by
  unfold seekTarget
  omega

/-- `lseek` computes the clamped position exactly when the call is ready. -/
lemma seekPos_eq_iff (hp : e.pos ≤ e.size) (hs : e.size < 2 ^ 31) (hc : SeekCall (offset, seek)) :
    seekPos e offset seek = seekTarget e.size e.pos offset seek ↔
      SeekReady e.size e.pos (offset, seek) := by
  rcases hc with ⟨hseek, hlo, hhi⟩
  dsimp only at hseek hlo hhi
  unfold SeekReady seekTarget seekBase seekPos
  dsimp only
  have h21 : SEEK_CUR ≠ SEEK_SET := by decide
  have h41 : SEEK_END ≠ SEEK_SET := by decide
  have h42 : SEEK_END ≠ SEEK_CUR := by decide
  rcases hseek with rfl | rfl | rfl
  · rw [if_pos rfl, if_pos rfl]
    refine iff_of_true ?_ fun h => absurd h h41.symm
    split_ifs <;> omega
  · rw [if_neg h21, if_neg h21, if_pos rfl, if_pos rfl]
    refine iff_of_true ?_ fun h => absurd h h42.symm
    unfold add32
    split_ifs <;> omega
  · rw [if_neg h41, if_neg h41, if_neg h42, if_neg h42]
    unfold sub32
    split_ifs <;> omega

namespace Inter

variable (s : Inter)

/-- What is said of a sequence of calls of `lseek`: each call returns, and the position of the
descriptor, which is its result, is the clamped one. -/
def SeeksClamp (f : Nat) : Inter → List (Int × Nat) → Prop
  | _, [] => True
  | s, c :: cs => ∃ t pos, s.lseek f c.1 c.2 = some (t, pos) ∧ (t.fdt (t.deref f)).pos = pos ∧
      pos ≤ (s.fdt (s.deref f)).size ∧
      pos = seekTarget (s.fdt (s.deref f)).size (s.fdt (s.deref f)).pos c.1 c.2 ∧
      SeeksClamp f t cs

variable {s} {f : Nat} {cs : List (Int × Nat)}

/-- A call of `lseek` moves the position of the descriptor and nothing else. -/
lemma lseek_eq {c : Int × Nat} (hd : s.deref f < s.fdtSize) (hc : SeekCall c) :
    s.lseek f c.1 c.2 = some (s.setPos (s.deref f) (seekPos (s.fdt (s.deref f)) c.1 c.2),
      seekPos (s.fdt (s.deref f)) c.1 c.2) := by
  have hseek := hc.1
  unfold lseek entryAt
  rw [if_neg (by omega), if_pos hd]
  rfl

/-- **Seeking.** From a position inside a file of less than `2 ^ 31` bytes, calls of `lseek` lead to
the clamped positions exactly when each of them is ready. -/
theorem seeks_clamp (s : Inter) (f : Nat) (cs : List (Int × Nat)) (hd : s.deref f < s.fdtSize)
    (hp : (s.fdt (s.deref f)).pos ≤ (s.fdt (s.deref f)).size)
    (hs : (s.fdt (s.deref f)).size < 2 ^ 31) (hcs : ∀ c ∈ cs, SeekCall c) :
    s.SeeksClamp f cs ↔
      SeeksReady (s.fdt (s.deref f)).size (s.fdt (s.deref f)).pos cs := by
  induction cs generalizing s with
  | nil => exact Iff.rfl
  | cons c cs ih =>
    have hc := hcs c List.mem_cons_self
    have he := seekPos_eq_iff hp hs (show SeekCall (c.1, c.2) from hc)
    generalize hq : seekPos (s.fdt (s.deref f)) c.1 c.2 = q at he
    have hl : s.lseek f c.1 c.2 = some (s.setPos (s.deref f) q, q) := hq ▸ lseek_eq hd hc
    have hfdt : (s.setPos (s.deref f) q).fdt (s.deref f) = { s.fdt (s.deref f) with pos := q } :=
      Function.update_self ..
    have hrest : q ≤ (s.fdt (s.deref f)).size → ((s.setPos (s.deref f) q).SeeksClamp f cs ↔
        SeeksReady (s.fdt (s.deref f)).size q cs) := by
      intro hle
      have := ih (s.setPos (s.deref f) q) hd
        (by rw [show (s.setPos (s.deref f) q).deref f = s.deref f from rfl, hfdt]; exact hle)
        (by rw [show (s.setPos (s.deref f) q).deref f = s.deref f from rfl, hfdt]; exact hs)
        fun c h => hcs c (List.mem_cons_of_mem _ h)
      rwa [show (s.setPos (s.deref f) q).deref f = s.deref f from rfl, hfdt] at this
    constructor
    · rintro ⟨t, pos, ht, _, hle, hpos, hrun⟩
      cases hl.symm.trans ht
      exact ⟨he.mp hpos, hpos ▸ (hrest hle).mp hrun⟩
    · rintro ⟨hr, hrun⟩
      have hpos := he.mpr hr
      have hle : q ≤ (s.fdt (s.deref f)).size := hpos ▸ seekTarget_le
      refine ⟨_, q, hl, ?_, hle, hpos, (hrest hle).mpr (hpos ▸ hrun)⟩
      exact congrArg FdtEntry.pos hfdt

/-- A file of 100 bytes, open at position 95. -/
def nearEnd : Inter where
  volume := ⟨fun _ => 0, ⟨32, 64, 0, 0, 0, 64, 32, 1⟩, fun _ => 0, fun _ => 0, fun _ => 0⟩
  fdt i := if i = 0 then ⟨12, 95, 100, O_RDWR, 1⟩ else ⟨0, 0, 0, 0, 0⟩
  fdtSize := 256
  fdtNum := 1
  deref _ := 0

theorem seeks_clamp_nearEnd :
    nearEnd.SeeksClamp 1 [(-100, SEEK_CUR), (200, SEEK_SET), (7, SEEK_END), (0, SEEK_CUR)] :=
  (seeks_clamp nearEnd 1 _ (by decide) (by decide) (by decide) (by unfold SeekCall; decide)).mpr
    ⟨by unfold SeekReady; decide, by unfold SeekReady; decide, by unfold SeekReady; decide,
      by unfold SeekReady; decide, trivial⟩

/-- Asked for the end of the file, `lseek` stays where it is. -/
theorem lseek_misses_end :
    (nearEnd.lseek 1 0 SEEK_END).map Prod.snd = some 95 ∧
      ¬ nearEnd.SeeksClamp 1 [(0, SEEK_END)] := by
  refine ⟨by decide +kernel, ?_⟩
  rw [seeks_clamp nearEnd 1 _ (by decide) (by decide) (by decide) (by unfold SeekCall; decide)]
  exact fun h => absurd (h.1 rfl (by decide) (by decide)) (by decide)

/-! ## Reading -/

/-- A read through the entry `e` into `buffer` at `offset` that stops at the end of the file. -/
def StopsAtEnd (e : FdtEntry) (buffer buffer' : Bytes) (offset done pos : Nat) : Prop :=
  done ≤ e.size - e.pos ∧
    (∀ x, x < offset ∨ offset + (e.size - e.pos) ≤ x → buffer' x = buffer x) ∧ pos ≤ e.size

/-- What is said of `read` and `syscall_read` of `length` bytes through descriptor `f`: if they
return, they have stopped at the end of the file. -/
def ReadsStop (s : Inter) (f length : Nat) : Prop :=
  ∀ buffer offset,
    (∀ t buffer' done, s.read f buffer offset length = some (t, buffer', done) →
      StopsAtEnd (s.fdt (s.deref f)) buffer buffer' offset done (t.fdt (t.deref f)).pos) ∧
    ∀ sysBuf t buffer' sysBuf' done,
      s.syscallRead f buffer sysBuf offset length = some (t, buffer', sysBuf', done) →
        StopsAtEnd (s.fdt (s.deref f)) buffer buffer' offset done (t.fdt (t.deref f)).pos

/-- The condition on a read: its end is a 32-bit number, or it starts at the end of the file, or the
block it starts in ends inside the file; or it throws, since that block is out of reach. -/
def ReadReady (blockSize : Nat) (e : FdtEntry) (length : Nat) : Prop :=
  e.pos + length < 2 ^ 32 ∨ e.pos = e.size ∨ blockSize - e.pos % blockSize ≤ e.size - e.pos ∨
    inodeSlot blockSize (e.pos / blockSize) = none

/-- The part of a read that is done stays inside the file exactly when the sum does not wrap around
or the block ends early enough. -/
lemma width_le_iff (v : Volume) {e : FdtEntry} {length : Nat} (hp : e.pos < e.size)
    (hs : e.size < 2 ^ 32) (hl : length < 2 ^ 32) :
    v.width e.pos (readLength e length) ≤ e.size - e.pos ↔
      e.pos + length < 2 ^ 32 ∨ v.blockSize - e.pos % v.blockSize ≤ e.size - e.pos := by
  by_cases h : e.pos + length < 2 ^ 32
  · refine iff_of_true (le_trans (v.width_le _ _).1 ?_) (.inl h)
    unfold readLength
    rw [add32_of_lt h, sub32_of_le hp.le hs]
    split <;> omega
  · have hlen : readLength e length = length := by
      unfold readLength add32
      exact if_neg (by omega)
    rw [hlen, Volume.width_eq]
    omega

/-- The part of `read` behind its tests. -/
lemma read_eq {e : FdtEntry} {buffer : Bytes} {offset length : Nat}
    (he : s.checkFd f = some (some e)) (hr : e.mode &&& O_RDONLY ≠ 0) :
    s.read f buffer offset length = if e.size ≤ e.pos then some (s, buffer, 0) else
      (s.volume.readInodeData e.inode buffer offset e.pos (readLength e length)).map fun r =>
        ((s.withVolume r.1).setPos (s.deref f) (add32 e.pos r.2.2), r.2.1, r.2.2) := by
  unfold read
  rw [he, Option.bind_eq_bind, Option.bind_some]
  dsimp only
  rw [if_neg hr]
  split
  · rfl
  · exact Option.map_eq_bind.symm

/-- The part of `syscall_read` behind its tests. -/
lemma syscallRead_eq {e : FdtEntry} {buffer sysBuf : Bytes} {offset length : Nat}
    (he : s.checkFd f = some (some e)) (hr : e.mode &&& O_RDONLY ≠ 0) :
    s.syscallRead f buffer sysBuf offset length =
      if e.size ≤ e.pos then some (s, buffer, sysBuf, 0) else
      (s.volume.readInodeData e.inode sysBuf 0 e.pos (readLength e length)).map fun r =>
        ((s.withVolume r.1).setPos (s.deref f) (add32 e.pos r.2.2),
          memCopy buffer offset r.2.1 0 r.2.2, r.2.1, r.2.2) := by
  unfold syscallRead
  rw [he, Option.bind_eq_bind, Option.bind_some]
  dsimp only
  rw [if_neg hr]
  split
  · rfl
  · exact Option.map_eq_bind.symm

/-- **Reading.** A read through a descriptor inside its file stops at the end of the file exactly
when it is ready. -/
theorem reads_stop (s : Inter) (f length : Nat) (e : FdtEntry) (he : s.checkFd f = some (some e))
    (hr : e.mode &&& O_RDONLY ≠ 0) (hb : s.volume.spb.blockSize ≤ 7) (hp : e.pos ≤ e.size)
    (hs : e.size < 2 ^ 32) (hl : length < 2 ^ 32) :
    s.ReadsStop f length ↔ ReadReady s.volume.blockSize e length := by
  have hentry := checkFd_entry he
  unfold ReadsStop ReadReady
  rw [hentry]
  by_cases hend : e.size ≤ e.pos
  · -- nothing is left to read
    refine iff_of_true (fun buffer offset => ⟨fun t buffer' done h => ?_,
      fun sysBuf t buffer' sysBuf' done h => ?_⟩) (.inr (.inl (by omega)))
    · rw [read_eq he hr, if_pos hend] at h
      cases h
      exact ⟨Nat.zero_le _, fun _ _ => rfl, hentry.symm ▸ hp⟩
    · rw [syscallRead_eq he hr, if_pos hend] at h
      cases h
      exact ⟨Nat.zero_le _, fun _ _ => rfl, hentry.symm ▸ hp⟩
  cases hi : inodeSlot s.volume.blockSize (e.pos / s.volume.blockSize) with
  | none =>
    refine iff_of_true (fun buffer offset => ⟨fun t buffer' done h => ?_,
      fun sysBuf t buffer' sysBuf' done h => ?_⟩) (.inr (.inr (.inr rfl)))
    · rw [read_eq he hr, if_neg hend, Volume.readInodeData_none hi] at h
      cases h
    · rw [syscallRead_eq he hr, if_neg hend, Volume.readInodeData_none hi] at h
      cases h
  | some slot =>
    have hwidth := width_le_iff s.volume (by omega) hs hl (e := e)
    have hpos : ∀ v done, (((s.withVolume v).setPos (s.deref f) (add32 e.pos done)).fdt
        (((s.withVolume v).setPos (s.deref f) (add32 e.pos done)).deref f)).pos =
          add32 e.pos done := fun v done =>
      congrArg FdtEntry.pos (Function.update_self (s.deref f) _ s.fdt)
    constructor
    · intro h
      rcases Volume.readInodeData_some hb e.inode (fun _ => 0) 0 (readLength e length) hi with
        ⟨w, source, hread⟩
      have hdone := ((h (fun _ => 0) 0).1 _ _ _
        (by rw [read_eq he hr, if_neg hend, hread, Option.map_some])).1
      rcases hwidth.mp hdone with h | h
      · exact .inl h
      · exact .inr (.inr (.inl h))
    · intro h
      have hdone : s.volume.width e.pos (readLength e length) ≤ e.size - e.pos := by
        refine hwidth.mpr ?_
        rcases h with h | h | h | h
        · exact .inl h
        · exact absurd h (by omega)
        · exact .inr h
        · cases h
      have hsum : add32 e.pos (s.volume.width e.pos (readLength e length)) ≤ e.size := by
        rw [add32_of_lt (by omega)]
        omega
      refine fun buffer offset => ⟨fun t buffer' done h => ?_, fun sysBuf t buffer' sysBuf' done h => ?_⟩
      · rcases Volume.readInodeData_some hb e.inode buffer offset (readLength e length) hi with
          ⟨w, source, hread⟩
        rw [read_eq he hr, if_neg hend, hread, Option.map_some] at h
        cases h
        refine ⟨hdone, fun x hx => Bytes.blit_apply_of_outside (by omega), ?_⟩
        rw [hpos]
        exact hsum
      · rcases Volume.readInodeData_some hb e.inode sysBuf 0 (readLength e length) hi with
          ⟨w, source, hread⟩
        rw [syscallRead_eq he hr, if_neg hend, hread, Option.map_some] at h
        cases h
        refine ⟨hdone, fun x hx => ?_, ?_⟩
        · dsimp only
          rw [memCopy_apply, if_neg (by omega)]
        · rw [hpos]
          exact hsum

theorem reads_stop_nearEnd : nearEnd.ReadsStop 1 300 :=
  (reads_stop nearEnd 1 300 ⟨12, 95, 100, O_RDWR, 1⟩ rfl (by decide) (by decide) (by decide)
    (by decide) (by decide)).mpr (.inl (by decide))

/-- A length whose sum with the position wraps around is read up to the end of the block. -/
theorem read_passes_end :
    ((nearEnd.read 1 (fun _ => 1) 0 (2 ^ 32 - 95)).map fun r => (r.2.2, (r.1.fdt 0).pos)) =
        some (929, 1024) ∧
      ¬ nearEnd.ReadsStop 1 (2 ^ 32 - 95) := by
  refine ⟨by decide +kernel, ?_⟩
  rw [reads_stop nearEnd 1 (2 ^ 32 - 95) ⟨12, 95, 100, O_RDWR, 1⟩ rfl (by decide) (by decide)
    (by decide) (by decide) (by decide)]
  rintro (h | h | h | h)
  · exact absurd h (by decide)
  · exact absurd h (by decide)
  · exact absurd h (by decide)
  · exact absurd h (by decide)

end Inter

end MarioBrOS.Fs
