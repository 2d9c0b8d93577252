import MarioBrOS.Fs.AddRemove

/-!
# Adding an entry to a full directory

When the new entry does not fit behind the last one, `add_file` wants to shrink the entries to their
natural sizes. Its loop starts at offset 8, inside the first entry, and so never stands on an entry
again but by accident: at each position of its walk it stores a size into whatever lies there. The
walk moves nothing, since it reads and writes at the same position (`shrinkEntries_walk`). What the
code promises holds where this loop is not reached, and where it ends without room for an entry that
has none (`add_file_ready`).
-/

namespace MarioBrOS.Fs

namespace Volume

variable {v w : Volume} {dir b inode e n p size : Nat} {type : UInt8} {name : List UInt8}
  {ps : List Nat} {buf buf' : Bytes}

/-- A well-formed directory block: "." of size 12, then "..", and entries that tile the block. -/
structure WellFormedDir (buf : Bytes) (size : Nat) (ps : List Nat) : Prop where
  tiled : Tiled buf size 0 ps
  dots : ∃ rest, ps = 0 :: 12 :: rest
  dot : entryName buf 0 = [DOT]
  dotdot : entryName buf 12 = [DOT, DOT]

/-- The room that the entries take at their natural sizes. -/
def naturalRoom (buf : Bytes) (ps : List Nat) : Nat :=
  (ps.map fun p => naturalSize (nameLength buf p)).sum

/-- The walk of the second loop of `add_file`: where it ends. -/
def shrinkWalk (buf : Bytes) (size : Nat) : Nat → Nat → Option Nat
  | 0, _ => none
  | n + 1, p =>
    if entryInode buf p ≠ 0 ∧ p < size then
      shrinkWalk buf size n (p + naturalSize (nameLength buf p))
    else some p

/-- What is said of `add_file` on the directory `dir` with the entries `ps` in block `b`. -/
def AddsEntry (v : Volume) (dir b : Nat) (ps : List Nat) (inode : Nat) (type : UInt8)
    (name : List UInt8) : Prop :=
  ∃ v' error, v.addFile dir inode type name = some (v', error) ∧
    (error = 0 → v'.IsDir dir b ∧ ∃ qs, WellFormedDir (v'.dirRead dir b).stdBuf v.blockSize qs ∧
      listing (v'.dirRead dir b).stdBuf qs =
        listing (v.dirRead dir b).stdBuf ps ++ [⟨name, inode, type⟩]) ∧
    (error ≠ 0 → v'.disk = v.disk) ∧
    (error = 2 → v.blockSize < naturalRoom (v.dirRead dir b).stdBuf ps + DIR_ENTRY + name.length) ∧
    ∀ x, v.blockSize ≤ x → v'.stdBuf x = v.stdBuf x

/-- The condition on the directory, where `e` is its last entry: the name is found; or the entry
fits behind the last one; or there is no room for it, not even at natural sizes, and the walk from
offset 8 ends inside the block with no room behind it either. -/
def AddReady (buf : Bytes) (size : Nat) (ps : List Nat) (e : Nat) (name : List UInt8) : Prop :=
  (∃ p ∈ ps, nameMatches buf p name = true) ∨
    e + naturalSize (nameLength buf e) + DIR_ENTRY + name.length ≤ size ∨
    e + naturalSize (nameLength buf e) ≤ size ∧
      size < naturalRoom buf ps + DIR_ENTRY + name.length ∧
      ∃ r, shrinkWalk buf size size 8 = some r ∧ r ≤ size ∧ size < r + DIR_ENTRY + name.length

/-! ## The walk -/

lemma set32_get32 (m : Bytes) (a : Nat) : m.set32 a (m.get32 a) = m := by
  funext x
  unfold Bytes.set32 Bytes.get32 Bytes.byteOf
  have h0 := (m a).toNat_lt
  have h1 := (m (a + 1)).toNat_lt
  have h2 := (m (a + 2)).toNat_lt
  have h3 := (m (a + 3)).toNat_lt
  split
  · apply UInt8.toNat_inj.mp
    rw [UInt8.toNat_ofNat']
    rcases (by omega : x = a ∨ x = a + 1 ∨ x = a + 2 ∨ x = a + 3) with rfl | rfl | rfl | rfl
    · rw [Nat.sub_self, Nat.mul_zero, Nat.pow_zero, Nat.div_one]
      omega
    · rw [Nat.add_sub_cancel_left]
      omega
    · rw [Nat.add_sub_cancel_left]
      omega
    · rw [Nat.add_sub_cancel_left]
      omega
  · rfl

lemma setByte_same (buf : Bytes) (a : Nat) : setByte buf a (buf a) = buf := by
  funext x
  unfold setByte
  split
  · rename_i h
    rw [h]
  · rfl

/-- A name that is copied to where it stands. -/
lemma copyName_same (buf : Bytes) (p n : Nat) : copyName buf p p n = buf := by
  induction n with
  | zero => rfl
  | succ n ih => rw [copyName, ih, setByte_same]

/-- A round of the loop that reads where it writes stores a size. -/
lemma shrinkEntries_same (size n : Nat) (buf : Bytes) (p : Nat) :
    shrinkEntries size (n + 1) buf p p =
      if entryInode buf p ≠ 0 ∧ p < size then
        shrinkEntries size n (buf.set16 (p + 4) (naturalSize (nameLength buf p)))
          (p + naturalSize (nameLength buf p)) (p + naturalSize (nameLength buf p))
      else some (buf, p) := by
  have hlen : UInt8.ofNat (nameLength buf p) = buf (p + 6) := by
    apply UInt8.toNat_inj.mp
    rw [UInt8.toNat_ofNat']
    exact Nat.mod_eq_of_lt (buf (p + 6)).toNat_lt
  have hnat : naturalSize (nameLength buf p) < 2 ^ 16 := by
    have h1 := (buf (p + 6)).toNat_lt
    have h2 := (naturalSize_spec (nameLength buf p)).2.2
    unfold nameLength at h2 ⊢
    omega
  rw [shrinkEntries]
  dsimp only
  rw [hlen, setByte_same]
  unfold entryInode fileType
  rw [set32_get32, setByte_same, copyName_same]
  unfold entrySize
  rw [Bytes.get16_set16 hnat]

/-- The walk goes forward. -/
lemma le_shrinkWalk {r : Nat} (hw : shrinkWalk buf size n p = some r) : p ≤ r := by
  induction n generalizing p with
  | zero => cases hw
  | succ n ih =>
    rw [shrinkWalk] at hw
    split at hw
    · exact (Nat.le_add_right _ _).trans (ih hw)
    · cases hw
      exact le_refl _

/-- A loop that ends inside the block walks from size to size and changes nothing but sizes on its
way. -/
lemma shrinkEntries_walk {r : Nat} (hr : r ≤ size)
    (hw : shrinkWalk buf size n p = some r) (hag : ∀ x, p ≤ x → buf' x = buf x) (m : Nat)
    (hm : n ≤ m) : ∃ buf'', shrinkEntries size m buf' p p = some (buf'', r) ∧
      ∀ x, x < p ∨ size ≤ x → buf'' x = buf' x := by
  induction n generalizing p buf' m with
  | zero => cases hw
  | succ n ih =>
    rcases header_congr fun x h1 _ => hag x h1 with ⟨h1, _, h3, _⟩
    cases m with
    | zero => omega
    | succ m =>
      rw [shrinkEntries_same, h1, h3]
      rw [shrinkWalk] at hw
      split at hw
      · rename_i hc
        rw [if_pos hc]
        have hnat := naturalSize_spec (nameLength buf p)
        unfold DIR_ENTRY at hnat
        have hle := le_shrinkWalk hw
        have hag' : ∀ x, p + naturalSize (nameLength buf p) ≤ x →
            buf'.set16 (p + 4) (naturalSize (nameLength buf p)) x = buf x := fun x hx => by
          rw [Bytes.set16_apply_of_outside (by omega)]
          exact hag x (by omega)
        rcases ih hw hag' m (by omega) with ⟨buf'', hs, hout⟩
        refine ⟨buf'', hs, fun x hx => ?_⟩
        rw [hout x (by omega), Bytes.set16_apply_of_outside (by omega)]
      · rename_i hc
        cases hw
        exact ⟨buf', if_neg hc, fun _ _ => rfl⟩

/-! ## The buffer behind the block -/

/-- `update_inode` leaves what lies behind `std_buf`. -/
lemma updateInode_stdBuf (hs : v.spb.blockSize ≤ 7) {x : Nat} (hx : v.blockSize ≤ x) :
    (v.updateInode inode).stdBuf x = v.stdBuf x := by
  have hroom : v.inodeIndex inode * 128 % 2 ^ 32 % v.blockSize + 128 ≤ v.blockSize := by
    have hlt := Nat.mod_lt (v.inodeIndex inode * 128 % 2 ^ 32) v.blockSize_pos
    rcases v.dvd_blockSize with ⟨c, hc⟩
    have hd : v.inodeIndex inode * 128 % 2 ^ 32 = 128 * (v.inodeIndex inode % 2 ^ 25) := by omega
    rw [hd, hc, Nat.mul_mod_mul_left] at hlt ⊢
    have := Nat.lt_of_mul_lt_mul_left hlt
    omega
  unfold updateInode updateBlock
  dsimp only
  rw [Bytes.blit_apply_of_outside (by omega)]
  unfold readLBA
  rw [sectors_blockFactor hs, Bytes.blit_apply_of_outside (by omega)]

/-- The end of `add_file` leaves what lies behind `std_buf`. -/
lemma storeDir_stdBuf (hs : v.spb.blockSize ≤ 7) {x : Nat} (hx : v.blockSize ≤ x) :
    (v.storeDir dir type buf).stdBuf x = buf x := by
  unfold storeDir
  dsimp only
  split
  · refine (updateInode_stdBuf ?_ ?_).trans rfl
    · exact hs
    · exact hx
  · rfl

/-- The block after `add_file` has put an entry behind the last one. -/
lemma WellFormedDir.add (hw : WellFormedDir buf size (ps ++ [e])) (hd : 4 ∣ size)
    (hi : inode ≠ 0) (hi' : inode < 2 ^ 32) (hl : name.length < 2 ^ 8)
    (hroom : e + naturalSize (nameLength buf e) + DIR_ENTRY + name.length ≤ size)
    (hag : ∀ x, x < size → buf' x = addedBlock buf e inode type name size x) :
    ∃ qs, WellFormedDir buf' size qs ∧
      listing buf' qs = listing buf (ps ++ [e]) ++ [⟨name, inode, type⟩] := by
  rcases hw.tiled.add type hd hi hi' hl hroom with ⟨t1, t2, _⟩
  rcases t1.congr fun x _ hx => hag x hx with ⟨u1, u2, _⟩
  generalize e + naturalSize (nameLength buf e) = q at *
  have hlist := u2.trans t2
  have hsplit : ps ++ [e, q] = ps ++ [e] ++ [q] := by simp
  have hold : listing buf' (ps ++ [e]) = listing buf (ps ++ [e]) := by
    rw [hsplit, listing_append] at hlist
    exact (List.append_inj' hlist rfl).1
  rcases hw.dots with ⟨rest, hrest⟩
  have h0 : (0 : Nat) ∈ ps ++ [e] := hrest ▸ List.mem_cons_self
  have h12 : 12 ∈ ps ++ [e] := hrest ▸ List.mem_cons_of_mem _ List.mem_cons_self
  refine ⟨ps ++ [e, q], ⟨u1, ⟨rest ++ [q], by rw [hsplit, hrest]; rfl⟩, ?_, ?_⟩, hlist⟩
  · exact (congrArg Listed.name (listedAt_of_listing hold h0)).trans hw.dot
  · exact (congrArg Listed.name (listedAt_of_listing hold h12)).trans hw.dotdot

/-- The entries of a block stand where their sizes say. -/
lemma Tiled.unique {qs : List Nat} (h : Tiled buf size e ps) (h' : Tiled buf size e qs) :
    ps = qs := by
  induction ps generalizing e qs with
  | nil =>
    cases qs with
    | nil => rfl
    | cons q qs =>
      have he : e = size := h
      exact absurd h'.2.1 (by omega)
  | cons p ps ih =>
    cases qs with
    | nil =>
      have he : e = size := h'
      exact absurd h.2.1 (by omega)
    | cons q qs =>
      rw [h.1, h'.1, ih h.2.2.2.2.2 h'.2.2.2.2.2]

/-- **Adding an entry.** On a well-formed directory `add_file` does what it ought to do if the name
is there already, if the new entry fits behind the last one, or if there is no room for it and the
walk that ought to make some ends inside the block without finding any. -/
theorem add_file_ready (v : Volume) (dir b inode : Nat) (type : UInt8) (name : List UInt8)
    (ps : List Nat) (e : Nat) (hd : v.IsDir dir b)
    (hw : WellFormedDir (v.dirRead dir b).stdBuf v.blockSize (ps ++ [e])) (hi : inode ≠ 0)
    (hi' : inode < 2 ^ 32) (hn : NewName name)
    (hr : AddReady (v.dirRead dir b).stdBuf v.blockSize (ps ++ [e]) e name) :
    AddsEntry v dir b (ps ++ [e]) inode type name := by
  have hbs : v.blockSize < 2 ^ 32 := by
    have := blockSize_le hd.layout.supported
    omega
  have htail : ∀ x, v.blockSize ≤ x → (v.dirRead dir b).stdBuf x = v.stdBuf x := fun x hx =>
    Bytes.blit_apply_of_outside (by omega)
  have hadd := hd.addFile type hi hn hw.tiled
  by_cases hm : ∃ p ∈ ps ++ [e], nameMatches (v.dirRead dir b).stdBuf p name = true
  · rw [if_pos hm] at hadd
    exact ⟨_, 1, hadd, fun h => absurd h (by decide), fun _ => rfl,
      fun h => absurd h (by decide), htail⟩
  rw [if_neg hm] at hadd
  have hend : e + entrySize (v.dirRead dir b).stdBuf e = v.blockSize := by
    rcases tiled_append.mp hw.tiled with ⟨m, _, h2⟩
    rcases tiled_singleton.mp h2 with ⟨rfl, _, _, _, h⟩
    exact h
  by_cases hroom : e + naturalSize (nameLength (v.dirRead dir b).stdBuf e) + DIR_ENTRY +
      name.length ≤ v.blockSize
  · -- the new entry fits behind the last one
    have hentry : (v.dirRead dir b).addEntry dir inode type name e v.blockSize = _ :=
      addEntry_fits hend hbs hroom
    rcases hd.storeDir type (addedBlock (v.dirRead dir b).stdBuf e inode type name v.blockSize) with
      ⟨stdBuf, stdInode, hstore⟩
    refine ⟨_, 0, hadd.trans hentry, fun _ => ?_, fun h => absurd rfl h,
      fun h => absurd h (by decide), fun x hx => ?_⟩
    · rw [show (v.dirRead dir b).blockSize = v.blockSize from rfl, hstore]
      generalize hv' : ({ v with
        disk := v.dirDisk dir b (addedBlock (v.dirRead dir b).stdBuf e inode type name v.blockSize)
          (linksAdded type (v.diskLinks dir))
        stdBuf := stdBuf, stdInode := stdInode } : Volume) = v'
      have hfields : v'.spb = v.spb ∧ v'.bgpt = v.bgpt ∧ v'.disk = v.dirDisk dir b
          (addedBlock (v.dirRead dir b).stdBuf e inode type name v.blockSize)
          (linksAdded type (v.diskLinks dir)) := by
        rw [← hv']
        exact ⟨rfl, rfl, rfl⟩
      rcases hd.stored hfields.1 hfields.2.1 hfields.2.2 with ⟨hd', _, hbytes⟩
      exact ⟨hd', hw.add four_dvd_blockSize hi hi' hn.length_lt hroom hbytes⟩
    · refine (storeDir_stdBuf (v := v.dirRead dir b) hd.layout.supported hx).trans ?_
      exact (addedBlock_behind hroom hx).trans (htail x hx)
  · -- there is no room, and the loop finds none
    rcases (hr.resolve_left hm).resolve_left hroom with ⟨hnat, hfull, r, hwalk, hrs, hrroom⟩
    rcases shrinkEntries_walk hrs hwalk (fun _ _ => rfl) (2 * v.blockSize) (by omega) with
      ⟨buf', hshrink, hout⟩
    have hentry : (v.dirRead dir b).addEntry dir inode type name e v.blockSize =
        some ((v.dirRead dir b).setStdBuf buf', 2) := by
      have hsum : add32 (sub32 v.blockSize (entrySize (v.dirRead dir b).stdBuf e))
          (naturalSize (nameLength (v.dirRead dir b).stdBuf e)) =
            e + naturalSize (nameLength (v.dirRead dir b).stdBuf e) := by
        rw [sub32_of_le (by omega) hbs, add32_of_lt (by omega)]
        omega
      unfold addEntry
      dsimp only
      rw [show (v.dirRead dir b).blockSize = v.blockSize from rfl, hsum, sub32_of_le hnat hbs,
        if_pos (by omega), hshrink, Option.bind_eq_bind, Option.bind_some]
      dsimp only
      rw [sub32_of_le hrs hbs, if_pos (by omega)]
    refine ⟨_, 2, hadd.trans hentry, fun h => absurd h (by decide), fun _ => rfl, fun _ => hfull,
      fun x hx => ?_⟩
    exact (hout x (.inr hx)).trans (htail x hx)

/-! ### A directory with a widened entry -/

/-- The words of a volume on which inode 2 is a directory in block 14. Its entries are ".", ".." of
size 988, as a deletion leaves it, and "ab" in the last 24 bytes. -/
def widenedWord (n i : Nat) : Nat :=
  if n = 6 then
    if i = 32 then 0x4000 else if i = 42 then 14 else 0
  else if n = 14 then
    if i < 250 then [2, 0x0201000c, 0x2e, 2, 0x020203dc, 0x2e2e].getD i 0
    else [12, 0x01020018, 0x6261].getD (i - 250) 0
  else 0

/-- The volume with that directory. -/
def widenedVolume : Volume := sampleVolume widenedWord (fun _ => 0) 0 0 65

lemma widenedVolume_isDir : widenedVolume.IsDir 2 14 := sampleVolume_isDir (by decide +kernel)

lemma widenedVolume_wellFormed : WellFormedDir (widenedVolume.dirRead 2 14).stdBuf
    widenedVolume.blockSize ([0, 12] ++ [1000]) where
  tiled := by decide +kernel
  dots := ⟨[1000], rfl⟩
  dot := by decide +kernel
  dotdot := by decide +kernel

/-- A name of three bytes fits behind the last entry. -/
theorem add_file_ready_widened :
    AddsEntry widenedVolume 2 14 ([0, 12] ++ [1000]) 13 1 [120, 121, 122] :=
  add_file_ready widenedVolume 2 14 13 1 [120, 121, 122] [0, 12] 1000 widenedVolume_isDir
    widenedVolume_wellFormed (by decide) (by decide)
    ⟨by decide, by decide, by decide, by decide⟩ (.inr (.inl (by decide +kernel)))

/-- A name of four bytes does not, though there is plenty of room behind "..": `add_file` returns 0,
but the entry is not in the directory. -/
theorem add_file_loses_entry :
    naturalRoom (widenedVolume.dirRead 2 14).stdBuf ([0, 12] ++ [1000]) + DIR_ENTRY + 4 ≤
        widenedVolume.blockSize ∧
      ¬ AddsEntry widenedVolume 2 14 ([0, 12] ++ [1000]) 13 1 [119, 120, 121, 122] := by
  refine ⟨by decide +kernel, ?_⟩
  rintro ⟨v', error, h, h0, _⟩
  have hr : ((widenedVolume.addFile 2 13 1 [119, 120, 121, 122]).map fun r => (r.2,
      decide (Tiled (r.1.dirRead 2 14).stdBuf widenedVolume.blockSize 0 [0, 12, 1000]))) =
        some (0, true) := by
    decide +kernel
  rw [h, Option.map_some] at hr
  rcases Prod.mk.inj (Option.some.inj hr) with ⟨rfl, ht⟩
  rcases h0 rfl with ⟨_, qs, hqs, hl⟩
  obtain rfl := Tiled.unique (of_decide_eq_true ht) hqs.tiled
  have hlen := congrArg List.length hl
  unfold listing at hlen
  rw [List.length_map, List.length_append, List.length_map] at hlen
  cases hlen

end Volume

end MarioBrOS.Fs
