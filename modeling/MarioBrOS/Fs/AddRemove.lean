import MarioBrOS.Fs.Directory
import MarioBrOS.Fs.File

/-!
# Adding an entry and removing it again

In a directory as the code writes them, whose entries leave room for one byte more than their names,
an entry that `add_file` puts behind the last one comes last in the list, and `remove_file` takes it
away without a trace (`remove_undoes_add`).
-/

namespace MarioBrOS.Fs

namespace Volume

variable {v v' w : Volume} {dir b inode e : Nat} {type : UInt8} {name : List UInt8} {ps : List Nat}

/-- A directory block of the shape the code writes: "." of size 12, then "..", then the other
entries, each with room for its name and one byte more. -/
structure CodeBlock (buf : Bytes) (size : Nat) (ps : List Nat) : Prop where
  tiled : Tiled buf size 0 ps
  dots : ∃ rest, ps = 0 :: 12 :: rest
  dot : entryName buf 0 = [DOT]
  dotdot : entryName buf 12 = [DOT, DOT]
  roomy : ∀ p ∈ ps, DIR_ENTRY + nameLength buf p ≤ entrySize buf p

/-- `add_file`, once the directory is read, finds that the new entry fits behind the last one. -/
def FitsBehind (w : Volume) (name : List UInt8) : Prop :=
  ∃ entry room, findRoom w.stdBuf w.blockSize name (w.blockSize + 2) 0 (entrySize w.stdBuf 0) =
      some (some (entry, room)) ∧
    ¬ sub32 w.blockSize (add32 (sub32 room (entrySize w.stdBuf entry))
      (naturalSize (nameLength w.stdBuf entry))) < DIR_ENTRY + name.length

/-- An entry with that room is at least as long as its natural size. -/
lemma naturalSize_le {size len : Nat} (hd : 4 ∣ size) (h : DIR_ENTRY + len ≤ size) :
    naturalSize len ≤ size := by
  unfold DIR_ENTRY at h
  unfold naturalSize DIR_ENTRY
  omega

/-- What `add_file` has checked when it returns 0. -/
lemma addFile_zero (h : v.addFile dir inode type name = some (v', 0)) :
    inode ≠ 0 ∧ name.length < 2 ^ 8 ∧ name.headD 0 ≠ DASH ∧ SLASH ∉ name := by
  unfold addFile at h
  split at h
  · cases h
  split at h
  · cases h
  split at h
  · cases h
  split at h
  · cases h
  split at h
  · cases h
  · rename_i h1 h2 h3 h4 h5
    exact ⟨h2, by omega, h4, h5⟩

/-- The last entry of a block in which the code finds room. -/
lemma FitsBehind.last (hf : w.FitsBehind name) (ht : Tiled w.stdBuf w.blockSize 0 (ps ++ [e]))
    (hno : ∀ p ∈ ps ++ [e], nameMatches w.stdBuf p name = false) (hb : w.blockSize < 2 ^ 32)
    (hr : DIR_ENTRY + nameLength w.stdBuf e ≤ entrySize w.stdBuf e) :
    e + naturalSize (nameLength w.stdBuf e) + DIR_ENTRY + name.length ≤ w.blockSize := by
  rcases hf with ⟨entry, room, hfind, hroom⟩
  have hlast := findRoom_last (n := w.blockSize + 2) ht hno (by omega)
  rw [Nat.zero_add] at hlast
  cases hlast.symm.trans hfind
  rcases tiled_append.mp ht with ⟨m, _, h2⟩
  rcases tiled_singleton.mp h2 with ⟨rfl, _, hd, _, hend⟩
  have hle := naturalSize_le hd hr
  generalize naturalSize (nameLength w.stdBuf e) = r at *
  have hsum : add32 (sub32 w.blockSize (entrySize w.stdBuf e)) r = e + r := by
    rw [sub32_of_le (by omega) hb, add32_of_lt (by omega)]
    omega
  rw [hsum, sub32_of_le (by omega) hb] at hroom
  unfold DIR_ENTRY at hroom ⊢
  omega

variable (type) in
/-- The block after `add_file` has put an entry behind the last one. -/
lemma CodeBlock.add {buf : Bytes} {size : Nat} (hc : CodeBlock buf size (ps ++ [e]))
    (hd : 4 ∣ size) (hi : inode ≠ 0) (hi' : inode < 2 ^ 32) (hl : name.length < 2 ^ 8)
    (hroom : e + naturalSize (nameLength buf e) + DIR_ENTRY + name.length ≤ size) :
    CodeBlock (addedBlock buf e inode type name size) size
      (ps ++ [e, e + naturalSize (nameLength buf e)]) := by
  rcases hc.tiled.add type hd hi hi' hl hroom with ⟨t1, t2, t3, t4, t5⟩
  generalize addedBlock buf e inode type name size = buf' at *
  have hr := naturalSize_spec (nameLength buf e)
  generalize naturalSize (nameLength buf e) = r at *
  have hsplit : ps ++ [e, e + r] = ps ++ [e] ++ [e + r] := by simp
  rw [hsplit, listing_append] at t2
  rcases List.append_inj' t2 rfl with ⟨hold, hnew⟩
  have hnew : listedAt buf' (e + r) = ⟨name, inode, type⟩ := List.singleton_inj.mp hnew
  rcases hc.dots with ⟨rest, hrest⟩
  have h0 : (0 : Nat) ∈ ps ++ [e] := hrest ▸ List.mem_cons_self
  have h12 : 12 ∈ ps ++ [e] := hrest ▸ List.mem_cons_of_mem _ List.mem_cons_self
  refine ⟨t1, ⟨rest ++ [e + r], by rw [hsplit, hrest]; rfl⟩, ?_, ?_, fun p hp => ?_⟩
  · exact (congrArg Listed.name (listedAt_of_listing hold h0)).trans hc.dot
  · exact (congrArg Listed.name (listedAt_of_listing hold h12)).trans hc.dotdot
  · have hlen : p ∈ ps ++ [e] → nameLength buf' p = nameLength buf p := fun hp => by
      rw [nameLength_eq, listedAt_of_listing hold hp, ← nameLength_eq]
    rw [hsplit, List.append_assoc, List.mem_append] at hp
    rcases hp with hp | hp
    · rw [hlen (List.mem_append_left _ hp), t3 p hp]
      exact hc.roomy p (List.mem_append_left _ hp)
    · rcases List.mem_cons.mp hp with rfl | hp
      · rw [hlen (List.mem_append_right _ List.mem_cons_self), t4]
        exact hr.2.1
      · rw [List.mem_singleton.mp hp, t5, nameLength_eq, hnew]
        dsimp only
        omega

/-- A block of the same bytes. -/
lemma CodeBlock.congr {buf buf' : Bytes} {size : Nat} (hc : CodeBlock buf size ps)
    (h : ∀ x, x < size → buf' x = buf x) :
    CodeBlock buf' size ps ∧ listing buf' ps = listing buf ps ∧
      ∀ p ∈ ps, entrySize buf' p = entrySize buf p := by
  rcases hc.tiled.congr fun x _ hx => h x hx with ⟨t1, t2, t3⟩
  rcases hc.dots with ⟨rest, hrest⟩
  have h0 : (0 : Nat) ∈ ps := hrest ▸ List.mem_cons_self
  have h12 : 12 ∈ ps := hrest ▸ List.mem_cons_of_mem _ List.mem_cons_self
  refine ⟨⟨t1, ⟨rest, hrest⟩, ?_, ?_, fun p hp => ?_⟩, t2, t3⟩
  · exact (congrArg Listed.name (listedAt_of_listing t2 h0)).trans hc.dot
  · exact (congrArg Listed.name (listedAt_of_listing t2 h12)).trans hc.dotdot
  · rw [nameLength_eq, listedAt_of_listing t2 hp, ← nameLength_eq, t3 p hp]
    exact hc.roomy p hp

/-- The block after `remove_file` has taken away the last entry. -/
lemma CodeBlock.remove {buf : Bytes} {size q : Nat} (hc : CodeBlock buf size (ps ++ [e, q]))
    (h0 : ps ≠ []) (h16 : entrySize buf e + entrySize buf q < 2 ^ 16) :
    CodeBlock (mergedBlock buf e q) size (ps ++ [e]) ∧
      listing (mergedBlock buf e q) (ps ++ [e]) = listing buf (ps ++ [e]) ∧
      (∀ p ∈ ps, entrySize (mergedBlock buf e q) p = entrySize buf p) ∧
      entrySize (mergedBlock buf e q) e = entrySize buf e + entrySize buf q := by
  rcases hc.tiled.remove h16 with ⟨t1, t2, t3, t4⟩
  generalize mergedBlock buf e q = buf' at *
  have hdots : ∃ rest, ps ++ [e] = 0 :: 12 :: rest := by
    rcases hc.dots with ⟨rest, hrest⟩
    cases ps with
    | nil => exact absurd rfl h0
    | cons p ps =>
      cases ps with
      | nil =>
        injection hrest with h1 hrest
        injection hrest with h2 hrest
        exact ⟨[], by rw [h1, h2]; rfl⟩
      | cons p' ps =>
        injection hrest with h1 hrest
        injection hrest with h2 hrest
        exact ⟨ps ++ [e], by rw [h1, h2]; rfl⟩
  rcases hdots with ⟨rest, hrest⟩
  have h0 : (0 : Nat) ∈ ps ++ [e] := hrest ▸ List.mem_cons_self
  have h12 : 12 ∈ ps ++ [e] := hrest ▸ List.mem_cons_of_mem _ List.mem_cons_self
  have hsize : ∀ p ∈ ps, entrySize buf' p = entrySize buf p := fun p hp =>
    t3 p (by rwa [List.append_nil])
  refine ⟨⟨t1, ⟨rest, hrest⟩, ?_, ?_, fun p hp => ?_⟩, t2, hsize, t4⟩
  · exact (congrArg Listed.name (listedAt_of_listing t2 h0)).trans hc.dot
  · exact (congrArg Listed.name (listedAt_of_listing t2 h12)).trans hc.dotdot
  · rw [nameLength_eq, listedAt_of_listing t2 hp, ← nameLength_eq]
    rcases List.mem_append.mp hp with hp' | hp'
    · rw [hsize p hp']
      exact hc.roomy p (List.mem_append_left _ hp')
    · rw [List.mem_singleton.mp hp', t4]
      exact (hc.roomy e (List.mem_append_right _ List.mem_cons_self)).trans (Nat.le_add_right _ _)

/-- `remove_file` of the last entry. -/
lemma IsDir.removeLast (h : v.IsDir dir b) {q : Nat}
    (hc : CodeBlock (v.dirRead dir b).stdBuf v.blockSize (ps ++ [e, q])) (h0 : ps ≠ [])
    (hi : inode ≠ 0) (hq : entryInode (v.dirRead dir b).stdBuf q = inode)
    (hno : ∀ p ∈ ps ++ [e], entryInode (v.dirRead dir b).stdBuf p ≠ inode) :
    v.removeFile dir inode = some ((v.dirRead dir b).unlinkEntry dir e q, 0) := by
  unfold removeFile
  rw [if_neg h.ne_zero, if_neg hi, h.readDir, Option.bind_eq_bind, Option.bind_some]
  have hbs : (v.dirRead dir b).blockSize = v.blockSize := rfl
  rw [hbs]
  generalize v.dirRead dir b = w at *
  -- the scan starts behind ".", whose entry has size 12
  have hsplit : ∃ qs ps', ps = 0 :: ps' ∧ ps' ++ [e] = 12 :: qs := by
    rcases hc.dots with ⟨rest, hrest⟩
    cases ps with
    | nil => exact absurd rfl h0
    | cons p ps =>
      injection hrest with h1 hrest
      cases ps with
      | nil =>
        injection hrest with h2 _
        exact ⟨[], [], by rw [h1], by rw [h2]; rfl⟩
      | cons p' ps =>
        injection hrest with h2 _
        exact ⟨ps ++ [e], p' :: ps, by rw [h1], by rw [h2]; rfl⟩
  rcases hsplit with ⟨qs, ps', rfl, hqs⟩
  have hlist : 0 :: ps' ++ [e, q] = 0 :: (12 :: qs ++ [q]) := by
    rw [← hqs, List.append_assoc]
    rfl
  have htiled := hc.tiled
  rw [hlist] at htiled
  have h12 : entrySize w.stdBuf 0 = 12 := by
    have := htiled.2.2.2.2.2.1
    omega
  have htail : Tiled w.stdBuf v.blockSize 12 (12 :: qs ++ [q]) := by
    have := htiled.2.2.2.2.2
    rwa [h12, Nat.zero_add] at this
  have hmem : ∀ x ∈ qs, entryInode w.stdBuf x ≠ inode := fun x hx =>
    hno x (by
      rw [List.cons_append, hqs]
      exact List.mem_cons_of_mem _ (List.mem_cons_of_mem _ hx))
  rcases findEntry_tiled (n := v.blockSize + 1) htail hq hmem (by omega) with ⟨qs', e', he, hfind⟩
  obtain rfl : e = e' := List.singleton_inj.mp (List.append_inj' (hqs.trans he) rfl).2
  have hlt : q < v.blockSize := by
    rcases tiled_append.mp htail with ⟨m, _, h2⟩
    exact h2.1 ▸ h2.2.1
  rw [h12]
  dsimp only
  rw [hfind, Option.bind_eq_bind, Option.bind_some]
  exact if_neg (by omega)

lemma four_dvd_blockSize : 4 ∣ v.blockSize := ⟨256 * 2 ^ v.spb.blockSize, by unfold blockSize; omega⟩

/-- The link that is counted for a new subdirectory is taken back. -/
lemma linksRemoved_linksAdded {n : Nat} (hn : n < 2 ^ 16) :
    linksRemoved type (linksAdded type n) = n := by
  unfold linksRemoved linksAdded
  split <;> omega

/-- **Removal undoes addition.** An entry that `add_file` puts behind the last entry of a directory
is the last one of its list, and `remove_file` restores the list, the sizes of the entries and
`hard_links`. -/
theorem remove_undoes_add (v v' : Volume) (dir b inode : Nat) (type : UInt8) (name : List UInt8)
    (ps : List Nat) (hd : v.IsDir dir b)
    (hc : CodeBlock (v.dirRead dir b).stdBuf v.blockSize ps) (hi : inode < 2 ^ 32)
    (hno : ∀ p ∈ ps, entryInode (v.dirRead dir b).stdBuf p ≠ inode)
    (hname : (0 : UInt8) ∉ name) (hfit : (v.dirRead dir b).FitsBehind name)
    (hadd : v.addFile dir inode type name = some (v', 0)) :
    ∃ q v'', v'.IsDir dir b ∧
      CodeBlock (v'.dirRead dir b).stdBuf v.blockSize (ps ++ [q]) ∧
      listing (v'.dirRead dir b).stdBuf (ps ++ [q]) =
        listing (v.dirRead dir b).stdBuf ps ++ [⟨name, inode, type⟩] ∧
      v'.removeFile dir inode = some (v'', 0) ∧ v''.IsDir dir b ∧
      CodeBlock (v''.dirRead dir b).stdBuf v.blockSize ps ∧
      listing (v''.dirRead dir b).stdBuf ps = listing (v.dirRead dir b).stdBuf ps ∧
      (∀ p ∈ ps, entrySize (v''.dirRead dir b).stdBuf p = entrySize (v.dirRead dir b).stdBuf p) ∧
      v''.diskLinks dir = v.diskLinks dir := by
  rcases addFile_zero hadd with ⟨hi0, hlen, hdash, hslash⟩
  have hbs : v.blockSize < 2 ^ 32 := by
    have := blockSize_le hd.layout.supported
    omega
  -- the last entry
  have hlast : ∃ ps' e, ps' ≠ [] ∧ ps = ps' ++ [e] := by
    rcases hc.dots with ⟨rest, rfl⟩
    rcases List.eq_nil_or_concat (12 :: rest) with h | ⟨qs, e, h⟩
    · cases h
    · exact ⟨0 :: qs, e, List.cons_ne_nil _ _, by rw [h, List.concat_eq_append]; rfl⟩
  rcases hlast with ⟨ps, e, hps, rfl⟩
  have hnomatch : ∀ p ∈ ps ++ [e], nameMatches (v.dirRead dir b).stdBuf p name = false := by
    intro p hp
    rw [Bool.eq_false_iff]
    intro hm
    rw [hd.addFile type hi0 ⟨hname, hslash, hdash, hlen⟩ hc.tiled, if_pos ⟨p, hp, hm⟩] at hadd
    cases hadd
  have hroom : e + naturalSize (nameLength (v.dirRead dir b).stdBuf e) + DIR_ENTRY + name.length ≤
      v.blockSize :=
    hfit.last hc.tiled hnomatch hbs (hc.roomy e (List.mem_append_right _ List.mem_cons_self))
  have hend : e + entrySize (v.dirRead dir b).stdBuf e = v.blockSize := by
    rcases tiled_append.mp hc.tiled with ⟨m, _, h2⟩
    rcases tiled_singleton.mp h2 with ⟨rfl, _, _, _, h⟩
    exact h
  -- the block that is written
  have hblock := hc.add type four_dvd_blockSize hi0 hi hlen hroom
  have hadded := hc.tiled.add type four_dvd_blockSize hi0 hi hlen hroom
  have hsize : entrySize (v.dirRead dir b).stdBuf e < 2 ^ 16 := Bytes.get16_lt _ _
  rcases hd.storeDir type (addedBlock (v.dirRead dir b).stdBuf e inode type name v.blockSize) with
    ⟨stdBuf, stdInode, hstore⟩
  have hentry : (v.dirRead dir b).addEntry dir inode type name e v.blockSize = _ :=
    addEntry_fits hend hbs hroom
  have hv' : v'.spb = v.spb ∧ v'.bgpt = v.bgpt ∧ v'.disk = v.dirDisk dir b
      (addedBlock (v.dirRead dir b).stdBuf e inode type name v.blockSize)
      (linksAdded type (v.diskLinks dir)) := by
    rw [hd.addFile type hi0 ⟨hname, hslash, hdash, hlen⟩ hc.tiled, if_neg, hentry] at hadd
    · rw [← (Prod.mk.inj (Option.some.inj hadd)).1]
      rw [show (v.dirRead dir b).blockSize = v.blockSize from rfl, hstore]
      exact ⟨rfl, rfl, rfl⟩
    · rintro ⟨p, hp, hm⟩
      rw [hnomatch p hp] at hm
      cases hm
  rcases hd.stored hv'.1 hv'.2.1 hv'.2.2 with ⟨hd', hlinks', hbytes'⟩
  have hbs' : v'.blockSize = v.blockSize := by
    unfold blockSize
    rw [hv'.1]
  rcases hblock.congr hbytes' with ⟨hc', hl', hs'⟩
  rcases hadded with ⟨_, hl, hsp, hse, hsq⟩
  have hr := naturalSize_spec (nameLength (v.dirRead dir b).stdBuf e)
  clear hblock hbytes' hentry hstore hv'
  generalize addedBlock (v.dirRead dir b).stdBuf e inode type name v.blockSize = added at *
  generalize hq : e + naturalSize (nameLength (v.dirRead dir b).stdBuf e) = q at *
  have hse' := (hs' e (by simp)).trans hse
  have hsq' := (hs' q (by simp)).trans hsq
  -- the block when `remove_file` is done
  have hsplit : ps ++ [e, q] = ps ++ [e] ++ [q] := by simp
  have hlist := hl'.trans hl
  rw [hsplit] at hlist
  rw [listing_append] at hlist
  rcases List.append_inj' hlist rfl with ⟨hold, hnew⟩
  have hnew : listedAt (v'.dirRead dir b).stdBuf q = ⟨name, inode, type⟩ :=
    List.singleton_inj.mp hnew
  rw [← listing_append, ← hsplit] at hlist
  have hremove := hd'.removeLast (hbs' ▸ hc') hps hi0 (congrArg Listed.inode hnew) fun p hp => by
    rw [show entryInode (v'.dirRead dir b).stdBuf p = entryInode (v.dirRead dir b).stdBuf p from
      congrArg Listed.inode (listedAt_of_listing hold hp)]
    exact hno p hp
  rcases hc'.remove hps (by rw [hse', hsq']; omega) with ⟨r1, r2, r3, r4⟩
  rcases hd'.unlinkEntry e q with ⟨stdBuf', stdInode', hunlink⟩
  have htype : fileType (mergedBlock (v'.dirRead dir b).stdBuf e q) q = type := by
    unfold mergedBlock fileType
    rw [Bytes.set16_apply_of_outside (by omega)]
    exact congrArg Listed.type hnew
  have hlinks : linksRemoved type (v'.diskLinks dir) = v.diskLinks dir := by
    have hlt : v.diskLinks dir < 2 ^ 16 := Bytes.get16_lt _ _
    rw [hlinks' (by unfold linksAdded; split <;> omega), linksRemoved_linksAdded hlt]
  rw [htype, hlinks] at hunlink
  rw [hunlink] at hremove
  generalize hv'' : ({ v' with
    disk := v'.dirDisk dir b (mergedBlock (v'.dirRead dir b).stdBuf e q) (v.diskLinks dir)
    stdBuf := stdBuf', stdInode := stdInode' } : Volume) = v'' at hremove
  have hfields : v''.spb = v'.spb ∧ v''.bgpt = v'.bgpt ∧ v''.disk =
      v'.dirDisk dir b (mergedBlock (v'.dirRead dir b).stdBuf e q) (v.diskLinks dir) := by
    rw [← hv'']
    exact ⟨rfl, rfl, rfl⟩
  rcases hd'.stored hfields.1 hfields.2.1 hfields.2.2 with ⟨hd'', hlinks'', hbytes''⟩
  rw [hbs'] at hbytes''
  rcases r1.congr hbytes'' with ⟨s1, s2, s3⟩
  refine ⟨q, v'', hd', hsplit ▸ hc', hsplit ▸ hlist, hremove, hd'', s1, ?_, fun p hp => ?_,
    hlinks'' (Bytes.get16_lt _ _)⟩
  · exact s2.trans (r2.trans hold)
  · rw [s3 p hp]
    rcases List.mem_append.mp hp with hp | hp
    · rw [r3 p hp, hs' p (List.mem_append_left _ hp), hsp p hp]
    · rw [List.mem_singleton.mp hp, r4, hse', hsq']
      omega

/-! ### A sample directory -/

lemma dirVolume_isDir : dirVolume.IsDir 2 14 := sampleVolume_isDir (by decide +kernel)

lemma dirVolume_codeBlock :
    CodeBlock (dirVolume.dirRead 2 14).stdBuf dirVolume.blockSize [0, 12, 24] where
  tiled := by decide +kernel
  dots := ⟨[24], rfl⟩
  dot := by decide +kernel
  dotdot := by decide +kernel
  roomy := by decide +kernel

/-- A subdirectory "x" is added and removed again. -/
theorem remove_undoes_add_sample : ∃ v' v'', dirVolume.addFile 2 13 FILE_DIR [120] = some (v', 0) ∧
    v'.removeFile 2 13 = some (v'', 0) ∧
    listing (v''.dirRead 2 14).stdBuf [0, 12, 24] =
      listing (dirVolume.dirRead 2 14).stdBuf [0, 12, 24] ∧
    v''.diskLinks 2 = dirVolume.diskLinks 2 := by
  have hadd : (dirVolume.addFile 2 13 FILE_DIR [120]).map Prod.snd = some 0 := by decide +kernel
  rcases Option.map_eq_some_iff.mp hadd with ⟨⟨v', r⟩, hadd, rfl⟩
  have hfit : (dirVolume.dirRead 2 14).FitsBehind [120] :=
    ⟨24, 1024, by decide +kernel, by decide +kernel⟩
  rcases remove_undoes_add dirVolume v' 2 14 13 FILE_DIR [120] [0, 12, 24] dirVolume_isDir
    dirVolume_codeBlock (by decide) (by decide +kernel) (by decide) hfit hadd with
    ⟨_, v'', _, _, _, h1, _, _, h2, _, h3⟩
  exact ⟨v', v'', hadd, h1, h2, h3⟩

end Volume

end MarioBrOS.Fs
