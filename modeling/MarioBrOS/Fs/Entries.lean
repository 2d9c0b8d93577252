import MarioBrOS.Fs.Lookup

/-!
# Entries of a directory block

What the directory functions do to a block whose entries tile it. An entry is read from its own
bytes, so entries outside of the bytes written are the same before and after (`Tiled.congr`), and a
block can be taken apart at any entry (`tiled_append`). `add_file` cuts the last entry down to its
natural size and writes a new one behind it (`Tiled.add`); `remove_file` gives the room of an entry
to the one before it (`Tiled.remove`).
-/

namespace MarioBrOS.Fs

variable {buf buf' : Bytes} {size e p n inode : Nat} {ps qs : List Nat} {name : List UInt8}
  {type : UInt8}

/-! ## Reading entries -/

/-- What a directory says of a file: its name, its inode and its type. -/
structure Listed where
  name : List UInt8
  inode : Nat
  type : UInt8
  deriving DecidableEq

/-- What an entry says. -/
def listedAt (buf : Bytes) (p : Nat) : Listed :=
  ⟨entryName buf p, entryInode buf p, fileType buf p⟩

/-- The list of the entries. -/
def listing (buf : Bytes) (ps : List Nat) : List Listed := ps.map (listedAt buf)

/-- The header of an entry is read from its own bytes. -/
lemma header_congr (h : ∀ x, p ≤ x → x < p + 8 → buf' x = buf x) :
    entryInode buf' p = entryInode buf p ∧ entrySize buf' p = entrySize buf p ∧
      nameLength buf' p = nameLength buf p ∧ fileType buf' p = fileType buf p := by
  refine ⟨Bytes.get32_congr fun x h1 h2 => h x h1 (by omega),
    Bytes.get16_congr fun x h1 h2 => h x (by omega) (by omega), ?_, h _ (by omega) (by omega)⟩
  unfold nameLength
  rw [h _ (by omega) (by omega)]

variable (buf buf' p) in
/-- An entry is read from its own bytes, the size left aside. -/
lemma listedAt_congr (h : ∀ x, p ≤ x → x < p + NAME + nameLength buf p →
    x < p + 4 ∨ p + 6 ≤ x → buf' x = buf x) :
    listedAt buf' p = listedAt buf p ∧ nameLength buf' p = nameLength buf p := by
  unfold NAME at h
  have hl : nameLength buf' p = nameLength buf p := by
    unfold nameLength
    rw [h _ (by omega) (by omega) (by omega)]
  refine ⟨?_, hl⟩
  unfold listedAt
  congr 1
  · refine entryName_eq_iff.mpr ⟨hl.trans entryName_length.symm, fun i hi => ?_⟩
    rw [getElem_entryName]
    rw [entryName_length] at hi
    unfold NAME
    exact h _ (by omega) (by omega) (by omega)
  · exact Bytes.get32_congr fun x h1 h2 => h x h1 (by omega) (by omega)
  · exact h _ (by omega) (by omega) (by omega)

/-- Entries are read from the bytes they tile. -/
lemma Tiled.congr (ht : Tiled buf size e ps) (h : ∀ x, e ≤ x → x < size → buf' x = buf x) :
    Tiled buf' size e ps ∧ listing buf' ps = listing buf ps ∧
      ∀ p ∈ ps, entrySize buf' p = entrySize buf p := by
  induction ps generalizing e with
  | nil => exact ⟨ht, rfl, fun p hp => absurd hp List.not_mem_nil⟩
  | cons q ps ih =>
    rcases ht with ⟨rfl, hlt, hi, hd, hsize, ht⟩
    have hle := ht.le
    unfold NAME at hsize
    have hq : ∀ x, q ≤ x → x < q + NAME + nameLength buf q → buf' x = buf x := by
      unfold NAME
      exact fun x h1 h2 => h x h1 (by omega)
    rcases header_congr fun x h1 h2 => hq x h1 (by unfold NAME; omega) with ⟨h1, h2, h3, _⟩
    rcases ih ht fun x hx => h x (by omega) with ⟨i1, i2, i3⟩
    refine ⟨⟨rfl, hlt, by rwa [h1], by rwa [h2], by rwa [h2, h3], by rwa [h2]⟩, ?_,
      List.forall_mem_cons.mpr ⟨h2, i3⟩⟩
    exact congrArg₂ List.cons (listedAt_congr _ _ _ fun x h1 h2 _ => hq x h1 h2).1 i2

/-- A block can be taken apart at any entry. -/
lemma tiled_append : Tiled buf size e (ps ++ qs) ↔ ∃ m, Tiled buf m e ps ∧ Tiled buf size m qs := by
  induction ps generalizing e with
  | nil => exact ⟨fun h => ⟨e, rfl, h⟩, fun ⟨m, h1, h2⟩ => (show e = m from h1) ▸ h2⟩
  | cons p ps ih =>
    constructor
    · rintro ⟨rfl, hlt, hi, hd, hsize, ht⟩
      rcases ih.mp ht with ⟨m, h1, h2⟩
      have := h1.le
      unfold NAME at hsize
      exact ⟨m, ⟨rfl, by omega, hi, hd, by unfold NAME; omega, h1⟩, h2⟩
    · rintro ⟨m, ⟨rfl, hlt, hi, hd, hsize, h1⟩, h2⟩
      have := h2.le
      exact ⟨rfl, by omega, hi, hd, hsize, ih.mpr ⟨m, h1, h2⟩⟩

lemma tiled_singleton : Tiled buf size e [p] ↔ p = e ∧ entryInode buf e ≠ 0 ∧
    4 ∣ entrySize buf e ∧ NAME + nameLength buf e ≤ entrySize buf e ∧
      e + entrySize buf e = size := by
  constructor
  · rintro ⟨h1, _, h3, h4, h5, h6⟩
    exact ⟨h1, h3, h4, h5, h6⟩
  · rintro ⟨h1, h3, h4, h5, h6⟩
    unfold NAME at h5
    exact ⟨h1, by omega, h3, h4, by unfold NAME; omega, h6⟩

/-- Entries stand at multiples of 4. -/
lemma Tiled.dvd (ht : Tiled buf size e ps) (he : 4 ∣ e) : 4 ∣ size := by
  induction ps generalizing e with
  | nil => exact (show e = size from ht) ▸ he
  | cons p ps ih => exact ih ht.2.2.2.2.2 (Nat.dvd_add he ht.2.2.2.1)

lemma listing_append : listing buf (ps ++ qs) = listing buf ps ++ listing buf qs :=
  List.map_append

lemma listedAt_of_listing (h : listing buf' ps = listing buf ps) (hp : p ∈ ps) :
    listedAt buf' p = listedAt buf p :=
  List.map_inj_left.mp h p hp

lemma nameLength_eq : nameLength buf p = (listedAt buf p).name.length := entryName_length.symm

/-! ## Writing entries -/

lemma setByte_of_ne {a x : Nat} {b : UInt8} (h : x ≠ a) : setByte buf a b x = buf x := if_neg h

lemma setByte_self {a : Nat} {b : UInt8} : setByte buf a b a = b := if_pos rfl

variable (buf e size type) in
/-- `set_dir_entry` writes one entry of the given size. -/
lemma setDirEntry_spec (hi : inode < 2 ^ 32) (h0 : size ≠ 0) (hd : 4 ∣ size) (hs : size < 2 ^ 16)
    (hl : name.length < 2 ^ 8) :
    listedAt (setDirEntry buf e inode type name size).1 e = ⟨name, inode, type⟩ ∧
      entrySize (setDirEntry buf e inode type name size).1 e = size ∧
      nameLength (setDirEntry buf e inode type name size).1 e = name.length ∧
      ∀ x, x < e ∨ e + NAME + name.length ≤ x →
        (setDirEntry buf e inode type name size).1 x = buf x := by
  have hret : 4 * (1 + (size - 1) / 4) % 2 ^ 16 = size := by omega
  have hlen : name.length % 2 ^ 8 = name.length := Nat.mod_eq_of_lt hl
  generalize hr : (setDirEntry buf e inode type name size).1 = r
  unfold setDirEntry at hr
  dsimp only at hr
  rw [if_pos h0, hret, hlen] at hr
  generalize hb : setByte (setByte ((buf.set32 e inode).set16 (e + 4) size) (e + 6)
    (UInt8.ofNat name.length)) (e + 7) type = b at hr
  -- the name is copied last, behind the other fields
  have hbelow : ∀ x, x < e + NAME → r x = b x := fun x hx => by
    rw [← hr, Bytes.blit_apply_of_outside (by omega)]
  unfold NAME at hbelow
  have hb6 : b (e + 6) = UInt8.ofNat name.length := by
    rw [← hb, setByte_of_ne (by omega), setByte_self]
  have hword : ∀ x, x < e + 6 → b x = ((buf.set32 e inode).set16 (e + 4) size) x := fun x hx => by
    rw [← hb, setByte_of_ne (by omega), setByte_of_ne (by omega)]
  have h1 : entryInode r e = inode := by
    unfold entryInode
    rw [Bytes.get32_congr (fun x _ h2 => (hbelow x (by omega)).trans (hword x (by omega))),
      Bytes.get32_set16_of_disjoint (by omega), Bytes.get32_set32 hi]
  have h2 : entrySize r e = size := by
    unfold entrySize
    rw [Bytes.get16_congr (fun x _ h2 => (hbelow x (by omega)).trans (hword x (by omega))),
      Bytes.get16_set16 hs]
  have h3 : nameLength r e = name.length := by
    unfold nameLength
    rw [hbelow _ (by omega), hb6, UInt8.toNat_ofNat', Nat.mod_eq_of_lt hl]
  have h4 : fileType r e = type := by
    unfold fileType
    rw [hbelow _ (by omega), ← hb, setByte_self]
  refine ⟨?_, h2, h3, fun x hx => ?_⟩
  · unfold listedAt
    rw [h1, h4]
    congr 1
    refine entryName_eq_iff.mpr ⟨h3, fun i hi => ?_⟩
    rw [← hr, Bytes.blit_apply_of_inside (by omega), Nat.zero_add, Nat.add_sub_cancel_left]
    exact (List.getElem_eq_getD 0).symm
  · unfold NAME at hx
    rw [← hr, Bytes.blit_apply_of_outside (by unfold NAME; omega), ← hb,
      setByte_of_ne (by omega), setByte_of_ne (by omega), Bytes.set16_apply_of_outside (by omega),
      Bytes.set32_apply_of_outside (by omega)]

/-- `set_dir_entry` writes no other bytes. -/
lemma setDirEntry_outside {x : Nat} (hx : x < e ∨ e + NAME + name.length ≤ x) :
    (setDirEntry buf e inode type name size).1 x = buf x := by
  have hlen := Nat.mod_le name.length (2 ^ 8)
  unfold setDirEntry
  dsimp only
  by_cases hb : x < e ∨ e + NAME ≤ x
  · unfold NAME at hx hb ⊢
    rw [Bytes.blit_apply_of_outside (by omega), setByte_of_ne (by omega), setByte_of_ne (by omega),
      Bytes.set16_apply_of_outside (by omega), Bytes.set32_apply_of_outside (by omega)]
  · unfold NAME at hx hb
    omega

/-- The natural size of an entry leaves room for its name. -/
lemma naturalSize_spec (len : Nat) : 4 ∣ naturalSize len ∧ DIR_ENTRY + len ≤ naturalSize len ∧
    naturalSize len ≤ 12 + len := by
  unfold naturalSize DIR_ENTRY
  omega

variable (buf e) in
/-- An entry whose size is changed to `n` says what it said. -/
lemma resize_spec (hn : n < 2 ^ 16) : listedAt (buf.set16 (e + 4) n) e = listedAt buf e ∧
    nameLength (buf.set16 (e + 4) n) e = nameLength buf e ∧
      entrySize (buf.set16 (e + 4) n) e = n := by
  rcases listedAt_congr buf (buf.set16 (e + 4) n) e fun x h1 h2 h3 =>
    Bytes.set16_apply_of_outside (by omega) with ⟨h1, h2⟩
  exact ⟨h1, h2, Bytes.get16_set16 hn⟩

/-! ## Adding -/

/-- The block in which `add_file` puts an entry behind the entry `e`, cut down to its natural size.
-/
def addedBlock (buf : Bytes) (e inode : Nat) (type : UInt8) (name : List UInt8) (size : Nat) :
    Bytes :=
  (setDirEntry (buf.set16 (e + 4) (naturalSize (nameLength buf e)))
    (e + naturalSize (nameLength buf e)) inode type name
    (size - (e + naturalSize (nameLength buf e)))).1

/-- Adding an entry that fits leaves what lies behind the block. -/
lemma addedBlock_behind {x : Nat}
    (hroom : e + naturalSize (nameLength buf e) + DIR_ENTRY + name.length ≤ size) (hx : size ≤ x) :
    addedBlock buf e inode type name size x = buf x := by
  have hr := naturalSize_spec (nameLength buf e)
  unfold addedBlock
  unfold DIR_ENTRY at hroom hr
  rw [setDirEntry_outside (by unfold NAME; omega), Bytes.set16_apply_of_outside (by omega)]

variable (type) in
/-- If there is room for the new entry behind the last one, it is added to the list. -/
lemma Tiled.add (ht : Tiled buf size 0 (ps ++ [e])) (hd : 4 ∣ size) (hi : inode ≠ 0)
    (hi' : inode < 2 ^ 32) (hl : name.length < 2 ^ 8)
    (hroom : e + naturalSize (nameLength buf e) + DIR_ENTRY + name.length ≤ size) :
    Tiled (addedBlock buf e inode type name size) size 0
        (ps ++ [e, e + naturalSize (nameLength buf e)]) ∧
      listing (addedBlock buf e inode type name size)
          (ps ++ [e, e + naturalSize (nameLength buf e)]) =
        listing buf (ps ++ [e]) ++ [⟨name, inode, type⟩] ∧
      (∀ p ∈ ps, entrySize (addedBlock buf e inode type name size) p = entrySize buf p) ∧
      entrySize (addedBlock buf e inode type name size) e = naturalSize (nameLength buf e) ∧
      entrySize (addedBlock buf e inode type name size) (e + naturalSize (nameLength buf e)) =
        size - (e + naturalSize (nameLength buf e)) := by
  rcases tiled_append.mp ht with ⟨m, h1, h2⟩
  rcases tiled_singleton.mp h2 with ⟨rfl, hie, hde, hse, hend⟩
  have he := h1.dvd (Nat.dvd_zero 4)
  rcases naturalSize_spec (nameLength buf e) with ⟨hr1, hr2, _⟩
  unfold addedBlock
  generalize naturalSize (nameLength buf e) = r at *
  have h16 : entrySize buf e < 2 ^ 16 := Bytes.get16_lt _ _
  unfold DIR_ENTRY at hroom hr2
  unfold NAME at hse
  rcases resize_spec buf e (n := r) (by omega) with ⟨b1, b2, b3⟩
  rcases setDirEntry_spec (buf.set16 (e + 4) r) (size - (e + r)) (e + r) type hi'
    (by omega) (by omega) (by omega) hl with ⟨c1, c2, c3, c4⟩
  generalize (setDirEntry (buf.set16 (e + 4) r) (e + r) inode type name (size - (e + r))).1 = buf'
    at *
  -- the entries before the last one
  rcases h1.congr fun x _ hx => (c4 x (by omega)).trans
    (Bytes.set16_apply_of_outside (by omega)) with ⟨p1, p2, p3⟩
  -- the last one, cut down
  rcases listedAt_congr (buf.set16 (e + 4) r) buf' e
    fun x _ hx _ => c4 x (by rw [b2] at hx; unfold NAME at hx; omega) with ⟨e1, e2⟩
  have hsize : entrySize buf' e = r := by
    rw [← b3]
    exact Bytes.get16_congr fun x _ hx => c4 x (by omega)
  have hinode : entryInode buf' e = entryInode buf e := congrArg Listed.inode (e1.trans b1)
  have hnew : entryInode buf' (e + r) = inode := congrArg Listed.inode c1
  refine ⟨?_, ?_, p3, hsize, c2⟩
  · refine tiled_append.mpr ⟨e, p1, rfl, by omega, by rwa [hinode], by rwa [hsize], ?_, ?_⟩
    · rw [hsize, e2, b2]
      unfold NAME
      omega
    · rw [hsize]
      refine tiled_singleton.mpr ⟨rfl, by rwa [hnew], by rw [c2]; omega, ?_, by rw [c2]; omega⟩
      rw [c2, c3]
      unfold NAME
      omega
  · rw [listing_append, listing_append, p2, List.append_assoc]
    exact congrArg _ (congrArg₂ List.cons (e1.trans b1) (congrArg (· :: []) c1))

/-! ## Removing -/

/-- The block in which `remove_file` gives the room of the entry `q` to the entry `e`. -/
def mergedBlock (buf : Bytes) (e q : Nat) : Bytes :=
  buf.set16 (e + 4) ((entrySize buf e + entrySize buf q) % 2 ^ 16)

/-- The entry `q` is taken off the list. -/
lemma Tiled.remove {s q : Nat} (ht : Tiled buf size s (ps ++ e :: q :: qs))
    (h16 : entrySize buf e + entrySize buf q < 2 ^ 16) :
    Tiled (mergedBlock buf e q) size s (ps ++ e :: qs) ∧
      listing (mergedBlock buf e q) (ps ++ e :: qs) = listing buf (ps ++ e :: qs) ∧
      (∀ p ∈ ps ++ qs, entrySize (mergedBlock buf e q) p = entrySize buf p) ∧
      entrySize (mergedBlock buf e q) e = entrySize buf e + entrySize buf q := by
  rcases tiled_append.mp ht with ⟨m, h1, rfl, hlt, hi, hd, hs, rfl, hlt', hi', hd', hs', h2⟩
  unfold mergedBlock
  rw [Nat.mod_eq_of_lt h16]
  unfold NAME at hs hs'
  rcases resize_spec buf e h16 with ⟨b1, b2, b3⟩
  generalize hb : buf.set16 (e + 4) (entrySize buf e + entrySize buf (e + entrySize buf e)) = buf'
    at b1 b2 b3 ⊢
  have hout : ∀ x, x < e + 4 ∨ e + 6 ≤ x → buf' x = buf x := fun x hx => by
    rw [← hb, Bytes.set16_apply_of_outside (by omega)]
  rcases h1.congr fun x _ hx => hout x (by omega) with ⟨p1, p2, p3⟩
  rcases h2.congr fun x hx _ => hout x (by omega) with ⟨q1, q2, q3⟩
  have hinode : entryInode buf' e = entryInode buf e := congrArg Listed.inode b1
  refine ⟨tiled_append.mpr ⟨e, p1, rfl, hlt, by rwa [hinode], by rw [b3]; omega, ?_, ?_⟩, ?_, ?_,
    b3⟩
  · rw [b2, b3]
    unfold NAME
    omega
  · rw [b3, ← Nat.add_assoc]
    exact q1
  · rw [listing_append, listing_append, p2]
    exact congrArg _ (congrArg₂ List.cons b1 q2)
  · intro p hp
    rcases List.mem_append.mp hp with hp | hp
    · exact p3 p hp
    · exact q3 p hp

/-- The search stops at the first entry of the inode, with the entry before it. -/
lemma findEntry_tiled {q : Nat} {rest : List Nat} (ht : Tiled buf size p (p :: qs ++ q :: rest))
    (hq : entryInode buf q = inode) (hno : ∀ x ∈ qs, entryInode buf x ≠ inode)
    (hn : size < p + n) :
    ∃ ps e, p :: qs = ps ++ [e] ∧
      findEntry buf size inode n p (p + entrySize buf p) = some (e, q) := by
  induction qs generalizing p n with
  | nil =>
    rcases ht with ⟨_, hlt, _, _, _, rfl, _⟩
    refine ⟨[], p, rfl, ?_⟩
    cases n with
    | zero => omega
    | succ n => rw [findEntry, if_neg fun h => h.2 hq]
  | cons x qs ih =>
    rcases ht with ⟨_, hlt, _, _, hs, ht⟩
    obtain rfl := ht.1
    unfold NAME at hs
    cases n with
    | zero => omega
    | succ n =>
      rcases ih ht (fun y hy => hno y (List.mem_cons_of_mem _ hy)) (n := n) (by omega) with
        ⟨ps, e, hsplit, hfind⟩
      refine ⟨p :: ps, e, congrArg _ hsplit, ?_⟩
      rw [findEntry, if_pos ⟨ht.2.1, hno _ List.mem_cons_self⟩]
      exact hfind

/-! ## Looking for room -/

/-- A name that `add_file` accepts. -/
structure NewName (a : List UInt8) : Prop where
  no_nul : (0 : UInt8) ∉ a
  no_slash : SLASH ∉ a
  no_dash : a.headD 0 ≠ DASH
  length_lt : a.length < 2 ^ 8

/-- Unless it comes across the name, the search for room stops at the last entry. -/
lemma findRoom_last {s : Nat} (ht : Tiled buf size s (ps ++ [e]))
    (hno : ∀ q ∈ ps ++ [e], nameMatches buf q name = false) (hn : size < s + n) :
    findRoom buf size name n s (s + entrySize buf s) = some (some (e, size)) := by
  induction ps generalizing s n with
  | nil =>
    rcases tiled_singleton.mp ht with ⟨rfl, _, _, hs, hend⟩
    unfold NAME at hs
    cases n with
    | zero => omega
    | succ n => rw [findRoom, if_neg (by omega), hend]
  | cons p ps ih =>
    rcases ht with ⟨rfl, hlt, hi, _, hs, ht⟩
    have hlt' : p + entrySize buf p < size := by
      cases ps with
      | nil => exact ht.2.1
      | cons q ps => exact ht.2.1
    have hfirst : p + entrySize buf p ∈ ps ++ [e] := by
      cases ps with
      | nil => exact ht.1 ▸ List.mem_cons_self
      | cons q ps => exact ht.1 ▸ List.mem_cons_self
    unfold NAME at hs
    cases n with
    | zero => omega
    | succ n =>
      rw [findRoom, if_pos ⟨hi, hlt'⟩]
      dsimp only
      rw [hno _ (List.mem_cons_of_mem _ hfirst), if_neg Bool.false_ne_true]
      exact ih ht (fun q hq => hno q (List.mem_cons_of_mem _ hq)) (by omega)

end MarioBrOS.Fs
