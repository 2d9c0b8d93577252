import MarioBrOS.Fs.Dir
import MarioBrOS.Fs.Sample
import Mathlib.Data.List.Pairwise

/-!
# Looking up a name in a directory

A directory block is well formed if its entries follow each other up to its end (`Tiled`) and have
proper names, no two alike. The comparison of names goes on past the end of a name that is not
followed by a NUL; so an entry also matches a longer name that its padding, or whatever follows it,
happens to spell out up to a NUL (`RunsInto`). `lookup_exact` says that nothing else can go wrong.
-/

namespace MarioBrOS.Fs

variable {buf : Bytes} {size e p n : Nat} {ps : List Nat} {a : List UInt8}

/-! ## Comparing names -/

/-- The name of an entry. -/
def entryName (buf : Bytes) (e : Nat) : List UInt8 :=
  (List.range (nameLength buf e)).map fun i => buf (e + NAME + i)

/-- The bytes from `p` on spell out `a`. -/
def Spells (buf : Bytes) (p : Nat) (a : List UInt8) : Prop :=
  ∀ i (h : i < a.length), buf (p + i) = a[i]

/-- The name is shorter than `a`, but with what follows it, up to a NUL, it spells out `a`. -/
def RunsInto (buf : Bytes) (e : Nat) (a : List UInt8) : Prop :=
  nameLength buf e < a.length ∧ Spells buf (e + NAME) a ∧ buf (e + NAME + a.length) = 0

instance (buf : Bytes) (p : Nat) (a : List UInt8) : Decidable (Spells buf p a) :=
  inferInstanceAs (Decidable (∀ i (h : i < a.length), buf (p + i) = a[i]))

instance (buf : Bytes) (e : Nat) (a : List UInt8) : Decidable (RunsInto buf e a) :=
  inferInstanceAs (Decidable (_ ∧ _))

lemma spells_cons {c : UInt8} :
    Spells buf p (c :: a) ↔ buf p = c ∧ Spells buf (p + 1) a := by
  constructor
  · intro h
    refine ⟨h 0 (Nat.succ_pos _), fun i hi => ?_⟩
    rw [Nat.add_right_comm]
    exact h (i + 1) (Nat.succ_lt_succ hi)
  · rintro ⟨h1, h2⟩ i hi
    cases i with
    | zero => exact h1
    | succ i =>
      have h := h2 i (Nat.lt_of_succ_lt_succ hi)
      rw [Nat.add_right_comm] at h
      exact h

variable (buf p) in
/-- Where the comparison stops. -/
lemma skipEqual_spec (h0 : (0 : UInt8) ∉ a) :
    skipEqual buf p a = (p + a.length, []) ∧ Spells buf p a ∨
      (skipEqual buf p a).2.headD 0 ≠ buf (skipEqual buf p a).1 ∧ (skipEqual buf p a).2 ≠ [] ∧
        ¬ Spells buf p a := by
  induction a generalizing p with
  | nil => exact .inl ⟨rfl, fun i h => absurd h (Nat.not_lt_zero i)⟩
  | cons c a ih =>
    have hc : c ≠ 0 := fun h => h0 (h ▸ List.mem_cons_self)
    rw [skipEqual, spells_cons]
    by_cases h : buf p ≠ 0 ∧ c = buf p
    · rw [if_pos h]
      rcases @ih (p + 1) fun h => h0 (List.mem_cons_of_mem _ h) with ⟨e, hs⟩ | ⟨h1, h2, h3⟩
      · refine .inl ⟨?_, h.2.symm, hs⟩
        rw [e, List.length_cons, Nat.add_assoc, Nat.add_comm 1]
      · exact .inr ⟨h1, h2, fun hs => h3 hs.2⟩
    · rw [if_neg h]
      refine .inr ⟨fun e => ?_, List.cons_ne_nil _ _, fun hs => ?_⟩
      · have e : c = buf p := e
        exact h ⟨e ▸ hc, e⟩
      · exact h ⟨hs.1 ▸ hc, hs.1.symm⟩

/-- What the comparison accepts. -/
lemma nameMatches_iff (h0 : (0 : UInt8) ∉ a) : nameMatches buf e a = true ↔
    Spells buf (e + NAME) a ∧ (buf (e + NAME + a.length) = 0 ∨ nameLength buf e = a.length) := by
  unfold nameMatches
  rw [decide_eq_true_iff]
  rcases skipEqual_spec buf (e + NAME) h0 with ⟨h1, h2⟩ | ⟨h1, h2, h3⟩
  · rw [h1]
    dsimp only [List.headD]
    rw [Nat.add_sub_cancel_left]
    refine ⟨fun h => ⟨h2, h.imp Eq.symm fun h => h.2.symm⟩,
      fun h => h.2.imp Eq.symm fun h => ⟨rfl, h.symm⟩⟩
  · exact ⟨fun h => absurd h (not_or.mpr ⟨h1, fun h => h2 h.1⟩), fun h => absurd h.1 h3⟩

lemma entryName_length : (entryName buf e).length = nameLength buf e :=
  (List.length_map _).trans List.length_range

lemma getElem_entryName {i : Nat} (h : i < (entryName buf e).length) :
    (entryName buf e)[i] = buf (e + NAME + i) :=
  (List.getElem_map _).trans (by rw [List.getElem_range])

/-- The name of an entry is what its bytes spell out. -/
lemma entryName_eq_iff :
    entryName buf e = a ↔ nameLength buf e = a.length ∧ Spells buf (e + NAME) a := by
  constructor
  · rintro rfl
    exact ⟨entryName_length.symm, fun i hi => (getElem_entryName hi).symm⟩
  · rintro ⟨h1, h2⟩
    refine List.ext_getElem (entryName_length.trans h1) fun i hi hi' => ?_
    rw [getElem_entryName, h2 i hi']

/-- An entry with a proper name matches its name, and the longer names that it runs into. -/
lemma nameMatches_iff_of_name (h0 : (0 : UInt8) ∉ a) (hname : (0 : UInt8) ∉ entryName buf e) :
    nameMatches buf e a = true ↔ entryName buf e = a ∨ RunsInto buf e a := by
  rw [nameMatches_iff h0, entryName_eq_iff]
  constructor
  · rintro ⟨hs, hz | hl⟩
    · rcases Nat.lt_trichotomy (nameLength buf e) a.length with h | h | h
      · exact .inr ⟨h, hs, hz⟩
      · exact .inl ⟨h, hs⟩
      · refine absurd ?_ hname
        rw [← hz]
        exact List.mem_map.mpr ⟨a.length, List.mem_range.mpr h, rfl⟩
    · exact .inl ⟨hl, hs⟩
  · rintro (⟨h1, h2⟩ | ⟨_, h2, h3⟩)
    · exact ⟨h2, .inr h1⟩
    · exact ⟨h2, .inl h3⟩

/-! ## Well-formed directories -/

/-- The entries `ps` follow each other from `e` to the end of the block. -/
def Tiled (buf : Bytes) (size : Nat) : Nat → List Nat → Prop
  | e, [] => e = size
  | e, p :: ps => p = e ∧ e < size ∧ entryInode buf e ≠ 0 ∧ 4 ∣ entrySize buf e ∧
      NAME + nameLength buf e ≤ entrySize buf e ∧ Tiled buf size (e + entrySize buf e) ps

instance decidableTiled (buf : Bytes) (size : Nat) : ∀ e ps, Decidable (Tiled buf size e ps)
  | e, [] => inferInstanceAs (Decidable (e = size))
  | e, p :: ps =>
    have := decidableTiled buf size (e + entrySize buf e) ps
    inferInstanceAs (Decidable (p = e ∧ e < size ∧ entryInode buf e ≠ 0 ∧ 4 ∣ entrySize buf e ∧
      NAME + nameLength buf e ≤ entrySize buf e ∧ Tiled buf size (e + entrySize buf e) ps))

/-- A directory block with the entries `ps`. -/
structure DirBlock (buf : Bytes) (size : Nat) (ps : List Nat) : Prop where
  tiled : Tiled buf size 0 ps
  names : ∀ p ∈ ps, entryName buf p ≠ [] ∧ (0 : UInt8) ∉ entryName buf p ∧
    SLASH ∉ entryName buf p
  distinct : ps.Pairwise fun p q => entryName buf p ≠ entryName buf q

/-- The scan stops at the first entry that matches, or at the end of the block. -/
lemma scanDir_tiled (h : Tiled buf size e ps) (hn : size < e + n) :
    scanDir buf size a n e = match ps.find? fun p => nameMatches buf p a with
      | some p => some (p, some (entryInode buf p))
      | none => some (size, none) := by
  induction ps generalizing e n with
  | nil =>
    cases n with
    | zero => exact absurd hn (by have : e = size := h; omega)
    | succ n =>
      have he : e = size := h
      rw [scanDir, if_neg fun h => by omega, he]
      rfl
  | cons p ps ih =>
    rcases h with ⟨rfl, hlt, hi, _, hsize, ht⟩
    cases n with
    | zero => omega
    | succ n =>
      unfold NAME at hsize
      rw [scanDir, if_pos ⟨hi, hlt⟩, List.find?_cons]
      cases hm : nameMatches buf p a with
      | true => rfl
      | false =>
        rw [if_neg (by decide)]
        exact ih ht (by omega)

/-- The entries stand in order and name existing inodes. -/
lemma Tiled.sorted (h : Tiled buf size e ps) :
    ps.Pairwise (· < ·) ∧ ∀ p ∈ ps, e ≤ p ∧ entryInode buf p ≠ 0 := by
  induction ps generalizing e with
  | nil => exact ⟨.nil, fun p hp => absurd hp List.not_mem_nil⟩
  | cons q ps ih =>
    rcases h with ⟨rfl, _, hi, _, hsize, ht⟩
    have hih := ih ht
    unfold NAME at hsize
    refine ⟨List.pairwise_cons.mpr ⟨fun p hp => ?_, hih.1⟩, fun p hp => ?_⟩
    · have := (hih.2 p hp).1
      omega
    · rcases List.mem_cons.mp hp with rfl | hp
      · exact ⟨le_refl _, hi⟩
      · have := hih.2 p hp
        exact ⟨by omega, this.2⟩

/-- The first match is the one that `find?` finds. -/
lemma find?_first {f : Nat → Bool} (hs : ps.Pairwise (· < ·)) (h : ps.find? f = some p) :
    p ∈ ps ∧ f p = true ∧ ∀ q ∈ ps, f q = true → p ≤ q := by
  refine ⟨List.mem_of_find?_eq_some h, List.find?_some h, ?_⟩
  induction ps with
  | nil => exact fun q hq => absurd hq List.not_mem_nil
  | cons r ps ih =>
    rw [List.find?_cons] at h
    rw [List.pairwise_cons] at hs
    intro q hq hfq
    cases hr : f r with
    | true =>
      rw [hr] at h
      cases h
      rcases List.mem_cons.mp hq with rfl | hq
      · exact le_refl _
      · exact (hs.1 q hq).le
    | false =>
      rw [hr] at h
      rcases List.mem_cons.mp hq with rfl | hq
      · rw [hr] at hfq
        cases hfq
      · exact ih hs.2 h q hq hfq

lemma Tiled.le (h : Tiled buf size e ps) : e ≤ size := by
  cases ps with
  | nil => exact le_of_eq h
  | cons p ps => exact h.2.1.le

/-- The search for room comes across the name exactly when some entry after `e` matches. -/
lemma findRoom_tiled (h : Tiled buf size e (p :: ps)) (hn : size < e + n) :
    findRoom buf size a n e (e + entrySize buf e) = some none ↔
      ∃ q ∈ ps, nameMatches buf q a = true := by
  induction ps generalizing e p n with
  | nil =>
    rcases h with ⟨rfl, hlt, hi, _, hsize, ht⟩
    have ht : p + entrySize buf p = size := ht
    cases n with
    | zero => omega
    | succ n =>
      rw [findRoom, if_neg fun h => by omega]
      simp
  | cons q ps ih =>
    rcases h with ⟨rfl, hlt, hi, _, hsize, ht⟩
    obtain rfl := ht.1
    cases n with
    | zero => omega
    | succ n =>
      unfold NAME at hsize
      rw [findRoom, if_pos ⟨hi, ht.2.1⟩]
      dsimp only
      cases hm : nameMatches buf (p + entrySize buf p) a with
      | true => simp [hm]
      | false =>
        rw [if_neg (by decide), ih ht (by omega)]
        simp [hm]

/-! ## One component -/

/-- A string without the separator is one component. -/
lemma strSplit_of_not_mem {c : UInt8} {s buffer : List UInt8} (h : c ∉ s) :
    strSplit c true s buffer = [buffer ++ s] := by
  induction s generalizing buffer with
  | nil => rw [strSplit, if_neg (fun h => by cases h.2), List.append_nil]
  | cons x s ih =>
    have hx : x ≠ c := fun e => h (e ▸ List.mem_cons_self)
    rw [strSplit, if_neg fun h => hx h.1, if_neg hx, ih fun h' => h (List.mem_cons_of_mem _ h'),
      List.append_assoc, List.singleton_append]

/-- A name that can be looked up in a directory. -/
structure ProperName (a : List UInt8) : Prop where
  ne_nil : a ≠ []
  no_nul : (0 : UInt8) ∉ a
  no_slash : SLASH ∉ a
  length_lt : a.length < 128

lemma ProperName.components (h : ProperName a) : components a = [a] ∧ a.head? ≠ some SLASH := by
  have hne : a.head? ≠ some SLASH := fun e => h.no_slash (List.mem_of_mem_head? e)
  unfold Fs.components
  rw [if_neg hne, strSplit_of_not_mem h.no_slash]
  exact ⟨rfl, hne⟩

namespace Volume

variable {v w : Volume} {dir : Nat}

lemma findLoop_cons {path : List (List UInt8)} (h : ¬ (a = [] ∧ path = [])) (inode : Nat) :
    findLoop (a :: path) v inode = (v.readDir inode).bind fun v =>
      (scanDir v.stdBuf v.blockSize a (v.blockSize + 1) 0).bind fun stop =>
        if stop.2 = none ∧ stop.1 = v.blockSize then some (v, 0)
        else if path = [] then some (v, stop.2.getD inode)
        else findLoop path v (stop.2.getD inode) := by
  cases path with
  | nil =>
    cases a with
    | nil => exact absurd ⟨rfl, rfl⟩ h
    | cons c a => rfl
  | cons b path =>
    rw [findLoop]
    · rfl
    · exact fun _ h => List.cons_ne_nil _ _ h

/-- `find_inode` for one name: the first entry that matches. -/
lemma findInode_tiled (hn : ProperName a) (hw : v.readDir dir = some w)
    (ht : Tiled w.stdBuf w.blockSize 0 ps) :
    v.findInode a dir = some (w, match ps.find? fun p => nameMatches w.stdBuf p a with
      | some p => entryInode w.stdBuf p
      | none => 0) := by
  unfold findInode
  rw [hn.components.1, if_neg hn.components.2, findLoop_cons fun h => hn.ne_nil h.1, hw,
    Option.bind_some, scanDir_tiled ht (by omega)]
  cases ps.find? fun p => nameMatches w.stdBuf p a with
  | some p => rfl
  | none =>
    dsimp only
    rw [Option.bind_some, if_pos ⟨rfl, rfl⟩]

/-- Once it has looked through the directory, `add_file` reports no existing file. -/
lemma addEntry_error {inode entry room : Nat} {type : UInt8} {w' : Volume} {error : Nat}
    (h : w.addEntry dir inode type a entry room = some (w', error)) : error ≠ 1 := by
  unfold addEntry at h
  dsimp only at h
  split at h
  · rcases Option.bind_eq_some_iff.mp h with ⟨⟨buf, ref⟩, _, h⟩
    dsimp only at h
    split at h <;> cases h <;> decide
  · cases h
    decide

/-- `add_file` on a name it accepts. -/
lemma addFile_eq {inode : Nat} {type : UInt8} (hn : ProperName a) (hdash : a.headD 0 ≠ DASH)
    (hdir : dir ≠ 0) (hi : inode ≠ 0) : v.addFile dir inode type a = (v.readDir dir).bind fun v =>
      if nameMatches v.stdBuf 0 a then some (v, 1)
      else (findRoom v.stdBuf v.blockSize a (v.blockSize + 2) 0 (entrySize v.stdBuf 0)).bind fun
        | none => some (v, 1)
        | some (entry, room) => v.addEntry dir inode type a entry room := by
  have hlen : ¬ a.length / 2 ^ 8 ≠ 0 := by
    have := hn.length_lt
    omega
  unfold addFile
  rw [if_neg hdir, if_neg hi, if_neg hlen, if_neg hdash, if_neg hn.no_slash]
  rfl

/-- `add_file` reports an existing file exactly when some entry matches. -/
lemma addFile_tiled {inode : Nat} {type : UInt8} (hn : ProperName a) (hdash : a.headD 0 ≠ DASH)
    (hdir : dir ≠ 0) (hi : inode ≠ 0) (hw : v.readDir dir = some w)
    (ht : Tiled w.stdBuf w.blockSize 0 ps) :
    (∃ w', v.addFile dir inode type a = some (w', 1)) ↔
      ∃ p ∈ ps, nameMatches w.stdBuf p a = true := by
  rw [addFile_eq hn hdash hdir hi, hw, Option.bind_some]
  cases ps with
  | nil => exact absurd ht (Nat.ne_of_lt w.blockSize_pos)
  | cons p ps =>
    obtain rfl := ht.1
    have hr := findRoom_tiled (a := a) (n := w.blockSize + 2) ht (by omega)
    rw [Nat.zero_add] at hr
    rw [List.exists_mem_cons_iff, ← hr]
    by_cases hm : nameMatches w.stdBuf 0 a = true
    · rw [if_pos hm]
      exact ⟨fun _ => .inl hm, fun _ => ⟨w, rfl⟩⟩
    rw [if_neg hm]
    generalize findRoom w.stdBuf w.blockSize a (w.blockSize + 2) 0 (entrySize w.stdBuf 0) = r
    rcases r with _ | _ | ⟨entry, room⟩
    · constructor
      · rintro ⟨w', h⟩
        cases h
      · rintro (h | h)
        · exact absurd h hm
        · cases h
    · exact ⟨fun _ => .inr rfl, fun _ => ⟨w, rfl⟩⟩
    · constructor
      · rintro ⟨w', h⟩
        rw [Option.bind_some] at h
        exact absurd rfl (addEntry_error h)
      · rintro (h | h)
        · exact absurd h hm
        · cases h

end Volume

/-! ## Exactness -/

/-- What is said of the lookup of `a` in a directory with the entries `ps`: `find_inode` returns the
inode of the entry named `a`, and 0 if there is none; and `add_file` reports an existing file just
if there is one. -/
def LookupExact (v : Volume) (dir : Nat) (buf : Bytes) (ps : List Nat) (a : List UInt8) : Prop :=
  (∃ w i, v.findInode a dir = some (w, i) ∧
    (∀ p ∈ ps, entryName buf p = a → i = entryInode buf p) ∧
    ((∀ p ∈ ps, entryName buf p ≠ a) → i = 0)) ∧
  ∀ inode type, inode ≠ 0 → a.headD 0 ≠ DASH →
    ((∃ w, v.addFile dir inode type a = some (w, 1)) ↔ ∃ p ∈ ps, entryName buf p = a)

/-- The condition on the directory: the first entry that runs into `a`, if there is one, comes after
the entry named `a`, or has the same inode. -/
def NoRunInto (buf : Bytes) (ps : List Nat) (a : List UInt8) : Prop :=
  ∀ p ∈ ps, RunsInto buf p a → (∀ q ∈ ps, RunsInto buf q a → p ≤ q) →
    ∃ q ∈ ps, entryName buf q = a ∧ (q < p ∨ entryInode buf q = entryInode buf p)

/-- Names are told apart. -/
lemma DirBlock.eq_of_name (h : DirBlock buf size ps) (hp : p ∈ ps) (hn : n ∈ ps)
    (e : entryName buf p = entryName buf n) : p = n := by
  by_contra hne
  have : Std.Symm fun p q => entryName buf p ≠ entryName buf q := ⟨fun _ _ h => h.symm⟩
  exact h.distinct.forall hp hn hne e

/-- Names are looked up exactly as long as no earlier entry runs into them. -/
theorem lookup_exact (v w : Volume) (dir : Nat) (ps : List Nat) (a : List UInt8)
    (hdir : dir ≠ 0) (hw : v.readDir dir = some w) (hd : DirBlock w.stdBuf w.blockSize ps)
    (ha : ProperName a) :
    LookupExact v dir w.stdBuf ps a ↔ NoRunInto w.stdBuf ps a := by
  have hmatch : ∀ p ∈ ps, nameMatches w.stdBuf p a = true ↔
      entryName w.stdBuf p = a ∨ RunsInto w.stdBuf p a := fun p hp =>
    nameMatches_iff_of_name ha.no_nul (hd.names p hp).2.1
  have hs := hd.tiled.sorted
  have hfind := Volume.findInode_tiled ha hw hd.tiled
  have hadd : ∀ inode type, inode ≠ 0 → a.headD 0 ≠ DASH →
      ((∃ w', v.addFile dir inode type a = some (w', 1)) ↔
        ∃ p ∈ ps, entryName w.stdBuf p = a ∨ RunsInto w.stdBuf p a) := by
    intro inode type hi hdash
    rw [Volume.addFile_tiled ha hdash hdir hi hw hd.tiled]
    exact exists_congr fun p => and_congr_right fun hp => hmatch p hp
  cases h : ps.find? fun p => nameMatches w.stdBuf p a with
  | none =>
    rw [h] at hfind
    have hno : ∀ p ∈ ps, ¬ (entryName w.stdBuf p = a ∨ RunsInto w.stdBuf p a) := fun p hp hm =>
      List.find?_eq_none.mp h p hp ((hmatch p hp).mpr hm)
    refine ⟨fun _ p hp hr => absurd (.inr hr) (hno p hp), fun _ => ⟨⟨w, 0, hfind, ?_, ?_⟩, ?_⟩⟩
    · exact fun p hp e => absurd (.inl e) (hno p hp)
    · exact fun _ => rfl
    · intro inode type hi hdash
      rw [hadd inode type hi hdash]
      exact exists_congr fun p => and_congr_right fun hp => ⟨fun hm => absurd hm (hno p hp), .inl⟩
  | some p =>
    rw [h] at hfind
    dsimp only at hfind
    rcases find?_first hs.1 h with ⟨hp, hm, hfirst⟩
    rcases (hmatch p hp).mp hm with e | hrun
    · -- the first match is the entry itself
      refine ⟨fun _ q hq hr _ => ⟨p, hp, e, .inl ?_⟩, fun _ => ⟨⟨w, _, hfind, ?_, ?_⟩, ?_⟩⟩
      · refine lt_of_le_of_ne (hfirst q hq ((hmatch q hq).mpr (.inr hr))) ?_
        rintro rfl
        have hl := (entryName_eq_iff.mp e).1
        exact absurd hr.1 (by omega)
      · exact fun q hq e' => by rw [hd.eq_of_name hp hq (e.trans e'.symm)]
      · exact fun hno => absurd e (hno p hp)
      · intro inode type hi hdash
        rw [hadd inode type hi hdash]
        exact ⟨fun _ => ⟨p, hp, e⟩, fun _ => ⟨p, hp, .inl e⟩⟩
    · -- the first match runs into the name
      have hleast : ∀ q ∈ ps, RunsInto w.stdBuf q a → p ≤ q := fun q hq hr =>
        hfirst q hq ((hmatch q hq).mpr (.inr hr))
      constructor
      · rintro ⟨⟨w', i, hi, h1, h2⟩, _⟩ q hq hr hq'
        have hpq : q = p := le_antisymm (hq' p hp hrun) (hleast q hq hr)
        rw [hfind] at hi
        cases hi
        by_contra hno
        refine (hs.2 p hp).2 (h2 fun q' hq' e' => hno ⟨q', hq', e', .inr ?_⟩)
        rw [hpq]
        exact (h1 q' hq' e').symm
      · intro hclean
        rcases hclean p hp hrun hleast with ⟨q, hq, e, hlt | hi⟩
        · exact absurd (hfirst q hq ((hmatch q hq).mpr (.inl e))) (Nat.not_le.mpr hlt)
        · refine ⟨⟨w, _, hfind, ?_, ?_⟩, ?_⟩
          · intro q' hq' e'
            rw [hd.eq_of_name hq' hq (e'.trans e.symm), hi]
          · exact fun hno => absurd e (hno q hq)
          · intro inode type hin hdash
            rw [hadd inode type hin hdash]
            exact ⟨fun _ => ⟨q, hq, e⟩, fun _ => ⟨q, hq, .inl e⟩⟩

/-! ### A directory with old bytes after a name -/

/-- The words of a volume on which inode 2 is a directory in block 14. Its entries are ".", ".." and
"ab", the last one followed by the bytes "cd" and zeros. -/
def dirWord (n i : Nat) : Nat :=
  if n = 6 then
    if i = 32 then 0x4000 else if i = 42 then 14 else 0
  else if n = 14 then
    [2, 0x0201000c, 0x2e, 2, 0x0202000c, 0x2e2e, 12, 0x010203e8, 0x64636261].getD i 0
  else 0

/-- The volume with that directory. -/
def dirVolume : Volume := sampleVolume dirWord (fun _ => 0) 0 0 65

lemma dirVolume_isSome : (dirVolume.readDir 2).isSome := by decide +kernel

/-- The volume once the directory is read. -/
def dirVolumeRead : Volume := (dirVolume.readDir 2).get dirVolume_isSome

lemma dirVolume_readDir : dirVolume.readDir 2 = some dirVolumeRead :=
  (Option.some_get _).symm

lemma dirVolumeRead_dirBlock :
    DirBlock dirVolumeRead.stdBuf dirVolumeRead.blockSize [0, 12, 24] where
  tiled := by decide +kernel
  names := by decide +kernel
  distinct := by decide +kernel

/-- "ab" is found, and not created again. -/
theorem lookup_exact_sample :
    LookupExact dirVolume 2 dirVolumeRead.stdBuf [0, 12, 24] [97, 98] := by
  refine (lookup_exact dirVolume dirVolumeRead 2 [0, 12, 24] [97, 98] (by decide)
    dirVolume_readDir dirVolumeRead_dirBlock ⟨by decide, by decide, by decide, by decide⟩).mpr ?_
  have hno : ∀ p ∈ [0, 12, 24], ¬ RunsInto dirVolumeRead.stdBuf p [97, 98] := by decide +kernel
  exact fun p hp hr _ => absurd hr (hno p hp)

/-- "abcd" is found too, although there is no such entry. -/
theorem lookup_runs_into :
    DirBlock dirVolumeRead.stdBuf dirVolumeRead.blockSize [0, 12, 24] ∧
      ¬ LookupExact dirVolume 2 dirVolumeRead.stdBuf [0, 12, 24] [97, 98, 99, 100] := by
  refine ⟨dirVolumeRead_dirBlock, ?_⟩
  rintro ⟨⟨w, i, h, _, h0⟩, _⟩
  have hr : (dirVolume.findInode [97, 98, 99, 100] 2).map Prod.snd = some 12 := by decide +kernel
  have hno : ∀ p ∈ [0, 12, 24], entryName dirVolumeRead.stdBuf p ≠ [97, 98, 99, 100] := by
    decide +kernel
  rw [h, h0 hno] at hr
  cases hr

end MarioBrOS.Fs
