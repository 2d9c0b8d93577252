import MarioBrOS.Fs.Descriptor
import MarioBrOS.Fs.Lookup

/-!
# Opening that fails

`openfile` reserves a descriptor, a word of the heap and a place in `fdt_num`, before it creates the
file. When the creation fails it returns without giving them back; a call that fails earlier leaves
everything as it was (`openfile_fails_clean`).
-/

namespace MarioBrOS.Fs

namespace Inter

variable (s : Inter)

/-- The descriptors that `openfile` gets from `mem_alloc`: one, at `f`, once it is past its tests.
It never frees one. -/
def allocated (path : List UInt8) (oflag f : Nat) : List Nat :=
  match s.volume.findInode path 2 with
  | none => []
  | some (_, inode) =>
    if oflag &&& O_CREAT = 0 ∧ inode = 0 ∨ oflag &&& O_EXCL ≠ 0 ∧ inode ≠ 0 then [] else [f]

/-- `f` is an open descriptor. -/
def IsOpen (f : Nat) : Prop := ∃ e, s.checkFd f = some (some e)

/-- What is said of a call to `openfile` that fails: the open descriptors, their entries and
`fdt_num` are as before, and no descriptor stays allocated. -/
def FailsClean (path : List UInt8) (oflag fperm f : Nat) (memory : Nat → FdtEntry) : Prop :=
  ∀ t, s.openfile path oflag fperm f memory = some (t, 0) →
    (∀ g, t.IsOpen g ↔ s.IsOpen g) ∧ (∀ g, s.IsOpen g → t.fdt (t.deref g) = s.fdt (s.deref g)) ∧
      t.fdtNum = s.fdtNum ∧ s.allocated path oflag f = []

/-- `openfile` is to create a file that is not there, and `create_file` fails. -/
def CreationFails (path : List UInt8) (oflag fperm f : Nat) (memory : Nat → FdtEntry) : Prop :=
  oflag &&& O_CREAT ≠ 0 ∧ ∃ v t, s.volume.findInode path 2 = some (v, 0) ∧
    ((s.withVolume v).reserve f memory).createAt path fperm = some (t, 0)

variable {s} {t : Inter} {path : List UInt8} {oflag fperm f : Nat} {memory : Nat → FdtEntry}

/-- A creation that fails comes after the descriptor is reserved. -/
lemma CreationFails.openfile (h : s.CreationFails path oflag fperm f memory) :
    (∃ t, s.openfile path oflag fperm f memory = some (t, 0)) ∧ s.allocated path oflag f = [f] := by
  rcases h with ⟨hcreat, v, t, hfind, hcreate⟩
  constructor
  · refine ⟨t, ?_⟩
    unfold Inter.openfile
    rw [hfind, Option.bind_eq_bind, Option.bind_some]
    dsimp only
    rw [if_neg fun h => hcreat h.1, if_neg fun h => h.2 rfl, if_neg (not_not.mpr rfl), hcreate,
      Option.bind_eq_bind, Option.bind_some]
    exact if_pos rfl
  · unfold allocated
    rw [hfind]
    dsimp only
    rw [if_neg]
    rintro (h | h)
    · exact hcreat h.1
    · exact h.2 rfl

/-- A call that fails is refused by one of the tests, or its creation fails. -/
lemma openfile_zero (h0 : f ≠ 0) (h : s.openfile path oflag fperm f memory = some (t, 0)) :
    (∃ v, t = s.withVolume v ∧ s.allocated path oflag f = []) ∨
      s.CreationFails path oflag fperm f memory := by
  unfold openfile at h
  rcases Option.bind_eq_some_iff.mp h with ⟨⟨v, inode⟩, hfind, h⟩
  dsimp only at h
  have halloc : oflag &&& O_CREAT = 0 ∧ inode = 0 ∨ oflag &&& O_EXCL ≠ 0 ∧ inode ≠ 0 →
      s.allocated path oflag f = [] := by
    intro hc
    unfold allocated
    rw [hfind]
    exact if_pos hc
  split at h
  · rename_i hc
    cases h
    exact .inl ⟨v, rfl, halloc (.inl hc)⟩
  rename_i hcreat
  split at h
  · rename_i hc
    cases h
    exact .inl ⟨v, rfl, halloc (.inr hc)⟩
  split at h
  · rename_i hi
    rw [Option.bind_eq_bind, Option.bind_some] at h
    dsimp only at h
    rw [if_neg hi] at h
    rcases fill_eq h with ⟨w, _, hf⟩
    exact absurd hf.symm h0
  · rename_i hi
    rcases Option.bind_eq_some_iff.mp h with ⟨⟨u, inode'⟩, hu, h⟩
    obtain rfl := not_not.mp hi
    dsimp only at h
    split at h
    · rename_i hi'
      refine .inr ⟨fun h => hcreat ⟨h, rfl⟩, v, u, hfind, ?_⟩
      rw [hu, hi']
    · rcases fill_eq h with ⟨w, _, hf⟩
      exact absurd hf.symm h0

/-- **Failed opening.** A call to `openfile` that returns 0 leaves the descriptor table and the heap
as they were exactly if it is not the creation of the file that failed. -/
theorem openfile_fails_clean (s : Inter) (path : List UInt8) (oflag fperm f : Nat)
    (memory : Nat → FdtEntry) (h0 : f ≠ 0) :
    s.FailsClean path oflag fperm f memory ↔ ¬ s.CreationFails path oflag fperm f memory := by
  constructor
  · intro h hc
    rcases hc.openfile with ⟨⟨t, ht⟩, hf⟩
    have hnil := (h t ht).2.2.2
    rw [hf] at hnil
    cases hnil
  · intro hc t ht
    rcases openfile_zero h0 ht with ⟨v, rfl, hnil⟩ | hc'
    · exact ⟨fun _ => Iff.rfl, fun _ _ => rfl, rfl, hnil⟩
    · exact absurd hc' hc

/-- The sample directory, with an empty descriptor table. -/
def emptyTable : Inter := install dirVolume (fun _ => ⟨0, 0, 0, 0, 0⟩) fun _ => 0

/-- Opening a file that is not there without O_CREAT. -/
theorem openfile_fails_clean_missing :
    emptyTable.FailsClean [47, 122] O_RDONLY 0 4 fun _ => ⟨0, 0, 0, 0, 0⟩ :=
  (openfile_fails_clean emptyTable [47, 122] O_RDONLY 0 4 _ (by decide)).mpr
    fun h => h.1 (by decide)

/-- A file that is to be created on a volume without free inodes. -/
theorem openfile_keeps_descriptor :
    ((emptyTable.openfile [47, 122] (O_RDWR ||| O_CREAT) 0 4 fun _ => ⟨0, 0, 0, 0, 0⟩).map fun r =>
      (r.2, r.1.fdtNum)) = some (0, 1) ∧
      ¬ emptyTable.FailsClean [47, 122] (O_RDWR ||| O_CREAT) 0 4 fun _ => ⟨0, 0, 0, 0, 0⟩ := by
  have h : ((emptyTable.openfile [47, 122] (O_RDWR ||| O_CREAT) 0 4
      fun _ => ⟨0, 0, 0, 0, 0⟩).map fun r => (r.2, r.1.fdtNum)) = some (0, 1) := by
    decide +kernel
  refine ⟨h, fun hc => ?_⟩
  rcases Option.map_eq_some_iff.mp h with ⟨⟨t, r⟩, ht, hr⟩
  rcases Prod.mk.inj hr with ⟨rfl, hnum⟩
  have : t.fdtNum = 0 := (hc t ht).2.2.1
  rw [this] at hnum
  cases hnum

end Inter

end MarioBrOS.Fs
