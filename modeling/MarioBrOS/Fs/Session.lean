import MarioBrOS.Fs.Descriptor

/-!
# Runs of calls on descriptors

A session is the state of the kernel with, as ghosts, the entries of the open descriptors and the
words of the heap that failed calls to `openfile` have kept. Between two calls the rest of the
kernel may change the volume and every word of the heap that is not an open descriptor.

The table describes the open descriptors as long as a call to `close` that shrinks it finds clear
memory for the slots it leaves (`descriptor_table`). A closed descriptor points to a word of the
heap that may hold any index; what a call on it does is settled by that index
(`closed_descriptors`).
-/

namespace MarioBrOS.Fs

/-- The state, the entries of the open descriptors and the words kept by failed calls. -/
structure Session where
  inter : Inter
  opened : List FdtEntry
  lost : List Nat

/-- A call with what `mem_alloc` returns in it, or anything the rest of the kernel does. -/
inductive Call where
  | openfile (path : List UInt8) (oflag fperm f : Nat) (memory : Nat → FdtEntry)
  | refused (path : List UInt8) (oflag fperm f : Nat) (memory : Nat → FdtEntry)
  | close (f : Nat) (memory : Nat → FdtEntry)
  | lseek (f : Nat) (offset : Int) (seek : Nat)
  | read (f : Nat) (buffer : Bytes) (offset length : Nat)
  | write (f : Nat) (buffer : Bytes) (offset length : Nat)
  | other (volume : Volume) (deref : Nat → Nat)

namespace Call

/-- The descriptor a call is on. -/
def target : Call → Option Nat
  | .close f _ => some f
  | .lseek f _ _ => some f
  | .read f _ _ _ => some f
  | .write f _ _ _ => some f
  | _ => none

/-- The state after a call. -/
def perform (s : Inter) : Call → Option Inter
  | .openfile path oflag fperm f memory => (s.openfile path oflag fperm f memory).map Prod.fst
  | .refused path oflag fperm f memory => (s.openfile path oflag fperm f memory).map Prod.fst
  | .close f memory => s.close f memory
  | .lseek f offset seek => (s.lseek f offset seek).map Prod.fst
  | .read f buffer offset length => (s.read f buffer offset length).map Prod.fst
  | .write f buffer offset length => (s.write f buffer offset length).map Prod.fst
  | .other volume deref => some { s with volume := volume, deref := deref }

/-- A call to `close`. -/
def Closes : Call → Prop
  | .close _ _ => True
  | _ => False

end Call

/-- The steps of a session. A descriptor that `mem_alloc` returns is not in use. -/
inductive Step : Session → Call → Session → Prop
  | openfile {s t : Inter} {opened lost path oflag fperm f memory}
      (h : s.openfile path oflag fperm f memory = some (t, f)) (h0 : 0 < f ∧ f < 2 ^ 32)
      (hf : f ∉ opened.map FdtEntry.this ++ lost) :
      Step ⟨s, opened, lost⟩ (.openfile path oflag fperm f memory)
        ⟨t, t.fdt (t.deref f) :: opened, lost⟩
  | refused {s t : Inter} {opened lost path oflag fperm f memory}
      (h : s.openfile path oflag fperm f memory = some (t, 0)) (h0 : 0 < f ∧ f < 2 ^ 32)
      (hf : f ∉ opened.map FdtEntry.this ++ lost) :
      Step ⟨s, opened, lost⟩ (.refused path oflag fperm f memory)
        ⟨t, opened, if t.fdtNum = s.fdtNum then lost else f :: lost⟩
  | close {s t : Inter} {opened lost e memory} (he : e ∈ opened)
      (h : s.close e.this memory = some t) :
      Step ⟨s, opened, lost⟩ (.close e.this memory) ⟨t, opened.erase e, lost⟩
  | own {s t : Inter} {opened lost e} {c : Call} (he : e ∈ opened) (hc : c.target = some e.this)
      (hn : ¬ c.Closes) (h : c.perform s = some t) :
      Step ⟨s, opened, lost⟩ c ⟨t, t.fdt (t.deref e.this) :: opened.erase e, lost⟩
  | stale {s t : Inter} {opened lost f} {c : Call} (hc : c.target = some f) (h0 : f ≠ 0)
      (hf : f ∉ opened.map FdtEntry.this) (h : c.perform s = some t) :
      Step ⟨s, opened, lost⟩ c ⟨t, opened, lost⟩
  | other {s : Inter} {opened lost volume deref}
      (h : ∀ e ∈ opened, deref e.this = s.deref e.this) :
      Step ⟨s, opened, lost⟩ (.other volume deref)
        ⟨{ s with volume := volume, deref := deref }, opened, lost⟩

namespace Session

/-- The call is on an open descriptor, or on none. -/
def OnOpen (s : Session) (c : Call) : Prop :=
  ∀ f, c.target = some f → f ∈ s.opened.map FdtEntry.this

/-- A call is one of those that the table is about: a successful call to `openfile`, or a call on an
open descriptor. -/
def Proper (s : Session) (c : Call) : Prop :=
  s.OnOpen c ∧ ∀ path oflag fperm f memory, c ≠ .refused path oflag fperm f memory

/-- If closing an open descriptor shrinks the table, the slots of the new one behind the open
descriptors are clear. -/
def Clean (s : Session) : Call → Prop
  | .close f memory =>
    f ∈ s.opened.map FdtEntry.this → 64 < sub32 s.inter.fdtNum 1 →
      sub32 s.inter.fdtNum 1 < s.inter.fdtSize / 4 →
      ∀ k, s.opened.length - 1 ≤ k → k < s.inter.fdtSize / 2 → (memory k).inode = 0
  | _ => True

/-- The table holds the entries of the open descriptors, at distinct indices, and nothing else, and
`fdt_num` counts them. -/
structure TableExact (s : Session) : Prop where
  index_lt : ∀ e ∈ s.opened, s.inter.deref e.this < s.inter.fdtSize
  entry : ∀ e ∈ s.opened, s.inter.fdt (s.inter.deref e.this) = e
  distinct : ∀ e ∈ s.opened, ∀ e' ∈ s.opened,
    s.inter.deref e.this = s.inter.deref e'.this → e.this = e'.this
  others : ∀ i, i < s.inter.fdtSize → (∀ e ∈ s.opened, s.inter.deref e.this ≠ i) →
    (s.inter.fdt i).inode = 0
  num : s.inter.fdtNum = s.opened.length

/-- The index behind a closed descriptor keeps the call away from the entries in use. -/
def Dead (s : Session) : Call → Prop
  | .close f _ =>
    s.inter.deref f < s.inter.fdtSize ∧ (s.inter.fdt (s.inter.deref f)).inode = 0
  | .lseek f offset seek =>
    (seek ≠ SEEK_SET ∧ seek ≠ SEEK_CUR ∧ seek ≠ SEEK_END) ∨
      s.inter.deref f < s.inter.fdtSize ∧ ((s.inter.fdt (s.inter.deref f)).inode = 0 ∨
        seekPos (s.inter.fdt (s.inter.deref f)) offset seek = (s.inter.fdt (s.inter.deref f)).pos)
  | .read f _ _ _ => s.inter.deref f ≠ s.inter.fdtSize
  | .write f _ _ _ => s.inter.deref f ≠ s.inter.fdtSize
  | _ => True

/-- The call returns, and no entry of an open descriptor, no file and no `fdt_num` changes. -/
def Harmless (s : Session) (c : Call) : Prop :=
  ∃ t, c.perform s.inter = some t ∧ t.volume = s.inter.volume ∧ t.fdtNum = s.inter.fdtNum ∧
    ∀ e ∈ s.opened, t.fdt (t.deref e.this) = e

/-- A step on which the table stays as it should be. -/
def Sound (s : Session) (c : Call) : Prop :=
  s.Clean c ∧ ∀ f, c.target = some f → f ∉ s.opened.map FdtEntry.this → s.Dead c

/-- The session at boot. -/
def boot (v : Volume) (memory : Nat → FdtEntry) (deref : Nat → Nat) : Session :=
  ⟨Inter.install v memory deref, [], []⟩

end Session

/-! ## Calls on open descriptors -/

section Open

variable {s t : Inter} {opened : List FdtEntry} {lost : List Nat} {e : FdtEntry} {f : Nat}
  {memory : Nat → FdtEntry}

/-- A successful call to `openfile` adds one entry. -/
lemma Described.openfile (D : Described s opened lost) {path : List UInt8} {oflag fperm : Nat}
    (h : s.openfile path oflag fperm f memory = some (t, f)) (h0 : 0 < f ∧ f < 2 ^ 32)
    (hf : f ∉ opened.map FdtEntry.this ++ lost) :
    Described t (t.fdt (t.deref f) :: opened) lost := by
  rcases D.reserve memory hf h0 with ⟨DR, hlt, hfree⟩
  rcases Inter.openfile_cases h with ⟨v, _, hr⟩ | ⟨v, _, hr⟩ | ⟨v, inode, hi, _, ht⟩
  · omega
  · omega
  · have hD := (DR.withVolume v).fill (e := Inter.newEntry v inode oflag f) hlt hfree rfl hi
    have he : t.fdt (t.deref f) = Inter.newEntry v inode oflag f := by
      rw [ht]
      exact Function.update_self ..
    rw [he, ht]
    exact hD

/-- A call to `openfile` that fails keeps at most one word of the heap. -/
lemma Described.refused (D : Described s opened lost) {path : List UInt8} {oflag fperm : Nat}
    (h : s.openfile path oflag fperm f memory = some (t, 0)) (h0 : 0 < f ∧ f < 2 ^ 32)
    (hf : f ∉ opened.map FdtEntry.this ++ lost) :
    Described t opened (if t.fdtNum = s.fdtNum then lost else f :: lost) := by
  rcases D.reserve memory hf h0 with ⟨DR, _, _⟩
  rcases Inter.openfile_cases h with ⟨v, rfl, _⟩ | ⟨v, rfl, _⟩ | ⟨v, inode, _, hr, _⟩
  · rw [if_pos (show (s.withVolume v).fdtNum = s.fdtNum from rfl)]
    exact D.withVolume v
  · have h1 := DR.num
    rw [List.length_cons] at h1
    have hne : ((s.reserve f memory).withVolume v).fdtNum ≠ s.fdtNum := by
      rw [D.num]
      show (s.reserve f memory).fdtNum ≠ _
      omega
    rw [if_neg hne]
    exact DR.withVolume v
  · omega

/-- Closing an open descriptor gives up its entry, and may shrink the table. -/
lemma Described.close_eq (D : Described s opened lost) (he : e ∈ opened)
    (memory : Nat → FdtEntry) :
    s.close e.this memory =
      if 64 < sub32 s.fdtNum 1 ∧ sub32 s.fdtNum 1 < s.fdtSize / 4 then
        some ((s.release (s.deref e.this)).shrink memory)
      else some (s.release (s.deref e.this)) := by
  have h0 := (D.bounded e.this (List.mem_append_left _ (List.mem_map_of_mem he))).1
  have hentry : s.entryAt (s.deref e.this) = some e := by
    unfold Inter.entryAt
    rw [if_pos (D.index_lt e he), D.entry e he]
  unfold Inter.close
  rw [if_neg (by omega), hentry, Option.bind_eq_bind, Option.bind_some, if_neg (D.inode_ne e he)]
  rfl

/-- Closing an open descriptor removes its entry. -/
lemma Described.close (D : Described s opened lost) (he : e ∈ opened)
    (h : s.close e.this memory = some t)
    (hclean : 64 < sub32 s.fdtNum 1 → sub32 s.fdtNum 1 < s.fdtSize / 4 →
      ∀ k, opened.length - 1 ≤ k → k < s.fdtSize / 2 → (memory k).inode = 0) :
    Described t (opened.erase e) lost := by
  have DR := D.release he
  rw [D.close_eq he] at h
  split at h
  · rename_i hs
    rw [← Option.some.inj h]
    have hl := List.length_erase_of_mem he
    have hn : sub32 s.fdtNum 1 = (opened.erase e).length + lost.length := DR.num
    have hlt : (opened.erase e).length < s.fdtSize / 4 := by omega
    refine DR.shrink hlt fun k hk => ?_
    rw [hl] at hk
    exact hclean hs.1 hs.2 k hk
  · rw [← Option.some.inj h]
    exact DR

/-- A call on an open descriptor other than `close` touches its entry only. -/
lemma Call.perform_touched {c : Call} (hc : c.target = some f) (hn : ¬ c.Closes)
    (h : c.perform s = some t) : Inter.Touched s t (s.deref f) := by
  cases c with
  | close => exact absurd trivial hn
  | lseek g offset seek =>
    cases hc
    rcases Option.map_eq_some_iff.mp h with ⟨⟨u, r⟩, hu, rfl⟩
    exact Inter.lseek_touched hu
  | read g buffer offset length =>
    cases hc
    rcases Option.map_eq_some_iff.mp h with ⟨⟨u, b, r⟩, hu, rfl⟩
    exact Inter.read_touched hu
  | write g buffer offset length =>
    cases hc
    rcases Option.map_eq_some_iff.mp h with ⟨⟨u, r⟩, hu, rfl⟩
    exact Inter.write_touched hu
  | _ => cases hc

end Open

/-! ## Calls on closed descriptors -/

section Closed

variable {s : Inter} {opened : List FdtEntry} {lost : List Nat} {f i : Nat} {c : Call}

/-- The check of `read` and `write` turns down a closed descriptor, unless it looks behind the
table. -/
lemma Described.checkFd_stale (D : Described s opened lost) (hf : f ∉ opened.map FdtEntry.this)
    (hx : s.deref f ≠ s.fdtSize) : s.checkFd f = some none := by
  unfold Inter.checkFd
  split
  · rfl
  · rename_i hn
    have hlt : s.deref f < s.fdtSize := by omega
    unfold Inter.entryAt
    rw [if_pos hlt, Option.bind_eq_bind, Option.bind_some, if_pos]
    by_contra hc
    rcases not_or.mp hc with ⟨h1, h2⟩
    have hm := (D.others _ hlt h2).1
    exact hf (List.mem_map.mpr ⟨_, hm, not_not.mp h1⟩)

lemma checkFd_behind (h0 : f ≠ 0) (hx : s.deref f = s.fdtSize) : s.checkFd f = none := by
  unfold Inter.checkFd Inter.entryAt
  rw [if_neg (by omega), if_neg (by omega)]
  rfl

/-- The position in a slot that is free, or that stays where it is. -/
lemma Described.setPos (D : Described s opened lost) {pos : Nat}
    (h : (s.fdt i).inode = 0 ∨ pos = (s.fdt i).pos) : Described (s.setPos i pos) opened lost := by
  rcases h with h | rfl
  · have T := Inter.touched_setPos s i pos
    have hne : ∀ e ∈ opened, s.deref e.this ≠ i := by
      intro e he hx
      rw [← hx, D.entry e he] at h
      exact D.inode_ne e he h
    refine ⟨D.pointers, D.bounded, D.inode_ne, D.index_lt, fun e he => ?_, fun j hj hj0 => ?_, D.num,
      D.size_pos⟩
    · exact (T.other _ (hne e he)).trans (D.entry e he)
    · have hji : j ≠ i := fun hx => hj0 (hx ▸ T.inode.trans h)
      rw [T.other j hji] at hj0 ⊢
      exact D.others j hj hj0
  · exact D.congr (Function.update_eq_self i s.fdt) rfl rfl fun _ _ => rfl

/-- A call on a closed descriptor whose index is harmless. -/
lemma Session.Dead.perform (h : Session.Dead ⟨s, opened, lost⟩ c) (D : Described s opened lost)
    (hc : c.target = some f) (hf : f ∉ opened.map FdtEntry.this) :
    ∃ t, c.perform s = some t ∧ t.volume = s.volume ∧ Described t opened lost := by
  cases c with
  | close g memory =>
    cases hc
    refine ⟨s, ?_, rfl, D⟩
    show s.close f memory = some s
    unfold Inter.close
    split
    · rfl
    · unfold Inter.entryAt
      rw [if_pos h.1, Option.bind_eq_bind, Option.bind_some, if_pos h.2]
  | lseek g offset seek =>
    cases hc
    show ∃ t, (s.lseek f offset seek).map Prod.fst = some t ∧ _
    unfold Inter.lseek
    rcases h with h | ⟨h1, h2⟩
    · rw [if_pos h]
      exact ⟨s, rfl, rfl, D⟩
    · split
      · exact ⟨s, rfl, rfl, D⟩
      · unfold Inter.entryAt
        rw [if_pos h1, Option.bind_eq_bind, Option.bind_some]
        exact ⟨_, rfl, rfl, D.setPos h2⟩
  | read g buffer offset length =>
    cases hc
    refine ⟨s, ?_, rfl, D⟩
    show (s.read f buffer offset length).map Prod.fst = some s
    unfold Inter.read
    rw [D.checkFd_stale hf h, Option.bind_eq_bind, Option.bind_some]
    rfl
  | write g buffer offset length =>
    cases hc
    refine ⟨s, ?_, rfl, D⟩
    show (s.write f buffer offset length).map Prod.fst = some s
    unfold Inter.write
    rw [D.checkFd_stale hf h, Option.bind_eq_bind, Option.bind_some]
    rfl
  | _ => cases hc

/-- A call on a closed descriptor that does no harm has a harmless index. -/
lemma Session.Harmless.dead (h : Session.Harmless ⟨s, opened, lost⟩ c) (D : Described s opened lost)
    (hc : c.target = some f) (h0 : f ≠ 0) : Session.Dead ⟨s, opened, lost⟩ c := by
  rcases h with ⟨t, ht, _, hnum, hentry⟩
  cases c with
  | close g memory =>
    cases hc
    have ht : s.close f memory = some t := ht
    unfold Inter.close Inter.entryAt at ht
    rw [if_neg h0] at ht
    by_cases hlt : s.deref f < s.fdtSize
    · refine ⟨hlt, ?_⟩
      by_contra hne
      rw [if_pos hlt, Option.bind_eq_bind, Option.bind_some, if_neg hne] at ht
      -- a slot in use would be given up, and counted down
      have hn : t.fdtNum = sub32 s.fdtNum 1 := by
        dsimp only at ht
        split at ht
        · rw [← Option.some.inj ht]
          rfl
        · rw [← Option.some.inj ht]
          rfl
      have hlt' := D.num_lt
      have hnum : t.fdtNum = s.fdtNum := hnum
      have hpos : 0 < opened.length := List.length_pos_of_mem (D.others _ hlt hne).1
      rw [hn, D.num, sub32_of_le (by omega) hlt'] at hnum
      omega
    · rw [if_neg hlt] at ht
      cases ht
  | lseek g offset seek =>
    cases hc
    by_cases hseek : seek ≠ SEEK_SET ∧ seek ≠ SEEK_CUR ∧ seek ≠ SEEK_END
    · exact .inl hseek
    · have ht : (s.lseek f offset seek).map Prod.fst = some t := ht
      unfold Inter.lseek Inter.entryAt at ht
      rw [if_neg hseek] at ht
      by_cases hlt : s.deref f < s.fdtSize
      · rw [if_pos hlt, Option.bind_eq_bind, Option.bind_some, Option.map_some] at ht
        refine .inr ⟨hlt, or_iff_not_imp_left.mpr fun hne => ?_⟩
        rcases D.others _ hlt hne with ⟨hm, hd⟩
        have he := hentry _ hm
        rw [← Option.some.inj ht] at he
        have he : Function.update s.fdt (s.deref f) { s.fdt (s.deref f) with
            pos := seekPos (s.fdt (s.deref f)) offset seek } (s.deref (s.fdt (s.deref f)).this) =
            s.fdt (s.deref f) := he
        rw [hd, Function.update_self] at he
        exact congrArg FdtEntry.pos he
      · rw [if_neg hlt] at ht
        cases ht
  | read g buffer offset length =>
    cases hc
    intro hx
    have ht : (s.read f buffer offset length).map Prod.fst = some t := ht
    unfold Inter.read at ht
    rw [checkFd_behind h0 hx] at ht
    cases ht
  | write g buffer offset length =>
    cases hc
    intro hx
    have ht : (s.write f buffer offset length).map Prod.fst = some t := ht
    unfold Inter.write at ht
    rw [checkFd_behind h0 hx] at ht
    cases ht
  | _ => cases hc

end Closed

/-! ## Runs -/

section Runs

variable {s t : Session} {c : Call} {cs : List Call}

/-- The invariant of a session. -/
def Session.Described (s : Session) : Prop := Fs.Described s.inter s.opened s.lost

/-- A sound step keeps the invariant. -/
lemma Step.described (st : Step s c t) (D : s.Described) (h : s.Sound c) : t.Described := by
  cases st with
  | openfile ho h0 hf => exact Described.openfile D ho h0 hf
  | refused ho h0 hf => exact Described.refused D ho h0 hf
  | close he hcl => exact Described.close D he hcl (h.1 (List.mem_map_of_mem he))
  | own he hc hn hp => exact Described.touched D he (Call.perform_touched hc hn hp)
  | stale hc _ hf hp =>
    rcases (h.2 _ hc hf).perform D hc hf with ⟨u, hu, _, Du⟩
    cases Option.some.inj (hu.symm.trans hp)
    exact Du
  | other hd => exact Described.congr D rfl rfl rfl hd

/-- A sound run keeps the invariant. -/
lemma described_of_run (r : Run (Guarded Session.Sound Step) s cs t) (D : s.Described) : t.Described :=
  r.invariant (fun _ _ _ D st => st.2.described D st.1) D

/-- A proper step fails no call to `openfile`. -/
lemma Step.lost_eq (st : Step s c t) (h : s.Proper c) : t.lost = s.lost := by
  cases st with
  | refused => exact absurd rfl (h.2 _ _ _ _ _)
  | _ => rfl

/-- The invariant in the words of a reader of the table. -/
lemma Session.Described.exact (D : s.Described) (hl : s.lost = []) : s.TableExact where
  index_lt := D.index_lt
  entry := D.entry
  distinct e he e' he' h := by rw [Fs.Described.index_inj D he he' h]
  others i hi h := by
    by_contra h0
    rcases D.others i hi h0 with ⟨hm, hd⟩
    exact h _ hm hd
  num := by rw [D.num, hl, List.length_nil, Nat.add_zero]

/-- A clean run of proper steps keeps the invariant and fails no call to `openfile`. -/
lemma described_of_proper
    (r : Run (Guarded (fun s c => s.Proper c ∧ s.Clean c) Step) s cs t) (D : s.Described)
    (hl : s.lost = []) : t.Described ∧ t.lost = [] := by
  refine r.invariant (I := fun s => s.Described ∧ s.lost = []) ?_ ⟨D, hl⟩
  rintro s c t ⟨D, hl⟩ ⟨⟨hp, hc⟩, st⟩
  exact ⟨st.described D ⟨hc, fun f hf hn => absurd (hp.1 f hf) hn⟩, (st.lost_eq hp).trans hl⟩

/-- **The descriptor table.** In a run of successful calls to `openfile` and of calls on open
descriptors in which every call to `close` that shrinks the table finds clear memory behind the open
descriptors, the table is exact. -/
theorem descriptor_table (v : Volume) (memory : Nat → FdtEntry) (deref : Nat → Nat)
    {cs : List Call} {s : Session}
    (r : Run (Guarded (fun s c => s.Proper c ∧ s.Clean c) Step) (Session.boot v memory deref) cs s) :
    s.TableExact := by
  rcases described_of_proper r (Described.install v memory deref) rfl with ⟨D, hl⟩
  exact D.exact hl

/-- **Closed descriptors.** After a sound run, a call on a closed descriptor is harmless exactly if
the index its word holds keeps it away from the entries in use. -/
theorem closed_descriptors (v : Volume) (memory : Nat → FdtEntry) (deref : Nat → Nat)
    {cs : List Call} {s : Session}
    (r : Run (Guarded Session.Sound Step) (Session.boot v memory deref) cs s) {c : Call} {f : Nat}
    (hc : c.target = some f) (h0 : f ≠ 0) (hf : f ∉ s.opened.map FdtEntry.this) :
    s.Harmless c ↔ s.Dead c := by
  have D : s.Described := described_of_run r (Described.install v memory deref)
  refine ⟨fun h => h.dead D hc h0, fun h => ?_⟩
  rcases h.perform D hc hf with ⟨t, ht, hv, Dt⟩
  exact ⟨t, ht, hv, Dt.num.trans D.num.symm, Dt.entry⟩

/-! ## Runs that go wrong -/

/-- The entry of a file that is not truncated is always filled. -/
lemma fill_isSome (s : Inter) (inode f : Nat) {oflag : Nat} (h : oflag &&& O_TRUNC = 0) :
    ∃ t, s.fill inode oflag f = some (t, f) := by
  rcases s.volume.setInode_isSome inode with ⟨v, hv⟩
  refine ⟨(s.withVolume v).setEntry (s.deref f) (Inter.newEntry v inode oflag f), ?_⟩
  unfold Inter.fill
  refine (if_neg (not_not.mpr h)).trans ?_
  rw [Option.bind_eq_bind, Option.bind_some]
  beta_reduce
  rw [hv, Option.bind_some]

/-- A new descriptor on the root directory. -/
lemma openfile_root (s : Inter) {f : Nat} (memory : Nat → FdtEntry) (h0 : 0 < f) :
    ∃ t, s.openfile [SLASH] O_RDONLY 0 f memory = some (t, f) ∧ (t.fdt (t.deref f)).this = f := by
  have hfind : s.volume.findInode [SLASH] 2 = some (s.volume, 2) := rfl
  have h : ∃ t, s.openfile [SLASH] O_RDONLY 0 f memory = some (t, f) := by
    rcases fill_isSome ((s.withVolume s.volume).reserve f memory) 2 f
      (show O_RDONLY &&& O_TRUNC = 0 by decide) with ⟨t, ht⟩
    refine ⟨t, ?_⟩
    unfold Inter.openfile
    rw [hfind, Option.bind_eq_bind, Option.bind_some]
    dsimp only
    rw [if_neg (by decide), if_neg (by decide), if_pos (by decide), Option.bind_eq_bind,
      Option.bind_some]
    exact ht
  rcases h with ⟨t, ht⟩
  refine ⟨t, ht, ?_⟩
  rcases Inter.openfile_cases ht with ⟨v, _, hr⟩ | ⟨v, _, hr⟩ | ⟨v, inode, _, _, rfl⟩
  · omega
  · omega
  · show (Function.update (s.reserve f memory).fdt ((s.reserve f memory).deref f)
      (Inter.newEntry v inode O_RDONLY f) ((s.reserve f memory).deref f)).this = f
    rw [Function.update_self]
    rfl

/-- Any number of descriptors can be opened. -/
lemma open_run (v : Volume) (memory : Nat → FdtEntry) (deref : Nat → Nat) (n : Nat)
    (hn : n < 2 ^ 31) :
    ∃ cs s, Run (Guarded (fun s c => s.Proper c ∧ s.Clean c) Step)
        (Session.boot v memory deref) cs s ∧
      s.opened.length = n ∧ ∀ f ∈ s.opened.map FdtEntry.this ++ s.lost, f ≤ n := by
  induction n with
  | zero => exact ⟨[], _, .nil, rfl, fun f hf => by cases hf⟩
  | succ n ih =>
    rcases ih (by omega) with ⟨cs, s, r, hlen, hle⟩
    rcases openfile_root s.inter (f := n + 1) memory (by omega) with ⟨t, ht, hthis⟩
    refine ⟨cs ++ [.openfile [SLASH] O_RDONLY 0 (n + 1) memory],
      ⟨t, t.fdt (t.deref (n + 1)) :: s.opened, s.lost⟩,
      .snoc r ⟨⟨⟨nofun, nofun⟩, trivial⟩, .openfile ht ⟨by omega, by omega⟩ fun h => ?_⟩, ?_, ?_⟩
    · have := hle _ h
      omega
    · rw [List.length_cons, hlen]
    · intro f hf
      rw [List.map_cons, List.cons_append, hthis] at hf
      rcases List.mem_cons.mp hf with rfl | hf
      · exact Nat.le_refl _
      · have := hle _ hf
        omega

/-- The loop that shrinks the table fills none of the slots behind its last round. -/
lemma shrinkLoop_tmp {size n i k : Nat} {c : Shrinking} (h : i + n ≤ k) :
    (shrinkLoop size n i c).tmp k = c.tmp k := by
  induction n generalizing i c with
  | zero => rfl
  | succ n ih =>
    rw [shrinkLoop, ih (by omega)]
    unfold shrinkStep
    split
    · exact Function.update_of_ne (by omega) _ _
    · split
      · exact Function.update_of_ne (by omega) _ _
      · rfl

/-- Memory that is not clear shows through in a table that has shrunk. -/
lemma not_tableExact_shrink {s : Inter} {opened : List FdtEntry} {lost : List Nat}
    (h0 : ∀ e ∈ opened, e.this ≠ 0) (hs : 264 ≤ s.fdtSize) :
    ¬ Session.TableExact ⟨s.shrink fun _ => ⟨1, 0, 0, 0, 0⟩, opened, lost⟩ := by
  intro T
  have hk : (s.shrink fun _ => ⟨1, 0, 0, 0, 0⟩).fdt (s.fdtSize / 4) = ⟨1, 0, 0, 0, 0⟩ :=
    shrinkLoop_tmp (by omega)
  have hlt : s.fdtSize / 4 < (s.shrink fun _ => ⟨1, 0, 0, 0, 0⟩).fdtSize := by
    show s.fdtSize / 4 < s.fdtSize / 2
    omega
  have h := T.others _ hlt fun e he hd => h0 e he (by rw [← T.entry e he, hd, hk])
  rw [hk] at h
  exact absurd h (by decide)

/-- What is asked of a call that closes on the given memory: it is clean if the memory is clear. -/
def ClosesOn (memory : Nat → FdtEntry) (s : Session) (c : Call) : Prop :=
  s.Proper c ∧ ((∀ k, (memory k).inode = 0) → s.Clean c)

/-- Closing one of at least 66 descriptors shrinks the table, or leaves its size. -/
lemma close_step {s : Session} (memory : Nat → FdtEntry) (D : s.Described) (hl : s.lost = [])
    (hn : 66 ≤ s.opened.length) (hs : 264 ≤ s.inter.fdtSize) :
    ∃ c t, Guarded (ClosesOn memory) Step s c t ∧
      ((∃ u : Inter, t.inter = u.shrink memory ∧ u.fdtSize = s.inter.fdtSize ∧
          ∀ e ∈ t.opened, e.this ≠ 0) ∨
        67 ≤ s.opened.length ∧ t.Described ∧ t.lost = [] ∧
          t.opened.length = s.opened.length - 1 ∧ t.inter.fdtSize = s.inter.fdtSize) := by
  rcases s with ⟨s, opened, lost⟩
  dsimp only at hl hn hs
  subst hl
  have D : Described s opened [] := D
  rcases List.exists_mem_of_length_pos (l := opened) (by omega) with ⟨e, he⟩
  have hp : Session.Proper ⟨s, opened, []⟩ (.close e.this memory) :=
    ⟨fun f hf => by cases hf; exact List.mem_map_of_mem he, nofun⟩
  have hc : ClosesOn memory ⟨s, opened, []⟩ (.close e.this memory) :=
    ⟨hp, fun hclear _ _ _ k _ _ => hclear k⟩
  have hlen := List.length_erase_of_mem he
  have hnum := (D.release he).num
  rw [hlen, List.length_nil, Nat.add_zero] at hnum
  have hnum : sub32 s.fdtNum 1 = opened.length - 1 := hnum
  have hclose := D.close_eq he memory
  by_cases hlt : sub32 s.fdtNum 1 < s.fdtSize / 4
  · rw [if_pos ⟨by omega, hlt⟩] at hclose
    refine ⟨_, _, ⟨hc, .close he hclose⟩, .inl ⟨_, rfl, rfl, ?_⟩⟩
    intro e' he'
    have hm := List.mem_map_of_mem (f := FdtEntry.this) (List.mem_of_mem_erase he')
    have := D.bounded _ (List.mem_append_left _ hm)
    omega
  · rw [if_neg fun h => hlt h.2] at hclose
    refine ⟨_, _, ⟨hc, .close he hclose⟩, .inr ⟨?_, D.release he, rfl, hlen, rfl⟩⟩
    show 67 ≤ opened.length
    omega

/-- A sparse table shrinks before its last 65 descriptors are closed. -/
lemma shrink_run (memory : Nat → FdtEntry) (n : Nat) {s : Session} (D : s.Described)
    (hl : s.lost = []) (hn : s.opened.length = n + 66) (hs : 264 ≤ s.inter.fdtSize) :
    ∃ cs t, Run (Guarded (ClosesOn memory) Step) s cs t ∧
      ∃ u : Inter, t.inter = u.shrink memory ∧ u.fdtSize = s.inter.fdtSize ∧
        ∀ e ∈ t.opened, e.this ≠ 0 := by
  induction n generalizing s with
  | zero =>
    rcases close_step memory D hl (by omega) hs with ⟨c, t, st, hshrink | ⟨h67, _⟩⟩
    · exact ⟨[c], t, .single st, hshrink⟩
    · omega
  | succ n ih =>
    rcases close_step memory D hl (by omega) hs with ⟨c, t, st, hshrink | ⟨_, Dt, hlt, hnt, hst⟩⟩
    · exact ⟨[c], t, .single st, hshrink⟩
    · rcases ih Dt hlt (by omega) (by omega) with ⟨cs, v, r, u, hu, hsize, h0⟩
      exact ⟨[c] ++ cs, v, (Run.single st).append r, u, hu, hsize.trans hst, h0⟩

/-- A volume with nothing on it. -/
def blank : Volume :=
  ⟨fun _ => 0, ⟨0, 0, 0, 0, 0, 0, 0, 0⟩, fun _ => 0, fun _ => 0, fun _ => 0⟩

/-- The session at boot, on memory that is not clear. -/
def Session.start : Session := Session.boot blank (fun _ => ⟨1, 0, 0, 0, 0⟩) id

/-- The table of a thousand descriptors, and the smaller one after enough of them have been closed on
clear memory. -/
theorem descriptor_table_thousand :
    ∃ cs s, Run (Guarded (fun s c => s.Proper c ∧ s.Clean c) Step) Session.start cs s ∧
      s.opened.length = 1000 ∧ s.TableExact ∧
      ∃ cs' t, Run (Guarded (fun s c => s.Proper c ∧ s.Clean c) Step) s cs' t ∧
        t.inter.fdtSize < s.inter.fdtSize ∧ t.TableExact := by
  rcases open_run blank (fun _ => ⟨1, 0, 0, 0, 0⟩) id 1000 (by omega) with ⟨cs, s, r, hlen, _⟩
  refine ⟨cs, s, r, hlen, descriptor_table _ _ _ r, ?_⟩
  rcases described_of_proper r (Described.install _ _ _) rfl with ⟨D, hl⟩
  have hsize := Fs.Described.length_le D
  rcases shrink_run (fun _ => ⟨0, 0, 0, 0, 0⟩) 934 D hl hlen (by omega) with
    ⟨cs', t, r', u, hu, husize, _⟩
  have r' : Run (Guarded (fun s c => s.Proper c ∧ s.Clean c) Step) s cs' t :=
    r'.mono fun _ _ _ st => ⟨⟨st.1.1, st.1.2 fun _ => rfl⟩, st.2⟩
  refine ⟨cs', t, r', ?_, descriptor_table _ _ _ (r.append r')⟩
  rw [hu]
  show u.fdtSize / 2 < s.inter.fdtSize
  omega

/-- The table does not survive a call to `close` that shrinks it on memory that is not clear:
opening 264 descriptors and closing them again comes across one. -/
theorem close_leaves_garbage :
    ∃ cs s, Run (Guarded Session.Proper Step) Session.start cs s ∧ ¬ s.TableExact := by
  rcases open_run blank (fun _ => ⟨1, 0, 0, 0, 0⟩) id 264 (by omega) with ⟨cs, s, r, hlen, _⟩
  rcases described_of_proper r (Described.install _ _ _) rfl with ⟨D, hl⟩
  have hsize := Fs.Described.length_le D
  rcases shrink_run (fun _ => ⟨1, 0, 0, 0, 0⟩) 198 D hl hlen (by omega) with
    ⟨cs', ⟨_, opened, lost⟩, r', u, rfl, husize, h0⟩
  refine ⟨cs ++ cs', _, (r.mono fun _ _ _ st => ⟨st.1.1, st.2⟩).append
    (r'.mono fun _ _ _ st => ⟨st.1.1, st.2⟩), not_tableExact_shrink h0 (by omega)⟩

/-- Of two descriptors one is closed, and its word comes to hold the index of the other. -/
lemma stale_run :
    ∃ cs s f memory, Run (Guarded Session.Sound Step) Session.start cs s ∧
      Call.close f memory ∈ cs ∧ f ≠ 0 ∧ f ∉ s.opened.map FdtEntry.this ∧
      ∃ e ∈ s.opened, s.inter.deref f = s.inter.deref e.this := by
  rcases open_run blank (fun _ => ⟨1, 0, 0, 0, 0⟩) id 2 (by omega) with ⟨cs, s, r, hlen, _⟩
  rcases described_of_proper r (Described.install _ _ _) rfl with ⟨D, hl⟩
  have r : Run (Guarded Session.Sound Step) Session.start cs s :=
    r.mono fun _ _ _ st => ⟨⟨st.1.2, fun f hf hn => absurd (st.1.1.1 f hf) hn⟩, st.2⟩
  rcases s with ⟨s, opened, lost⟩
  dsimp only at hlen hl
  subst hl
  rcases List.length_eq_two.mp hlen with ⟨e, e', rfl⟩
  have D : Described s [e, e'] [] := D
  have he : e ∈ [e, e'] := List.mem_cons_self
  have he' : e' ∈ [e, e'] := List.mem_cons_of_mem _ List.mem_cons_self
  have hne : e'.this ≠ e.this := fun h => by
    have h2 := D.nodup
    rw [D.this_inj he' he h] at h2
    exact (List.nodup_cons.mp h2).1 List.mem_cons_self
  have hnum : sub32 s.fdtNum 1 = 1 := by
    rw [D.num]
    exact sub32_of_le (Nat.le_succ 1) (by show 2 < 2 ^ 32; omega)
  have hclose := D.close_eq he fun _ => ⟨0, 0, 0, 0, 0⟩
  rw [hnum, if_neg (by omega)] at hclose
  have hc : Session.Sound ⟨s, [e, e'], []⟩ (.close e.this fun _ => ⟨0, 0, 0, 0, 0⟩) := by
    refine ⟨fun _ _ _ _ _ _ => rfl, fun f hf hn => ?_⟩
    cases hf
    exact absurd (List.mem_map_of_mem he) hn
  have r1 := Run.snoc r ⟨hc, .close he hclose⟩
  rw [List.erase_cons_head] at r1
  -- the word of the closed descriptor is used again
  generalize s.release (s.deref e.this) = t at r1
  have hd : ∀ x ∈ [e'], Function.update t.deref e.this (t.deref e'.this) x.this =
      t.deref x.this := by
    intro x hx
    rw [List.mem_singleton.mp hx]
    exact Function.update_of_ne hne _ _
  have hs : Session.Sound ⟨t, [e'], []⟩
      (.other t.volume (Function.update t.deref e.this (t.deref e'.this))) := ⟨trivial, nofun⟩
  have r2 := Run.snoc r1 ⟨hs, .other hd⟩
  have h0 := D.bounded e.this List.mem_cons_self
  refine ⟨_, _, e.this, fun _ => ⟨0, 0, 0, 0, 0⟩, r2, ?_, by omega, ?_, e', List.mem_cons_self, ?_⟩
  · exact List.mem_append_left _ (List.mem_append_right _ List.mem_cons_self)
  · intro hm
    rw [List.map_cons, List.map_nil, List.mem_singleton] at hm
    exact hne hm.symm
  · dsimp only
    rw [hd e' List.mem_cons_self, Function.update_self]

/-- Reading from a closed descriptor whose word holds the index of another one does no harm. -/
theorem closed_descriptors_read :
    ∃ cs s f memory, Run (Guarded Session.Sound Step) Session.start cs s ∧
      Call.close f memory ∈ cs ∧ f ∉ s.opened.map FdtEntry.this ∧
      s.Harmless (.read f (fun _ => 0) 0 1) := by
  rcases stale_run with ⟨cs, s, f, memory, r, hc, h0, hf, e, he, hd⟩
  have D : s.Described := described_of_run r (Described.install _ _ _)
  refine ⟨cs, s, f, memory, r, hc, hf, (closed_descriptors _ _ _ r rfl h0 hf).mpr ?_⟩
  have hlt := D.index_lt e he
  show s.inter.deref f ≠ s.inter.fdtSize
  omega

/-- Closing that descriptor once more closes the other one. -/
theorem close_closes_other :
    ∃ cs s f memory, Run (Guarded Session.Sound Step) Session.start cs s ∧
      Call.close f memory ∈ cs ∧ f ≠ 0 ∧ f ∉ s.opened.map FdtEntry.this ∧
      ¬ s.Harmless (.close f memory) := by
  rcases stale_run with ⟨cs, s, f, memory, r, hc, h0, hf, e, he, hd⟩
  have D : s.Described := described_of_run r (Described.install _ _ _)
  refine ⟨cs, s, f, memory, r, hc, h0, hf, fun h => ?_⟩
  rcases h.dead D rfl h0 with ⟨_, hi⟩
  rw [hd, D.entry e he] at hi
  exact D.inode_ne e he hi

end Runs

end MarioBrOS.Fs
