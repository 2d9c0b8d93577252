import MarioBrOS.Kernel.Channels
import MarioBrOS.Lib.Run
import Mathlib.Data.List.Nodup

/-!
# Rendezvous

Runs of `sc_send` and `sc_receive` by any processes. Beside the state of the kernel a book is kept
of what the calls mean: the values that were sent and the receives are numbered, and it is written
down which receives are pending and which value went to which receive. The book does not influence
the calls.

`sc_send` takes the receiver from the list of one channel only, so a receive of several channels
goes wrong. It does not if the receiver is registered on that channel alone.
-/

namespace MarioBrOS.Kernel

/-! ## The book -/

/-- A pending receive: the channels that it lists, and the priority of the process. -/
structure Pending where
  chans : List Nat
  prio : Int

/-- What is known of the values and the receives. -/
structure Book where
  sends : Nat
  receives : Nat
  pending : Nat → Option Pending
  /-- The number of the last receive of each process. -/
  latest : Nat → Nat
  /-- The number of the value that waits in each channel. -/
  held : Nat → Nat
  /-- The values that were delivered, each with the receive that it went to. -/
  log : List (Nat × Nat)

namespace Book

/-- A value is handed to process `p`. -/
def hand (b : Book) (p : Nat) : Book :=
  { b with
    sends := b.sends + 1
    pending := Function.update b.pending p none
    log := b.log ++ [(b.sends, b.latest p)] }

/-- A value waits in channel `c`. -/
def hold (b : Book) (c : Nat) : Book :=
  { b with sends := b.sends + 1, held := Function.update b.held c b.sends }

/-- Process `p` takes the value in channel `c`. -/
def take (b : Book) (p c : Nat) : Book :=
  { b with
    receives := b.receives + 1
    latest := Function.update b.latest p b.receives
    log := b.log ++ [(b.held c, b.receives)] }

/-- Process `p` waits. -/
def await (b : Book) (p : Nat) (q : Pending) : Book :=
  { b with
    receives := b.receives + 1
    latest := Function.update b.latest p b.receives
    pending := Function.update b.pending p (some q) }

/-- The entry for a call of `sc_send`. A refused value is not sent. -/
def send (b : Book) (s : ChanState) (chanid : Int) : Book :=
  if chanid < 0 ∨ chanid ≥ NUM_CHANNELS then
    b
  else
    match s.channels chanid.toNat with
    | .sender _ | .receivers [] => b
    | .receivers (head :: tail) => b.hand (taken head tail).id
    | .unused => b.hold chanid.toNat

/-- The entry for a call of `sc_receive`. -/
def receive (b : Book) (s : ChanState) (chans : List Nat) : Book :=
  if chans = [] then
    b
  else
    match chans.find? fun c => isSender (s.channels c) with
    | some c => b.take s.currPid c
    | none => b.await s.currPid ⟨chans, s.currPrio⟩

end Book

/-! ## Runs -/

/-- The state with its book. -/
structure World where
  state : ChanState
  book : Book

/-- A call, or a change of the current process. -/
inductive ChanEvent where
  | switch (p : Nat) (prio : Int)
  | send (found : List CsReceiver → List CsReceiver) (chanid v : Int)
  | receive (chans : List Nat)

/-- Process `p` can run. -/
def ChanState.Runnable (s : ChanState) (p : Nat) : Prop := (s.processes p).state = .runnable

/-- Any process that can run becomes current; the current process calls, if it can run. -/
inductive ChanStep : World → ChanEvent → World → Prop where
  | switch {w p} (hp : w.state.Runnable p) (prio : Int) :
    ChanStep w (.switch p prio) ⟨switchTo w.state p prio, w.book⟩
  | send {w found chanid v t} (hr : w.state.Runnable w.state.currPid)
      (e : scSend found w.state chanid v = some t) :
    ChanStep w (.send found chanid v) ⟨t, w.book.send w.state chanid⟩
  | receive {w chans} (hr : w.state.Runnable w.state.currPid) (hc : ∀ c ∈ chans, c < NUM_CHANNELS) :
    ChanStep w (.receive chans) ⟨scReceive w.state chans, w.book.receive w.state chans⟩

/-- At first no channel is in use, and nothing is written in the book. -/
structure World.Initial (w : World) : Prop where
  unused : ∀ c, w.state.channels c = .unused
  pending : ∀ p, w.book.pending p = none
  counts : w.book.sends = 0 ∧ w.book.receives = 0
  log : w.book.log = []

/-! ## What is promised -/

/-- The value `v` goes from channel `c` to the right receiver `r`. -/
structure RightReceiver (w w' : World) (c : Nat) (v : Int) (r : CsReceiver) : Prop where
  blocked : (w.state.processes r.id).state = .blockedReading
  pending : ∃ q, w.book.pending r.id = some q ∧ c ∈ q.chans ∧
    ∀ p q', (w.state.processes p).state = .blockedReading → w.book.pending p = some q' →
      c ∈ q'.chans → q'.prio ≤ q.prio
  gone : ∀ c' e, w'.state.Listed c' e → e.id ≠ r.id
  runs : w'.state.Runnable r.id
  value : ∀ m, m = (w'.state.processes r.id).savedContext → m 0 = 1 ∧ m 1 = c ∧ m 2 = v

/-- If the event hands a value over, then to the right receiver. -/
def HandsRight (w : World) (e : ChanEvent) (w' : World) : Prop :=
  ∀ found chanid v, e = .send found chanid v → ∀ c head tail, Hands w.state chanid c head tail →
    RightReceiver w w' c v (taken head tail)

/-- Value number `n` waits in a channel. -/
def InChannel (w : World) (n : Nat) : Prop :=
  ∃ c sender, w.state.channels c = .sender sender ∧ w.book.held c = n

/-- Each value that was sent has been delivered to one receive, or waits in a channel; each receive
has got at most one value, and none while it is pending. -/
structure Matching (w : World) : Prop where
  once : (w.book.log.map Prod.fst).Nodup
  atMostOne : (w.book.log.map Prod.snd).Nodup
  delivered : ∀ n, n < w.book.sends → (n ∈ w.book.log.map Prod.fst ↔ ¬ InChannel w n)
  pending : ∀ p q, w.book.pending p = some q → w.book.latest p ∉ w.book.log.map Prod.snd

/-- If the receiver is at the front of its list, the tail of its cell can be read after `free`. -/
def Readable (w : World) (e : ChanEvent) : Prop :=
  ∀ found chanid v, e = .send found chanid v → ∀ c head tail, Hands w.state chanid c head tail →
    head.prio = (taken head tail).prio → found tail = tail

/-- The receiver is registered on no channel but the one it is taken from, and once there. -/
def RegisteredOnce (w : World) (e : ChanEvent) : Prop :=
  ∀ found chanid v, e = .send found chanid v → ∀ c head tail, Hands w.state chanid c head tail →
    ∀ c' l, w.state.channels c' = .receivers l →
      ∀ x ∈ if c' = c then l.erase (taken head tail) else l, x.id ≠ (taken head tail).id

/-- The condition on a step. -/
def Clean (w : World) (e : ChanEvent) : Prop := Readable w e ∧ RegisteredOnce w e

/-! ## The invariant -/

/-- The lists of the channels are those of the pending receives, and the processes are blocked. -/
structure Registered (w : World) : Prop where
  nonempty : ∀ c, w.state.channels c ≠ .receivers []
  listed : ∀ c e, w.state.Listed c e →
    ∃ q, w.book.pending e.id = some q ∧ c ∈ q.chans ∧ q.prio = e.prio
  waits : ∀ p q, w.book.pending p = some q → (w.state.processes p).state = .blockedReading ∧
    ∀ c ∈ q.chans, w.state.Listed c ⟨p, q.prio⟩
  writes : ∀ c sender, w.state.channels c = .sender sender →
    (w.state.processes sender.id).state = .blockedWriting
  apart : ∀ c c' sender sender', w.state.channels c = .sender sender →
    w.state.channels c' = .sender sender' → sender.id = sender'.id → c = c'

/-- The numbers of the book. -/
structure Numbered (w : World) : Prop where
  matching : Matching w
  sent : ∀ n ∈ w.book.log.map Prod.fst, n < w.book.sends
  received : ∀ n ∈ w.book.log.map Prod.snd, n < w.book.receives
  held : ∀ c sender, w.state.channels c = .sender sender → w.book.held c < w.book.sends
  apart : ∀ c c' sender sender', w.state.channels c = .sender sender →
    w.state.channels c' = .sender sender' → w.book.held c = w.book.held c' → c = c'
  latest : ∀ p q, w.book.pending p = some q → w.book.latest p < w.book.receives
  different : ∀ p p' q q', w.book.pending p = some q → w.book.pending p' = some q' →
    w.book.latest p = w.book.latest p' → p = p'

variable {w w' : World} {s t : ChanState} {b : Book} {c p : Nat} {v : Int} {e : ChanEvent}
  {head r : CsReceiver} {tail : List CsReceiver} {found : List CsReceiver → List CsReceiver}
  {sender : CsSender}

/-! ## Steps case by case -/

/-- A call of `sc_send` is refused, hands its value over, or waits. -/
lemma scSend_cases {chanid : Int} (h : scSend found s chanid v = some t) (b : Book) :
    (t = s.setRegister 0 0 ∧ b.send s chanid = b) ∨
      (∃ c head tail, Hands s chanid c head tail ∧ t = handOver found s c v head tail ∧
        b.send s chanid = b.hand (taken head tail).id) ∨
      ∃ c, s.channels c = .unused ∧ t = holdValue s c v ∧ b.send s chanid = b.hold c := by
  unfold scSend at h
  unfold Book.send
  by_cases hr : chanid < 0 ∨ chanid ≥ NUM_CHANNELS
  · rw [if_pos hr, Option.some_inj] at h
    exact Or.inl ⟨h.symm, if_pos hr⟩
  · rw [if_neg hr] at h
    rw [if_neg hr]
    cases hch : s.channels chanid.toNat with
    | unused =>
      simp only [hch, Option.some_inj] at h
      exact Or.inr (Or.inr ⟨_, hch, h.symm, rfl⟩)
    | sender sender =>
      simp only [hch, Option.some_inj] at h
      exact Or.inl ⟨h.symm, rfl⟩
    | receivers l =>
      cases l with
      | nil =>
        simp only [hch] at h
        cases h
      | cons head tail =>
        simp only [hch, Option.some_inj] at h
        exact Or.inr (Or.inl ⟨_, head, tail, ⟨by omega, rfl, hch⟩, h.symm, rfl⟩)

/-- A call of `sc_receive` has no channels, takes a value, or waits. -/
lemma scReceive_cases (s : ChanState) (chans : List Nat) (b : Book) :
    (scReceive s chans = s.setRegister 0 0 ∧ b.receive s chans = b) ∨
      (∃ c sender, s.channels c = .sender sender ∧ scReceive s chans = takeValue s c sender ∧
        b.receive s chans = b.take s.currPid c) ∨
      ((∀ c ∈ chans, isSender (s.channels c) = false) ∧ scReceive s chans = awaitValue s chans ∧
        b.receive s chans = b.await s.currPid ⟨chans, s.currPrio⟩) := by
  unfold scReceive Book.receive
  by_cases he : chans = []
  · exact Or.inl ⟨if_pos he, if_pos he⟩
  · rw [if_neg he, if_neg he]
    cases hf : chans.find? fun c => isSender (s.channels c) with
    | none =>
      rw [List.find?_eq_none] at hf
      exact Or.inr (Or.inr ⟨fun c hc => Bool.eq_false_iff.mpr (hf c hc), rfl, rfl⟩)
    | some c =>
      have hc := List.find?_some hf
      cases hch : s.channels c with
      | sender sender => exact Or.inr (Or.inl ⟨c, sender, hch, by simp only [hch], rfl⟩)
      | unused =>
        simp only [hch] at hc
        cases hc
      | receivers l =>
        simp only [hch] at hc
        cases hc

/-! ## The lists -/

/-- Who is still listed after a value is handed over. -/
lemma listed_handOver (h : s.channels c = .receivers (head :: tail))
    (hf : head.prio = (taken head tail).prio → found tail = tail) (c' : Nat) (x : CsReceiver) :
    (handOver found s c v head tail).Listed c' x ↔ ∃ l, s.channels c' = .receivers l ∧
      x ∈ if c' = c then l.erase (taken head tail) else l := by
  unfold ChanState.Listed
  rw [handOver_channels, extract_eq_erase hf]
  by_cases hc : c' = c
  · subst hc
    rw [Function.update_self, h]
    simp only [if_true, ChannelState.receivers.injEq, exists_eq_left']
    split
    · rename_i hnil
      rw [hnil]
      simp
    · simp
  · rw [Function.update_of_ne hc]
    simp only [if_neg hc]

lemma listed_taken (h : s.channels c = .receivers (head :: tail)) : s.Listed c (taken head tail) :=
  ⟨_, h, (taken_spec head tail).1⟩

/-- If the receiver was registered once, exactly its registrations have gone. -/
lemma listed_handOver_once (h : s.channels c = .receivers (head :: tail))
    (hf : head.prio = (taken head tail).prio → found tail = tail)
    (ho : ∀ c' l, s.channels c' = .receivers l →
      ∀ x ∈ if c' = c then l.erase (taken head tail) else l, x.id ≠ (taken head tail).id)
    (c' : Nat) (x : CsReceiver) :
    (handOver found s c v head tail).Listed c' x ↔
      s.Listed c' x ∧ x.id ≠ (taken head tail).id := by
  rw [listed_handOver h hf]
  constructor
  · rintro ⟨l, hl, hx⟩
    refine ⟨⟨l, hl, ?_⟩, ho c' l hl x hx⟩
    split at hx
    · exact List.mem_of_mem_erase hx
    · exact hx
  · rintro ⟨⟨l, hl, hx⟩, hne⟩
    refine ⟨l, hl, ?_⟩
    split
    · exact (List.mem_erase_of_ne fun e => hne (by rw [e])).mpr hx
    · exact hx

lemma ChanState.listed_update {chan : ChannelState}
    (ht : t.channels = Function.update s.channels p chan) (hold : ∀ l, s.channels p ≠ .receivers l)
    (hnew : ∀ l, chan ≠ .receivers l) (x : CsReceiver) : t.Listed c x ↔ s.Listed c x := by
  unfold ChanState.Listed
  rw [ht]
  by_cases hc : c = p
  · subst hc
    rw [Function.update_self]
    exact ⟨fun ⟨l, h, _⟩ => absurd h (hnew l), fun ⟨l, h, _⟩ => absurd h (hold l)⟩
  · rw [Function.update_of_ne hc]

/-! ## The steps keep the lists -/

namespace Registered

/-- A pending process is not running. -/
lemma not_pending (h : Registered w) (hr : w.state.Runnable p) : w.book.pending p = none := by
  cases hp : w.book.pending p with
  | none => rfl
  | some q =>
    have hb := (h.waits p q hp).1
    unfold ChanState.Runnable at hr
    rw [hr] at hb
    cases hb

/-- What neither changes the channels nor the processes. -/
lemma congr (h : Registered w) (hch : t.channels = w.state.channels)
    (hst : ∀ q, (t.processes q).state = (w.state.processes q).state) :
    Registered ⟨t, w.book⟩ := by
  have hl : ∀ c x, t.Listed c x ↔ w.state.Listed c x := by
    intro c x
    unfold ChanState.Listed
    rw [hch]
  refine ⟨fun c => ?_, fun c x hx => h.listed c x ((hl c x).mp hx), fun p q hp => ?_,
    fun c σ hc => ?_, fun c c' σ σ' hc hc' => ?_⟩
  · rw [hch]
    exact h.nonempty c
  · obtain ⟨h1, h2⟩ := h.waits p q hp
    exact ⟨(hst p).trans h1, fun c hc => (hl c _).mpr (h2 c hc)⟩
  · rw [hch] at hc
    exact (hst _).trans (h.writes c σ hc)
  · rw [hch] at hc hc'
    exact h.apart c c' σ σ' hc hc'

/-- A value waits. -/
lemma hold (h : Registered w) (hr : w.state.Runnable w.state.currPid)
    (hc : w.state.channels c = .unused) (v : Int) :
    Registered ⟨holdValue w.state c v, w.book.hold c⟩ := by
  have hl : ∀ c' x, (holdValue w.state c v).Listed c' x ↔ w.state.Listed c' x := fun c' x =>
    ChanState.listed_update holdValue_channels
      (fun l e => by rw [hc] at e; cases e) (fun l e => by cases e) x
  have hsend : ∀ c' σ, (holdValue w.state c v).channels c' = .sender σ →
      (c' = c ∧ σ.id = w.state.currPid) ∨ (c' ≠ c ∧ w.state.channels c' = .sender σ) := by
    intro c' σ hσ
    rw [holdValue_channels] at hσ
    by_cases e : c' = c
    · subst e
      rw [Function.update_self] at hσ
      cases hσ
      exact Or.inl ⟨rfl, rfl⟩
    · rw [Function.update_of_ne e] at hσ
      exact Or.inr ⟨e, hσ⟩
  -- a sender waits, and the current process runs
  have hrun : ∀ c' σ, w.state.channels c' = .sender σ → σ.id ≠ w.state.currPid := by
    intro c' σ hσ e
    have hw := h.writes c' σ hσ
    rw [e, hr] at hw
    cases hw
  refine ⟨fun c' e => ?_, fun c' x hx => h.listed c' x ((hl c' x).mp hx), fun p q hp => ?_,
    fun c' σ hσ => ?_, fun c1 c2 σ1 σ2 h1 h2 hid => ?_⟩
  · rw [holdValue_channels] at e
    by_cases hcc : c' = c
    · subst hcc
      rw [Function.update_self] at e
      cases e
    · rw [Function.update_of_ne hcc] at e
      exact h.nonempty c' e
  · obtain ⟨hb, hq⟩ := h.waits p q hp
    refine ⟨?_, fun c' hc' => (hl c' _).mpr (hq c' hc')⟩
    rw [holdValue_state, if_neg]
    · exact hb
    · rintro rfl
      rw [hr] at hb
      cases hb
  · rw [holdValue_state]
    rcases hsend c' σ hσ with ⟨-, e⟩ | ⟨-, hσ⟩
    · exact if_pos e
    · rw [if_neg (hrun c' σ hσ)]
      exact h.writes c' σ hσ
  · rcases hsend c1 σ1 h1 with ⟨e1, i1⟩ | ⟨-, h1⟩
    · rcases hsend c2 σ2 h2 with ⟨e2, -⟩ | ⟨-, h2⟩
      · rw [e1, e2]
      · exact absurd (hid.symm.trans i1) (hrun c2 σ2 h2)
    · rcases hsend c2 σ2 h2 with ⟨-, i2⟩ | ⟨-, h2⟩
      · exact absurd (hid.trans i2) (hrun c1 σ1 h1)
      · exact h.apart c1 c2 σ1 σ2 h1 h2 hid

/-- A value is taken. -/
lemma take (h : Registered w) (hc : w.state.channels c = .sender sender) :
    Registered ⟨takeValue w.state c sender, w.book.take w.state.currPid c⟩ := by
  have hl : ∀ c' x, (takeValue w.state c sender).Listed c' x ↔ w.state.Listed c' x := fun c' x =>
    ChanState.listed_update takeValue_channels
      (fun l e => by rw [hc] at e; cases e) (fun l e => by cases e) x
  have hsend : ∀ c' σ, (takeValue w.state c sender).channels c' = .sender σ →
      c' ≠ c ∧ w.state.channels c' = .sender σ := by
    intro c' σ hσ
    rw [takeValue_channels] at hσ
    by_cases e : c' = c
    · subst e
      rw [Function.update_self] at hσ
      cases hσ
    · rw [Function.update_of_ne e] at hσ
      exact ⟨e, hσ⟩
  refine ⟨fun c' e => ?_, fun c' x hx => h.listed c' x ((hl c' x).mp hx), fun p q hp => ?_,
    fun c' σ hσ => ?_, fun c1 c2 σ1 σ2 h1 h2 hid => ?_⟩
  · rw [takeValue_channels] at e
    by_cases hcc : c' = c
    · subst hcc
      rw [Function.update_self] at e
      cases e
    · rw [Function.update_of_ne hcc] at e
      exact h.nonempty c' e
  · obtain ⟨hb, hq⟩ := h.waits p q hp
    refine ⟨?_, fun c' hc' => (hl c' _).mpr (hq c' hc')⟩
    rw [takeValue_state, if_neg]
    · exact hb
    · rintro rfl
      rw [h.writes c sender hc] at hb
      cases hb
  · obtain ⟨hne, hσ⟩ := hsend c' σ hσ
    rw [takeValue_state, if_neg fun e => hne (h.apart c' c σ sender hσ hc e)]
    exact h.writes c' σ hσ
  · exact h.apart c1 c2 σ1 σ2 (hsend c1 σ1 h1).2 (hsend c2 σ2 h2).2 hid

/-- A receive waits. -/
lemma await (h : Registered w) (hr : w.state.Runnable w.state.currPid) {chans : List Nat}
    (hs : ∀ c ∈ chans, isSender (w.state.channels c) = false) :
    Registered ⟨awaitValue w.state chans,
      w.book.await w.state.currPid ⟨chans, w.state.currPrio⟩⟩ := by
  have hnone := h.not_pending hr
  -- the current process is put on the lists of its channels, and no one is taken off
  have hl : ∀ c x, (awaitValue w.state chans).Listed c x ↔
      w.state.Listed c x ∨ (c ∈ chans ∧ x = ⟨w.state.currPid, w.state.currPrio⟩) := by
    intro c x
    obtain ⟨hout, hin⟩ := notify_spec hs ⟨w.state.currPid, w.state.currPrio⟩ c
    unfold ChanState.Listed
    rw [awaitValue_channels]
    by_cases hc : c ∈ chans
    · obtain ⟨l, e, hme, hold, hkeep⟩ := hin hc
      rw [e]
      constructor
      · rintro ⟨l', e', hx⟩
        cases e'
        exact (hold x hx).elim (fun e => Or.inr ⟨hc, e⟩) Or.inl
      · rintro (⟨l', e', hx⟩ | ⟨-, rfl⟩)
        · exact ⟨l, rfl, hkeep l' e' x hx⟩
        · exact ⟨l, rfl, hme⟩
    · rw [hout hc]
      exact ⟨Or.inl, fun h => h.elim id fun h => absurd h.1 hc⟩
  -- no value is in the channels that are waited for
  have hsend : ∀ c σ, (awaitValue w.state chans).channels c = .sender σ →
      w.state.channels c = .sender σ := by
    intro c σ hσ
    obtain ⟨hout, hin⟩ := notify_spec hs ⟨w.state.currPid, w.state.currPrio⟩ c
    rw [awaitValue_channels] at hσ
    by_cases hc : c ∈ chans
    · obtain ⟨l, e, -⟩ := hin hc
      rw [e] at hσ
      cases hσ
    · rwa [hout hc] at hσ
  refine ⟨fun c e => ?_, fun c x hx => ?_, fun p q hp => ?_, fun c σ hσ => ?_,
    fun c1 c2 σ1 σ2 h1 h2 hid => h.apart c1 c2 σ1 σ2 (hsend c1 σ1 h1) (hsend c2 σ2 h2) hid⟩
  · obtain ⟨hout, hin⟩ := notify_spec hs ⟨w.state.currPid, w.state.currPrio⟩ c
    rw [awaitValue_channels] at e
    by_cases hc : c ∈ chans
    · obtain ⟨l, e', hme, -⟩ := hin hc
      rw [e'] at e
      cases e
      cases hme
    · rw [hout hc] at e
      exact h.nonempty c e
  · change ∃ q, Function.update w.book.pending w.state.currPid _ x.id = some q ∧ _
    rcases (hl c x).mp hx with hx | ⟨hc, rfl⟩
    · obtain ⟨q, hq, hmem⟩ := h.listed c x hx
      have hne : x.id ≠ w.state.currPid := by
        intro e
        rw [e, hnone] at hq
        cases hq
      rw [Function.update_of_ne hne]
      exact ⟨q, hq, hmem⟩
    · rw [Function.update_self]
      exact ⟨_, rfl, hc, rfl⟩
  · change Function.update w.book.pending w.state.currPid _ p = some q at hp
    rw [awaitValue_state]
    by_cases he : p = w.state.currPid
    · subst he
      rw [Function.update_self, Option.some_inj] at hp
      subst hp
      exact ⟨if_pos rfl, fun c hc => (hl c _).mpr (Or.inr ⟨hc, rfl⟩)⟩
    · rw [Function.update_of_ne he] at hp
      obtain ⟨hb, hq⟩ := h.waits p q hp
      exact ⟨(if_neg he).trans hb, fun c hc => (hl c _).mpr (Or.inl (hq c hc))⟩
  · have hw := h.writes c σ (hsend c σ hσ)
    rw [awaitValue_state, if_neg]
    · exact hw
    · intro e
      rw [e, hr] at hw
      cases hw

/-- A value is handed over. -/
lemma hand (h : Registered w) (hc : w.state.channels c = .receivers (head :: tail))
    (hf : head.prio = (taken head tail).prio → found tail = tail)
    (ho : ∀ c' l, w.state.channels c' = .receivers l →
      ∀ x ∈ if c' = c then l.erase (taken head tail) else l, x.id ≠ (taken head tail).id)
    (v : Int) :
    Registered ⟨handOver found w.state c v head tail, w.book.hand (taken head tail).id⟩ := by
  have hl := listed_handOver_once (v := v) hc hf ho
  have hsend : ∀ c' σ, (handOver found w.state c v head tail).channels c' = .sender σ →
      w.state.channels c' = .sender σ := by
    intro c' σ hσ
    rw [handOver_channels] at hσ
    by_cases e : c' = c
    · subst e
      rw [Function.update_self] at hσ
      split at hσ <;> cases hσ
    · rwa [Function.update_of_ne e] at hσ
  -- the receiver that is taken has a receive pending
  obtain ⟨q0, hq0, -, -⟩ := h.listed c _ (listed_taken hc)
  have hblocked := (h.waits _ q0 hq0).1
  refine ⟨fun c' e => ?_, fun c' x hx => ?_, fun p q hp => ?_, fun c' σ hσ => ?_,
    fun c1 c2 σ1 σ2 h1 h2 hid => h.apart c1 c2 σ1 σ2 (hsend c1 σ1 h1) (hsend c2 σ2 h2) hid⟩
  · rw [handOver_channels] at e
    by_cases hcc : c' = c
    · subst hcc
      rw [Function.update_self] at e
      split at e
      · cases e
      · rename_i hne
        exact hne (ChannelState.receivers.inj e)
    · rw [Function.update_of_ne hcc] at e
      exact h.nonempty c' e
  · obtain ⟨hx, hne⟩ := (hl c' x).mp hx
    change ∃ q, Function.update w.book.pending (taken head tail).id none x.id = some q ∧ _
    rw [Function.update_of_ne hne]
    exact h.listed c' x hx
  · change Function.update w.book.pending (taken head tail).id none p = some q at hp
    have hne : p ≠ (taken head tail).id := by
      rintro rfl
      rw [Function.update_self] at hp
      cases hp
    rw [Function.update_of_ne hne] at hp
    obtain ⟨hb, hq⟩ := h.waits p q hp
    rw [handOver_state, if_neg hne]
    exact ⟨hb, fun c' hc' => (hl c' _).mpr ⟨hq c' hc', hne⟩⟩
  · have hw := h.writes c' σ (hsend c' σ hσ)
    rw [handOver_state, if_neg]
    · exact hw
    · intro e
      rw [e, hblocked] at hw
      cases hw

/-- The receiver that is taken is the right one, if and only if it was registered once. -/
lemma rightReceiver_iff (h : Registered w) (hc : w.state.channels c = .receivers (head :: tail))
    (hf : head.prio = (taken head tail).prio → found tail = tail) (b : Book) :
    RightReceiver w ⟨handOver found w.state c v head tail, b⟩ c v (taken head tail) ↔
      ∀ c' l, w.state.channels c' = .receivers l →
        ∀ x ∈ if c' = c then l.erase (taken head tail) else l, x.id ≠ (taken head tail).id := by
  refine ⟨fun hr c' l hl x hx => hr.gone c' x ((listed_handOver hc hf c' x).mpr ⟨l, hl, hx⟩),
    fun ho => ?_⟩
  obtain ⟨q, hq, hmem, hprio⟩ := h.listed c _ (listed_taken hc)
  refine ⟨(h.waits _ q hq).1, ⟨q, hq, hmem, fun p q' _ hq' hc' => ?_⟩, fun c' x hx => ?_, ?_,
    handOver_savedContext⟩
  · obtain ⟨l, hl, hin⟩ := (h.waits p q' hq').2 c hc'
    rw [hc, ChannelState.receivers.injEq] at hl
    rw [hprio]
    exact (taken_spec head tail).2 _ (hl ▸ hin)
  · exact ((listed_handOver_once hc hf ho c' x).mp hx).2
  · exact (handOver_state _).trans (if_pos rfl)

end Registered

/-! ## The steps keep the numbers -/

namespace Numbered

lemma congr (h : Numbered w) (hch : t.channels = w.state.channels) : Numbered ⟨t, w.book⟩ := by
  obtain ⟨⟨m1, m2, m3, m4⟩, h1, h2, h3, h4, h5, h6⟩ := h
  unfold InChannel at m3
  rw [← hch] at m3 h3 h4
  exact ⟨⟨m1, m2, m3, m4⟩, h1, h2, h3, h4, h5, h6⟩

/-- A value waits. -/
lemma hold (h : Numbered w) (hc : w.state.channels c = .unused) (v : Int) :
    Numbered ⟨holdValue w.state c v, w.book.hold c⟩ := by
  have hsend : ∀ c' σ, (holdValue w.state c v).channels c' = .sender σ → c' ≠ c →
      w.state.channels c' = .sender σ := by
    intro c' σ hσ hne
    rwa [holdValue_channels, Function.update_of_ne hne] at hσ
  have hheld : (w.book.hold c).held c = w.book.sends := Function.update_self _ _ _
  have hother : ∀ c', c' ≠ c → (w.book.hold c).held c' = w.book.held c' := fun c' hne =>
    Function.update_of_ne hne _ _
  -- the value in the channel gets a number of its own
  have hin : ∀ n, n < w.book.sends →
      (InChannel ⟨holdValue w.state c v, w.book.hold c⟩ n ↔ InChannel w n) := by
    intro n hn
    constructor
    · rintro ⟨c', σ, hσ, he⟩
      have hne : c' ≠ c := by
        rintro rfl
        rw [hheld] at he
        omega
      exact ⟨c', σ, hsend c' σ hσ hne, (hother c' hne).symm.trans he⟩
    · rintro ⟨c', σ, hσ, he⟩
      have hne : c' ≠ c := by
        rintro rfl
        rw [hc] at hσ
        cases hσ
      refine ⟨c', σ, ?_, (hother c' hne).trans he⟩
      rw [holdValue_channels, Function.update_of_ne hne]
      exact hσ
  refine ⟨⟨h.matching.once, h.matching.atMostOne, fun n hn => ?_, h.matching.pending⟩,
    fun n hn => Nat.lt_succ_of_lt (h.sent n hn), h.received, fun c' σ hσ => ?_,
    fun c1 c2 σ1 σ2 h1 h2 he => ?_, h.latest, h.different⟩
  · rcases Nat.lt_succ_iff_lt_or_eq.mp hn with hlt | rfl
    · rw [hin n hlt]
      exact h.matching.delivered n hlt
    · refine ⟨fun hmem => absurd (h.sent _ hmem) (Nat.lt_irrefl _), fun hno => ?_⟩
      refine absurd ⟨c, ⟨w.state.currPid, w.state.currPrio, v⟩, ?_, hheld⟩ hno
      rw [holdValue_channels, Function.update_self]
  · by_cases hne : c' = c
    · rw [hne, hheld]
      exact Nat.lt_succ_self _
    · rw [hother c' hne]
      exact Nat.lt_succ_of_lt (h.held c' σ (hsend c' σ hσ hne))
  · by_cases e1 : c1 = c
    · by_cases e2 : c2 = c
      · rw [e1, e2]
      · rw [e1, hheld, hother c2 e2] at he
        have := h.held c2 σ2 (hsend c2 σ2 h2 e2)
        omega
    · by_cases e2 : c2 = c
      · rw [e2, hheld, hother c1 e1] at he
        have := h.held c1 σ1 (hsend c1 σ1 h1 e1)
        omega
      · rw [hother c1 e1, hother c2 e2] at he
        exact h.apart c1 c2 σ1 σ2 (hsend c1 σ1 h1 e1) (hsend c2 σ2 h2 e2) he

lemma mem_log_concat {β γ : Type} {l : List (β × γ)} {a x : β} {y : γ} :
    a ∈ (l ++ [(x, y)]).map Prod.fst ↔ a ∈ l.map Prod.fst ∨ a = x := by
  simp

lemma mem_log_concat' {β γ : Type} {l : List (β × γ)} {a y : γ} {x : β} :
    a ∈ (l ++ [(x, y)]).map Prod.snd ↔ a ∈ l.map Prod.snd ∨ a = y := by
  simp

/-- A value is taken. -/
lemma take (h : Numbered w) (hc : w.state.channels c = .sender sender)
    (hp : w.book.pending w.state.currPid = none) :
    Numbered ⟨takeValue w.state c sender, w.book.take w.state.currPid c⟩ := by
  have hsend : ∀ c' σ, (takeValue w.state c sender).channels c' = .sender σ ↔
      c' ≠ c ∧ w.state.channels c' = .sender σ := by
    intro c' σ
    rw [takeValue_channels]
    by_cases e : c' = c
    · subst e
      rw [Function.update_self]
      exact ⟨fun hσ => (by cases hσ), fun hσ => absurd rfl hσ.1⟩
    · rw [Function.update_of_ne e]
      exact ⟨fun hσ => ⟨e, hσ⟩, fun hσ => hσ.2⟩
  have hlt := h.held c sender hc
  -- a value that is in a channel has not been delivered
  have hnew : w.book.held c ∉ w.book.log.map Prod.fst := fun hmem =>
    (h.matching.delivered _ hlt).mp hmem ⟨c, sender, hc, rfl⟩
  have hne : ∀ p q, w.book.pending p = some q →
      (w.book.take w.state.currPid c).latest p = w.book.latest p := by
    intro p q hq
    refine Function.update_of_ne ?_ _ _
    rintro rfl
    rw [hp] at hq
    cases hq
  refine ⟨⟨?_, ?_, fun n hn => ?_, fun p q hq => ?_⟩, fun n hn => ?_, fun n hn => ?_,
    fun c' σ hσ => h.held c' σ ((hsend c' σ).mp hσ).2,
    fun c1 c2 σ1 σ2 h1 h2 he =>
      h.apart c1 c2 σ1 σ2 ((hsend c1 σ1).mp h1).2 ((hsend c2 σ2).mp h2).2 he,
    fun p q hq => ?_, fun p p' q q' hq hq' he => ?_⟩
  · change ((w.book.log ++ [_]).map Prod.fst).Nodup
    rw [List.map_append, List.nodup_append_comm]
    exact List.nodup_cons.mpr ⟨hnew, h.matching.once⟩
  · change ((w.book.log ++ [_]).map Prod.snd).Nodup
    rw [List.map_append, List.nodup_append_comm]
    exact List.nodup_cons.mpr
      ⟨fun hmem => absurd (h.received _ hmem) (Nat.lt_irrefl _), h.matching.atMostOne⟩
  · refine mem_log_concat.trans ?_
    rw [h.matching.delivered n hn]
    constructor
    · rintro (hno | rfl) ⟨c', σ, hσ, he⟩
      · exact hno ⟨c', σ, ((hsend c' σ).mp hσ).2, he⟩
      · obtain ⟨hne, hσ⟩ := (hsend c' σ).mp hσ
        exact hne (h.apart c' c σ sender hσ hc he)
    · intro hno
      by_cases he : n = w.book.held c
      · exact Or.inr he
      · refine Or.inl ?_
        rintro ⟨c', σ, hσ, hn'⟩
        refine hno ⟨c', σ, (hsend c' σ).mpr ⟨?_, hσ⟩, hn'⟩
        rintro rfl
        exact he hn'.symm
  · rw [hne p q hq]
    refine fun hmem => (mem_log_concat'.mp hmem).elim (h.matching.pending p q hq) fun e => ?_
    have := h.latest p q hq
    omega
  · rcases mem_log_concat.mp hn with hn | rfl
    · exact h.sent n hn
    · exact hlt
  · rcases mem_log_concat'.mp hn with hn | rfl
    · exact Nat.lt_succ_of_lt (h.received n hn)
    · exact Nat.lt_succ_self _
  · rw [hne p q hq]
    exact Nat.lt_succ_of_lt (h.latest p q hq)
  · rw [hne p q hq, hne p' q' hq'] at he
    exact h.different p p' q q' hq hq' he

/-- A receive waits. -/
lemma await (h : Numbered w) {chans : List Nat} (q0 : Pending)
    (hs : ∀ c ∈ chans, isSender (w.state.channels c) = false) :
    Numbered ⟨awaitValue w.state chans, w.book.await w.state.currPid q0⟩ := by
  have hsend : ∀ c σ, (awaitValue w.state chans).channels c = .sender σ ↔
      w.state.channels c = .sender σ := by
    intro c σ
    obtain ⟨hout, hin⟩ := notify_spec hs ⟨w.state.currPid, w.state.currPrio⟩ c
    rw [awaitValue_channels]
    by_cases hc : c ∈ chans
    · obtain ⟨l, e, -⟩ := hin hc
      rw [e]
      refine ⟨fun hσ => (by cases hσ), fun hσ => ?_⟩
      have := hs c hc
      rw [hσ] at this
      cases this
    · rw [hout hc]
  have hcurr : (w.book.await w.state.currPid q0).latest w.state.currPid = w.book.receives :=
    Function.update_self _ _ _
  have hother : ∀ p, p ≠ w.state.currPid →
      (w.book.await w.state.currPid q0).latest p = w.book.latest p ∧
        (w.book.await w.state.currPid q0).pending p = w.book.pending p := fun p hp =>
    ⟨Function.update_of_ne hp _ _, Function.update_of_ne hp _ _⟩
  have hin : ∀ n, InChannel ⟨awaitValue w.state chans, w.book.await w.state.currPid q0⟩ n ↔
      InChannel w n := by
    intro n
    unfold InChannel
    simp only [hsend]
    rfl
  refine ⟨⟨h.matching.once, h.matching.atMostOne, fun n hn => ?_, fun p q hq hmem => ?_⟩, h.sent,
    fun n hn => Nat.lt_succ_of_lt (h.received n hn),
    fun c σ hσ => h.held c σ ((hsend c σ).mp hσ),
    fun c1 c2 σ1 σ2 h1 h2 he => h.apart c1 c2 σ1 σ2 ((hsend c1 σ1).mp h1) ((hsend c2 σ2).mp h2) he,
    fun p q hq => ?_, fun p p' q q' hq hq' he => ?_⟩
  · rw [hin]
    exact h.matching.delivered n hn
  · by_cases hp : p = w.state.currPid
    · subst hp
      rw [hcurr] at hmem
      exact absurd (h.received _ hmem) (Nat.lt_irrefl _)
    · rw [(hother p hp).2] at hq
      rw [(hother p hp).1] at hmem
      exact h.matching.pending p q hq hmem
  · by_cases hp : p = w.state.currPid
    · subst hp
      rw [hcurr]
      exact Nat.lt_succ_self _
    · rw [(hother p hp).2] at hq
      rw [(hother p hp).1]
      exact Nat.lt_succ_of_lt (h.latest p q hq)
  · by_cases hp : p = w.state.currPid
    · by_cases hp' : p' = w.state.currPid
      · rw [hp, hp']
      · rw [(hother p' hp').2] at hq'
        rw [hp, hcurr, (hother p' hp').1] at he
        have := h.latest p' q' hq'
        omega
    · rw [(hother p hp).2] at hq
      by_cases hp' : p' = w.state.currPid
      · rw [hp', hcurr, (hother p hp).1] at he
        have := h.latest p q hq
        omega
      · rw [(hother p' hp').2] at hq'
        rw [(hother p hp).1, (hother p' hp').1] at he
        exact h.different p p' q q' hq hq' he

/-- A value is handed over to a pending receive. -/
lemma hand (h : Numbered w) (hc : w.state.channels c = .receivers (head :: tail)) {q0 : Pending}
    (hq0 : w.book.pending (taken head tail).id = some q0) (v : Int) :
    Numbered ⟨handOver found w.state c v head tail, w.book.hand (taken head tail).id⟩ := by
  have hsend : ∀ c' σ, (handOver found w.state c v head tail).channels c' = .sender σ ↔
      w.state.channels c' = .sender σ := by
    intro c' σ
    rw [handOver_channels]
    by_cases e : c' = c
    · subst e
      rw [Function.update_self, hc]
      refine ⟨fun hσ => ?_, fun hσ => by cases hσ⟩
      split at hσ <;> cases hσ
    · rw [Function.update_of_ne e]
  have hin : ∀ n, InChannel
      ⟨handOver found w.state c v head tail, w.book.hand (taken head tail).id⟩ n ↔
      InChannel w n := by
    intro n
    unfold InChannel
    simp only [hsend]
    rfl
  -- the receive that the value goes to is no longer pending
  have hpend : ∀ p q, (w.book.hand (taken head tail).id).pending p = some q →
      p ≠ (taken head tail).id ∧ w.book.pending p = some q := by
    intro p q hq
    change Function.update w.book.pending (taken head tail).id none p = some q at hq
    by_cases hp : p = (taken head tail).id
    · subst hp
      rw [Function.update_self] at hq
      cases hq
    · rw [Function.update_of_ne hp] at hq
      exact ⟨hp, hq⟩
  refine ⟨⟨?_, ?_, fun n hn => ?_, fun p q hq hmem => ?_⟩, fun n hn => ?_, fun n hn => ?_,
    fun c' σ hσ => Nat.lt_succ_of_lt (h.held c' σ ((hsend c' σ).mp hσ)),
    fun c1 c2 σ1 σ2 h1 h2 he => h.apart c1 c2 σ1 σ2 ((hsend c1 σ1).mp h1) ((hsend c2 σ2).mp h2) he,
    fun p q hq => h.latest p q (hpend p q hq).2,
    fun p p' q q' hq hq' he => h.different p p' q q' (hpend p q hq).2 (hpend p' q' hq').2 he⟩
  · change ((w.book.log ++ [_]).map Prod.fst).Nodup
    rw [List.map_append, List.nodup_append_comm]
    exact List.nodup_cons.mpr
      ⟨fun hmem => absurd (h.sent _ hmem) (Nat.lt_irrefl _), h.matching.once⟩
  · change ((w.book.log ++ [_]).map Prod.snd).Nodup
    rw [List.map_append, List.nodup_append_comm]
    exact List.nodup_cons.mpr ⟨h.matching.pending _ q0 hq0, h.matching.atMostOne⟩
  · rw [hin]
    refine mem_log_concat.trans ?_
    rcases Nat.lt_succ_iff_lt_or_eq.mp hn with hlt | rfl
    · rw [← h.matching.delivered n hlt]
      exact or_iff_left (Nat.ne_of_lt hlt)
    · refine ⟨fun _ => ?_, fun _ => Or.inr rfl⟩
      rintro ⟨c', σ, hσ, he⟩
      have := h.held c' σ hσ
      omega
  · obtain ⟨hne, hq⟩ := hpend p q hq
    rcases mem_log_concat'.mp hmem with hmem | e
    · exact h.matching.pending p q hq hmem
    · exact hne (h.different p _ q q0 hq hq0 e)
  · rcases mem_log_concat.mp hn with hn | rfl
    · exact Nat.lt_succ_of_lt (h.sent n hn)
    · exact Nat.lt_succ_self _
  · rcases mem_log_concat'.mp hn with hn | rfl
    · exact h.received n hn
    · exact h.latest _ q0 hq0

end Numbered

/-! ## Runs -/

lemma World.Initial.registered (h : w.Initial) : Registered w := by
  refine ⟨fun c e => ?_, fun c x hx => ?_, fun p q hp => ?_, fun c σ hσ => ?_,
    fun c _ σ _ hσ _ _ => ?_⟩
  · rw [h.unused c] at e
    cases e
  · obtain ⟨l, e, -⟩ := hx
    rw [h.unused c] at e
    cases e
  · rw [h.pending p] at hp
    cases hp
  · rw [h.unused c] at hσ
    cases hσ
  · rw [h.unused c] at hσ
    cases hσ

lemma World.Initial.numbered (h : w.Initial) : Numbered w := by
  refine ⟨⟨?_, ?_, fun n hn => ?_, fun p q hp => ?_⟩, ?_, ?_, fun c σ hσ => ?_,
    fun c _ σ _ hσ _ _ => ?_, fun p q hp => ?_, fun p _ q _ hp _ _ => ?_⟩
  · rw [h.log]
    exact List.nodup_nil
  · rw [h.log]
    exact List.nodup_nil
  · rw [h.counts.1] at hn
    exact absurd hn (Nat.not_lt_zero n)
  · rw [h.pending p] at hp
    cases hp
  · rw [h.log]
    exact fun n hn => absurd hn List.not_mem_nil
  · rw [h.log]
    exact fun n hn => absurd hn List.not_mem_nil
  · rw [h.unused c] at hσ
    cases hσ
  · rw [h.unused c] at hσ
    cases hσ
  · rw [h.pending p] at hp
    cases hp
  · rw [h.pending p] at hp
    cases hp

lemma scSend_hands {chanid : Int} (h : Hands s chanid c head tail) :
    scSend found s chanid v = some (handOver found s c v head tail) := by
  obtain ⟨⟨h0, h1⟩, rfl, hc⟩ := h
  unfold scSend
  rw [if_neg (by omega), hc]

/-- What one step keeps. -/
lemma ChanStep.preserves (hr : Registered w) (hn : Numbered w) (hclean : Clean w e)
    (st : ChanStep w e w') : Registered w' ∧ Numbered w' := by
  cases st with
  | switch hp prio => exact ⟨hr.congr rfl switchTo_state, hn.congr rfl⟩
  | @send found chanid v t hrun ht =>
    rcases scSend_cases ht w.book with ⟨rfl, hb⟩ | ⟨c, head, tail, hh, rfl, hb⟩ | ⟨c, hc, rfl, hb⟩
    · rw [hb]
      exact ⟨hr.congr rfl fun _ => rfl, hn.congr rfl⟩
    · rw [hb]
      obtain ⟨q, hq, -⟩ := hr.listed c _ (listed_taken hh.receivers)
      exact ⟨hr.hand hh.receivers (hclean.1 found chanid v rfl c head tail hh)
        (hclean.2 found chanid v rfl c head tail hh) v, hn.hand hh.receivers hq v⟩
    · rw [hb]
      exact ⟨hr.hold hrun hc v, hn.hold hc v⟩
  | receive hrun hchans =>
    rename_i chans
    rcases scReceive_cases w.state chans w.book with ⟨ht, hb⟩ | ⟨c, σ, hc, ht, hb⟩ | ⟨hs, ht, hb⟩
    · rw [ht, hb]
      exact ⟨hr.congr rfl fun _ => rfl, hn.congr rfl⟩
    · rw [ht, hb]
      exact ⟨hr.take hc, hn.take hc (hr.not_pending hrun)⟩
    · rw [ht, hb]
      exact ⟨hr.await hrun hs, hn.await _ hs⟩

/-- What a run keeps. -/
lemma clean_run {w0 : World} {es : List ChanEvent} (h0 : w0.Initial)
    (r : Run (Guarded Clean ChanStep) w0 es w) : Registered w ∧ Numbered w :=
  r.invariant (I := fun w => Registered w ∧ Numbered w)
    (fun _ _ _ h st => st.2.preserves h.1 h.2 st.1) ⟨h0.registered, h0.numbered⟩

/-- After any calls of which each one that hands a value over meets the condition, the values and
the receives match. In such a state the next value goes to the right receiver if and only if that
is registered once. -/
theorem rendezvous (w0 w : World) (es : List ChanEvent) (h0 : w0.Initial)
    (r : Run (Guarded Clean ChanStep) w0 es w) :
    Matching w ∧ ∀ e w', Readable w e → ChanStep w e w' →
      (HandsRight w e w' ↔ RegisteredOnce w e) := by
  obtain ⟨hr, hn⟩ := clean_run h0 r
  refine ⟨hn.matching, fun e w' hread st => ?_⟩
  have key : ∀ found chanid v, e = .send found chanid v → ∀ c head tail,
      Hands w.state chanid c head tail → (RightReceiver w w' c v (taken head tail) ↔
        ∀ c' l, w.state.channels c' = .receivers l →
          ∀ x ∈ if c' = c then l.erase (taken head tail) else l, x.id ≠ (taken head tail).id) := by
    rintro found chanid v rfl c head tail hh
    cases st with
    | send hrun ht =>
      rw [scSend_hands hh, Option.some_inj] at ht
      subst ht
      exact hr.rightReceiver_iff hh.receivers (hread found chanid v rfl c head tail hh) _
  exact ⟨fun h found chanid v he c head tail hh =>
      (key found chanid v he c head tail hh).mp (h found chanid v he c head tail hh),
    fun h found chanid v he c head tail hh =>
      (key found chanid v he c head tail hh).mpr (h found chanid v he c head tail hh)⟩

/-! ### Two processes -/

/-- No channel is in use, and all processes can run. -/
def startWorld : World where
  state :=
    { channels := fun _ => .unused
      processes := fun _ => ⟨.runnable, fun _ => 0⟩
      registers := fun _ => 0
      currPid := 0
      currPrio := 0 }
  book := ⟨0, 0, fun _ => none, fun _ => 0, fun _ => 0, []⟩

/-- Process 0 waits on the channels, then process 1 runs. -/
def waitingWorld (chans : List Nat) : World where
  state := switchTo (scReceive startWorld.state chans) 1 0
  book := startWorld.book.receive startWorld.state chans

/-- The value 7 on channel 1 is handed over. -/
def handedWorld (chans : List Nat) : World where
  state := handOver id (waitingWorld chans).state 1 7 ⟨0, 0⟩ []
  book := (waitingWorld chans).book.send (waitingWorld chans).state 1

lemma startWorld_initial : startWorld.Initial := ⟨fun _ => rfl, fun _ => rfl, ⟨rfl, rfl⟩, rfl⟩

/-- What does not send meets the condition. -/
lemma clean_of_not_send (h : ∀ found chanid v, e ≠ .send found chanid v) : Clean w e :=
  ⟨fun found chanid v he => absurd he (h found chanid v),
    fun found chanid v he => absurd he (h found chanid v)⟩

lemma waitingWorld_run (chans : List Nat) (hc : ∀ c ∈ chans, c < NUM_CHANNELS)
    (hr : (scReceive startWorld.state chans).Runnable 1) :
    Run (Guarded Clean ChanStep) startWorld ([.receive chans] ++ [.switch 1 0])
      (waitingWorld chans) :=
  (Run.single ⟨clean_of_not_send fun _ _ _ => nofun, .receive rfl hc⟩).snoc
    ⟨clean_of_not_send fun _ _ _ => nofun, .switch hr 0⟩

/-- A receive of one channel is registered once. -/
lemma registeredOnce_one : RegisteredOnce (waitingWorld [1]) (.send id 1 7) := by
  intro found chanid v he c head tail hh c' l hl x hx
  cases he
  obtain ⟨-, rfl, hc⟩ := hh
  have hch : (waitingWorld [1]).state.channels =
      Function.update (fun _ => .unused) 1 (.receivers [⟨0, 0⟩]) := rfl
  rw [hch] at hl
  cases hc
  by_cases e : c' = 1
  · subst e
    cases hl
    exact absurd hx List.not_mem_nil
  · rw [Function.update_of_ne e] at hl
    cases hl

/-- It is served. -/
theorem rendezvous_one : ∃ w', ChanStep (waitingWorld [1]) (.send id 1 7) w' ∧
    HandsRight (waitingWorld [1]) (.send id 1 7) w' := by
  have hh : Hands (waitingWorld [1]).state 1 1 ⟨0, 0⟩ [] := ⟨by decide, rfl, rfl⟩
  have st : ChanStep (waitingWorld [1]) (.send id 1 7) _ := .send rfl (scSend_hands hh)
  have hread : Readable (waitingWorld [1]) (.send id 1 7) := by
    intro found chanid v he
    cases he
    exact fun _ _ _ _ _ => rfl
  have r := waitingWorld_run [1] (by decide) rfl
  exact ⟨_, st, ((rendezvous startWorld _ _ startWorld_initial r).2 _ _ hread st).mpr
    registeredOnce_one⟩

/-- A receive of two channels gets two values. -/
theorem rendezvous_twice : ∃ w, startWorld.Initial ∧
    Run ChanStep startWorld [.receive [1, 2], .switch 1 0, .send id 1 7, .send id 2 8] w ∧
    ¬ Matching w := by
  have h1 : Hands (waitingWorld [1, 2]).state 1 1 ⟨0, 0⟩ [] := ⟨by decide, rfl, rfl⟩
  have h2 : Hands (handedWorld [1, 2]).state 2 2 ⟨0, 0⟩ [] := ⟨by decide, rfl, rfl⟩
  have s1 : ChanStep (waitingWorld [1, 2]) (.send id 1 7) (handedWorld [1, 2]) :=
    .send rfl (scSend_hands h1)
  have s2 : ChanStep (handedWorld [1, 2]) (.send id 2 8) _ := .send rfl (scSend_hands h2)
  have r := (waitingWorld_run [1, 2] (by decide) rfl).of_guarded
  refine ⟨_, startWorld_initial, (r.snoc s1).snoc s2, fun h => ?_⟩
  have hn := h.atMostOne
  revert hn
  decide

end MarioBrOS.Kernel
