import Mathlib.Data.List.Basic
import Mathlib.Logic.Function.Basic

/-!
# Channels

`sc_send` and `sc_receive` of `kernel.c`, on the state that the two functions use. A channel is
unused, holds the value of one sender, or has a list of receivers. A receiver is registered on all
the channels it listens to; `sc_send` takes it from the list of one of them.

The cell that is taken from the front of a list is freed before its tail is read. What is found
there is a parameter of the call, given the list that was there before.
-/

namespace MarioBrOS.Kernel

/-! ## The state -/

/-- `kernel.h`, `NUM_CHANNELS`. -/
def NUM_CHANNELS : Nat := 128

/-- The tag of `process_state`. -/
inductive ProcessTag where
  | free
  | blockedWriting
  | blockedReading
  | waiting
  | runnable
  | zombie
  deriving DecidableEq, Repr

/-- `kernel.h`, `cs_sender`. -/
structure CsSender where
  id : Nat
  prio : Int
  v : Int
  deriving DecidableEq, Repr

/-- `kernel.h`, `struct CsReceivers`, without the tail. -/
structure CsReceiver where
  id : Nat
  prio : Int
  deriving DecidableEq, Repr

/-- `kernel.h`, `channel_state`. -/
inductive ChannelState where
  | unused
  | sender (sender : CsSender)
  | receivers (receivers : List CsReceiver)
  deriving DecidableEq, Repr

/-- What the channels use of a process. -/
structure ChanProcess where
  state : ProcessTag
  savedContext : Nat → Int

/-- What the channels use of the state of the kernel. -/
structure ChanState where
  channels : Nat → ChannelState
  processes : Nat → ChanProcess
  registers : Nat → Int
  currPid : Nat
  currPrio : Int

namespace ChanState

/-- `s->registers[r] = x`. -/
def setRegister (s : ChanState) (r : Nat) (x : Int) : ChanState :=
  { s with registers := Function.update s.registers r x }

/-- `s->channels[c] = chan`. -/
def setChannel (s : ChanState) (c : Nat) (chan : ChannelState) : ChanState :=
  { s with channels := Function.update s.channels c chan }

/-- `s->processes[p].state = tag`. -/
def setState (s : ChanState) (p : Nat) (tag : ProcessTag) : ChanState :=
  { s with processes := Function.update s.processes p { s.processes p with state := tag } }

/-- `s->processes[p].saved_context[r] = x`. -/
def setContext (s : ChanState) (p r : Nat) (x : Int) : ChanState :=
  { s with
    processes := Function.update s.processes p
      { s.processes p with savedContext := Function.update (s.processes p).savedContext r x } }

end ChanState

/-! ## `sc_send` -/

/-- The loop that computes the maximum priority, with the receiver that has it. -/
def maxLoop : List CsReceiver → CsReceiver → CsReceiver
  | [], max => max
  | curr :: tail, max => maxLoop tail (if curr.prio > max.prio then curr else max)

/-- The walk that takes the first receiver with priority `prio` out of the tail. -/
def unlink (prio : Int) : List CsReceiver → List CsReceiver
  | curr :: next :: tail =>
    if next.prio ≠ prio then curr :: unlink prio (next :: tail) else curr :: tail
  | l => l

/-- The list without the receiver of priority `prio`. `found` is what is read from a freed cell. -/
def extract (found : List CsReceiver → List CsReceiver) (prio : Int) (head : CsReceiver)
    (tail : List CsReceiver) : List CsReceiver :=
  if head.prio = prio then found tail else unlink prio (head :: tail)

/-- The receiver is unblocked, with the value in its registers. -/
def unblock (s : ChanState) (max : CsReceiver) (c : Nat) (v : Int) : ChanState :=
  let s := s.setState max.id .runnable
  let s := s.setContext max.id 0 1
  let s := s.setContext max.id 1 c
  s.setContext max.id 2 v

/-- `kernel.c`, `sc_send`, for a channel with receivers. -/
def handOver (found : List CsReceiver → List CsReceiver) (s : ChanState) (c : Nat) (v : Int)
    (head : CsReceiver) (tail : List CsReceiver) : ChanState :=
  let max := maxLoop tail head
  let rest := extract found max.prio head tail
  let s := unblock s max c v
  let s := s.setChannel c (if rest = [] then .unused else .receivers rest)
  s.setRegister 0 1

/-- `kernel.c`, `sc_send`, for a channel that nobody listens to. -/
def holdValue (s : ChanState) (c : Nat) (v : Int) : ChanState :=
  let sender : CsSender := ⟨s.currPid, s.currPrio, v⟩
  let s := s.setState s.currPid .blockedWriting
  let s := s.setChannel c (.sender sender)
  s.setRegister 0 1

/-- `kernel.c`, `sc_send`. There is no channel with an empty list of receivers. -/
def scSend (found : List CsReceiver → List CsReceiver) (s : ChanState) (chanid v : Int) :
    Option ChanState :=
  if chanid < 0 ∨ chanid ≥ NUM_CHANNELS then
    some (s.setRegister 0 0)
  else
    match s.channels chanid.toNat with
    | .sender _ => some (s.setRegister 0 0)
    | .receivers [] => none
    | .receivers (head :: tail) => some (handOver found s chanid.toNat v head tail)
    | .unused => some (holdValue s chanid.toNat v)

/-! ## `sc_receive` -/

/-- Somebody is sending on the channel. -/
def isSender : ChannelState → Bool
  | .sender _ => true
  | _ => false

/-- The channel with one more receiver. -/
def addReceiver (elt : CsReceiver) : ChannelState → ChannelState
  | .unused => .receivers [elt]
  | .receivers l => .receivers (elt :: l)
  | .sender sender => .sender sender -- not reached: no channel of the list has a sender

/-- The loop that notifies the channels. -/
def notify (elt : CsReceiver) : List Nat → (Nat → ChannelState) → Nat → ChannelState
  | [], channels => channels
  | c :: chans, channels =>
    notify elt chans (Function.update channels c (addReceiver elt (channels c)))

/-- `kernel.c`, `sc_receive`, when `sender` sends on channel `c`. -/
def takeValue (s : ChanState) (c : Nat) (sender : CsSender) : ChanState :=
  let s := s.setChannel c .unused
  let s := s.setState sender.id .runnable
  let s := s.setRegister 0 1
  let s := s.setRegister 1 c
  s.setRegister 2 sender.v

/-- `kernel.c`, `sc_receive`, when nobody sends. -/
def awaitValue (s : ChanState) (chans : List Nat) : ChanState :=
  let s := s.setState s.currPid .blockedReading
  { s with channels := notify ⟨s.currPid, s.currPrio⟩ chans s.channels }

/-- `kernel.c`, `sc_receive`. -/
def scReceive (s : ChanState) (chans : List Nat) : ChanState :=
  if chans = [] then
    s.setRegister 0 0
  else
    match chans.find? fun c => isSender (s.channels c) with
    | some c =>
      match s.channels c with
      | .sender sender => takeValue s c sender
      | _ => s
    | none => awaitValue s chans

/-- Another process becomes current: the registers are saved and those of `p` are loaded. -/
def switchTo (s : ChanState) (p : Nat) (prio : Int) : ChanState :=
  let processes := Function.update s.processes s.currPid
    { s.processes s.currPid with savedContext := s.registers }
  { s with
    processes := processes
    registers := (processes p).savedContext
    currPid := p
    currPrio := prio }

variable {s : ChanState} {c c' p : Nat} {e head max : CsReceiver} {tail : List CsReceiver}
  {v x prio : Int} {tag : ProcessTag} {chan : ChannelState}

/-! ## What the updates change -/

namespace ChanState

@[simp] lemma setRegister_channels (r : Nat) : (s.setRegister r x).channels = s.channels := rfl
@[simp] lemma setRegister_processes (r : Nat) : (s.setRegister r x).processes = s.processes := rfl
@[simp] lemma setRegister_currPid (r : Nat) : (s.setRegister r x).currPid = s.currPid := rfl
@[simp] lemma setChannel_channels :
    (s.setChannel c chan).channels = Function.update s.channels c chan := rfl
@[simp] lemma setChannel_processes : (s.setChannel c chan).processes = s.processes := rfl
@[simp] lemma setState_channels : (s.setState p tag).channels = s.channels := rfl
@[simp] lemma setContext_channels (r : Nat) : (s.setContext p r x).channels = s.channels := rfl

/-- The state of a process after a change. -/
lemma setState_state (q : Nat) : ((s.setState p tag).processes q).state =
    if q = p then tag else (s.processes q).state := by
  by_cases h : q = p <;> simp [setState, h]

@[simp] lemma setContext_state (r q : Nat) :
    ((s.setContext p r x).processes q).state = (s.processes q).state := by
  by_cases h : q = p <;> simp [setContext, h]

@[simp] lemma setContext_savedContext (r : Nat) :
    ((s.setContext p r x).processes p).savedContext =
      Function.update (s.processes p).savedContext r x := by
  simp [setContext]

/-- The receiver `e` is registered on channel `c`. -/
def Listed (s : ChanState) (c : Nat) (e : CsReceiver) : Prop :=
  ∃ l, s.channels c = .receivers l ∧ e ∈ l

end ChanState

/-! ## The receiver that is taken -/

/-- The receiver of `sc_send` is the first one of the highest priority. -/
lemma maxLoop_split {l pre post : List CsReceiver} (hl : l = pre ++ max :: post)
    (hpre : ∀ e ∈ pre, e.prio < max.prio) (hpost : ∀ e ∈ post, e.prio ≤ max.prio)
    (tail : List CsReceiver) :
    ∃ pre' post', l ++ tail = pre' ++ maxLoop tail max :: post' ∧
      (∀ e ∈ pre', e.prio < (maxLoop tail max).prio) ∧
      ∀ e ∈ post', e.prio ≤ (maxLoop tail max).prio := by
  induction tail generalizing l pre max post with
  | nil => exact ⟨pre, post, by rw [List.append_nil, hl]; rfl, hpre, hpost⟩
  | cons curr tail ih =>
    rw [maxLoop, List.append_cons]
    by_cases hgt : curr.prio > max.prio
    · rw [if_pos hgt]
      refine ih (rfl : l ++ [curr] = l ++ curr :: []) (fun e he => ?_) (fun e he => by cases he)
      rw [hl, List.mem_append, List.mem_cons] at he
      rcases he with he | rfl | he
      · exact Int.lt_trans (hpre e he) hgt
      · exact hgt
      · exact Int.lt_of_le_of_lt (hpost e he) hgt
    · rw [if_neg hgt]
      have hl' : l ++ [curr] = pre ++ max :: (post ++ [curr]) := by rw [hl]; simp
      refine ih hl' hpre fun e he => ?_
      rw [List.mem_append, List.mem_singleton] at he
      rcases he with he | rfl
      · exact hpost e he
      · exact Int.not_lt.mp hgt

lemma unlink_split {pre post : List CsReceiver} (hpre : ∀ e ∈ pre, e.prio ≠ max.prio) :
    unlink max.prio (head :: (pre ++ max :: post)) = head :: (pre ++ post) := by
  induction pre generalizing head with
  | nil => exact if_neg (not_not_intro rfl)
  | cons next pre ih =>
    rw [List.cons_append, unlink, if_pos (hpre next List.mem_cons_self),
      ih fun e he => hpre e (List.mem_cons_of_mem next he)]
    rfl

/-- The receiver that `sc_send` takes from a list. -/
def taken (head : CsReceiver) (tail : List CsReceiver) : CsReceiver := maxLoop tail head

lemma taken_split (head : CsReceiver) (tail : List CsReceiver) :
    ∃ pre post, head :: tail = pre ++ taken head tail :: post ∧
      (∀ e ∈ pre, e.prio < (taken head tail).prio) ∧
      ∀ e ∈ post, e.prio ≤ (taken head tail).prio :=
  maxLoop_split (rfl : [head] = [] ++ head :: []) (fun _ he => absurd he List.not_mem_nil)
    (fun _ he => absurd he List.not_mem_nil) tail

lemma taken_spec (head : CsReceiver) (tail : List CsReceiver) :
    taken head tail ∈ head :: tail ∧ ∀ e ∈ head :: tail, e.prio ≤ (taken head tail).prio := by
  obtain ⟨pre, post, e, hpre, hpost⟩ := taken_split head tail
  rw [e]
  refine ⟨by simp, fun x hx => ?_⟩
  rw [List.mem_append, List.mem_cons] at hx
  rcases hx with hx | rfl | hx
  · exact Int.le_of_lt (hpre x hx)
  · exact Int.le_refl _
  · exact hpost x hx

/-- If the tail of a freed cell can still be read, the receiver is removed and nothing else. -/
lemma extract_eq_erase {found : List CsReceiver → List CsReceiver}
    (hf : head.prio = (taken head tail).prio → found tail = tail) :
    extract found (taken head tail).prio head tail = (head :: tail).erase (taken head tail) := by
  obtain ⟨pre, post, e, hpre, -⟩ := taken_split head tail
  generalize taken head tail = max at *
  have hne : ∀ e ∈ pre, e.prio ≠ max.prio := fun e he => Int.ne_of_lt (hpre e he)
  have hnotin : max ∉ pre := fun h => hne max h rfl
  rw [e, List.erase_append_right _ hnotin, List.erase_cons_head]
  unfold extract
  cases pre with
  | nil =>
    rw [List.nil_append, List.cons.injEq] at e
    rw [if_pos (by rw [e.1]), hf (by rw [e.1]), e.2, List.nil_append]
  | cons first pre =>
    rw [List.cons_append, List.cons.injEq] at e
    rw [if_neg (by rw [e.1]; exact hne first List.mem_cons_self), e.2, e.1,
      unlink_split fun x hx => hne x (List.mem_cons_of_mem first hx)]
    rfl

/-! ## Registering -/

/-- Who is registered after the loop of `sc_receive`, and which channels have a sender. -/
lemma notify_spec {chans : List Nat} {channels : Nat → ChannelState}
    (hs : ∀ c ∈ chans, isSender (channels c) = false) (e : CsReceiver) (c : Nat) :
    (c ∉ chans → notify e chans channels c = channels c) ∧
      (c ∈ chans → ∃ l, notify e chans channels c = .receivers l ∧ e ∈ l ∧
        (∀ x ∈ l, x = e ∨ ∃ l', channels c = .receivers l' ∧ x ∈ l') ∧
        ∀ l', channels c = .receivers l' → ∀ x ∈ l', x ∈ l) := by
  induction chans generalizing channels with
  | nil => exact ⟨fun _ => rfl, fun h => absurd h List.not_mem_nil⟩
  | cons c1 chans ih =>
    have hadd : ∃ l, addReceiver e (channels c1) = .receivers (e :: l) ∧
        ∀ x, x ∈ l ↔ ∃ l', channels c1 = .receivers l' ∧ x ∈ l' := by
      have h1 := hs c1 List.mem_cons_self
      cases hch : channels c1 with
      | unused => exact ⟨[], rfl, fun x => by simp⟩
      | receivers l => exact ⟨l, rfl, fun x => by simp⟩
      | sender sender =>
        rw [hch] at h1
        cases h1
    obtain ⟨l1, e1, hl1⟩ := hadd
    have hs' : ∀ c ∈ chans,
        isSender (Function.update channels c1 (addReceiver e (channels c1)) c) = false := by
      intro c2 h2
      by_cases hc : c2 = c1
      · rw [hc, Function.update_self, e1]
        rfl
      · rw [Function.update_of_ne hc]
        exact hs c2 (List.mem_cons_of_mem c1 h2)
    obtain ⟨hout, hin⟩ := ih hs'
    rw [notify]
    refine ⟨fun hc => ?_, fun hc => ?_⟩
    · rw [List.mem_cons, not_or] at hc
      rw [hout hc.2, Function.update_of_ne hc.1]
    · -- the channel may be named again further on
      by_cases hmem : c ∈ chans
      · obtain ⟨l, hl, he, hold, hkeep⟩ := hin hmem
        by_cases h1 : c = c1
        · subst h1
          rw [Function.update_self, e1] at hold hkeep
          refine ⟨l, hl, he, fun x hx => ?_, fun l' hl' x hx => ?_⟩
          · rcases hold x hx with rfl | ⟨l', hl', hx'⟩
            · exact Or.inl rfl
            · cases hl'
              rcases List.mem_cons.mp hx' with rfl | hx'
              · exact Or.inl rfl
              · exact Or.inr ((hl1 x).mp hx')
          · exact hkeep _ rfl x (List.mem_cons_of_mem e ((hl1 x).mpr ⟨l', hl', hx⟩))
        · rw [Function.update_of_ne h1] at hold hkeep
          exact ⟨l, hl, he, hold, hkeep⟩
      · obtain rfl : c = c1 := (List.mem_cons.mp hc).resolve_right hmem
        refine ⟨e :: l1, by rw [hout hmem, Function.update_self, e1], List.mem_cons_self,
          fun x hx => ?_, fun l' hl' x hx => List.mem_cons_of_mem e ((hl1 x).mpr ⟨l', hl', hx⟩)⟩
        rcases List.mem_cons.mp hx with rfl | hx
        · exact Or.inl rfl
        · exact Or.inr ((hl1 x).mp hx)

/-! ## What the calls do -/

/-- The call hands its value to a receiver on channel `c`. -/
structure Hands (s : ChanState) (chanid : Int) (c : Nat) (head : CsReceiver)
    (tail : List CsReceiver) : Prop where
  range : 0 ≤ chanid ∧ chanid < NUM_CHANNELS
  channel : c = chanid.toNat
  receivers : s.channels c = .receivers (head :: tail)

variable {found : List CsReceiver → List CsReceiver}

lemma handOver_channels : (handOver found s c v head tail).channels =
    Function.update s.channels c
      (if extract found (taken head tail).prio head tail = [] then .unused
        else .receivers (extract found (taken head tail).prio head tail)) := rfl

lemma handOver_state (q : Nat) : ((handOver found s c v head tail).processes q).state =
    if q = (taken head tail).id then .runnable else (s.processes q).state := by
  simp only [handOver, unblock, ChanState.setRegister_processes, ChanState.setChannel_processes,
    ChanState.setContext_state]
  exact ChanState.setState_state q

/-- What the receiver will find in its registers. -/
lemma handOver_savedContext : ∀ m,
    m = ((handOver found s c v head tail).processes (taken head tail).id).savedContext →
      m 0 = 1 ∧ m 1 = c ∧ m 2 = v := by
  rintro m rfl
  simp [handOver, unblock, taken]

lemma holdValue_channels : (holdValue s c v).channels =
    Function.update s.channels c (.sender ⟨s.currPid, s.currPrio, v⟩) := rfl

lemma holdValue_state (q : Nat) : ((holdValue s c v).processes q).state =
    if q = s.currPid then .blockedWriting else (s.processes q).state :=
  ChanState.setState_state q

variable {sender : CsSender}

lemma takeValue_channels : (takeValue s c sender).channels = Function.update s.channels c .unused :=
  rfl

lemma takeValue_state (q : Nat) : ((takeValue s c sender).processes q).state =
    if q = sender.id then .runnable else (s.processes q).state :=
  ChanState.setState_state q

lemma awaitValue_channels (chans : List Nat) : (awaitValue s chans).channels =
    notify ⟨s.currPid, s.currPrio⟩ chans s.channels := rfl

lemma awaitValue_state (chans : List Nat) (q : Nat) : ((awaitValue s chans).processes q).state =
    if q = s.currPid then .blockedReading else (s.processes q).state :=
  ChanState.setState_state q

lemma switchTo_state (q : Nat) :
    ((switchTo s p prio).processes q).state = (s.processes q).state := by
  by_cases h : q = s.currPid <;> simp [switchTo, h]

end MarioBrOS.Kernel
