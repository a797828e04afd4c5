import Mathlib.Data.List.Infix
import InstantMessenger.Foundations.Transition

/-!
# The client's sender

`Client::sendToServer` pushes the packet of each input line into a queue and unlocks
`mutex_consumer`; `consumeMessagesToSendQueue` locks that mutex, drains the queue, and after
each packet it sends locks `mutex_ack`; `receiveFromServer` unlocks `mutex_ack` at each ACK.
Both mutexes are flags, unlocked by other threads than the one that locks them.

* `StopAndWait`, `stopAndWait` — the three threads, the connection and an environment that
  delivers at most one ACK for a packet, as a transition system over any type of packets.
* `StopAndWait.Counted` — **the invariant**: how many packets were sent, how many ACKs were
  handled, and what that makes of `mutex_ack`.
* `StopAndWait.stop_and_wait` — the packets are written in the order of the input, each once,
  one at a time; and no packet is left in the queue by a consumer that sleeps for nothing.
-/

namespace InstantMessenger

/-- Where the thread is in `consumeMessagesToSendQueue`. -/
inductive QueueSender (α : Type*) where
  /-- In front of `pthread_mutex_lock(&mutex_consumer)`. -/
  | locking
  /-- At the head of the inner loop. -/
  | draining
  /-- In front of `sendPacket`. -/
  | popped (message : α)
  /-- In front of `pthread_mutex_lock(&mutex_ack)`. -/
  | awaiting
  deriving DecidableEq, Repr

/-- The packet the consumer has popped and not sent. -/
def QueueSender.inHand {α : Type*} : QueueSender α → List α
  | .popped message => [message]
  | _ => []

/-- The threads of a client, its queue and its mutexes.  `inputs`, `sent` and `written` list
the packets pushed, passed to `sendPacket` and written to the socket; `delivered` counts the
ACKs that were read, `acknowledged` those that were handled. -/
structure StopAndWait (α : Type*) where
  messages_queue : List α
  /-- `mutex_consumer` is not locked. -/
  consumerUnlocked : Bool
  /-- `mutex_ack` is not locked. -/
  ackUnlocked : Bool
  /-- `Client::sendToServer` has pushed a packet, and is in front of its unlock. -/
  pushing : Bool
  consumer : QueueSender α
  /-- `receiveFromServer` has read an ACK, and is in front of its unlock. -/
  receiving : Bool
  isShutdown : Bool
  inputs : List α
  sent : List α
  written : List α
  delivered : Nat
  acknowledged : Nat
  deriving DecidableEq, Repr

namespace StopAndWait

variable {α : Type*}

/-- A step of one of the threads. -/
inductive Step (α : Type*) where
  /-- A line is read, and its packet is pushed. -/
  | push (message : α)
  | unlockConsumer
  | lockConsumer
  /-- The section under `messageQueueSemaphore`. -/
  | drain
  | send (succeeds : Bool)
  | lockAck
  /-- An ACK is read. -/
  | receive
  | unlockAck
  deriving DecidableEq, Repr

/-- What a step does.  A `write` that fails shuts the connection down; the environment
delivers no more ACKs than packets were written. -/
def step (s : StopAndWait α) : Step α → Option (StopAndWait α)
  | .push message =>
    if s.pushing then none
    else some { s with
      messages_queue := s.messages_queue ++ [message]
      inputs := s.inputs ++ [message]
      pushing := true }
  | .unlockConsumer =>
    if s.pushing then some { s with consumerUnlocked := true, pushing := false } else none
  | .lockConsumer =>
    match s.consumer, s.consumerUnlocked with
    | .locking, true => some { s with consumer := .draining, consumerUnlocked := false }
    | _, _ => none
  | .drain =>
    match s.consumer, s.messages_queue with
    | .draining, [] => some { s with consumer := .locking }
    | .draining, message :: rest =>
      some { s with messages_queue := rest, consumer := .popped message }
    | _, _ => none
  | .send succeeds =>
    match s.consumer with
    | .popped message =>
      if succeeds && !s.isShutdown then
        some { s with
          consumer := .awaiting
          sent := s.sent ++ [message]
          written := s.written ++ [message] }
      else
        some { s with consumer := .awaiting, sent := s.sent ++ [message], isShutdown := true }
    | _ => none
  | .lockAck =>
    match s.consumer, s.ackUnlocked with
    | .awaiting, true => some { s with consumer := .draining, ackUnlocked := false }
    | _, _ => none
  | .receive =>
    if s.receiving ∨ s.written.length ≤ s.delivered then none
    else some { s with receiving := true, delivered := s.delivered + 1 }
  | .unlockAck =>
    if s.receiving then
      some { s with receiving := false, ackUnlocked := true, acknowledged := s.acknowledged + 1 }
    else none

/-- The constructor of the client locks both mutexes. -/
def start : StopAndWait α where
  messages_queue := []
  consumerUnlocked := false
  ackUnlocked := false
  pushing := false
  consumer := .locking
  receiving := false
  isShutdown := false
  inputs := []
  sent := []
  written := []
  delivered := 0
  acknowledged := 0

/-- The threads of a client. -/
def stopAndWait (α : Type*) : Transition.System (StopAndWait α) (Step α) where
  init s := s = start
  step := step

/-- The consumer is in front of a mutex that it cannot lock. -/
def Blocked (s : StopAndWait α) : Prop :=
  (s.consumer = .locking ∧ s.step .lockConsumer = none) ∨
    (s.consumer = .awaiting ∧ s.step .lockAck = none)

/-- **The sender is right.** -/
structure Correct (s : StopAndWait α) : Prop where
  inOrder : s.written <+: s.inputs
  oneAtATime : s.written.length ≤ s.acknowledged + 1
  /-- Packets in the queue, all ACKs handled, no unlock to come: the consumer is awake. -/
  awake : s.messages_queue ≠ [] → s.acknowledged = s.sent.length → s.pushing = false → ¬ s.Blocked

/-! ## What a step does -/

/-- The steps, branch by branch. -/
inductive Moves (s : StopAndWait α) : Step α → StopAndWait α → Prop
  | push (message : α) :
      Moves s (.push message) { s with
        messages_queue := s.messages_queue ++ [message]
        inputs := s.inputs ++ [message]
        pushing := true }
  | unlockConsumer :
      Moves s .unlockConsumer { s with consumerUnlocked := true, pushing := false }
  | lockConsumer (hc : s.consumer = .locking) :
      Moves s .lockConsumer { s with consumer := .draining, consumerUnlocked := false }
  | drained (hc : s.consumer = .draining) (hq : s.messages_queue = []) :
      Moves s .drain { s with consumer := .locking }
  | popped (message : α) (rest : List α) (hc : s.consumer = .draining)
      (hq : s.messages_queue = message :: rest) :
      Moves s .drain { s with messages_queue := rest, consumer := .popped message }
  | written (message : α) (hc : s.consumer = .popped message) (hup : s.isShutdown = false) :
      Moves s (.send true) { s with
        consumer := .awaiting
        sent := s.sent ++ [message]
        written := s.written ++ [message] }
  | failed (message : α) (succeeds : Bool) (hc : s.consumer = .popped message) :
      Moves s (.send succeeds) { s with
        consumer := .awaiting
        sent := s.sent ++ [message]
        isShutdown := true }
  | lockAck (hc : s.consumer = .awaiting) (hu : s.ackUnlocked = true) :
      Moves s .lockAck { s with consumer := .draining, ackUnlocked := false }
  | receive (hr : s.receiving = false) (hd : s.delivered < s.written.length) :
      Moves s .receive { s with receiving := true, delivered := s.delivered + 1 }
  | unlockAck (hr : s.receiving = true) :
      Moves s .unlockAck { s with
        receiving := false
        ackUnlocked := true
        acknowledged := s.acknowledged + 1 }

theorem moves_of_step {s t : StopAndWait α} {l : Step α} (h : s.step l = some t) :
    s.Moves l t := by
  cases l with
  | push message =>
    simp only [step] at h
    split at h
    · cases h
    · exact Option.some.inj h ▸ .push message
  | unlockConsumer =>
    simp only [step] at h
    split at h
    · exact Option.some.inj h ▸ .unlockConsumer
    · cases h
  | lockConsumer =>
    simp only [step] at h
    split at h
    · rename_i hc _
      exact Option.some.inj h ▸ .lockConsumer hc
    · cases h
  | drain =>
    simp only [step] at h
    split at h
    · rename_i hc hq
      exact Option.some.inj h ▸ .drained hc hq
    · rename_i message rest hc hq
      exact Option.some.inj h ▸ .popped message rest hc hq
    · cases h
  | send succeeds =>
    simp only [step] at h
    split at h
    · rename_i message hc
      split at h
      · rename_i hs
        rw [Bool.and_eq_true, Bool.not_eq_true'] at hs
        obtain ⟨rfl, hup⟩ := hs
        exact Option.some.inj h ▸ .written message hc hup
      · exact Option.some.inj h ▸ .failed message succeeds hc
    · cases h
  | lockAck =>
    simp only [step] at h
    split at h
    · rename_i hc hu
      exact Option.some.inj h ▸ .lockAck hc hu
    · cases h
  | receive =>
    simp only [step] at h
    split at h
    · cases h
    · rename_i hfree
      rw [not_or, Bool.not_eq_true, not_le] at hfree
      exact Option.some.inj h ▸ .receive hfree.1 hfree.2
  | unlockAck =>
    simp only [step] at h
    split at h
    · rename_i hr
      exact Option.some.inj h ▸ .unlockAck hr
    · cases h

theorem blocked_iff {s : StopAndWait α} :
    s.Blocked ↔ (s.consumer = .locking ∧ s.consumerUnlocked = false) ∨
      (s.consumer = .awaiting ∧ s.ackUnlocked = false) := by
  refine or_congr (and_congr_right ?_) (and_congr_right ?_)
  · intro hc
    cases hu : s.consumerUnlocked <;> simp [step, hc, hu]
  · intro hc
    cases hu : s.ackUnlocked <;> simp [step, hc, hu]

/-! ## The invariants -/

/-- Everything pushed was sent, is in the hands of the consumer or in the queue; everything
sent was written, except after a `write` that failed. -/
structure Ordered (s : StopAndWait α) : Prop where
  inputs : s.sent ++ s.consumer.inHand ++ s.messages_queue = s.inputs
  written : s.written <+: s.sent
  all : s.isShutdown = false → s.written = s.sent

/-- The consumer waits for an ACK of its last packet or can lock `mutex_ack` for it; else
every packet has its ACK, and the mutex is locked. -/
structure Counted (s : StopAndWait α) : Prop where
  delivered : s.delivered ≤ s.written.length
  received : s.delivered = s.acknowledged + s.receiving.toNat
  awaiting : s.consumer = .awaiting → s.sent.length = s.acknowledged + (!s.ackUnlocked).toNat
  passed : s.consumer ≠ .awaiting → s.sent.length = s.acknowledged ∧ s.ackUnlocked = false

/-- A consumer that sleeps over a packet can lock `mutex_consumer`, now or after an unlock. -/
def Wakeable (s : StopAndWait α) : Prop :=
  s.consumer = .locking → s.messages_queue ≠ [] → s.consumerUnlocked = true ∨ s.pushing = true

variable {s t : StopAndWait α}

theorem Ordered.step {l : Step α} (h : Ordered s) (hm : s.Moves l t) : Ordered t := by
  obtain ⟨hinputs, hwritten, hall⟩ := h
  cases hm with
  | push message =>
    refine ⟨?_, hwritten, hall⟩
    rw [← hinputs, List.append_assoc _ s.messages_queue]
  | unlockConsumer => exact ⟨hinputs, hwritten, hall⟩
  | lockConsumer hc =>
    rw [hc] at hinputs
    exact ⟨hinputs, hwritten, hall⟩
  | drained hc =>
    rw [hc] at hinputs
    exact ⟨hinputs, hwritten, hall⟩
  | popped message rest hc hq =>
    rw [hc, hq] at hinputs
    refine ⟨?_, hwritten, hall⟩
    simpa [QueueSender.inHand] using hinputs
  | written message hc hup =>
    rw [hc] at hinputs
    have hsame := hall hup
    refine ⟨?_, ?_, fun _ => congrArg (· ++ [message]) hsame⟩
    · simpa [QueueSender.inHand] using hinputs
    · simp only [hsame]
      exact List.prefix_rfl
  | failed message _ hc =>
    rw [hc] at hinputs
    refine ⟨?_, hwritten.trans (List.prefix_append _ _), fun hup => absurd hup (by simp)⟩
    simpa [QueueSender.inHand] using hinputs
  | lockAck hc =>
    rw [hc] at hinputs
    exact ⟨hinputs, hwritten, hall⟩
  | receive => exact ⟨hinputs, hwritten, hall⟩
  | unlockAck => exact ⟨hinputs, hwritten, hall⟩

theorem Counted.step {l : Step α} (ho : Ordered s) (h : Counted s) (hm : s.Moves l t) :
    Counted t := by
  obtain ⟨hdelivered, hreceived, hawaiting, hpassed⟩ := h
  cases hm with
  | push | unlockConsumer => exact ⟨hdelivered, hreceived, hawaiting, hpassed⟩
  | lockConsumer hc =>
    have hpassed' := hpassed (by simp [hc])
    exact ⟨hdelivered, hreceived, fun h => absurd h (by simp), fun _ => hpassed'⟩
  | drained hc =>
    have hpassed' := hpassed (by simp [hc])
    exact ⟨hdelivered, hreceived, fun h => absurd h (by simp), fun _ => hpassed'⟩
  | popped message rest hc =>
    have hpassed' := hpassed (by simp [hc])
    exact ⟨hdelivered, hreceived, fun h => absurd h (by simp), fun _ => hpassed'⟩
  | written message hc =>
    obtain ⟨hsent, hlocked⟩ := hpassed (by simp [hc])
    refine ⟨?_, hreceived, ?_, fun h => absurd rfl h⟩
    · exact hdelivered.trans (by simp)
    · intro _
      simp [hsent, hlocked]
  | failed message _ hc =>
    obtain ⟨hsent, hlocked⟩ := hpassed (by simp [hc])
    refine ⟨hdelivered, hreceived, ?_, fun h => absurd rfl h⟩
    intro _
    simp [hsent, hlocked]
  | lockAck hc hu =>
    have hsent := hawaiting hc
    refine ⟨hdelivered, hreceived, fun h => absurd h (by simp), fun _ => ⟨?_, rfl⟩⟩
    simpa [hu] using hsent
  | receive hr hd =>
    refine ⟨hd, ?_, hawaiting, hpassed⟩
    simp only [hr, Bool.toNat_false] at hreceived
    simp [hreceived]
  | unlockAck hr =>
    -- an ACK was read, so a packet was sent that the consumer still waits for
    have hlen := ho.written.length_le
    simp only [hr, Bool.toNat_true] at hreceived
    have hwaits : s.consumer = .awaiting := by
      by_contra hc
      have hsent := (hpassed hc).1
      omega
    have hsent := hawaiting hwaits
    refine ⟨hdelivered, by simp [hreceived], ?_, fun h => absurd hwaits h⟩
    intro _
    cases hu : s.ackUnlocked with
    | true =>
      simp only [hu, Bool.not_true, Bool.toNat_false] at hsent
      omega
    | false =>
      simp only [hu, Bool.not_false, Bool.toNat_true] at hsent
      simp [hsent]

theorem wakeable_of_moves {l : Step α} (h : Wakeable s) (hm : s.Moves l t) : Wakeable t := by
  intro hc hq
  cases hm with
  | push => exact .inr rfl
  | unlockConsumer => exact .inl rfl
  | lockConsumer => cases hc
  | drained _ hempty => exact absurd hempty hq
  | popped => cases hc
  | written => cases hc
  | failed => cases hc
  | lockAck => cases hc
  | receive => exact h hc hq
  | unlockAck => exact h hc hq

/-! ## The result -/

theorem correct_of_invariants (ho : Ordered s) (hcount : Counted s) (hw : Wakeable s) :
    Correct s where
  inOrder := by
    apply ho.written.trans
    rw [← ho.inputs, List.append_assoc]
    exact List.prefix_append _ _
  oneAtATime := by
    have hlen := ho.written.length_le
    by_cases hc : s.consumer = .awaiting
    · have hsent := hcount.awaiting hc
      have hone := Bool.toNat_le (!s.ackUnlocked)
      omega
    · have hsent := (hcount.passed hc).1
      omega
  awake := by
    intro hq hall hpushing hblocked
    rcases blocked_iff.1 hblocked with ⟨hc, hlocked⟩ | ⟨hc, hlocked⟩
    · rcases hw hc hq with hunlocked | hunlocks
      · rw [hlocked] at hunlocked
        cases hunlocked
      · rw [hpushing] at hunlocks
        cases hunlocks
    · have hsent := hcount.awaiting hc
      simp only [hlocked, Bool.not_false, Bool.toNat_true] at hsent
      omega

/-- **Stop and wait.**  Whatever is typed and however the threads are scheduled: what is
written to the socket is the input in order, each packet once, with at most one
unacknowledged; and no packet waits in the queue while everything sent is acknowledged, no
unlock is due and the consumer is blocked. -/
theorem stop_and_wait (h : (stopAndWait α).Reachable s) : Correct s := by
  have hall : Ordered s ∧ Counted s ∧ Wakeable s := by
    refine Transition.System.Reachable.invariant
      (I := fun s => Ordered s ∧ Counted s ∧ Wakeable s) h ?_ ?_
    · rintro _ rfl
      refine ⟨⟨rfl, List.prefix_rfl, fun _ => rfl⟩, ⟨le_rfl, rfl, ?_, fun _ => ⟨rfl, rfl⟩⟩, ?_⟩
      · intro hc
        cases hc
      · intro _ hq
        exact absurd rfl hq
    · rintro s l t ⟨ho, hcount, hw⟩ hst
      have hm := moves_of_step hst
      exact ⟨ho.step hm, hcount.step ho hm, wakeable_of_moves hw hm⟩
  exact correct_of_invariants hall.1 hall.2.1 hall.2.2

/-- Two lines are typed; the ACK of the first packet comes before the consumer waits for
it, the second packet is written and not acknowledged. -/
def twoLines : List (Step Nat) :=
  [.push 1, .unlockConsumer, .lockConsumer, .drain, .push 2, .send true, .receive, .unlockAck,
    .lockAck, .drain, .send true, .unlockConsumer]

theorem stop_and_wait_twoLines :
    ∃ s, (stopAndWait Nat).exec start twoLines = some s ∧ s.written = [1, 2] ∧
      s.acknowledged = 1 ∧ Correct s := by
  obtain ⟨s, hs⟩ : ∃ s, (stopAndWait Nat).exec start twoLines = some s :=
    Option.isSome_iff_exists.1 (by decide)
  have hcorrect := stop_and_wait (Transition.System.reachable_of_exec rfl hs)
  refine ⟨s, hs, ?_, ?_, hcorrect⟩
  · cases hs
    rfl
  · cases hs
    rfl

end StopAndWait

end InstantMessenger
