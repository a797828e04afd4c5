import InstantMessenger.Foundations.Transition
import InstantMessenger.Server.Group

/-!
# The queue between the producers and the consumer of a group

`addMessageToMessageQueue` pushes a message and then unlocks
`mutex_consumer_producer`; `consumeMessageQueue` locks that mutex and then drains
the queue until it finds it empty.  The mutex is never unlocked by the thread that
locked it: it is a **binary flag** that every producer sets and only the consumer
clears, so two pushes before one wake-up leave one flag.

* `QueueThreads`, `queueThreads` — any number of producers and the consumer, a step
  for each section under `messageQueueSemaphore` and for each use of the mutex.
* `QueueThreads.Wakeable` — **the invariant**: over a waiting message the consumer
  sleeps only while the flag is set or a producer is still to set it.
* `QueueThreads.no_lost_wakeup` — a waiting message never meets a sleeping consumer,
  and the consumer processes what was pushed, in the order of the pushes.
-/

namespace InstantMessenger

/-- Where the consumer thread is in `consumeMessageQueue`. -/
inductive QueueConsumer where
  /-- At `pthread_mutex_lock`. -/
  | locking
  /-- At the head of the inner loop. -/
  | draining
  | popped (m : Message)
  | appended (m : Message)
  deriving DecidableEq, Repr

/-- The message the consumer is at work on. -/
def QueueConsumer.inHand : QueueConsumer → List Message
  | .locking => []
  | .draining => []
  | .popped m => [m]
  | .appended m => [m]

/-- The message the consumer has still to write to the history. -/
def QueueConsumer.toAppend : QueueConsumer → List Message
  | .popped m => [m]
  | _ => []

/-- Where a producer thread is in `addMessageToMessageQueue`. -/
inductive Producer where
  | idle
  /-- Its message is in the queue, the mutex is not unlocked yet. -/
  | pushed
  deriving DecidableEq, Repr

/-- The queue of a group, its mutex and its threads.  `pushed`, `stored` and
`processed` list the messages pushed, written to the history and done with. -/
structure QueueThreads where
  messages_queue : List Message
  /-- `mutex_consumer_producer` is not locked. -/
  unlocked : Bool
  consumer : QueueConsumer
  producers : List Producer
  pushed : List Message
  stored : List Message
  processed : List Message
  /-- What was broadcast: nothing while the server is a replica. -/
  broadcasts : List Message
  deriving DecidableEq, Repr

/-- A step of one of the threads. -/
inductive QueueStep where
  | push (producer : Nat) (message : Message)
  | unlock (producer : Nat)
  | lock
  /-- The section under `messageQueueSemaphore`: the queue is empty, or its front is
  popped. -/
  | drain
  | append
  | broadcast (isPrimaryServer : Bool)
  deriving DecidableEq, Repr

namespace QueueThreads

/-- What a step does. -/
def step (s : QueueThreads) : QueueStep → Option QueueThreads
  | .push p m =>
    if s.producers[p]? = some .idle then
      some { s with
        messages_queue := s.messages_queue ++ [m]
        pushed := s.pushed ++ [m]
        producers := s.producers.set p .pushed }
    else none
  | .unlock p =>
    if s.producers[p]? = some .pushed then
      some { s with unlocked := true, producers := s.producers.set p .idle }
    else none
  | .lock =>
    if s.consumer = .locking ∧ s.unlocked = true then
      some { s with unlocked := false, consumer := .draining }
    else none
  | .drain =>
    match s.consumer, s.messages_queue with
    | .draining, [] => some { s with consumer := .locking }
    | .draining, m :: rest => some { s with messages_queue := rest, consumer := .popped m }
    | _, _ => none
  | .append =>
    match s.consumer with
    | .popped m => some { s with stored := s.stored ++ [m], consumer := .appended m }
    | _ => none
  | .broadcast isPrimaryServer =>
    match s.consumer with
    | .appended m =>
      some { s with
        broadcasts := if isPrimaryServer then s.broadcasts ++ [m] else s.broadcasts
        processed := s.processed ++ [m]
        consumer := .draining }
    | _ => none

/-- The constructor of the group locks the mutex and starts the consumer. -/
structure Start (s : QueueThreads) : Prop where
  messages_queue : s.messages_queue = []
  unlocked : s.unlocked = false
  consumer : s.consumer = .locking
  producers : ∀ p ∈ s.producers, p = .idle
  pushed : s.pushed = []
  stored : s.stored = []
  processed : s.processed = []
  broadcasts : s.broadcasts = []

/-- The producers and the consumer of a group. -/
def queueThreads : Transition.System QueueThreads QueueStep where
  init := Start
  step := step

/-- The consumer is at `pthread_mutex_lock` and cannot take the mutex. -/
def Blocked (s : QueueThreads) : Prop :=
  s.consumer = .locking ∧ s.step .lock = none

theorem blocked_iff {s : QueueThreads} :
    s.Blocked ↔ s.consumer = .locking ∧ s.unlocked = false := by
  unfold Blocked
  constructor
  · rintro ⟨hc, hlock⟩
    refine ⟨hc, ?_⟩
    cases hu : s.unlocked with
    | false => rfl
    | true => simp [step, hc, hu] at hlock
  · rintro ⟨hc, hu⟩
    exact ⟨hc, by simp [step, hu]⟩

/-! ## What a step does -/

section Steps

variable {s t : QueueThreads}

theorem step_push {p : Nat} {m : Message} (h : s.step (.push p m) = some t) :
    s.producers[p]? = some .idle ∧
      t = { s with
        messages_queue := s.messages_queue ++ [m]
        pushed := s.pushed ++ [m]
        producers := s.producers.set p .pushed } := by
  simp only [step] at h
  split at h
  · rename_i hp
    exact ⟨hp, (Option.some.inj h).symm⟩
  · cases h

theorem step_unlock {p : Nat} (h : s.step (.unlock p) = some t) :
    s.producers[p]? = some .pushed ∧
      t = { s with unlocked := true, producers := s.producers.set p .idle } := by
  simp only [step] at h
  split at h
  · rename_i hp
    exact ⟨hp, (Option.some.inj h).symm⟩
  · cases h

theorem step_lock (h : s.step .lock = some t) :
    s.consumer = .locking ∧ t = { s with unlocked := false, consumer := .draining } := by
  simp only [step] at h
  split at h
  · rename_i hc
    exact ⟨hc.1, (Option.some.inj h).symm⟩
  · cases h

theorem step_drain (h : s.step .drain = some t) :
    s.consumer = .draining ∧
      ((s.messages_queue = [] ∧ t = { s with consumer := .locking }) ∨
        ∃ m rest, s.messages_queue = m :: rest ∧
          t = { s with messages_queue := rest, consumer := .popped m }) := by
  simp only [step] at h
  split at h
  · rename_i hc hq
    exact ⟨hc, .inl ⟨hq, (Option.some.inj h).symm⟩⟩
  · rename_i m rest hc hq
    exact ⟨hc, .inr ⟨m, rest, hq, (Option.some.inj h).symm⟩⟩
  · cases h

theorem step_append (h : s.step .append = some t) :
    ∃ m, s.consumer = .popped m ∧
      t = { s with stored := s.stored ++ [m], consumer := .appended m } := by
  simp only [step] at h
  split at h
  · rename_i m hc
    exact ⟨m, hc, (Option.some.inj h).symm⟩
  · cases h

theorem step_broadcast {b : Bool} (h : s.step (.broadcast b) = some t) :
    ∃ m, s.consumer = .appended m ∧
      t = { s with
        broadcasts := if b then s.broadcasts ++ [m] else s.broadcasts
        processed := s.processed ++ [m]
        consumer := .draining } := by
  simp only [step] at h
  split at h
  · rename_i m hc
    exact ⟨m, hc, (Option.some.inj h).symm⟩
  · cases h

end Steps

/-! ## The invariants -/

/-- A consumer that sleeps over a waiting message has a producer about to wake it. -/
def Wakeable (s : QueueThreads) : Prop :=
  s.consumer = .locking → s.messages_queue ≠ [] → s.unlocked = true ∨ .pushed ∈ s.producers

/-- Whatever moved last: only a push and an unlock leave the consumer asleep over a
waiting message. -/
theorem wakeable_of_step {s t : QueueThreads} {l : QueueStep} (h : s.step l = some t) :
    t.Wakeable := by
  intro hc hq
  cases l with
  | push p m =>
    obtain ⟨hp, rfl⟩ := step_push h
    -- the producer itself is still to unlock
    exact .inr (List.mem_set (List.getElem?_eq_some_iff.1 hp).1 _)
  | unlock p =>
    obtain ⟨-, rfl⟩ := step_unlock h
    exact .inl rfl
  | lock =>
    obtain ⟨-, rfl⟩ := step_lock h
    cases hc
  | drain =>
    obtain ⟨-, ⟨hempty, rfl⟩ | ⟨m, rest, -, rfl⟩⟩ := step_drain h
    · exact absurd hempty hq
    · cases hc
  | append =>
    obtain ⟨m, -, rfl⟩ := step_append h
    cases hc
  | broadcast b =>
    obtain ⟨m, -, rfl⟩ := step_broadcast h
    cases hc

/-- Every message pushed is done with, in the hands of the consumer or in the queue,
in the order of the pushes. -/
structure Ordered (s : QueueThreads) : Prop where
  pushed : s.processed ++ s.consumer.inHand ++ s.messages_queue = s.pushed
  stored : s.stored ++ s.consumer.toAppend = s.processed ++ s.consumer.inHand
  broadcasts : s.broadcasts.Sublist s.processed

theorem Ordered.move {s t : QueueThreads} {l : QueueStep} (hs : s.Ordered)
    (h : s.step l = some t) : t.Ordered := by
  obtain ⟨hpushed, hstored, hbroadcasts⟩ := hs
  cases l with
  | push p m =>
    obtain ⟨-, rfl⟩ := step_push h
    refine ⟨?_, hstored, hbroadcasts⟩
    rw [← hpushed, List.append_assoc _ s.messages_queue]
  | unlock p =>
    obtain ⟨-, rfl⟩ := step_unlock h
    exact ⟨hpushed, hstored, hbroadcasts⟩
  | lock =>
    obtain ⟨hc, rfl⟩ := step_lock h
    rw [hc] at hpushed hstored
    exact ⟨hpushed, hstored, hbroadcasts⟩
  | drain =>
    obtain ⟨hc, ⟨-, rfl⟩ | ⟨m, rest, hq, rfl⟩⟩ := step_drain h
    · rw [hc] at hpushed hstored
      exact ⟨hpushed, hstored, hbroadcasts⟩
    · rw [hc] at hpushed hstored
      rw [hq] at hpushed
      refine ⟨?_, ?_, hbroadcasts⟩
      · rw [← hpushed]
        simp [QueueConsumer.inHand]
      · simpa [QueueConsumer.inHand, QueueConsumer.toAppend] using hstored
  | append =>
    obtain ⟨m, hc, rfl⟩ := step_append h
    rw [hc] at hpushed hstored
    refine ⟨hpushed, ?_, hbroadcasts⟩
    simpa [QueueConsumer.inHand, QueueConsumer.toAppend] using hstored
  | broadcast b =>
    obtain ⟨m, hc, rfl⟩ := step_broadcast h
    rw [hc] at hpushed hstored
    refine ⟨?_, ?_, ?_⟩
    · simpa [QueueConsumer.inHand] using hpushed
    · simpa [QueueConsumer.inHand, QueueConsumer.toAppend] using hstored
    · cases b with
      | false => exact hbroadcasts.trans (List.sublist_append_left _ _)
      | true => exact hbroadcasts.append (List.Sublist.refl _)

theorem wakeable_of_reachable {s : QueueThreads} (h : queueThreads.Reachable s) : s.Wakeable := by
  refine h.invariant ?_ fun t l u _ hst => wakeable_of_step hst
  intro t ht _ hq
  exact absurd ht.messages_queue hq

theorem ordered_of_reachable {s : QueueThreads} (h : queueThreads.Reachable s) : s.Ordered := by
  refine h.invariant ?_ fun t l u ht hst => ht.move hst
  intro t ht
  refine ⟨?_, ?_, ?_⟩
  · simp [ht.processed, ht.consumer, ht.messages_queue, ht.pushed, QueueConsumer.inHand]
  · simp [ht.stored, ht.processed, ht.consumer, QueueConsumer.inHand, QueueConsumer.toAppend]
  · simp [ht.broadcasts]

/-! ## The results -/

/-- A message waits, and every producer has unlocked the mutex after its push: the
consumer is awake, or the mutex is free for it. -/
theorem not_blocked_of_waiting {s : QueueThreads} (h : queueThreads.Reachable s)
    (hq : s.messages_queue ≠ []) (hp : ∀ p ∈ s.producers, p ≠ .pushed) : ¬ s.Blocked := by
  intro hb
  obtain ⟨hc, hlocked⟩ := blocked_iff.1 hb
  rcases wakeable_of_reachable h hc hq with hunlocked | hpushed
  · rw [hlocked] at hunlocked
    cases hunlocked
  · exact hp _ hpushed rfl

/-- In a quiescent group everything pushed is processed. -/
theorem processed_of_blocked {s : QueueThreads} (h : queueThreads.Reachable s)
    (hp : ∀ p ∈ s.producers, p ≠ .pushed) (hb : s.Blocked) : s.processed = s.pushed := by
  have ho := (ordered_of_reachable h).pushed
  have hq : s.messages_queue = [] := by
    by_contra hne
    exact not_blocked_of_waiting h hne hp hb
  rw [hq, hb.1] at ho
  simpa [QueueConsumer.inHand] using ho

/-- **No lost wake-up.**  With a message in the queue and no producer about to unlock
the mutex, the consumer is not blocked on it; and what the consumer has written to the
history and what it is done with are the first messages pushed, each once. -/
theorem no_lost_wakeup {s : QueueThreads} (h : queueThreads.Reachable s) :
    (s.messages_queue ≠ [] → (∀ p ∈ s.producers, p ≠ .pushed) → ¬ s.Blocked) ∧
      s.stored <+: s.pushed ∧ s.processed <+: s.pushed := by
  have ho := ordered_of_reachable h
  refine ⟨not_blocked_of_waiting h, ?_, ?_⟩
  · rw [← ho.pushed, ← ho.stored, List.append_assoc]
    exact List.prefix_append _ _
  · rw [← ho.pushed, List.append_assoc]
    exact List.prefix_append _ _

/-- Two idle producers, nothing pushed. -/
def quietQueue : QueueThreads where
  messages_queue := []
  unlocked := false
  consumer := .locking
  producers := [.idle, .idle]
  pushed := []
  stored := []
  processed := []
  broadcasts := []

theorem start_quietQueue : Start quietQueue :=
  ⟨rfl, rfl, rfl, by simp [quietQueue], rfl, rfl, rfl, rfl⟩

/-- Two producers push one after the other and leave one flag; the consumer wakes up
for both messages and is done with the first. -/
def twoPushes : List QueueStep :=
  [.push 0 ⟨"hi".toList, "ana".toList, "g".toList, 1, false⟩,
    .push 1 ⟨"ho".toList, "bob".toList, "g".toList, 1, false⟩,
    .unlock 0, .unlock 1, .lock, .drain, .append, .broadcast true]

/-- After that run the second message waits and the consumer is not blocked. -/
theorem no_lost_wakeup_twoPushes :
    ∃ s, queueThreads.exec quietQueue twoPushes = some s ∧ ¬ s.Blocked ∧
      s.processed <+: s.pushed := by
  obtain ⟨s, hs⟩ : ∃ s, queueThreads.exec quietQueue twoPushes = some s :=
    Option.isSome_iff_exists.1 (by decide)
  have hreach : queueThreads.Reachable s :=
    Transition.System.reachable_of_exec start_quietQueue hs
  obtain ⟨hwake, -, hprefix⟩ := no_lost_wakeup hreach
  refine ⟨s, hs, hwake ?_ ?_, hprefix⟩
  · cases hs
    decide
  · cases hs
    decide

end QueueThreads

end InstantMessenger
