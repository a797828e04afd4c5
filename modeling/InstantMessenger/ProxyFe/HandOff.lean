import Mathlib.Data.List.Infix
import InstantMessenger.Foundations.Transition

/-!
# The slot between the clients and the sender

`ProxyFE::processIncomingClientMessage` waits for `processing_message_semaphore`, writes the
message to the one slot there is, and unlocks `mutex_consumer_message`;
`ProxyFE::handleProcessingMessage` locks that mutex, sends what is in the slot, and posts the
semaphore.  The mutex is a flag: it is unlocked by another thread than the one that locks
it.

* `HandOff`, `handOff` — any number of client threads and the consumer, over any type of
  messages, as a transition system; a failed write is tried again.
* `HandOff.Phase` — **the invariant**: who has the slot, and with it what the semaphore, the
  flag and the threads look like.
* `HandOff.loses_nothing` — what the consumer passes to `sendToServer` is what was written to
  the slot, each message once and in order; nothing is overwritten before it was sent, and a
  message that waits in the slot never meets a blocked consumer.
-/

namespace InstantMessenger

/-- Where a client's thread is in `processIncomingClientMessage`. -/
inductive Incoming (α : Type*) where
  | idle
  /-- In front of `processing_message_semaphore->wait()`. -/
  | waiting (message : α)
  /-- In front of `processing_message = message`. -/
  | writing (message : α)
  /-- In front of `pthread_mutex_unlock`. -/
  | unlocking
  deriving DecidableEq, Repr

/-- The thread is between its `wait` and the end of its unlock. -/
def Incoming.inside {α : Type*} : Incoming α → Bool
  | .writing _ | .unlocking => true
  | .idle | .waiting _ => false

/-- Where the consumer is in `handleProcessingMessage`. -/
inductive Processing (α : Type*) where
  /-- At `pthread_mutex_lock`. -/
  | locking
  /-- In front of the call of `sendToServer`. -/
  | calling
  | sending (message : α)
  /-- In front of `processing_message_semaphore->post()`. -/
  | posting
  deriving DecidableEq, Repr

/-- The slot with its semaphore and its flag, and the threads.  `written`, `passed` and `sent`
list what was written to the slot, what `sendToServer` was called with, and what it has
sent. -/
structure HandOff (ι α : Type*) where
  processing_message_semaphore : Nat
  /-- `mutex_consumer_message` is not locked. -/
  unlocked : Bool
  processing_message : α
  clients : ι → Incoming α
  consumer : Processing α
  written : List α
  passed : List α
  sent : List α

namespace HandOff

variable {ι α : Type*}

/-- A step of a client's thread, or of the consumer. -/
inductive Step (ι α : Type*) where
  /-- `processIncomingClientMessage` is called. -/
  | receive (i : ι) (message : α)
  | wait (i : ι)
  | write (i : ι)
  | unlock (i : ι)
  | lock
  | call
  /-- `sendPacket` in `sendToServer`. -/
  | send (succeeds : Bool)
  | post
  deriving DecidableEq, Repr

variable [DecidableEq ι]

/-- The thread of a client goes on. -/
def setClient (s : HandOff ι α) (i : ι) (thread : Incoming α) : HandOff ι α :=
  { s with clients := Function.update s.clients i thread }

@[simp] theorem setClient_self (s : HandOff ι α) (i : ι) (thread : Incoming α) :
    (s.setClient i thread).clients i = thread := Function.update_self ..

theorem setClient_of_ne (s : HandOff ι α) {i j : ι} (thread : Incoming α) (h : j ≠ i) :
    (s.setClient i thread).clients j = s.clients j := Function.update_of_ne h ..

/-- What a step does.  The semaphore keeps a thread out while it is 0. -/
def step (s : HandOff ι α) : Step ι α → Option (HandOff ι α)
  | .receive i message =>
    match s.clients i with
    | .idle => some (s.setClient i (.waiting message))
    | _ => none
  | .wait i =>
    match s.clients i, s.processing_message_semaphore with
    | .waiting message, n + 1 =>
      some { s.setClient i (.writing message) with processing_message_semaphore := n }
    | _, _ => none
  | .write i =>
    match s.clients i with
    | .writing message =>
      some { s.setClient i .unlocking with
        processing_message := message
        written := s.written ++ [message] }
    | _ => none
  | .unlock i =>
    match s.clients i with
    | .unlocking => some { s.setClient i .idle with unlocked := true }
    | _ => none
  | .lock =>
    match s.consumer, s.unlocked with
    | .locking, true => some { s with consumer := .calling, unlocked := false }
    | _, _ => none
  | .call =>
    match s.consumer with
    | .calling =>
      some { s with
        consumer := .sending s.processing_message
        passed := s.passed ++ [s.processing_message] }
    | _ => none
  | .send succeeds =>
    match s.consumer with
    | .sending message =>
      if succeeds then some { s with consumer := .posting, sent := s.sent ++ [message] }
      else some s
    | _ => none
  | .post =>
    match s.consumer with
    | .posting =>
      some { s with
        consumer := .locking
        processing_message_semaphore := s.processing_message_semaphore + 1 }
    | _ => none

/-- The constructor of the front end sets the semaphore to 1 and locks the mutex; the slot
holds anything. -/
structure Start (s : HandOff ι α) : Prop where
  semaphore : s.processing_message_semaphore = 1
  unlocked : s.unlocked = false
  clients : ∀ i, s.clients i = .idle
  consumer : s.consumer = .locking
  written : s.written = []
  passed : s.passed = []
  sent : s.sent = []

/-- The client threads and the consumer of a front end. -/
def handOff (ι α : Type*) [DecidableEq ι] : Transition.System (HandOff ι α) (Step ι α) where
  init := Start
  step := step

/-- The consumer is at `pthread_mutex_lock` and cannot take the mutex. -/
def Blocked (s : HandOff ι α) : Prop := s.consumer = .locking ∧ s.step .lock = none

/-- **Nothing is lost.** -/
structure LosesNothing (s : HandOff ι α) : Prop where
  /-- What was passed to `sendToServer` is what was written, in order. -/
  inOrder : s.sent <+: s.passed ∧ s.passed <+: s.written
  /-- Only what is in the slot may still have to be passed on. -/
  onlyLast : s.written = s.passed ∨ s.written = s.passed ++ [s.processing_message]
  notOverwritten : ∀ i message, s.clients i = .writing message → s.sent = s.written
  awake : s.sent ≠ s.written → (∀ i, s.clients i ≠ .unlocking) → ¬ s.Blocked

/-! ## What a step does -/

/-- The steps, branch by branch. -/
inductive Moves (s : HandOff ι α) : Step ι α → HandOff ι α → Prop
  | receive (i : ι) (message : α) (hi : s.clients i = .idle) :
      Moves s (.receive i message) (s.setClient i (.waiting message))
  | wait (i : ι) (message : α) (n : Nat) (hi : s.clients i = .waiting message)
      (hn : s.processing_message_semaphore = n + 1) :
      Moves s (.wait i)
        { s.setClient i (.writing message) with processing_message_semaphore := n }
  | write (i : ι) (message : α) (hi : s.clients i = .writing message) :
      Moves s (.write i) { s.setClient i .unlocking with
        processing_message := message
        written := s.written ++ [message] }
  | unlock (i : ι) (hi : s.clients i = .unlocking) :
      Moves s (.unlock i) { s.setClient i .idle with unlocked := true }
  | lock (hc : s.consumer = .locking) (hu : s.unlocked = true) :
      Moves s .lock { s with consumer := .calling, unlocked := false }
  | call (hc : s.consumer = .calling) :
      Moves s .call { s with
        consumer := .sending s.processing_message
        passed := s.passed ++ [s.processing_message] }
  | sent (message : α) (hc : s.consumer = .sending message) :
      Moves s (.send true) { s with consumer := .posting, sent := s.sent ++ [message] }
  | failed : Moves s (.send false) s
  | post (hc : s.consumer = .posting) :
      Moves s .post { s with
        consumer := .locking
        processing_message_semaphore := s.processing_message_semaphore + 1 }

theorem moves_of_step {s t : HandOff ι α} {l : Step ι α} (h : s.step l = some t) :
    s.Moves l t := by
  cases l with
  | receive i message =>
    simp only [step] at h
    split at h
    · rename_i hi
      exact Option.some.inj h ▸ .receive i message hi
    · cases h
  | wait i =>
    simp only [step] at h
    split at h
    · rename_i message n hi hn
      exact Option.some.inj h ▸ .wait i message n hi hn
    · cases h
  | write i =>
    simp only [step] at h
    split at h
    · rename_i message hi
      exact Option.some.inj h ▸ .write i message hi
    · cases h
  | unlock i =>
    simp only [step] at h
    split at h
    · rename_i hi
      exact Option.some.inj h ▸ .unlock i hi
    · cases h
  | lock =>
    simp only [step] at h
    split at h
    · rename_i hc hu
      exact Option.some.inj h ▸ .lock hc hu
    · cases h
  | call =>
    simp only [step] at h
    split at h
    · rename_i hc
      exact Option.some.inj h ▸ .call hc
    · cases h
  | send succeeds =>
    simp only [step] at h
    split at h
    · rename_i message hc
      split at h
      · rename_i hs
        subst hs
        exact Option.some.inj h ▸ .sent message hc
      · rename_i hs
        obtain rfl := Option.some.inj h
        rw [Bool.not_eq_true] at hs
        subst hs
        exact .failed
    · cases h
  | post =>
    simp only [step] at h
    split at h
    · rename_i hc
      exact Option.some.inj h ▸ .post hc
    · cases h

theorem blocked_iff {s : HandOff ι α} :
    s.Blocked ↔ s.consumer = .locking ∧ s.unlocked = false := by
  unfold Blocked
  constructor
  · rintro ⟨hc, hlock⟩
    refine ⟨hc, ?_⟩
    cases hu : s.unlocked with
    | false => rfl
    | true => simp [step, hc, hu] at hlock
  · rintro ⟨hc, hu⟩
    exact ⟨hc, by simp [step, hu]⟩

/-! ## The invariant -/

/-- Who has the slot. -/
inductive Phase (s : HandOff ι α) : Prop
  | free (hsem : s.processing_message_semaphore = 1) (hu : s.unlocked = false)
      (hc : s.consumer = .locking) (hout : ∀ i, (s.clients i).inside = false)
      (hpassed : s.passed = s.written) (hsent : s.sent = s.written)
  /-- A client is about to write. -/
  | writing (i : ι) (message : α) (hi : s.clients i = .writing message)
      (hsem : s.processing_message_semaphore = 0) (hu : s.unlocked = false)
      (hc : s.consumer = .locking) (hout : ∀ j ≠ i, (s.clients j).inside = false)
      (hpassed : s.passed = s.written) (hsent : s.sent = s.written)
  /-- It has written, and the consumer is not told yet. -/
  | unlocking (i : ι) (hi : s.clients i = .unlocking)
      (hsem : s.processing_message_semaphore = 0) (hu : s.unlocked = false)
      (hc : s.consumer = .locking) (hout : ∀ j ≠ i, (s.clients j).inside = false)
      (hpassed : s.written = s.passed ++ [s.processing_message]) (hsent : s.sent = s.passed)
  | full (hsem : s.processing_message_semaphore = 0) (hu : s.unlocked = true)
      (hc : s.consumer = .locking) (hout : ∀ i, (s.clients i).inside = false)
      (hpassed : s.written = s.passed ++ [s.processing_message]) (hsent : s.sent = s.passed)
  | calling (hsem : s.processing_message_semaphore = 0) (hu : s.unlocked = false)
      (hc : s.consumer = .calling) (hout : ∀ i, (s.clients i).inside = false)
      (hpassed : s.written = s.passed ++ [s.processing_message]) (hsent : s.sent = s.passed)
  | sending (hsem : s.processing_message_semaphore = 0) (hu : s.unlocked = false)
      (hc : s.consumer = .sending s.processing_message)
      (hout : ∀ i, (s.clients i).inside = false) (hpassed : s.passed = s.written)
      (hsent : s.written = s.sent ++ [s.processing_message])
  | posting (hsem : s.processing_message_semaphore = 0) (hu : s.unlocked = false)
      (hc : s.consumer = .posting) (hout : ∀ i, (s.clients i).inside = false)
      (hpassed : s.passed = s.written) (hsent : s.sent = s.written)

variable {s t : HandOff ι α} {i : ι} {message : α}

omit [DecidableEq ι] in
theorem phase_start (h : Start s) : Phase s := by
  refine .free h.semaphore h.unlocked h.consumer ?_ ?_ ?_
  · intro i
    rw [h.clients i]
    rfl
  · rw [h.passed, h.written]
  · rw [h.sent, h.written]

/-- Threads that are outside stay there, when the one that moves goes outside. -/
theorem outside_setClient_of_outside {P : ι → Prop} {thread : Incoming α}
    (hthread : thread.inside = false) (hout : ∀ j, P j → j ≠ i → (s.clients j).inside = false) :
    ∀ j, P j → ((s.setClient i thread).clients j).inside = false := by
  intro j hP
  by_cases hj : j = i
  · rw [hj, setClient_self]
    exact hthread
  · rw [setClient_of_ne s thread hj]
    exact hout j hP hj

/-- The other threads stay where they are. -/
theorem outside_setClient {thread : Incoming α} (hout : ∀ j ≠ i, (s.clients j).inside = false) :
    ∀ j ≠ i, ((s.setClient i thread).clients j).inside = false := by
  intro j hj
  rw [setClient_of_ne s thread hj]
  exact hout j hj

/-- And with the thread itself outside, nobody is inside. -/
theorem all_outside_setClient {thread : Incoming α} (hthread : thread.inside = false)
    (hout : ∀ j ≠ i, (s.clients j).inside = false) :
    ∀ j, ((s.setClient i thread).clients j).inside = false := fun j =>
  outside_setClient_of_outside (P := fun _ => True) hthread (fun j _ hj => hout j hj) j trivial

omit [DecidableEq ι] in
theorem ne_of_inside {j : ι} (hj : (s.clients j).inside = true)
    (hi : (s.clients i).inside = false) : j ≠ i := by
  rintro rfl
  rw [hi] at hj
  cases hj

/-- A call that begins changes nobody's phase. -/
theorem Phase.receive (h : Phase s) (hi : s.clients i = .idle) :
    Phase (s.setClient i (.waiting message)) := by
  have hiout : (s.clients i).inside = false := by rw [hi]; rfl
  have hall : (∀ j, (s.clients j).inside = false) →
      ∀ j, ((s.setClient i (.waiting message)).clients j).inside = false := fun hout =>
    all_outside_setClient rfl fun j _ => hout j
  cases h with
  | free hsem hu hc hout hpassed hsent => exact .free hsem hu hc (hall hout) hpassed hsent
  | full hsem hu hc hout hpassed hsent => exact .full hsem hu hc (hall hout) hpassed hsent
  | calling hsem hu hc hout hpassed hsent => exact .calling hsem hu hc (hall hout) hpassed hsent
  | sending hsem hu hc hout hpassed hsent => exact .sending hsem hu hc (hall hout) hpassed hsent
  | posting hsem hu hc hout hpassed hsent => exact .posting hsem hu hc (hall hout) hpassed hsent
  | writing k m hk hsem hu hc hout hpassed hsent =>
    have hki : k ≠ i := ne_of_inside (by rw [hk]; rfl) hiout
    refine .writing k m ?_ hsem hu hc ?_ hpassed hsent
    · rw [setClient_of_ne s _ hki, hk]
    · exact outside_setClient_of_outside rfl fun j hj _ => hout j hj
  | unlocking k hk hsem hu hc hout hpassed hsent =>
    have hki : k ≠ i := ne_of_inside (by rw [hk]; rfl) hiout
    refine .unlocking k ?_ hsem hu hc ?_ hpassed hsent
    · rw [setClient_of_ne s _ hki, hk]
    · exact outside_setClient_of_outside rfl fun j hj _ => hout j hj

omit [DecidableEq ι] in
/-- A thread between its `wait` and its unlock is alone with the slot. -/
theorem Phase.of_inside (h : Phase s) (hin : (s.clients i).inside = true) :
    s.processing_message_semaphore = 0 ∧ s.unlocked = false ∧ s.consumer = .locking ∧
      (∀ j ≠ i, (s.clients j).inside = false) ∧
      ((∃ m, s.clients i = .writing m ∧ s.passed = s.written ∧ s.sent = s.written) ∨
        (s.clients i = .unlocking ∧ s.written = s.passed ++ [s.processing_message] ∧
          s.sent = s.passed)) := by
  have hnot : ¬ ∀ j, (s.clients j).inside = false := by
    intro hout
    rw [hout i] at hin
    cases hin
  have hsame : ∀ k, (∀ j ≠ k, (s.clients j).inside = false) → i = k := by
    intro k hout
    by_contra hik
    rw [hout i hik] at hin
    cases hin
  cases h with
  | free _ _ _ hout | full _ _ _ hout | calling _ _ _ hout | sending _ _ _ hout
  | posting _ _ _ hout => exact absurd hout hnot
  | writing k m hk hsem hu hc hout hpassed hsent =>
    obtain rfl := hsame k hout
    exact ⟨hsem, hu, hc, hout, .inl ⟨m, hk, hpassed, hsent⟩⟩
  | unlocking k hk hsem hu hc hout hpassed hsent =>
    obtain rfl := hsame k hout
    exact ⟨hsem, hu, hc, hout, .inr ⟨hk, hpassed, hsent⟩⟩

omit [DecidableEq ι] in
/-- A thread that is about to write: everything is sent. -/
theorem Phase.of_writing (h : Phase s) (hi : s.clients i = .writing message) :
    s.processing_message_semaphore = 0 ∧ s.unlocked = false ∧ s.consumer = .locking ∧
      (∀ j ≠ i, (s.clients j).inside = false) ∧ s.passed = s.written ∧ s.sent = s.written := by
  obtain ⟨hsem, hu, hc, hout, hslot⟩ := @Phase.of_inside _ _ _ i h (by rw [hi]; rfl)
  rcases hslot with ⟨m, _, hpassed, hsent⟩ | ⟨hk, _⟩
  · exact ⟨hsem, hu, hc, hout, hpassed, hsent⟩
  · rw [hi] at hk
    cases hk

omit [DecidableEq ι] in
/-- A thread that has written: only its message is not sent. -/
theorem Phase.of_unlocking (h : Phase s) (hi : s.clients i = .unlocking) :
    s.processing_message_semaphore = 0 ∧ s.unlocked = false ∧ s.consumer = .locking ∧
      (∀ j ≠ i, (s.clients j).inside = false) ∧
      s.written = s.passed ++ [s.processing_message] ∧ s.sent = s.passed := by
  obtain ⟨hsem, hu, hc, hout, hslot⟩ := @Phase.of_inside _ _ _ i h (by rw [hi]; rfl)
  rcases hslot with ⟨m, hk, _⟩ | ⟨_, hpassed, hsent⟩
  · rw [hi] at hk
    cases hk
  · exact ⟨hsem, hu, hc, hout, hpassed, hsent⟩

/-- **Every step keeps the phases.** -/
theorem Phase.step {l : Step ι α} (h : Phase s) (hm : s.Moves l t) : Phase t := by
  cases hm with
  | receive i message hi => exact h.receive hi
  | wait i message n hi hn =>
    cases h with
    | free hsem hu hc hout hpassed hsent =>
      have hn0 : n = 0 := by omega
      refine .writing i message ?_ hn0 hu hc ?_ hpassed hsent
      · exact Function.update_self ..
      · exact outside_setClient fun j _ => hout j
    | writing _ _ _ hsem | unlocking _ _ hsem | full hsem | calling hsem | sending hsem
    | posting hsem =>
      rw [hsem] at hn
      cases hn
  | write i message hi =>
    obtain ⟨hsem, hu, hc, hout, hpassed, hsent⟩ := h.of_writing hi
    refine .unlocking i ?_ hsem hu hc ?_ ?_ ?_
    · exact Function.update_self ..
    · exact outside_setClient hout
    · exact congrArg (· ++ [message]) hpassed.symm
    · exact hsent.trans hpassed.symm
  | unlock i hi =>
    obtain ⟨hsem, hu, hc, hout, hpassed, hsent⟩ := h.of_unlocking hi
    exact .full hsem rfl hc (all_outside_setClient rfl hout) hpassed hsent
  | lock hc hu =>
    cases h with
    | full hsem _ _ hout hpassed hsent => exact .calling hsem rfl rfl hout hpassed hsent
    | free _ hu' | writing _ _ _ _ hu' | unlocking _ _ _ hu' | calling _ hu' | sending _ hu'
    | posting _ hu' =>
      rw [hu] at hu'
      cases hu'
  | call hc =>
    cases h with
    | calling hsem hu _ hout hpassed hsent =>
      refine .sending hsem hu rfl hout hpassed.symm ?_
      rw [hpassed, hsent]
    | free _ _ hc' | writing _ _ _ _ _ hc' | unlocking _ _ _ _ hc' | full _ _ hc'
    | sending _ _ hc' | posting _ _ hc' =>
      rw [hc] at hc'
      cases hc'
  | sent message hc =>
    cases h with
    | sending hsem hu hc' hout hpassed hsent =>
      rw [hc] at hc'
      cases hc'
      exact .posting hsem hu rfl hout hpassed hsent.symm
    | free _ _ hc' | writing _ _ _ _ _ hc' | unlocking _ _ _ _ hc' | full _ _ hc'
    | calling _ _ hc' | posting _ _ hc' =>
      rw [hc] at hc'
      cases hc'
  | failed => exact h
  | post hc =>
    cases h with
    | posting hsem hu _ hout hpassed hsent =>
      refine .free ?_ hu rfl hout hpassed hsent
      rw [hsem]
    | free _ _ hc' | writing _ _ _ _ _ hc' | unlocking _ _ _ _ hc' | full _ _ hc'
    | calling _ _ hc' | sending _ _ hc' =>
      rw [hc] at hc'
      cases hc'

theorem phase_of_reachable (h : (handOff ι α).Reachable s) : Phase s := by
  refine h.invariant ?_ ?_
  · intro s hs
    exact phase_start hs
  · intro s l t hs hst
    exact hs.step (moves_of_step hst)

/-! ## The result -/

theorem Phase.losesNothing (h : Phase s) : LosesNothing s where
  inOrder := by
    cases h with
    | free _ _ _ _ hpassed hsent | writing _ _ _ _ _ _ _ hpassed hsent
    | posting _ _ _ _ hpassed hsent =>
      rw [hpassed, hsent]
      exact ⟨List.prefix_rfl, List.prefix_rfl⟩
    | unlocking _ _ _ _ _ _ hpassed hsent | full _ _ _ _ hpassed hsent
    | calling _ _ _ _ hpassed hsent =>
      rw [hpassed, hsent]
      exact ⟨List.prefix_rfl, List.prefix_append _ _⟩
    | sending _ _ _ _ hpassed hsent =>
      rw [hpassed, hsent]
      exact ⟨List.prefix_append _ _, List.prefix_rfl⟩
  onlyLast := by
    cases h with
    | free _ _ _ _ hpassed | writing _ _ _ _ _ _ _ hpassed | sending _ _ _ _ hpassed
    | posting _ _ _ _ hpassed => exact .inl hpassed.symm
    | unlocking _ _ _ _ _ _ hpassed | full _ _ _ _ hpassed | calling _ _ _ _ hpassed =>
      exact .inr hpassed
  notOverwritten := by
    intro i message hi
    obtain ⟨-, -, -, -, -, hsent⟩ := h.of_writing hi
    exact hsent
  awake := by
    intro hunsent hidle hblocked
    obtain ⟨hlocking, hlocked⟩ := blocked_iff.1 hblocked
    cases h with
    | free _ _ _ _ _ hsent | writing _ _ _ _ _ _ _ _ hsent => exact hunsent hsent
    | unlocking i hi => exact hidle i hi
    | full _ hu =>
      rw [hlocked] at hu
      cases hu
    | calling _ _ hc | sending _ _ hc | posting _ _ hc =>
      rw [hlocking] at hc
      cases hc

/-- **The hand-off loses nothing**, whatever the order in which any number of client threads
and the consumer take their steps. -/
theorem loses_nothing (h : (handOff ι α).Reachable s) : LosesNothing s :=
  (phase_of_reachable h).losesNothing

/-- A front end whose clients are numbered, before the first message. -/
def quietSlot : HandOff Nat Nat where
  processing_message_semaphore := 1
  unlocked := false
  processing_message := 0
  clients _ := .idle
  consumer := .locking
  written := []
  passed := []
  sent := []

/-- Two clients hand over a message each; the first one is sent at the second attempt, and
the second one is in the slot. -/
def twoClients : List (Step Nat Nat) :=
  [.receive 0 10, .receive 1 20, .wait 0, .write 0, .unlock 0, .lock, .call, .send false,
    .send true, .post, .wait 1, .write 1]

theorem loses_nothing_twoClients :
    ∃ s, (handOff Nat Nat).exec quietSlot twoClients = some s ∧ s.sent = [10] ∧
      s.written = [10, 20] ∧ LosesNothing s := by
  obtain ⟨s, hs⟩ : ∃ s, (handOff Nat Nat).exec quietSlot twoClients = some s :=
    Option.isSome_iff_exists.1 (by decide)
  have hstart : Start quietSlot := ⟨rfl, rfl, fun _ => rfl, rfl, rfl, rfl, rfl⟩
  have hnothing := loses_nothing (Transition.System.reachable_of_exec hstart hs)
  refine ⟨s, hs, ?_, ?_, hnothing⟩
  · cases hs
    rfl
  · cases hs
    rfl

end HandOff
end InstantMessenger
