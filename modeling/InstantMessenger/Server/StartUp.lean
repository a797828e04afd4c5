import Mathlib.Data.List.Basic
import Mathlib.Logic.Function.Basic
import InstantMessenger.Foundations.Transition

/-!
# How the front ends' threads get their address

`Server::handleFrontEndsConnections` creates a listener and a monitor for each address and
passes the same `args` to all of them.  `feConnectionInitializationSemaphore` goes round:
the main thread waits before it writes to `args` or creates a thread that reads it, and the
thread posts when it has read.  The threads' numbers go to `tid`, an array with
`MAXBACKLOG` entries: two for each address, and nothing checks the index.

* `StartUp`, `startUp` — the main thread, the threads it has created, `tid`, `args` and the
  semaphore, over any type of addresses; a write to `args` and a copy of it have a beginning
  and an end.
* `StartUp.Invariant` — **the semaphore is a baton**: it is free, with a thread that has not
  posted, or with the main thread; and `args` holds what the threads still have to read.
* `StartUp.exists_overrun` — with more addresses than half the entries of `tid`, the main
  thread writes behind its end.
* `StartUp.hands_off_iff` — **otherwise, and only then**, each address is read by one listener
  and one monitor, never while it is rewritten or after it was freed, and the main thread
  never waits in vain.
-/

namespace InstantMessenger

/-- What a created thread runs. -/
inductive Role where
  /-- `listenFrontEndCommunication`. -/
  | listener
  /-- `monitorConnection`. -/
  | monitor
  deriving DecidableEq, Repr

/-- Where a created thread is. -/
inductive ReaderPlace where
  | starting
  /-- In the copy of `args->first`. -/
  | copying
  /-- In front of the read of `args->second`. -/
  | copied
  /-- In front of `feConnectionInitializationSemaphore->post()`. -/
  | posting
  /-- Behind it. -/
  | gone
  deriving DecidableEq, Repr

/-- A created thread; `feAddress` is its copy, if it has copied an address. -/
structure ReaderThread (α : Type*) where
  role : Role
  place : ReaderPlace := .starting
  feAddress : Option α := none
  deriving DecidableEq, Repr

/-- The pair that is passed to the threads. -/
inductive Args (α : Type*) where
  | blank
  /-- In the middle of an `assign`. -/
  | torn
  | holds (feAddress : α)
  | freed
  deriving DecidableEq, Repr

/-- The address in the pair, if there is one to read. -/
def Args.first {α : Type*} : Args α → Option α
  | .holds feAddress => some feAddress
  | _ => none

/-- Where the main thread is in `handleFrontEndsConnections`. -/
inductive Starter (α : Type*) where
  /-- At the head of the loop. -/
  | looping
  /-- In front of the first `wait`. -/
  | taking (feAddress : α)
  | assigning (feAddress : α)
  /-- In `args->first.assign`. -/
  | midAssign (feAddress : α)
  | creatingListener
  /-- In front of the second `wait`. -/
  | handing
  | creatingMonitor
  /-- In front of the `wait` behind the loop. -/
  | closing
  | freeing
  | posting
  | returned
  /-- Behind a write past the end of `tid`, after which nothing is defined. -/
  | overrun
  deriving DecidableEq, Repr

/-- The main thread is between a `wait` and what passes the semaphore on. -/
def Starter.holding {α : Type*} : Starter α → Nat
  | .assigning _ | .midAssign _ | .creatingListener | .creatingMonitor | .freeing | .posting => 1
  | .looping | .taking _ | .handing | .closing | .returned | .overrun => 0

/-- The threads that were created for the present address. -/
def Starter.created {α : Type*} : Starter α → Nat
  | .handing | .creatingMonitor => 1
  | _ => 0

/-- The main thread and the threads in the order of their creation; the number of a thread is
its place there. -/
structure StartUp (α : Type*) (MAXBACKLOG : Nat) where
  feConnectionInitializationSemaphore : Nat := 1
  args : Args α := .blank
  main : Starter α := .looping
  /-- How far the loop over `feAddresses` has come. -/
  position : Nat := 0
  tid : Fin MAXBACKLOG → Option Nat := fun _ => none
  i : Nat := 0
  threads : List (ReaderThread α) := []

namespace StartUp

variable {α : Type*} {MAXBACKLOG : Nat}

/-- A step of the main thread, or of a created one. -/
inductive Step where
  | main
  | reader (k : Nat)
  deriving DecidableEq, Repr

/-- `wait`, which keeps the main thread while the semaphore is 0. -/
def wait (s : StartUp α MAXBACKLOG) (next : Starter α) : Option (StartUp α MAXBACKLOG) :=
  match s.feConnectionInitializationSemaphore with
  | 0 => none
  | n + 1 => some { s with feConnectionInitializationSemaphore := n, main := next }

/-- `pthread_create(&(this->tid[i++]), …)`, with `i` in the array or not. -/
def create (s : StartUp α MAXBACKLOG) (role : Role) (next : Starter α) : StartUp α MAXBACKLOG :=
  if h : s.i < MAXBACKLOG then
    { s with
      tid := Function.update s.tid ⟨s.i, h⟩ (some s.threads.length)
      i := s.i + 1
      threads := s.threads ++ [{ role }]
      main := next }
  else { s with main := .overrun }

/-- A created thread goes on. -/
def setThread (s : StartUp α MAXBACKLOG) (k : Nat) (t : ReaderThread α) : StartUp α MAXBACKLOG :=
  { s with threads := s.threads.set k t }

/-- What a step does. -/
def step (addresses : List α) (s : StartUp α MAXBACKLOG) : Step → Option (StartUp α MAXBACKLOG)
  | .main =>
    match s.main with
    | .looping =>
      match addresses[s.position]? with
      | some feAddress => some { s with main := .taking feAddress }
      | none => some { s with main := .closing }
    | .taking feAddress => s.wait (.assigning feAddress)
    | .assigning feAddress => some { s with args := .torn, main := .midAssign feAddress }
    | .midAssign feAddress => some { s with args := .holds feAddress, main := .creatingListener }
    | .creatingListener => some (s.create .listener .handing)
    | .handing => s.wait .creatingMonitor
    | .creatingMonitor => some { s.create .monitor .looping with position := s.position + 1 }
    | .closing => s.wait .freeing
    | .freeing => some { s with args := .freed, main := .posting }
    | .posting =>
      some { s with
        feConnectionInitializationSemaphore := s.feConnectionInitializationSemaphore + 1
        main := .returned }
    | .returned | .overrun => none
  | .reader k =>
    match s.threads[k]? with
    | none => none
    | some t =>
      match t.place with
      | .starting => some (s.setThread k { t with place := .copying })
      | .copying => some (s.setThread k { t with place := .copied, feAddress := s.args.first })
      | .copied => some (s.setThread k { t with place := .posting })
      | .posting =>
        some { s.setThread k { t with place := .gone } with
          feConnectionInitializationSemaphore := s.feConnectionInitializationSemaphore + 1 }
      | .gone => none

/-- The start of the front ends' threads. -/
def startUp (MAXBACKLOG : Nat) (addresses : List α) :
    Transition.System (StartUp α MAXBACKLOG) Step where
  init s := s = {}
  step := step addresses

/-- The thread has still to read from `args`. -/
def Reading (t : ReaderThread α) : Prop :=
  t.place = .starting ∨ t.place = .copying ∨ t.place = .copied

/-- The main thread is in front of a `wait`, and the semaphore is 0. -/
def Blocked (addresses : List α) (s : StartUp α MAXBACKLOG) : Prop :=
  s.main ≠ .returned ∧ s.main ≠ .overrun ∧ s.step addresses .main = none

/-- **The hand-off is right.** -/
structure Correct (addresses : List α) (s : StartUp α MAXBACKLOG) : Prop where
  /-- Nothing is written behind the end of `tid`. -/
  inside : s.main ≠ .overrun
  /-- Each thread has its entry. -/
  kept : ∀ k, s.tid k = if k < s.threads.length then some k.val else none
  /-- Threads are created in pairs, and have copied the address of their pair. -/
  pairs : ∀ k t, s.threads[k]? = some t →
    t.role = (if k % 2 = 0 then .listener else .monitor) ∧ k / 2 < addresses.length ∧
      (t.place ≠ .starting → t.place ≠ .copying → t.feAddress = addresses[k / 2]?)
  /-- What a thread has still to read is there. -/
  intact : ∀ t ∈ s.threads, Reading t → s.args ≠ .torn ∧ s.args ≠ .freed
  /-- In the end each address was read by one listener and one monitor. -/
  complete : s.main = .returned → s.threads.map (fun t => (t.role, t.feAddress)) =
    addresses.flatMap fun a => [(.listener, some a), (.monitor, some a)]
  /-- A thread can make the post for which the main thread waits, by itself. -/
  posted : s.Blocked addresses → ∃ k m t,
    (startUp MAXBACKLOG addresses).exec s (List.replicate m (.reader k)) = some t ∧
      (t.step addresses .main).isSome

/-! ## The invariant -/

/-- What the thread number `k` has copied, or will find in `args`. -/
structure Agrees (addresses : List α) (args : Args α) (k : Nat) (t : ReaderThread α) : Prop where
  role : t.role = if k % 2 = 0 then .listener else .monitor
  present : Reading t → args.first = addresses[k / 2]?
  copied : t.place ≠ .starting → t.place ≠ .copying → t.feAddress = addresses[k / 2]?

/-- Where the main thread is in its loop, and what it has written to `args`. -/
def Round (addresses : List α) (s : StartUp α MAXBACKLOG) : Prop :=
  match s.main with
  | .looping => s.position ≤ addresses.length
  | .taking feAddress | .assigning feAddress | .midAssign feAddress =>
    addresses[s.position]? = some feAddress
  | .creatingListener | .handing | .creatingMonitor =>
    s.args.first = addresses[s.position]? ∧ s.position < addresses.length
  | .closing | .freeing | .posting => s.position = addresses.length
  | .returned => s.position = addresses.length ∧ ∀ t ∈ s.threads, t.place = .gone
  | .overrun => False

/-- **The semaphore is a baton**, and `args` holds what is still to be read. -/
structure Invariant (addresses : List α) (s : StartUp α MAXBACKLOG) : Prop where
  baton : s.feConnectionInitializationSemaphore + s.threads.countP (·.place ≠ .gone) +
    s.main.holding = 1
  count : s.threads.length = 2 * s.position + s.main.created
  index : s.i = s.threads.length
  kept : ∀ k, s.tid k = if k < s.threads.length then some k.val else none
  agrees : ∀ k t, s.threads[k]? = some t → Agrees addresses s.args k t
  round : Round addresses s

variable {addresses : List α} {s t : StartUp α MAXBACKLOG}

/-- A thread that has posted does not read. -/
theorem Agrees.of_gone {args args' : Args α} {k : Nat} {t : ReaderThread α}
    (h : Agrees addresses args k t) (hgone : t.place = .gone) : Agrees addresses args' k t := by
  refine ⟨h.role, ?_, h.copied⟩
  rintro (hplace | hplace | hplace) <;> rw [hgone] at hplace <;> cases hplace

/-- While the main thread has the baton, all threads have posted. -/
theorem Invariant.gone (h : Invariant addresses s) (hm : s.main.holding = 1) :
    ∀ t ∈ s.threads, t.place = .gone := by
  have hbaton := h.baton
  have hnone : s.threads.countP (·.place ≠ .gone) = 0 := by omega
  intro t ht
  simpa using List.countP_eq_zero.1 hnone t ht

/-- So that it may do with `args` what it likes. -/
theorem Invariant.agrees_of_holding (h : Invariant addresses s) (hm : s.main.holding = 1)
    (args : Args α) : ∀ k t, s.threads[k]? = some t → Agrees addresses args k t := by
  intro k t ht
  exact (h.agrees k t ht).of_gone (h.gone hm t (List.mem_of_getElem? ht))

theorem create_of_lt (h : s.i < MAXBACKLOG) (role : Role) (next : Starter α) :
    s.create role next =
      { s with
        tid := Function.update s.tid ⟨s.i, h⟩ (some s.threads.length)
        i := s.i + 1
        threads := s.threads ++ [{ role }]
        main := next } := dif_pos h

/-- Without room for the next thread the array is overrun. -/
theorem create_of_le (h : MAXBACKLOG ≤ s.i) (role : Role) (next : Starter α) :
    s.create role next = { s with main := .overrun } := dif_neg (Nat.not_lt.2 h)

/-- The loop stays where it is. -/
theorem create_position (s : StartUp α MAXBACKLOG) (role : Role) (next : Starter α) :
    { s.create role next with position := s.position } = s.create role next := by
  unfold create
  split <;> rfl

/-- A new thread finds its address. -/
theorem agrees_create (h : ∀ k t, s.threads[k]? = some t → Agrees addresses s.args k t)
    {role : Role} (hrole : role = if s.threads.length % 2 = 0 then .listener else .monitor)
    (hargs : s.args.first = addresses[s.threads.length / 2]?) :
    ∀ k t, (s.threads ++ [({ role } : ReaderThread α)])[k]? = some t →
      Agrees addresses s.args k t := by
  intro k t ht
  rw [List.getElem?_append] at ht
  split at ht
  · exact h k t ht
  · rename_i hk
    rw [List.getElem?_singleton] at ht
    split at ht
    · cases ht
      obtain rfl : k = s.threads.length := by omega
      exact ⟨hrole, fun _ => hargs, fun hstarting => absurd rfl hstarting⟩
    · cases ht

/-- And its number gets the next entry. -/
theorem kept_create (hindex : s.i = s.threads.length)
    (hkept : ∀ k, s.tid k = if k < s.threads.length then some k.val else none)
    (hroom : s.i < MAXBACKLOG) (k : Fin MAXBACKLOG) :
    Function.update s.tid ⟨s.i, hroom⟩ (some s.threads.length) k =
      if k < s.threads.length + 1 then some k.val else none := by
  by_cases hk : k = ⟨s.i, hroom⟩
  · subst hk
    rw [Function.update_self, if_pos (by simp only; omega)]
    exact congrArg some hindex.symm
  · have hne : k.val ≠ s.threads.length := fun heq => hk (Fin.ext (heq.trans hindex.symm))
    rw [Function.update_of_ne hk, hkept]
    exact if_congr (by omega) rfl rfl

/-- A `wait` that returns takes the baton. -/
theorem Invariant.wait {next : Starter α} (h : Invariant addresses s)
    (hfree : s.main.holding = 0) (hnext : next.holding = 1)
    (hcreated : next.created = s.main.created)
    (hround : ∀ n, Round addresses
      { s with feConnectionInitializationSemaphore := n, main := next })
    (hst : s.wait next = some t) : Invariant addresses t := by
  unfold StartUp.wait at hst
  split at hst
  · cases hst
  · rename_i n hn
    cases hst
    have hbaton := h.baton
    exact
      { baton := by simp only; omega
        count := by simp only [hcreated]; exact h.count
        index := h.index
        kept := h.kept
        agrees := h.agrees
        round := hround n }

/-- A thread that is created takes the baton. -/
theorem Invariant.create {role : Role} {next : Starter α} {position : Nat}
    (h : Invariant addresses s) (hroom : s.i < MAXBACKLOG)
    (hheld : s.main.holding = 1) (hnext : next.holding = 0)
    (hrole : role = if s.threads.length % 2 = 0 then .listener else .monitor)
    (hargs : s.args.first = addresses[s.threads.length / 2]?)
    (hcount : s.threads.length + 1 = 2 * position + next.created)
    (hround : Round addresses
      { s with main := next, position, threads := s.threads ++ [{ role }] }) :
    Invariant addresses { s.create role next with position } := by
  have hbaton := h.baton
  have hlength : (s.threads ++ [({ role } : ReaderThread α)]).length = s.threads.length + 1 :=
    List.length_append
  rw [create_of_lt hroom]
  refine ⟨?_, hlength.trans hcount, ?_, ?_, agrees_create h.agrees hrole hargs, hround⟩
  · have hpending : (s.threads ++ [({ role } : ReaderThread α)]).countP (·.place ≠ .gone) =
        s.threads.countP (·.place ≠ .gone) + 1 := List.countP_append
    simp only [hpending, hnext]
    omega
  · show s.i + 1 = _
    rw [hlength, h.index]
  · intro k
    simp only [hlength]
    exact kept_create h.index h.kept hroom k

/-- A step of the main thread, when `tid` has room for two threads for each address. -/
theorem Invariant.main (h : Invariant addresses s) (hsize : 2 * addresses.length ≤ MAXBACKLOG)
    (hst : s.step addresses .main = some t) : Invariant addresses t := by
  have hbaton := h.baton
  have hcount := h.count
  have hindex := h.index
  have hround := h.round
  have hheld := h.agrees_of_holding
  unfold step at hst
  unfold Round at hround
  simp only at hst
  cases hm : s.main with
  | looping =>
    rw [hm] at hst hbaton hcount hround
    simp only at hst hround
    split at hst
    · rename_i a ha
      cases hst
      exact ⟨hbaton, hcount, h.index, h.kept, h.agrees, ha⟩
    · rename_i hnone
      cases hst
      exact ⟨hbaton, hcount, h.index, h.kept, h.agrees,
        Nat.le_antisymm hround (List.getElem?_eq_none_iff.1 hnone)⟩
  | taking | handing | closing =>
    rw [hm] at hst hround
    refine h.wait ?_ ?_ ?_ ?_ hst
    · rw [hm]; rfl
    · rfl
    · rw [hm]; rfl
    · exact fun _ => hround
  | assigning a =>
    rw [hm] at hst hbaton hcount hround hheld
    cases hst
    exact ⟨hbaton, hcount, h.index, h.kept, hheld rfl .torn, hround⟩
  | midAssign a =>
    rw [hm] at hst hbaton hcount hround hheld
    cases hst
    exact ⟨hbaton, hcount, h.index, h.kept, hheld rfl (.holds a), hround.symm,
      (List.getElem?_eq_some_iff.1 hround).1⟩
  | creatingListener =>
    rw [hm] at hst hcount hround
    cases hst
    simp only [Starter.created] at hcount
    have hround' := hround.2
    have hroom : s.i < MAXBACKLOG := by omega
    rw [← create_position]
    refine h.create hroom (by rw [hm]; rfl) rfl (by rw [if_pos (by omega)]) ?_ ?_ hround
    · rw [show s.threads.length / 2 = s.position by omega]
      exact hround.1
    · simp only [Starter.created]
      omega
  | creatingMonitor =>
    rw [hm] at hst hcount hround
    cases hst
    simp only [Starter.created] at hcount
    have hround' := hround.2
    refine h.create (by omega) (by rw [hm]; rfl) rfl (by rw [if_neg (by omega)]) ?_ ?_ hround.2
    · rw [show s.threads.length / 2 = s.position by omega]
      exact hround.1
    · simp only [Starter.created]
      omega
  | freeing =>
    rw [hm] at hst hbaton hcount hround hheld
    cases hst
    exact ⟨hbaton, hcount, h.index, h.kept, hheld rfl .freed, hround⟩
  | posting =>
    rw [hm] at hst hbaton hcount hround
    cases hst
    simp only [Starter.holding] at hbaton
    refine ⟨?_, hcount, h.index, h.kept, h.agrees, hround, h.gone (by rw [hm]; rfl)⟩
    simp only [Starter.holding]
    omega
  | returned | overrun =>
    rw [hm] at hst
    cases hst

/-- A step of a created thread: it goes on, and it posts when it is gone. -/
theorem Invariant.setThread (h : Invariant addresses s) {k : Nat} {r : ReaderThread α}
    (hr : s.threads[k]? = some r) (hplace : r.place ≠ .gone) (r' : ReaderThread α) (n : Nat)
    (hagrees : Agrees addresses s.args k r')
    (hn : n + (if r'.place ≠ .gone then 1 else 0) = s.feConnectionInitializationSemaphore + 1) :
    Invariant addresses { s.setThread k r' with feConnectionInitializationSemaphore := n } := by
  obtain ⟨hk, hget⟩ := List.getElem?_eq_some_iff.1 hr
  have hpending : 0 < s.threads.countP (·.place ≠ .gone) :=
    List.countP_pos_iff.2 ⟨r, List.mem_of_getElem? hr, by simpa using hplace⟩
  refine ⟨?_, ?_, ?_, ?_, ?_, ?_⟩
  · have hbaton := h.baton
    simp only [StartUp.setThread, List.countP_set hk, hget, hplace, ne_eq, not_false_eq_true,
      if_true, decide_not, Bool.not_eq_true', decide_eq_false_iff_not]
    simp only [ne_eq, decide_not] at hbaton hpending hn
    omega
  · exact (List.length_set ..).trans h.count
  · exact h.index.trans (List.length_set ..).symm
  · intro j
    simp only [StartUp.setThread, List.length_set]
    exact h.kept j
  · intro j u hu
    simp only [StartUp.setThread] at hu
    by_cases hj : k = j
    · subst hj
      rw [List.getElem?_set_self hk] at hu
      cases hu
      exact hagrees
    · rw [List.getElem?_set_ne hj] at hu
      exact h.agrees j u hu
  · have hround := h.round
    unfold Round at hround ⊢
    simp only [StartUp.setThread]
    cases hm : s.main with
    | returned =>
      rw [hm] at hround
      exact absurd (hround.2 r (List.mem_of_getElem? hr)) hplace
    | _ =>
      rw [hm] at hround
      exact hround

theorem Invariant.reader (h : Invariant addresses s) {k : Nat}
    (hst : s.step addresses (.reader k) = some t) : Invariant addresses t := by
  unfold step at hst
  simp only at hst
  split at hst
  · cases hst
  · rename_i r hr
    have hagrees := h.agrees k r hr
    split at hst
    · rename_i hplace
      cases hst
      refine h.setThread hr (by rw [hplace]; decide) { r with place := .copying } _
        ⟨hagrees.role, fun _ => ?_, ?_⟩ rfl
      · exact hagrees.present (.inl hplace)
      · exact fun _ hcopying => absurd rfl hcopying
    · rename_i hplace
      cases hst
      have hpresent := hagrees.present (.inr (.inl hplace))
      exact h.setThread hr (by rw [hplace]; decide)
        { r with place := .copied, feAddress := s.args.first } _
        ⟨hagrees.role, fun _ => hpresent, fun _ _ => hpresent⟩ rfl
    · rename_i hplace
      cases hst
      have hcopied := hagrees.copied (by rw [hplace]; decide) (by rw [hplace]; decide)
      refine h.setThread hr (by rw [hplace]; decide) { r with place := .posting } _
        ⟨hagrees.role, ?_, fun _ _ => hcopied⟩ rfl
      rintro (hnot | hnot | hnot) <;> cases hnot
    · rename_i hplace
      cases hst
      have hcopied := hagrees.copied (by rw [hplace]; decide) (by rw [hplace]; decide)
      refine h.setThread hr (by rw [hplace]; decide) { r with place := .gone } _
        ⟨hagrees.role, ?_, fun _ _ => hcopied⟩ rfl
      rintro (hnot | hnot | hnot) <;> cases hnot
    · cases hst

/-- **The invariant holds in every run.** -/
theorem invariant_of_reachable (hsize : 2 * addresses.length ≤ MAXBACKLOG)
    (h : (startUp MAXBACKLOG addresses).Reachable s) : Invariant addresses s := by
  refine h.invariant ?_ ?_
  · rintro _ rfl
    refine ⟨rfl, rfl, rfl, fun _ => rfl, ?_, Nat.zero_le _⟩
    intro k t ht
    cases ht
  · intro s l t hs hst
    cases l with
    | main => exact hs.main hsize hst
    | reader k => exact hs.reader hst

/-! ## What it gives -/

/-- Every thread belongs to an address. -/
theorem Invariant.index_lt (h : Invariant addresses s) {k : Nat} {r : ReaderThread α}
    (hr : s.threads[k]? = some r) : k / 2 < addresses.length := by
  have hk := (List.getElem?_eq_some_iff.1 hr).1
  have hcount := h.count
  have hround := h.round
  unfold Round at hround
  cases hm : s.main <;> rw [hm] at hround hcount <;>
    simp only [Starter.created] at hround hcount
  case taking | assigning | midAssign =>
    have hi := (List.getElem?_eq_some_iff.1 hround).1
    omega
  all_goals omega

/-- How many steps a created thread has in front of it. -/
def ReaderPlace.ahead : ReaderPlace → Nat
  | .starting => 4
  | .copying => 3
  | .copied => 2
  | .posting => 1
  | .gone => 0

variable (addresses) in
/-- Nothing holds up a created thread. -/
theorem reader_advances {k : Nat} {r : ReaderThread α} (hr : s.threads[k]? = some r)
    (hplace : r.place ≠ .gone) :
    ∃ t r', s.step addresses (.reader k) = some t ∧ t.threads[k]? = some r' ∧
      ReaderPlace.ahead r'.place + 1 = ReaderPlace.ahead r.place ∧ t.main = s.main ∧
      t.position = s.position ∧ t.i = s.i ∧ t.threads.length = s.threads.length ∧
      t.feConnectionInitializationSemaphore =
        s.feConnectionInitializationSemaphore + if r.place = .posting then 1 else 0 := by
  obtain ⟨hk, _⟩ := List.getElem?_eq_some_iff.1 hr
  simp only [step, hr]
  cases hp : r.place with
  | gone => exact absurd hp hplace
  | _ =>
    exact ⟨_, _, rfl, List.getElem?_set_self hk, rfl, rfl, rfl, rfl, List.length_set .., rfl⟩

variable (addresses) in
/-- So that it posts, if it is left to run. -/
theorem reader_posts {m k : Nat} {r : ReaderThread α} (hr : s.threads[k]? = some r)
    (hm : ReaderPlace.ahead r.place = m + 1) :
    ∃ t, (startUp MAXBACKLOG addresses).exec s (List.replicate (m + 1) (.reader k)) = some t ∧
      t.main = s.main ∧ t.position = s.position ∧ t.i = s.i ∧
      t.threads.length = s.threads.length ∧
      t.feConnectionInitializationSemaphore = s.feConnectionInitializationSemaphore + 1 := by
  induction m generalizing s r with
  | zero =>
    have hplace : r.place = .posting := by
      cases hp : r.place <;> rw [hp] at hm <;> first | rfl | cases hm
    obtain ⟨t, r', hst, _, _, hmain, hposition, hi, hlength, hsem⟩ :=
      reader_advances addresses hr (by rw [hplace]; decide)
    rw [if_pos hplace] at hsem
    refine ⟨t, ?_, hmain, hposition, hi, hlength, hsem⟩
    rw [List.replicate_succ, Transition.System.exec_cons,
      show (startUp MAXBACKLOG addresses).step s (.reader k) = some t from hst]
    rfl
  | succ m ih =>
    have hplace : r.place ≠ .gone ∧ r.place ≠ .posting := by
      constructor <;> intro hp <;> rw [hp] at hm <;> cases hm
    obtain ⟨t, r', hst, hr', hahead, hmain, hposition, hi, hlength, hsem⟩ :=
      reader_advances addresses hr hplace.1
    rw [if_neg hplace.2] at hsem
    obtain ⟨u, hu, humain, huposition, hui, hulength, husem⟩ := ih hr' (by omega)
    refine ⟨u, ?_, humain.trans hmain, huposition.trans hposition, hui.trans hi,
      hulength.trans hlength, by omega⟩
    rw [List.replicate_succ, Transition.System.exec_cons,
      show (startUp MAXBACKLOG addresses).step s (.reader k) = some t from hst]
    exact hu

/-- The main thread waits for a thread that has not posted. -/
theorem Invariant.posted (h : Invariant addresses s) (hb : s.Blocked addresses) :
    ∃ k m t, (startUp MAXBACKLOG addresses).exec s (List.replicate m (.reader k)) = some t ∧
      (t.step addresses .main).isSome := by
  obtain ⟨hmain, hinside, hnone⟩ := hb
  -- it is in front of a `wait`
  obtain ⟨next, hwait, hholding⟩ : ∃ next, (∀ t : StartUp α MAXBACKLOG, t.main = s.main →
      t.step addresses .main = t.wait next) ∧ s.main.holding = 0 := by
    cases hm : s.main with
    | returned => exact absurd hm hmain
    | overrun => exact absurd hm hinside
    | looping =>
      simp only [step, hm] at hnone
      split at hnone <;> cases hnone
    | taking a => exact ⟨.assigning a, fun t ht => by simp only [step, ht], rfl⟩
    | handing => exact ⟨.creatingMonitor, fun t ht => by simp only [step, ht], rfl⟩
    | closing => exact ⟨.freeing, fun t ht => by simp only [step, ht], rfl⟩
    | _ =>
      simp only [step, hm] at hnone
      cases hnone
  have hzero : s.feConnectionInitializationSemaphore = 0 := by
    rw [hwait s rfl, StartUp.wait] at hnone
    split at hnone
    · assumption
    · cases hnone
  have hbaton := h.baton
  obtain ⟨r, hmem, hplace⟩ := List.countP_pos_iff.1
    (show 0 < s.threads.countP (·.place ≠ .gone) by omega)
  obtain ⟨k, hr⟩ := List.mem_iff_getElem?.1 hmem
  obtain ⟨m, hm⟩ : ∃ m, ReaderPlace.ahead r.place = m + 1 := by
    apply Nat.exists_eq_succ_of_ne_zero
    intro hahead
    have hgone : r.place = .gone := by
      cases hp : r.place <;> rw [hp] at hahead <;> first | rfl | cases hahead
    rw [hgone] at hplace
    exact absurd hplace (by decide)
  obtain ⟨t, ht, htmain, -, -, -, htsem⟩ := reader_posts addresses hr hm
  refine ⟨k, m + 1, t, ht, ?_⟩
  rw [hwait t htmain, StartUp.wait, htsem, hzero]
  rfl

/-- Two entries for each element. -/
theorem getElem?_flatMap_pair {β : Type*} (f g : α → β) (l : List α) (k : Nat) :
    (l.flatMap fun a => [f a, g a])[k]? =
      if k % 2 = 0 then l[k / 2]?.map f else l[k / 2]?.map g := by
  induction l generalizing k with
  | nil => simp
  | cons a l ih =>
    rcases k with _ | _ | k
    · rfl
    · rfl
    · have hmod : (k + 2) % 2 = k % 2 := Nat.add_mod_right k 2
      have hdiv : (k + 2) / 2 = k / 2 + 1 := Nat.add_div_right k (by decide)
      simp only [List.flatMap_cons, List.cons_append, List.nil_append, List.getElem?_cons_succ,
        ih, hmod, hdiv]

/-- When the main thread has returned, every address was read by its two threads. -/
theorem Invariant.complete (h : Invariant addresses s) (hm : s.main = .returned) :
    s.threads.map (fun t => (t.role, t.feAddress)) =
      addresses.flatMap fun a => [(Role.listener, some a), (Role.monitor, some a)] := by
  have hround := h.round
  have hcount := h.count
  unfold Round at hround
  rw [hm] at hround hcount
  refine List.ext_getElem? fun k => ?_
  rw [List.getElem?_map, getElem?_flatMap_pair]
  cases hr : s.threads[k]? with
  | none =>
    have hk := List.getElem?_eq_none_iff.1 hr
    simp only [Starter.created] at hcount
    have hnone : addresses[k / 2]? = none := List.getElem?_eq_none_iff.2 (by omega)
    rw [hnone, Option.map_none, Option.map_none, Option.map_none, ite_self]
  | some r =>
    have hagrees := h.agrees k r hr
    have hgone := hround.2 r (List.mem_of_getElem? hr)
    have hcopied := hagrees.copied (by rw [hgone]; decide) (by rw [hgone]; decide)
    obtain ⟨a, ha⟩ : ∃ a, addresses[k / 2]? = some a :=
      ⟨_, List.getElem?_eq_getElem (h.index_lt hr)⟩
    rw [ha] at hcopied ⊢
    rw [Option.map_some, Option.map_some, Option.map_some, hagrees.role, hcopied]
    split <;> rfl

/-- With room in `tid` the hand-off is right. -/
theorem correct_of_reachable (hsize : 2 * addresses.length ≤ MAXBACKLOG)
    (h : (startUp MAXBACKLOG addresses).Reachable s) : Correct addresses s := by
  have hinv := invariant_of_reachable hsize h
  refine ⟨?_, hinv.kept, ?_, ?_, hinv.complete, hinv.posted⟩
  · intro hover
    have hround := hinv.round
    unfold Round at hround
    rwa [hover] at hround
  · intro k t ht
    have hagrees := hinv.agrees k t ht
    exact ⟨hagrees.role, hinv.index_lt ht, hagrees.copied⟩
  · intro t ht hreading
    obtain ⟨k, hk⟩ := List.mem_iff_getElem?.1 ht
    have hpresent := (hinv.agrees k t hk).present hreading
    rw [List.getElem?_eq_getElem (hinv.index_lt hk)] at hpresent
    constructor <;> intro hargs <;> rw [hargs] at hpresent <;> cases hpresent

/-! ## More threads than entries -/

/-- The main thread is in front of this part of the round for the address number `k`; it has
the semaphore or not, and all the threads have posted. -/
structure InRound (main : Starter α) (k sem count : Nat) (s : StartUp α MAXBACKLOG) : Prop where
  main : s.main = main
  position : s.position = k
  semaphore : s.feConnectionInitializationSemaphore = sem
  index : s.i = count
  count : s.threads.length = count

/-- A step of the main thread. -/
theorem reaches_main (h : s.step addresses .main = some t) :
    (startUp MAXBACKLOG addresses).Reaches s t :=
  Transition.System.Reaches.cons (l := .main) h (.refl t)

/-- The next address comes to the creation of its listener. -/
theorem InRound.begins {k : Nat} (h : InRound .looping k 1 (2 * k) s) (hk : k < addresses.length) :
    ∃ t, (startUp MAXBACKLOG addresses).Reaches s t ∧ InRound .creatingListener k 0 (2 * k) t := by
  have ha : addresses[s.position]? = some addresses[k] := by
    rw [h.position]
    exact List.getElem?_eq_getElem hk
  refine ⟨{ s with
    feConnectionInitializationSemaphore := 0
    args := .holds addresses[k]
    main := .creatingListener }, ⟨List.replicate 4 .main, ?_⟩, rfl, h.position, rfl, h.index,
    h.count⟩
  simp [Transition.System.exec, startUp, step, StartUp.wait, h.main, h.semaphore, ha]

/-- A thread is created and posts. -/
theorem InRound.creates {main next : Starter α} {role : Role} {k k' count : Nat}
    (h : InRound main k 0 count s) (hroom : count < MAXBACKLOG)
    (hst : s.step addresses .main = some { s.create role next with position := k' }) :
    ∃ t, (startUp MAXBACKLOG addresses).Reaches s t ∧ InRound next k' 1 (count + 1) t := by
  have hroom' : s.i < MAXBACKLOG := h.index ▸ hroom
  rw [create_of_lt hroom'] at hst
  have hlast : (s.threads ++ [({ role } : ReaderThread α)])[s.threads.length]? =
      some { role } := List.getElem?_concat_length
  obtain ⟨t, ht, hmain, hposition, hi, hlength, hsem⟩ := reader_posts addresses
    (s := { s with
      tid := Function.update s.tid ⟨s.i, hroom'⟩ (some s.threads.length)
      i := s.i + 1
      threads := s.threads ++ [{ role }]
      main := next
      position := k' }) hlast (m := 3) rfl
  exact ⟨t, (reaches_main hst).trans ⟨_, ht⟩, hmain, hposition,
    hsem.trans (congrArg (· + 1) h.semaphore), hi.trans (congrArg (· + 1) h.index),
    hlength.trans (List.length_append.trans (congrArg (· + 1) h.count))⟩

variable (addresses) in
/-- The listener is created, and the main thread waits until it has read. -/
theorem InRound.listens {k : Nat} (h : InRound .creatingListener k 0 (2 * k) s)
    (hroom : 2 * k < MAXBACKLOG) :
    ∃ t, (startUp MAXBACKLOG addresses).Reaches s t ∧
      InRound .creatingMonitor k 0 (2 * k + 1) t := by
  have hst : s.step addresses .main = some { s.create .listener .handing with position := k } := by
    rw [← h.position, create_position]
    simp only [step, h.main]
  obtain ⟨t, ht, hround⟩ := h.creates hroom hst
  have hwait : t.step addresses .main = some { t with
      feConnectionInitializationSemaphore := 0, main := .creatingMonitor } := by
    simp only [step, hround.main, StartUp.wait, hround.semaphore]
  exact ⟨_, ht.trans (reaches_main hwait), rfl, hround.position, rfl, hround.index, hround.count⟩

/-- A whole round. -/
theorem InRound.round {k : Nat} (h : InRound .looping k 1 (2 * k) s) (hk : k < addresses.length)
    (hroom : 2 * k + 1 < MAXBACKLOG) :
    ∃ t, (startUp MAXBACKLOG addresses).Reaches s t ∧
      InRound .looping (k + 1) 1 (2 * (k + 1)) t := by
  obtain ⟨t, ht, hlistener⟩ := h.begins hk
  obtain ⟨u, hu, hmonitor⟩ := hlistener.listens addresses (by omega)
  have hst : u.step addresses .main =
      some { u.create .monitor .looping with position := k + 1 } := by
    simp only [step, hmonitor.main, hmonitor.position]
  obtain ⟨v, hv, hround⟩ := hmonitor.creates hroom hst
  exact ⟨v, ht.trans (hu.trans hv), hround⟩

variable (MAXBACKLOG) in
theorem exists_inRound {k : Nat} (hk : k ≤ addresses.length) (hroom : 2 * k ≤ MAXBACKLOG) :
    ∃ s, (startUp MAXBACKLOG addresses).Reachable s ∧ InRound .looping k 1 (2 * k) s := by
  induction k with
  | zero => exact ⟨{}, .start rfl, rfl, rfl, rfl, rfl, rfl⟩
  | succ k ih =>
    obtain ⟨s, hs, hround⟩ := ih (by omega) (by omega)
    obtain ⟨t, ⟨ls, hls⟩, hround'⟩ := hround.round hk (by omega)
    exact ⟨t, hs.exec hls, hround'⟩

/-- **Too many addresses**: the main thread writes behind the end of `tid`. -/
theorem exists_overrun (h : MAXBACKLOG < 2 * addresses.length) :
    ∃ s, (startUp MAXBACKLOG addresses).Reachable s ∧ s.main = .overrun := by
  have hmany : MAXBACKLOG / 2 < addresses.length := by omega
  obtain ⟨s, hs, hhead⟩ := exists_inRound MAXBACKLOG (Nat.le_of_lt hmany) (by omega)
  obtain ⟨t, ⟨ls, hls⟩, hlistener⟩ := hhead.begins hmany
  have ht := hs.exec hls
  rcases Nat.lt_or_ge (2 * (MAXBACKLOG / 2)) MAXBACKLOG with hodd | heven
  · -- the last entry is taken by a listener
    obtain ⟨u, ⟨ms, hms⟩, hmonitor⟩ := hlistener.listens addresses hodd
    refine ⟨_, (ht.exec hms).next (l := .main) (t := { u with
      main := .overrun, position := MAXBACKLOG / 2 + 1 }) ?_, rfl⟩
    show u.step addresses .main = _
    simp only [step, hmonitor.main, hmonitor.position]
    rw [create_of_le (by rw [hmonitor.index]; omega)]
  · refine ⟨_, ht.next (l := .main) (t := { t with main := .overrun }) ?_, rfl⟩
    show t.step addresses .main = _
    simp only [step, hlistener.main]
    rw [create_of_le (by rw [hlistener.index]; omega)]

/-- **The hand-off.**  In every scheduling threads are created in pairs, a listener and a
monitor that copy the address of their pair; no thread finds `args` torn or freed; and the main
thread never waits for a post that no thread can make: exactly for the lists with at most half
as many addresses as `tid` has entries.  With more of them some scheduling leads to a write
behind its end. -/
theorem hands_off_iff (MAXBACKLOG : Nat) (addresses : List α) :
    (∀ s, (startUp MAXBACKLOG addresses).Reachable s → Correct addresses s) ↔
      2 * addresses.length ≤ MAXBACKLOG := by
  constructor
  · intro hall
    by_contra hmany
    obtain ⟨s, hs, hover⟩ := exists_overrun (Nat.not_le.1 hmany)
    exact (hall s hs).inside hover
  · exact fun hsize s hs => correct_of_reachable hsize hs

/-- Two addresses are handed out, and the second listener has just been created. -/
def secondListener : List Step :=
  [.main, .main, .main, .main, .main, .reader 0, .reader 0, .reader 0, .reader 0, .main, .main,
    .reader 1, .reader 1, .reader 1, .main, .reader 1, .main, .main, .main, .main]

example : ((startUp 4 [10, 20]).exec {} secondListener).map
    (fun s => (s.args, s.i, s.threads.map fun t => t.feAddress)) =
      some (.holds 20, 3, [some 10, some 10, none]) := by decide

/-- An array for 128 threads, and 65 addresses. -/
theorem hands_off_counterexample :
    ∃ s, (startUp 128 (List.range 65)).Reachable s ∧ ¬Correct (List.range 65) s := by
  obtain ⟨s, hs, hover⟩ : ∃ s, (startUp 128 (List.range 65)).Reachable s ∧ s.main = .overrun :=
    exists_overrun (by rw [List.length_range]; omega)
  exact ⟨s, hs, fun hcorrect => hcorrect.inside hover⟩

end StartUp
end InstantMessenger
