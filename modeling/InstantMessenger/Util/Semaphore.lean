import InstantMessenger.Foundations.Transition
import InstantMessenger.Util.GroupFile

/-!
# The semaphore

`Semaphore.cpp`: a counter that goes below zero to count the waiting threads, and a
condition variable whose `wait` stands under an `if`, not in a loop.  The mutex makes
each call one step up to the point where it sleeps.

* `Semaphore` — the counter, the threads inside the condition variable, and what was
  called and returned so far.
* `Semaphore.wait`, `Semaphore.post`, `Semaphore.wake`, `Semaphore.spurious` — the steps:
  `notify_one` chooses a waiter, and a waiter may also return on its own.
* `Semaphore.Regular` — no waiter returns on its own, and the counter does not run below
  the range of an `int`.
* `Semaphore.returned_le` — **in every run of regular steps no more `wait` calls return
  than the initial value and the `post` calls admit**; and after any step that is not
  regular, waking up the notified threads is enough to exceed that.
-/

namespace InstantMessenger

open Transition
open GroupFile (toInt)

/-- A semaphore with the threads that are inside its condition variable. -/
structure Semaphore (τ : Type*) where
  m_value : Int
  /-- The threads that sleep in `m_waitcond`. -/
  waiters : List τ
  /-- The threads that a `notify_one` has woken up, and that have not returned yet. -/
  notified : List τ
  /-- The calls of `wait` so far. -/
  calls : Nat
  /-- The calls of `wait` that have returned. -/
  returned : Nat
  /-- The calls of `post` so far. -/
  posts : Nat
  deriving DecidableEq

namespace Semaphore

variable {τ : Type*}

/-- `Semaphore::Semaphore`. -/
def new (init : Int) : Semaphore τ := ⟨init, [], [], 0, 0, 0⟩

/-- The thread is in no call of this semaphore. -/
def Free (s : Semaphore τ) (t : τ) : Prop := t ∉ s.waiters ∧ t ∉ s.notified

instance [DecidableEq τ] (s : Semaphore τ) (t : τ) : Decidable (s.Free t) :=
  inferInstanceAs (Decidable (_ ∧ _))

/-! ## The calls -/

/-- `Semaphore::wait`, up to the point where it sleeps or returns. -/
def wait (s : Semaphore τ) (t : τ) : Semaphore τ :=
  let value := toInt (s.m_value - 1)
  if value < 0 then
    { s with m_value := value, waiters := t :: s.waiters, calls := s.calls + 1 }
  else { s with m_value := value, calls := s.calls + 1, returned := s.returned + 1 }

variable [DecidableEq τ]

/-- `Semaphore::post`; `u` is the waiter that `notify_one` wakes up, if there is any.
`none` when there is no such choice. -/
def post (s : Semaphore τ) (u : Option τ) : Option (Semaphore τ) :=
  let value := toInt (s.m_value + 1)
  let t := { s with m_value := value, posts := s.posts + 1 }
  if value ≤ 0 then
    match u with
    | none => if s.waiters = [] then some t else none
    | some u =>
      if u ∈ s.waiters then
        some { t with waiters := s.waiters.erase u, notified := u :: s.notified }
      else none
  else if u = none then some t else none

/-- A thread that was woken up has the mutex again, and its call returns. -/
def wake (s : Semaphore τ) (t : τ) : Semaphore τ :=
  { s with notified := s.notified.erase t, returned := s.returned + 1 }

/-- A thread returns from `m_waitcond.wait` without a notification. -/
def spurious (s : Semaphore τ) (t : τ) : Semaphore τ :=
  { s with waiters := s.waiters.erase t, returned := s.returned + 1 }

/-- Which thread moves. -/
inductive Label (τ : Type*) where
  | wait (t : τ)
  | post (t : τ) (woken : Option τ)
  | wake (t : τ)
  | spurious (t : τ)

def step (s : Semaphore τ) : Label τ → Option (Semaphore τ)
  | .wait t => if s.Free t then some (s.wait t) else none
  | .post t woken => if s.Free t then s.post woken else none
  | .wake t => if t ∈ s.notified then some (s.wake t) else none
  | .spurious t => if t ∈ s.waiters then some (s.spurious t) else none

/-- Any threads calling `wait` and `post` on a semaphore that starts with `init`. -/
def system (τ : Type*) [DecidableEq τ] (init : Int) : System (Semaphore τ) (Label τ) where
  init s := s = new init
  step := step

/-- What a step does. -/
inductive Moves (s : Semaphore τ) : Label τ → Semaphore τ → Prop
  | sleep {t : τ} : toInt (s.m_value - 1) < 0 → Moves s (.wait t)
      { s with
        m_value := toInt (s.m_value - 1), waiters := t :: s.waiters, calls := s.calls + 1 }
  | pass {t : τ} : 0 ≤ toInt (s.m_value - 1) → Moves s (.wait t)
      { s with
        m_value := toInt (s.m_value - 1), calls := s.calls + 1, returned := s.returned + 1 }
  | notify {t u : τ} : u ∈ s.waiters → Moves s (.post t (some u))
      { s with
        m_value := toInt (s.m_value + 1), posts := s.posts + 1
        waiters := s.waiters.erase u, notified := u :: s.notified }
  | count {t : τ} : 0 < toInt (s.m_value + 1) ∨ s.waiters = [] → Moves s (.post t none)
      { s with m_value := toInt (s.m_value + 1), posts := s.posts + 1 }
  | wake {t : τ} : t ∈ s.notified → Moves s (.wake t) (s.wake t)
  | spurious {t : τ} : t ∈ s.waiters → Moves s (.spurious t) (s.spurious t)

theorem moves_post {s v : Semaphore τ} {t : τ} {woken : Option τ}
    (h : s.post woken = some v) : Moves s (.post t woken) v := by
  unfold post at h
  simp only at h
  split at h
  case isTrue hle =>
    cases woken with
    | none =>
      simp only [Option.ite_none_right_eq_some, Option.some.injEq] at h
      obtain ⟨hnil, rfl⟩ := h
      exact .count (Or.inr hnil)
    | some u =>
      simp only [Option.ite_none_right_eq_some, Option.some.injEq] at h
      obtain ⟨hu, rfl⟩ := h
      exact .notify hu
  case isFalse hlt =>
    simp only [Option.ite_none_right_eq_some, Option.some.injEq] at h
    obtain ⟨rfl, rfl⟩ := h
    exact .count (Or.inl (not_le.1 hlt))

theorem moves_of_step {s v : Semaphore τ} {l : Label τ} (h : s.step l = some v) :
    Moves s l v := by
  cases l with
  | wait t =>
    simp only [step, Option.ite_none_right_eq_some, Option.some.injEq] at h
    obtain ⟨_, rfl⟩ := h
    unfold wait
    simp only
    split
    case isTrue hlt => exact .sleep hlt
    case isFalse hle => exact .pass (not_lt.1 hle)
  | post t woken =>
    simp only [step, Option.ite_none_right_eq_some] at h
    exact moves_post h.2
  | wake t =>
    simp only [step, Option.ite_none_right_eq_some, Option.some.injEq] at h
    obtain ⟨ht, rfl⟩ := h
    exact .wake ht
  | spurious t =>
    simp only [step, Option.ite_none_right_eq_some, Option.some.injEq] at h
    obtain ⟨ht, rfl⟩ := h
    exact .spurious ht

/-! ## What is counted -/

/-- What `m_value` would be if an `int` had no bounds. -/
def balance (init : Int) (s : Semaphore τ) : Int := init + s.posts - s.calls

/-- Every call has returned or is inside the condition variable; and the counter is the
balance, as far as an `int` can tell. -/
structure Counted (init : Int) (s : Semaphore τ) : Prop where
  value : s.m_value = toInt (balance init s)
  calls : s.calls = s.returned + s.notified.length + s.waiters.length

variable {init : Int}

theorem toInt_toInt_add (n k : Int) : toInt (toInt n + k) = toInt (n + k) := by
  unfold toInt
  omega

omit [DecidableEq τ] in
theorem counted_new (hmin : 0 ≤ init) (hmax : init ≤ Text.INT_MAX) :
    Counted init (new init : Semaphore τ) := by
  refine ⟨?_, rfl⟩
  have hbalance : balance init (new init : Semaphore τ) = init := by simp [balance, new]
  rw [hbalance, GroupFile.toInt_of_range hmin hmax]
  rfl

theorem Counted.step {s t : Semaphore τ} {l : Label τ} (h : Counted init s)
    (hm : Moves s l t) : Counted init t := by
  obtain ⟨hvalue, hcalls⟩ := h
  have hdown : toInt (s.m_value - 1) = toInt (init + s.posts - (s.calls + 1 : Nat)) := by
    rw [hvalue, sub_eq_add_neg, toInt_toInt_add, balance]
    congr 1
    omega
  have hup : toInt (s.m_value + 1) = toInt (init + (s.posts + 1 : Nat) - s.calls) := by
    rw [hvalue, toInt_toInt_add, balance]
    congr 1
    omega
  cases hm with
  | sleep =>
    refine ⟨hdown, ?_⟩
    simp only [List.length_cons]
    omega
  | pass =>
    refine ⟨hdown, ?_⟩
    simp only
    omega
  | notify hu =>
    have hpos := List.length_pos_of_mem hu
    refine ⟨hup, ?_⟩
    simp only [List.length_cons, List.length_erase_of_mem hu]
    omega
  | count => exact ⟨hup, hcalls⟩
  | wake hu =>
    have hpos := List.length_pos_of_mem hu
    refine ⟨hvalue, ?_⟩
    simp only [Semaphore.wake, List.length_erase_of_mem hu]
    omega
  | spurious hu =>
    have hpos := List.length_pos_of_mem hu
    refine ⟨hvalue, ?_⟩
    simp only [Semaphore.spurious, List.length_erase_of_mem hu]
    omega

/-! ## Regular steps -/

/-- No waiter returns without a notification, and no `wait` takes the counter below the
range of an `int`. -/
def Regular (init : Int) (s : Semaphore τ) : Label τ → Prop
  | .wait _ => Text.INT_MIN < balance init s
  | .spurious _ => False
  | _ => True

instance (init : Int) (s : Semaphore τ) : (l : Label τ) → Decidable (Regular init s l)
  | .wait _ => inferInstanceAs (Decidable (_ < _))
  | .post .. => inferInstanceAs (Decidable True)
  | .wake _ => inferInstanceAs (Decidable True)
  | .spurious _ => inferInstanceAs (Decidable False)

/-- The waiters cover what the balance is below zero; and they are no more than that
while the counter stays below the top of its range. -/
structure Covered (init : Int) (s : Semaphore τ) : Prop where
  counted : Counted init s
  above : Text.INT_MIN ≤ balance init s
  covered : 0 ≤ balance init s + s.waiters.length
  exact : init + s.posts ≤ Text.INT_MAX → s.waiters ≠ [] →
    balance init s + s.waiters.length = 0

omit [DecidableEq τ] in
theorem covered_new (hmin : 0 ≤ init) (hmax : init ≤ Text.INT_MAX) :
    Covered init (new init : Semaphore τ) := by
  have hbalance : balance init (new init : Semaphore τ) = init := by simp [balance, new]
  refine ⟨counted_new hmin hmax, ?_, ?_, ?_⟩
  · rw [hbalance]
    exact le_trans (by decide) hmin
  · rw [hbalance]
    exact add_nonneg hmin (Int.natCast_nonneg _)
  · intro _ hne
    exact absurd rfl hne

/-- Within the range of an `int`, a negative counter is a negative balance. -/
theorem toInt_nonneg {n : Int} (hmin : Text.INT_MIN ≤ n) (h : 0 ≤ toInt n) : 0 ≤ n := by
  unfold Text.INT_MIN at hmin
  unfold toInt at h
  omega

theorem toInt_neg {n : Int} (hmax : n ≤ Text.INT_MAX) (h : toInt n < 0) : n < 0 := by
  unfold Text.INT_MAX at hmax
  unfold toInt at h
  omega

theorem Covered.step {s t : Semaphore τ} {l : Label τ} (h : Covered init s)
    (hok : Regular init s l) (hm : Moves s l t) : Covered init t := by
  obtain ⟨hcounted, habove, hcovered, hexact⟩ := h
  have hvalue : ∀ k, toInt (s.m_value + k) = toInt (balance init s + k) := by
    intro k
    rw [hcounted.value, toInt_toInt_add]
  have hbalance : balance init s = init + s.posts - s.calls := rfl
  have hcounted' := hcounted.step hm
  cases hm with
  | sleep hlt =>
    have hok : Text.INT_MIN < balance init s := hok
    rw [sub_eq_add_neg, hvalue] at hlt
    refine ⟨hcounted', ?_, ?_, ?_⟩
    · simp only [balance]
      omega
    · simp only [balance, List.length_cons]
      omega
    · -- the waiters were exactly enough, so one more on both sides still are
      intro hposts _
      simp only at hposts
      have hneg := toInt_neg (by omega) hlt
      have hsum : balance init s + s.waiters.length = 0 := by
        by_cases hnil : s.waiters = []
        · rw [hnil, List.length_nil] at hcovered ⊢
          omega
        · exact hexact hposts hnil
      simp only [balance, List.length_cons]
      omega
  | pass hge =>
    have hok : Text.INT_MIN < balance init s := hok
    rw [sub_eq_add_neg, hvalue] at hge
    have hpos := toInt_nonneg (by omega) hge
    refine ⟨hcounted', ?_, ?_, ?_⟩
    · simp only [balance]
      omega
    · simp only [balance]
      omega
    · intro hposts hne
      have hsum := hexact hposts hne
      omega
  | notify hu =>
    have hlen := List.length_pos_of_mem hu
    refine ⟨hcounted', ?_, ?_, ?_⟩
    · simp only [balance]
      omega
    · simp only [balance, List.length_erase_of_mem hu]
      omega
    · intro hposts _
      simp only at hposts
      have hsum := hexact (by omega) (List.ne_nil_of_mem hu)
      simp only [balance, List.length_erase_of_mem hu]
      omega
  | count hnone =>
    refine ⟨hcounted', ?_, ?_, ?_⟩
    · simp only [balance]
      omega
    · simp only [balance]
      omega
    · -- nobody was notified although somebody waits: the balance was not below zero
      intro hposts hne
      have hne : s.waiters ≠ [] := hne
      simp only at hposts
      have hsum := hexact (by omega) hne
      have hpos := hnone.resolve_right hne
      have hlen := List.length_pos_iff.2 hne
      rw [hvalue, GroupFile.toInt] at hpos
      unfold Text.INT_MIN at habove
      omega
  | wake => exact ⟨hcounted', habove, hcovered, hexact⟩
  | spurious => exact absurd hok (by simp [Regular])

/-- In every run of regular steps the waiters cover the balance. -/
theorem covered_of_regular (hmin : 0 ≤ init) (hmax : init ≤ Text.INT_MAX) {s : Semaphore τ}
    (h : (system τ init).ReachesWhen (Regular init) s) : Covered init s := by
  refine h.invariant ?_ ?_
  · rintro _ rfl
    exact covered_new hmin hmax
  · intro s l t hs hok hst
    exact hs.step hok (moves_of_step hst)

/-! ## A step that is not regular -/

/-- Everybody that was notified wakes up. -/
theorem reaches_wake_all (s : Semaphore τ) :
    ∃ t, (system τ init).Reaches s t ∧ t.returned = s.returned + s.notified.length ∧
      t.posts = s.posts := by
  induction hn : s.notified generalizing s with
  | nil => exact ⟨s, .refl s, rfl, rfl⟩
  | cons u rest ih =>
    have hstep : (system τ init).step s (.wake u) = some (s.wake u) :=
      if_pos (hn ▸ List.mem_cons_self)
    have hrest : (s.wake u).notified = rest := by
      rw [Semaphore.wake, hn]
      exact List.erase_cons_head ..
    obtain ⟨t, hreach, hreturned, hposts⟩ := ih (s.wake u) hrest
    refine ⟨t, .cons hstep hreach, ?_, hposts⟩
    rw [hreturned, List.length_cons, Semaphore.wake]
    simp only
    omega

/-- A step that is not regular leaves one more thread on its way out than the balance
admits. -/
theorem exceeds_of_not_regular {s t : Semaphore τ} {l : Label τ} (h : Covered init s)
    (hposts : init + s.posts ≤ Text.INT_MAX) (hok : ¬ Regular init s l) (hm : Moves s l t) :
    init + t.posts < t.returned + t.notified.length := by
  have hcalls := h.counted.calls
  have hbalance : balance init s = init + s.posts - s.calls := rfl
  have habove := h.above
  have hcovered := h.covered
  unfold Text.INT_MIN at habove
  cases hm with
  | sleep hlt =>
    -- the counter wraps around, so nobody sleeps
    rw [h.counted.value, sub_eq_add_neg, toInt_toInt_add] at hlt
    have hbottom : ¬ Text.INT_MIN < balance init s := hok
    unfold Text.INT_MIN at hbottom
    unfold toInt at hlt
    omega
  | pass hge =>
    have hbottom : ¬ Text.INT_MIN < balance init s := hok
    unfold Text.INT_MIN at hbottom
    have hlen : 0 < s.waiters.length := by omega
    have hsum := h.exact hposts (List.length_pos_iff.1 hlen)
    simp only
    omega
  | notify => exact absurd trivial hok
  | count => exact absurd trivial hok
  | wake => exact absurd trivial hok
  | spurious hu =>
    have hsum := h.exact hposts (List.ne_nil_of_mem hu)
    simp only [Semaphore.spurious]
    omega

/-! ## The result -/

/-- **When a semaphore is safe.**  While no waiter returns on its own and the counter does
not run below the range of an `int`, no more `wait` calls have returned than the initial
value and the `post` calls admit.  After any other step, until so many `post` calls that
the counter could run above the range, the run can go on to one where more have. -/
theorem returned_le {init : Int} (hmin : 0 ≤ init) (hmax : init ≤ Text.INT_MAX) :
    (∀ s, (system τ init).ReachesWhen (Regular init) s → s.returned ≤ init + s.posts) ∧
      ∀ s l t, (system τ init).ReachesWhen (Regular init) s → init + s.posts ≤ Text.INT_MAX →
        ¬ Regular init s l → (system τ init).step s l = some t →
        ∃ u, (system τ init).Reaches t u ∧ init + u.posts < u.returned := by
  refine ⟨?_, ?_⟩
  · intro s hs
    have hcovered := covered_of_regular hmin hmax hs
    have hcalls := hcovered.counted.calls
    have hsum := hcovered.covered
    unfold balance at hsum
    omega
  · intro s l t hs hposts hok hst
    have hexceeds := exceeds_of_not_regular (covered_of_regular hmin hmax hs) hposts hok
      (moves_of_step hst)
    obtain ⟨u, hreach, hreturned, huposts⟩ := @reaches_wake_all _ _ init t
    refine ⟨u, hreach, ?_⟩
    rw [hreturned, huposts]
    exact_mod_cast hexceeds

/-- One thread waits, and another one posts. -/
def handover : List (Label Nat) := [.wait 0, .post 1 (some 0), .wake 0]

def handedOver : Semaphore Nat := ⟨0, [], [], 1, 1, 1⟩

theorem returned_le_handover : handedOver.returned ≤ (0 : Int) + handedOver.posts :=
  (returned_le (by decide) (by decide)).1 handedOver
    (@System.reachesWhen_of_execWhen _ _ _ _ _ (fun _ _ h => of_decide_eq_true h) _ _ handover
      (.start rfl) (by decide))

/-- **A waiter that returns on its own.**  One `wait` on a semaphore that starts with 0
and is never posted returns. -/
theorem returned_le_counterexample :
    ∃ s, (system Nat 0).Reachable s ∧ ¬ s.returned ≤ (0 : Int) + s.posts :=
  ⟨⟨-1, [], [], 1, 1, 0⟩,
    @System.reachable_of_exec _ _ _ _ _ [.wait 0, .spurious 0] rfl (by decide), by decide⟩

end Semaphore

end InstantMessenger
