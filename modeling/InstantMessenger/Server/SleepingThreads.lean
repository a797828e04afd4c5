import InstantMessenger.Foundations.Refinement
import InstantMessenger.Server.Semaphores
import InstantMessenger.Util.Semaphore

/-!
# The server's threads on the semaphores they really have

`InstantMessenger.Server.Semaphores` gives each thread of the server as the operations it does
on the semaphores, and takes a semaphore as a number that a `wait` lowers when it is above
zero.  Here the same threads run on the class of `Semaphore.cpp`: a `wait` may put its thread
to sleep in the condition variable, a `post` chooses a waiter, and the waiter returns later.

* `Semaphore.Settled`, `Semaphore.permits` — what a semaphore looks like that starts with 1
  and guards a section, and how many threads it lets in.
* `Sleeping`, `sleepingThreads` — the threads and the semaphores, as a transition system.
* `Sleeping.Regular` — no waiter returns on its own, and no counter leaves its range.
* `Sleeping.Sound.step`, `Sleeping.sound_of_regular` — **through `permits` a regular run is
  one of the threads on numbers**, so what holds there holds here.
* `Semaphores.exclusive_and_live` — **no two threads of a server are in one section, and no
  wake-up is lost**: while a thread is not done, some thread can go on.
* `Semaphores.all_finish` — **the threads of a server finish**: each run ends, and where it
  ends every thread is done.
-/

namespace InstantMessenger

open Transition LockOrder
open GroupFile (toInt)

/-! ## A semaphore that guards a section -/

namespace Semaphore

variable {τ : Type*} {s s' : Semaphore τ}

/-- Nobody has asked; or somebody was let in, or is being let in, and the others sleep. -/
structure Settled (s : Semaphore τ) : Prop where
  value : (s.m_value = 1 ∧ s.waiters = [] ∧ s.notified = []) ∨
    (s.m_value = -s.waiters.length ∧ s.notified.length ≤ 1)
  range : Text.INT_MIN ≤ s.m_value
  distinct : (s.waiters ++ s.notified).Nodup

/-- How many more threads may go on. -/
def permits (s : Semaphore τ) : Nat := s.m_value.toNat + s.notified.length

theorem settled_new : Settled (new 1 : Semaphore τ) :=
  ⟨.inl ⟨rfl, rfl, rfl⟩, by simp [new, Text.INT_MIN], List.nodup_nil⟩

/-- A `wait` that sleeps leaves the permits. -/
theorem Settled.sleep (h : Settled s) (hbottom : Text.INT_MIN < s.m_value)
    (hneg : toInt (s.m_value - 1) < 0) :
    toInt (s.m_value - 1) = -(s.waiters.length + 1 : Nat) ∧ s.notified.length ≤ 1 ∧
      s.permits = s.notified.length := by
  unfold Text.INT_MIN at hbottom
  rcases h.value with ⟨hv, hw, hn⟩ | ⟨hv, hn⟩
  · rw [hv] at hneg
    exact absurd hneg (by decide)
  · refine ⟨?_, hn, ?_⟩
    · unfold toInt
      omega
    · unfold permits
      omega

/-- A `wait` that passes finds the semaphore as it was at the start. -/
theorem Settled.pass (h : Settled s) (hbottom : Text.INT_MIN < s.m_value)
    (hpass : 0 ≤ toInt (s.m_value - 1)) : s.m_value = 1 ∧ s.waiters = [] ∧ s.notified = [] := by
  unfold Text.INT_MIN at hbottom
  rcases h.value with hone | ⟨hv, -⟩
  · exact hone
  · unfold toInt at hpass
    omega

/-- Who posts without a permit left finds the others asleep. -/
theorem Settled.of_permits_eq_zero (h : Settled s) (hp : s.permits = 0) :
    s.m_value = -s.waiters.length ∧ s.notified = [] := by
  unfold permits at hp
  rcases h.value with ⟨hv, -, -⟩ | ⟨hv, -⟩
  · omega
  · exact ⟨hv, List.length_eq_zero_iff.1 (by omega)⟩

/-- A permit that nobody was woken up for is there for the next thread. -/
theorem Settled.of_permits_pos (h : Settled s) (hp : 0 < s.permits) (hn : s.notified = []) :
    s.m_value = 1 ∧ s.waiters = [] := by
  unfold permits at hp
  rw [hn, List.length_nil] at hp
  rcases h.value with ⟨hv, hw, -⟩ | ⟨hv, -⟩
  · exact ⟨hv, hw⟩
  · omega

variable [DecidableEq τ]

/-- A thread sleeps once. -/
theorem distinct_moves {l : Label τ} (h : (s.waiters ++ s.notified).Nodup)
    (hfree : ∀ t, l = .wait t → s.Free t) (hm : Moves s l s') :
    (s'.waiters ++ s'.notified).Nodup := by
  cases hm with
  | @sleep t _ =>
    refine List.nodup_cons.2 ⟨fun hmem => ?_, h⟩
    rcases List.mem_append.1 hmem with hw | hn
    · exact (hfree t rfl).1 hw
    · exact (hfree t rfl).2 hn
  | pass | count => exact h
  | @notify t u hu =>
    have hperm : (s.waiters.erase u ++ u :: s.notified).Perm (s.waiters ++ s.notified) :=
      List.perm_middle.trans ((List.perm_cons_erase hu).symm.append_right _)
    exact hperm.nodup_iff.2 h
  | wake => exact h.sublist ((List.Sublist.refl _).append List.erase_sublist)
  | spurious => exact h.sublist (List.erase_sublist.append (List.Sublist.refl _))

/-- **What the calls do to the permits**: a `wait` that returns takes one, a `post` gives
one. -/
theorem Settled.moves {l : Label τ} (h : Settled s) (hfree : ∀ t, l = .wait t → s.Free t)
    (hbottom : ∀ t, l = .wait t → Text.INT_MIN < s.m_value)
    (hpost : ∀ t u, l = .post t u → s.permits = 0) (hspurious : ∀ t, l ≠ .spurious t)
    (hm : Moves s l s') :
    Settled s' ∧ s'.permits + s'.returned + s.posts = s.permits + s.returned + s'.posts := by
  have hdistinct := distinct_moves h.distinct hfree hm
  cases hm with
  | @sleep t hneg =>
    obtain ⟨hvalue, hn, hp⟩ := h.sleep (hbottom t rfl) hneg
    have hrange : Text.INT_MIN ≤ toInt (s.m_value - 1) := by
      have hmin := hbottom t rfl
      unfold Text.INT_MIN at hmin ⊢
      unfold toInt
      omega
    refine ⟨⟨.inr ⟨hvalue, hn⟩, hrange, hdistinct⟩, ?_⟩
    rw [hp, permits]
    simp only
    omega
  | @pass t hge =>
    obtain ⟨hv, hw, hn⟩ := h.pass (hbottom t rfl) hge
    have hzero : toInt (s.m_value - 1) = 0 := by
      rw [hv]
      rfl
    refine ⟨⟨.inr ⟨by simp [hzero, hw], by simp [hn]⟩, by simp [hzero, Text.INT_MIN],
      hdistinct⟩, ?_⟩
    simp only [permits, hzero]
    simp only [hv, hn, List.length_nil]
    omega
  | @notify t u hu =>
    obtain ⟨hv, hn⟩ := h.of_permits_eq_zero (hpost t _ rfl)
    have hlen := List.length_pos_of_mem hu
    have herase := List.length_erase_of_mem hu
    have hup : toInt (s.m_value + 1) = -(s.waiters.erase u).length := by
      have habove := h.range
      unfold Text.INT_MIN at habove
      rw [hv, herase]
      unfold toInt
      omega
    have hrange : Text.INT_MIN ≤ toInt (s.m_value + 1) := by
      have habove := h.range
      rw [hup, herase]
      omega
    refine ⟨⟨.inr ⟨hup, by simp [hn]⟩, hrange, hdistinct⟩, ?_⟩
    simp only [permits, hup]
    simp only [hv, hn, List.length_nil, List.length_cons]
    omega
  | @count t hnone =>
    obtain ⟨hv, hn⟩ := h.of_permits_eq_zero (hpost t _ rfl)
    have hw : s.waiters = [] := by
      rcases hnone with hpos | hw
      · have habove := h.range
        unfold Text.INT_MIN at habove
        unfold toInt at hpos
        exact List.length_eq_zero_iff.1 (by omega)
      · exact hw
    have hv0 : s.m_value = 0 := by
      rw [hv, hw]
      rfl
    have hone : toInt (s.m_value + 1) = 1 := by
      rw [hv0]
      rfl
    refine ⟨⟨.inl ⟨hone, hw, hn⟩, by simp [hone, Text.INT_MIN], hdistinct⟩, ?_⟩
    simp only [permits, hone]
    simp only [hv0, hn, List.length_nil]
    omega
  | @wake t ht =>
    have hlen := List.length_pos_of_mem ht
    have herase := List.length_erase_of_mem ht
    rcases h.value with ⟨-, -, hn⟩ | ⟨hv, hn⟩
    · rw [hn] at ht
      cases ht
    · refine ⟨⟨.inr ⟨hv, by simp only [Semaphore.wake]; omega⟩, h.range, hdistinct⟩, ?_⟩
      simp only [permits, Semaphore.wake, herase]
      omega
  | @spurious t => exact absurd rfl (hspurious t)

/-- Somebody may post: there is nobody to wake up, or there is a choice. -/
theorem exists_post (s : Semaphore τ) : ∃ woken, (s.post woken).isSome = true := by
  unfold post
  simp only
  split
  · cases hw : s.waiters with
    | nil => exact ⟨none, by simp⟩
    | cons u rest => exact ⟨some u, by simp⟩
  · exact ⟨none, by simp⟩

/-- A thread that a call does not put to sleep stays awake. -/
theorem Free.moves {l : Label τ} {t : τ} (hm : Moves s l s') (hl : l ≠ .wait t)
    (h : s.Free t) : s'.Free t := by
  cases hm with
  | @sleep u _ =>
    refine ⟨fun hmem => ?_, h.2⟩
    rcases List.mem_cons.1 hmem with rfl | hmem
    · exact hl rfl
    · exact h.1 hmem
  | pass | count => exact h
  | @notify _ u hu =>
    refine ⟨fun hmem => h.1 (List.mem_of_mem_erase hmem), fun hmem => ?_⟩
    rcases List.mem_cons.1 hmem with rfl | hmem
    · exact h.1 hu
    · exact h.2 hmem
  | wake => exact ⟨h.1, fun hmem => h.2 (List.mem_of_mem_erase hmem)⟩
  | spurious => exact ⟨fun hmem => h.1 (List.mem_of_mem_erase hmem), h.2⟩

/-- A thread that does not return from its `wait` stays asleep. -/
theorem Free.of_moves {l : Label τ} {t : τ} (hm : Moves s l s') (hwake : l ≠ .wake t)
    (hspurious : l ≠ .spurious t) (h : s'.Free t) : s.Free t := by
  cases hm with
  | sleep => exact ⟨fun hmem => h.1 (List.mem_cons_of_mem _ hmem), h.2⟩
  | pass | count => exact h
  | @notify _ u hu =>
    have hne : t ≠ u := by
      rintro rfl
      exact h.2 List.mem_cons_self
    exact ⟨fun hmem => h.1 ((List.mem_erase_of_ne hne).2 hmem),
      fun hmem => h.2 (List.mem_cons_of_mem _ hmem)⟩
  | @wake u _ =>
    have hne : t ≠ u := by
      rintro rfl
      exact hwake rfl
    exact ⟨h.1, fun hmem => h.2 ((List.mem_erase_of_ne hne).2 hmem)⟩
  | @spurious u _ =>
    have hne : t ≠ u := by
      rintro rfl
      exact hspurious rfl
    exact ⟨fun hmem => h.1 ((List.mem_erase_of_ne hne).2 hmem), h.2⟩

end Semaphore

/-! ## The threads -/

/-- Threads that do operations on semaphores. -/
structure Sleeping (τ μ : Type*) where
  semaphore : μ → Semaphore τ
  /-- The semaphores that a thread has waited for and not posted yet, the last one first. -/
  held : τ → List μ
  /-- What a thread still does; a `wait` that has not returned is the first of it. -/
  rest : τ → List (Op μ)

/-- Which thread moves. -/
inductive SleepingStep (τ : Type*) where
  /-- The thread calls its next operation; a `post` wakes up this waiter. -/
  | call (t : τ) (woken : Option τ)
  /-- The thread was woken up, and its `wait` returns. -/
  | wake (t : τ)
  /-- Its `wait` returns although it was not. -/
  | spurious (t : τ)

namespace Sleeping

variable {τ μ : Type*} [DecidableEq τ] [DecidableEq μ]

/-- The `wait` of the thread for `m` returns. -/
def enter (s : Sleeping τ μ) (t : τ) (m : μ) (ops : List (Op μ)) (sem : Semaphore τ) :
    Sleeping τ μ where
  semaphore := Function.update s.semaphore m sem
  held := Function.update s.held t (m :: s.held t)
  rest := Function.update s.rest t ops

/-- The thread has posted `m`. -/
def leave (s : Sleeping τ μ) (t : τ) (m : μ) (ops : List (Op μ)) (sem : Semaphore τ) :
    Sleeping τ μ where
  semaphore := Function.update s.semaphore m sem
  held := Function.update s.held t ((s.held t).erase m)
  rest := Function.update s.rest t ops

def step (s : Sleeping τ μ) : SleepingStep τ → Option (Sleeping τ μ)
  | .call t woken =>
    match s.rest t with
    | [] => none
    | .wait m :: ops =>
      ((s.semaphore m).step (.wait t)).map fun sem =>
        if t ∈ sem.waiters then { s with semaphore := Function.update s.semaphore m sem }
        else s.enter t m ops sem
    | .post m :: ops => ((s.semaphore m).step (.post t woken)).map (s.leave t m ops)
  | .wake t =>
    match s.rest t with
    | .wait m :: ops => ((s.semaphore m).step (.wake t)).map (s.enter t m ops)
    | _ => none
  | .spurious t =>
    match s.rest t with
    | .wait m :: ops => ((s.semaphore m).step (.spurious t)).map (s.enter t m ops)
    | _ => none

/-- Each thread does one of its programs, on semaphores that start with 1. -/
def sleepingThreads (programs : τ → Set (List (Op μ))) :
    System (Sleeping τ μ) (SleepingStep τ) where
  init s := (∀ m, s.semaphore m = .new 1) ∧ ∀ t, s.held t = [] ∧ s.rest t ∈ programs t
  step := step

/-- What a step does: a `wait` that sleeps, an operation that returns. -/
inductive Moves (s : Sleeping τ μ) : SleepingStep τ → Sleeping τ μ → Prop
  | sleep {t : τ} {woken : Option τ} {m : μ} {ops : List (Op μ)} {sem : Semaphore τ}
      (hrest : s.rest t = .wait m :: ops) (hfree : (s.semaphore m).Free t)
      (hm : Semaphore.Moves (s.semaphore m) (.wait t) sem)
      (hreturned : sem.returned = (s.semaphore m).returned) :
      Moves s (.call t woken) { s with semaphore := Function.update s.semaphore m sem }
  | enter {l : SleepingStep τ} {k : Semaphore.Label τ} {t : τ} {m : μ} {ops : List (Op μ)}
      {sem : Semaphore τ} (hrest : s.rest t = .wait m :: ops)
      (hl : (∃ woken, l = .call t woken ∧ k = .wait t ∧ (s.semaphore m).Free t) ∨
        (l = .wake t ∧ k = .wake t) ∨ (l = .spurious t ∧ k = .spurious t))
      (hm : Semaphore.Moves (s.semaphore m) k sem)
      (hreturned : sem.returned = (s.semaphore m).returned + 1)
      (hposts : sem.posts = (s.semaphore m).posts) : Moves s l (s.enter t m ops sem)
  | leave {t : τ} {woken : Option τ} {m : μ} {ops : List (Op μ)} {sem : Semaphore τ}
      (hrest : s.rest t = .post m :: ops) (hfree : (s.semaphore m).Free t)
      (hm : Semaphore.Moves (s.semaphore m) (.post t woken) sem) :
      Moves s (.call t woken) (s.leave t m ops sem)

theorem moves_of_step {s v : Sleeping τ μ} {l : SleepingStep τ} (h : s.step l = some v) :
    Moves s l v := by
  have hfree : ∀ {sem sem' : Semaphore τ} {t : τ} {k : Semaphore.Label τ},
      k = .wait t ∨ (∃ woken, k = .post t woken) → sem.step k = some sem' → sem.Free t := by
    rintro sem sem' t k (rfl | ⟨woken, rfl⟩) hst
    · exact (Option.ite_none_right_eq_some.1 hst).1
    · exact (Option.ite_none_right_eq_some.1 hst).1
  unfold step at h
  cases l with
  | call t woken =>
    cases hrest : s.rest t with
    | nil => simp [hrest] at h
    | cons op ops =>
      cases op with
      | wait m =>
        simp only [hrest] at h
        obtain ⟨sem, hsem, rfl⟩ := Option.map_eq_some_iff.1 h
        have hawake := hfree (.inl rfl) hsem
        have hm := Semaphore.moves_of_step hsem
        split
        · rename_i hmem
          refine .sleep hrest hawake hm ?_
          cases hm with
          | sleep => rfl
          | pass => exact absurd hmem hawake.1
        · rename_i hmem
          refine .enter hrest (.inl ⟨woken, rfl, rfl, hawake⟩) hm ?_ ?_
          · cases hm with
            | sleep => exact absurd List.mem_cons_self hmem
            | pass => rfl
          · cases hm <;> rfl
      | post m =>
        simp only [hrest] at h
        obtain ⟨sem, hsem, rfl⟩ := Option.map_eq_some_iff.1 h
        exact .leave hrest (hfree (.inr ⟨woken, rfl⟩) hsem) (Semaphore.moves_of_step hsem)
  | wake t =>
    cases hrest : s.rest t with
    | nil => simp [hrest] at h
    | cons op ops =>
      cases op with
      | wait m =>
        simp only [hrest] at h
        obtain ⟨sem, hsem, rfl⟩ := Option.map_eq_some_iff.1 h
        have hm := Semaphore.moves_of_step hsem
        refine .enter hrest (.inr (.inl ⟨rfl, rfl⟩)) hm ?_ ?_ <;> cases hm <;> rfl
      | post m => simp [hrest] at h
  | spurious t =>
    cases hrest : s.rest t with
    | nil => simp [hrest] at h
    | cons op ops =>
      cases op with
      | wait m =>
        simp only [hrest] at h
        obtain ⟨sem, hsem, rfl⟩ := Option.map_eq_some_iff.1 h
        have hm := Semaphore.moves_of_step hsem
        refine .enter hrest (.inr (.inr ⟨rfl, rfl⟩)) hm ?_ ?_ <;> cases hm <;> rfl
      | post m => simp [hrest] at h

/-! ## Where the sleeping threads are -/

/-- Who sleeps in a semaphore does so in a `wait` for it, and sleeps there once. -/
structure InPlace (s : Sleeping τ μ) : Prop where
  distinct : ∀ m, ((s.semaphore m).waiters ++ (s.semaphore m).notified).Nodup
  asleep : ∀ m t, ¬(s.semaphore m).Free t → (s.rest t).head? = some (.wait m)

variable {s v : Sleeping τ μ} {l : SleepingStep τ} {t : τ} {m : μ}

omit [DecidableEq τ] [DecidableEq μ] in
/-- A thread in front of something else sleeps nowhere. -/
theorem InPlace.free (h : InPlace s) (hne : (s.rest t).head? ≠ some (.wait m)) :
    (s.semaphore m).Free t := by
  by_contra hfree
  exact hne (h.asleep m t hfree)

/-- Whoever wakes up, or was not put to sleep, is awake. -/
theorem free_of_enter {sem sem' : Semaphore τ} {k : Semaphore.Label τ}
    (hdistinct : (sem.waiters ++ sem.notified).Nodup)
    (hk : (k = .wait t ∧ sem.Free t) ∨ k = .wake t ∨ k = .spurious t)
    (hreturned : sem'.returned = sem.returned + 1) (hm : Semaphore.Moves sem k sem') :
    sem'.Free t := by
  obtain ⟨hw, hn, hdisjoint⟩ := List.nodup_append.1 hdistinct
  cases hm with
  | sleep | notify | count => simp at hreturned
  | @pass u _ =>
    rcases hk with ⟨hk, hfree⟩ | hk | hk
    · cases hk
      exact hfree
    · cases hk
    · cases hk
  | @wake u hu =>
    rcases hk with ⟨hk, -⟩ | hk | hk
    · cases hk
    · cases hk
      exact ⟨fun hmem => hdisjoint _ hmem _ hu rfl, hn.not_mem_erase⟩
    · cases hk
  | @spurious u hu =>
    rcases hk with ⟨hk, -⟩ | hk | hk
    · cases hk
    · cases hk
    · cases hk
      exact ⟨hw.not_mem_erase, fun hmem => hdisjoint _ hu _ hmem rfl⟩

/-- A thread goes on to its next operation, and is awake. -/
theorem InPlace.update (h : InPlace s) {k : Semaphore.Label τ} {sem : Semaphore τ}
    {held : τ → List μ} {ops : List (Op μ)}
    (hdistinct : (sem.waiters ++ sem.notified).Nodup)
    (hk : Semaphore.Moves (s.semaphore m) k sem) (hkt : ∀ u, u ≠ t → k ≠ .wait u)
    (ht : sem.Free t) (hothers : ∀ m', m' ≠ m → (s.semaphore m').Free t) :
    InPlace ⟨Function.update s.semaphore m sem, held, Function.update s.rest t ops⟩ where
  distinct m' := by
    by_cases hm : m' = m
    · subst hm
      simpa only [Function.update_self] using hdistinct
    · simpa only [Function.update_of_ne hm] using h.distinct m'
  asleep m' u hu := by
    by_cases hut : u = t
    · subst hut
      refine absurd ?_ hu
      by_cases hm : m' = m
      · subst hm
        simpa only [Function.update_self] using ht
      · simpa only [Function.update_of_ne hm] using hothers m' hm
    · simp only [Function.update_of_ne hut]
      refine h.asleep m' u fun hfree => hu ?_
      by_cases hm : m' = m
      · subst hm
        simpa only [Function.update_self] using hfree.moves hk (hkt u hut)
      · simpa only [Function.update_of_ne hm] using hfree

theorem InPlace.step (h : InPlace s) (hm : Moves s l v) : InPlace v := by
  cases hm with
  | @sleep t woken m ops sem hrest hfree hm _ =>
    have hdistinct := Semaphore.distinct_moves (h.distinct m) (by rintro _ ⟨⟩; exact hfree) hm
    refine ⟨fun m' => ?_, fun m' u hu => ?_⟩
    · by_cases heq : m' = m
      · subst heq
        simpa only [Function.update_self] using hdistinct
      · simpa only [Function.update_of_ne heq] using h.distinct m'
    · by_cases heq : m' = m
      · subst heq
        simp only [Function.update_self] at hu
        by_cases hut : u = t
        · simp only [hut, hrest, List.head?_cons]
        · refine h.asleep m' u fun hfree' => hu (hfree'.moves hm ?_)
          rintro ⟨⟩
          exact hut rfl
      · simp only [Function.update_of_ne heq] at hu
        exact h.asleep m' u hu
  | @enter _ k t m ops sem hrest hl hm hreturned _ =>
    have hk : (k = .wait t ∧ (s.semaphore m).Free t) ∨ k = .wake t ∨ k = .spurious t := by
      rcases hl with ⟨_, -, hk, hfree⟩ | ⟨-, hk⟩ | ⟨-, hk⟩
      · exact .inl ⟨hk, hfree⟩
      · exact .inr (.inl hk)
      · exact .inr (.inr hk)
    have hwait : ∀ u, k = .wait u → u = t ∧ (s.semaphore m).Free u := by
      rintro u rfl
      rcases hk with ⟨hk, hfree⟩ | hk | hk
      · cases hk
        exact ⟨rfl, hfree⟩
      · cases hk
      · cases hk
    refine h.update (Semaphore.distinct_moves (h.distinct m) (fun u hu => (hwait u hu).2) hm) hm
      (fun u hne hu => hne (hwait u hu).1) (free_of_enter (h.distinct m) hk hreturned hm) ?_
    intro m' hne
    refine h.free ?_
    rw [hrest]
    rintro ⟨⟩
    exact hne rfl
  | @leave t woken m ops sem hrest hfree hm =>
    refine h.update (Semaphore.distinct_moves (h.distinct m) (by rintro _ ⟨⟩) hm) hm
      (by rintro _ _ ⟨⟩) (hfree.moves hm (by rintro ⟨⟩)) ?_
    intro m' _
    refine h.free ?_
    rw [hrest]
    rintro ⟨⟩

/-! ## The threads on numbers -/

/-- The same threads, and how many more each semaphore lets in. -/
def overview (s : Sleeping τ μ) : State τ μ where
  value m := (s.semaphore m).permits
  held := s.held
  rest := s.rest

/-- No `wait` returns without a wake-up, and none takes its counter below the range of an
`int`. -/
def Regular (s : Sleeping τ μ) : SleepingStep τ → Prop
  | .call t _ => ∀ m ops, s.rest t = .wait m :: ops → Text.INT_MIN < (s.semaphore m).m_value
  | .wake _ => True
  | .spurious _ => False

/-- What regular runs of threads with nested sections keep. -/
structure Sound (programs : τ → Set (List (Op μ))) (s : Sleeping τ μ) : Prop where
  inPlace : InPlace s
  settled : ∀ m, (s.semaphore m).Settled
  overview : (LockOrder.system programs).Reachable s.overview

variable {programs : τ → Set (List (Op μ))} {rank : μ → Nat} {r bound : Nat}

omit [DecidableEq τ] in
theorem overview_update (s : Sleeping τ μ) (m : μ) (sem : Semaphore τ) (held : τ → List μ)
    (rest : τ → List (Op μ)) :
    overview ⟨Function.update s.semaphore m sem, held, rest⟩ =
      ⟨Function.update s.overview.value m sem.permits, held, rest⟩ := by
  simp only [overview, State.mk.injEq, and_true]
  funext m'
  by_cases hm : m' = m
  · subst hm
    simp only [Function.update_self]
  · simp only [Function.update_of_ne hm]

/-- Who posts a semaphore holds the only permit. -/
theorem Sound.permits_of_post (h : Sound programs s)
    (hp : ∀ t, ∀ ops ∈ programs t, Nested rank r ops) {ops : List (Op μ)}
    (hrest : s.rest t = .post m :: ops) : (s.semaphore m).permits = 0 := by
  have hordered := (allOrdered hp h.overview).ordered t
  rw [show s.overview.rest t = _ from hrest] at hordered
  have hheld : m ∈ s.held t := List.mem_of_mem_head? hordered.1
  rcases exclusive hp h.overview m with ⟨-, hnone⟩ | ⟨hzero, -⟩
  · exact absurd hheld (hnone t)
  · exact hzero

/-- **A regular step keeps all of it, and is a step on numbers or puts a thread to sleep.** -/
theorem Sound.step (h : Sound programs s) (hp : ∀ t, ∀ ops ∈ programs t, Nested rank r ops)
    (hok : s.Regular l) (hm : Moves s l v) : Sound programs v := by
  have hinPlace := h.inPlace.step hm
  have hsettled : ∀ {m : μ} {sem : Semaphore τ}, sem.Settled →
      ∀ m', (Function.update s.semaphore m sem m').Settled := by
    intro m sem hsem m'
    by_cases heq : m' = m
    · subst heq
      rwa [Function.update_self]
    · rw [Function.update_of_ne heq]
      exact h.settled m'
  cases hm with
  | @sleep t woken m ops sem hrest hfree hm hreturned =>
    obtain ⟨hsem, hcount⟩ := (h.settled m).moves (by rintro _ ⟨⟩; exact hfree)
      (fun _ _ => hok m ops hrest) (by rintro _ _ ⟨⟩) (by rintro _ ⟨⟩) hm
    have hposts : sem.posts = (s.semaphore m).posts := by cases hm <;> rfl
    refine ⟨hinPlace, hsettled hsem, ?_⟩
    rw [overview_update]
    have hsame : sem.permits = s.overview.value m := by
      show sem.permits = (s.semaphore m).permits
      omega
    rw [hsame, Function.update_eq_self]
    exact h.overview
  | @enter _ k t m ops sem hrest hl hm hreturned hposts =>
    have hnot : ∀ u, k ≠ .spurious u := by
      rintro u rfl
      rcases hl with ⟨_, -, hk, -⟩ | ⟨-, hk⟩ | ⟨rfl, -⟩
      · cases hk
      · cases hk
      · exact hok
    have hwait : ∀ u, k = .wait u →
        (s.semaphore m).Free u ∧ Text.INT_MIN < (s.semaphore m).m_value := by
      rintro u rfl
      rcases hl with ⟨_, rfl, hk, hfree⟩ | ⟨-, hk⟩ | ⟨-, hk⟩
      · cases hk
        exact ⟨hfree, hok m ops hrest⟩
      · cases hk
      · cases hk
    have hpost : ∀ u w, k ≠ .post u w := by
      rintro u w rfl
      rcases hl with ⟨_, -, hk, -⟩ | ⟨-, hk⟩ | ⟨-, hk⟩ <;> cases hk
    obtain ⟨hsem, hcount⟩ := (h.settled m).moves (fun u hu => (hwait u hu).1)
      (fun u hu => (hwait u hu).2) (fun u w hu => absurd hu (hpost u w)) hnot hm
    refine ⟨hinPlace, hsettled hsem, ?_⟩
    have hstep : LockOrder.step s.overview t = some (s.enter t m ops sem).overview := by
      rw [enter, overview_update, LockOrder.step, show s.overview.rest t = _ from hrest]
      have hvalue : s.overview.value m = sem.permits + 1 := by
        show (s.semaphore m).permits = _
        omega
      simp only [hvalue, Nat.zero_lt_succ, if_true, Nat.add_sub_cancel]
      rfl
    exact h.overview.next hstep
  | @leave t woken m ops sem hrest hfree hm =>
    have hzero := h.permits_of_post hp hrest
    obtain ⟨hsem, hcount⟩ := (h.settled m).moves (by rintro _ ⟨⟩) (by rintro _ ⟨⟩)
      (fun _ _ _ => hzero) (by rintro _ ⟨⟩) hm
    have hreturned : sem.returned = (s.semaphore m).returned ∧
        sem.posts = (s.semaphore m).posts + 1 := by cases hm <;> exact ⟨rfl, rfl⟩
    refine ⟨hinPlace, hsettled hsem, ?_⟩
    have hstep : LockOrder.step s.overview t = some (s.leave t m ops sem).overview := by
      rw [leave, overview_update, LockOrder.step, show s.overview.rest t = _ from hrest]
      have hvalue : sem.permits = s.overview.value m + 1 := by
        show _ = (s.semaphore m).permits + 1
        omega
      rw [hvalue]
      rfl
    exact h.overview.next hstep

theorem sound_of_regular (hp : ∀ t, ∀ ops ∈ programs t, Nested rank r ops)
    (h : (sleepingThreads programs).ReachesWhen Regular s) : Sound programs s := by
  refine h.invariant ?_ fun _ _ _ hs hok hst => hs.step hp hok (moves_of_step hst)
  rintro s ⟨hsem, hthreads⟩
  refine ⟨⟨fun m => ?_, fun m t hfree => ?_⟩, fun m => ?_, ?_⟩
  · rw [hsem m]
    exact List.nodup_nil
  · rw [hsem m] at hfree
    exact absurd ⟨List.not_mem_nil, List.not_mem_nil⟩ hfree
  · rw [hsem m]
    exact Semaphore.settled_new
  · refine .start ⟨fun m => ?_, hthreads⟩
    show (s.semaphore m).permits = 1
    rw [hsem m]
    rfl

/-- **Somebody can go on**, without a `wait` that returns on its own. -/
theorem exists_regular_step (hbound : ∀ m, rank m < bound)
    (hp : ∀ t, ∀ ops ∈ programs t, Nested rank r ops)
    (h : (sleepingThreads programs).ReachesWhen Regular s) (ht : s.rest t ≠ []) :
    ∃ l, s.Regular l ∧ (s.step l).isSome = true := by
  have hs := sound_of_regular hp h
  obtain ⟨u, v, hstep⟩ := LockOrder.exists_step hbound hp hs.overview ht
  obtain ⟨m, ops, hrest, hpos, -⟩ | ⟨m, ops, hrest, -⟩ := step_cases hstep
  · have hrest : s.rest u = .wait m :: ops := hrest
    have hpos : 0 < (s.semaphore m).permits := hpos
    cases hn : (s.semaphore m).notified with
    | nil =>
      -- the semaphore is free: the thread passes
      obtain ⟨hv, hw⟩ := (hs.settled m).of_permits_pos hpos hn
      have hfree : (s.semaphore m).Free u := by simp [Semaphore.Free, hw, hn]
      refine ⟨.call u none, ?_, ?_⟩
      · intro m' ops' hrest'
        cases hrest.symm.trans hrest'
        rw [hv]
        decide
      · simp only [step, hrest, Semaphore.step, if_pos hfree, Option.map_some, Option.isSome_some]
    | cons w rest =>
      -- somebody was woken up and returns
      have hw : w ∈ (s.semaphore m).notified := by simp [hn]
      have hhead := hs.inPlace.asleep m w fun hfree => hfree.2 hw
      obtain ⟨ops', hrest'⟩ := List.head?_eq_some_iff.1 hhead
      refine ⟨.wake w, trivial, ?_⟩
      simp only [step, hrest', Semaphore.step, if_pos hw, Option.map_some, Option.isSome_some]
  · have hrest : s.rest u = .post m :: ops := hrest
    have hfree : (s.semaphore m).Free u := hs.inPlace.free (by simp [hrest])
    obtain ⟨woken, hwoken⟩ := Semaphore.exists_post (s.semaphore m)
    refine ⟨.call u woken, ?_, ?_⟩
    · intro m' ops' hrest'
      cases hrest.symm.trans hrest'
    · simp only [step, hrest, Semaphore.step, if_pos hfree, Option.isSome_map, hwoken]

/-! ## How long a run can be -/

/-- The thread sleeps, or was woken up and has not returned. -/
def asleep (s : Sleeping τ μ) (t : τ) : Bool :=
  match s.rest t with
  | .wait m :: _ => !decide ((s.semaphore m).Free t)
  | _ => false

/-- Two steps for each operation, one of them done when the thread sleeps. -/
def toDo (x : List (Op μ) × Bool) : Nat := 2 * x.1.length + (!x.2).toNat

/-- The steps that are left, at most. -/
def work [Fintype τ] (s : Sleeping τ μ) : Nat := total toDo fun t => (s.rest t, s.asleep t)

omit [DecidableEq μ] in
theorem asleep_iff : s.asleep t = true ↔
    ∃ m ops, s.rest t = .wait m :: ops ∧ ¬(s.semaphore m).Free t := by
  unfold asleep
  split
  · rename_i m ops hrest
    simp [hrest]
  · rename_i hnot
    simp only [Bool.false_eq_true, false_iff]
    rintro ⟨m, ops, hrest, -⟩
    exact hnot m ops hrest

omit [DecidableEq μ] in
/-- A thread that does not move has no more to do. -/
theorem toDo_le (hrest : v.rest t = s.rest t)
    (hfree : ∀ m, (v.semaphore m).Free t → (s.semaphore m).Free t) :
    toDo (v.rest t, v.asleep t) ≤ toDo (s.rest t, s.asleep t) := by
  have hsleep : s.asleep t = true → v.asleep t = true := by
    intro h
    obtain ⟨m, ops, hops, hnot⟩ := asleep_iff.1 h
    exact asleep_iff.2 ⟨m, ops, hrest.trans hops, fun h => hnot (hfree m h)⟩
  unfold toDo
  rw [hrest]
  cases hs : s.asleep t with
  | false =>
    have hle := Bool.toNat_le (!v.asleep t)
    simp only [Bool.not_false, Bool.toNat_true]
    omega
  | true => rw [hsleep hs]

omit [DecidableEq τ] in
/-- A semaphore that changes, for a thread that the change leaves where it is. -/
theorem free_of_update {sem : Semaphore τ} (h : sem.Free t → (s.semaphore m).Free t) (m' : μ) :
    (Function.update s.semaphore m sem m').Free t → (s.semaphore m').Free t := by
  by_cases heq : m' = m
  · subst heq
    rwa [Function.update_self]
  · rw [Function.update_of_ne heq]
    exact id

/-- A thread whose operation returned has less to do, whatever it does next. -/
theorem work_lt_of_done [Fintype τ] {op : Op μ} {ops : List (Op μ)} {sem : Semaphore τ}
    {held : τ → List μ} (hrest : s.rest t = op :: ops)
    (hothers : ∀ u, u ≠ t → sem.Free u → (s.semaphore m).Free u) :
    work ⟨Function.update s.semaphore m sem, held, Function.update s.rest t ops⟩ < s.work := by
  have hless : ∀ v : Sleeping τ μ, v.rest t = ops →
      toDo (v.rest t, v.asleep t) < toDo (s.rest t, s.asleep t) := by
    intro v hv
    have hle := Bool.toNat_le (!v.asleep t)
    unfold toDo
    rw [hv, hrest, List.length_cons]
    simp only
    omega
  refine total_lt (fun u => ?_) ⟨t, hless _ (Function.update_self ..)⟩
  by_cases hu : u = t
  · subst hu
    exact (hless _ (Function.update_self ..)).le
  · exact toDo_le (Function.update_of_ne hu ..) (free_of_update (hothers u hu))

/-- **Every step uses up some of the work.** -/
theorem work_lt [Fintype τ] (hm : Moves s l v) : v.work < s.work := by
  cases hm with
  | @sleep t woken m ops sem hrest hfree hm hreturned =>
    refine total_lt (fun u => ?_) ⟨t, ?_⟩
    · exact toDo_le rfl (free_of_update (Semaphore.Free.of_moves hm (by rintro ⟨⟩) (by rintro ⟨⟩)))
    · have hslept : t ∈ sem.waiters := by
        cases hm with
        | sleep => exact List.mem_cons_self
        | pass => simp at hreturned
      have hbefore : s.asleep t = false := by
        rw [← Bool.not_eq_true, asleep_iff]
        rintro ⟨m', ops', hrest', hnot⟩
        cases hrest.symm.trans hrest'
        exact hnot hfree
      have hafter : asleep { s with semaphore := Function.update s.semaphore m sem } t = true := by
        refine asleep_iff.2 ⟨m, ops, hrest, ?_⟩
        simp only [Function.update_self]
        exact fun h => h.1 hslept
      rw [hbefore, hafter]
      simp [toDo]
  | @enter _ k t m ops sem hrest hl hm _ _ =>
    refine work_lt_of_done hrest fun u hu => Semaphore.Free.of_moves hm ?_ ?_
    · rintro rfl
      rcases hl with ⟨_, -, hk, -⟩ | ⟨-, hk⟩ | ⟨-, hk⟩ <;> cases hk
      exact hu rfl
    · rintro rfl
      rcases hl with ⟨_, -, hk, -⟩ | ⟨-, hk⟩ | ⟨-, hk⟩ <;> cases hk
      exact hu rfl
  | @leave t woken m ops sem hrest hfree hm =>
    exact work_lt_of_done hrest fun u _ =>
      Semaphore.Free.of_moves hm (by rintro ⟨⟩) (by rintro ⟨⟩)

/-- The steps are bounded, in regular runs and in others. -/
theorem bounded [Fintype τ] :
    Bounded (sleepingThreads programs) (fun _ => True) (work (τ := τ) (μ := μ)) :=
  fun _ _ _ _ _ hst => work_lt (moves_of_step hst)

/-- **All threads finish.** -/
theorem finishes [Fintype τ] (hbound : ∀ m, rank m < bound)
    (hp : ∀ t, ∀ ops ∈ programs t, Nested rank r ops)
    (h : (sleepingThreads programs).ReachesWhen Regular s) :
    ∃ v, (sleepingThreads programs).ReachesWhen Regular v ∧
      (sleepingThreads programs).Reaches s v ∧ ∀ t, v.rest t = [] := by
  induction hn : s.work using Nat.strongRecOn generalizing s with
  | ind n ih =>
    by_cases hdone : ∀ t, s.rest t = []
    · exact ⟨s, h, .refl s, hdone⟩
    · obtain ⟨t, ht⟩ := Classical.not_forall.1 hdone
      obtain ⟨l, hok, hl⟩ := exists_regular_step hbound hp h ht
      obtain ⟨u, hu⟩ := Option.isSome_iff_exists.1 hl
      have hless := work_lt (moves_of_step hu)
      obtain ⟨v, hv, huv, hall⟩ := ih u.work (hn ▸ hless) (h.next hok hu) rfl
      exact ⟨v, hv, .cons hu huv, hall⟩

end Sleeping

/-! ## The server -/

namespace Semaphores

open Sleeping

variable {τ : Type*} [DecidableEq τ] (roles : τ → Role) {s : Sleeping τ Mutex}

/-- The threads of a server, each with its role, on its semaphores. -/
def sleepingServer : System (Sleeping τ Mutex) (SleepingStep τ) :=
  sleepingThreads fun t => programs (roles t)

/-- **The semaphores of a server keep its threads apart, and lose no wake-up.**  In every
run in which no `wait` returns on its own and no counter leaves the range of an `int`: a
semaphore is held by one thread at most, and while some thread is not done, some thread can
call its next operation or return from the `wait` it sleeps in. -/
theorem exclusive_and_live (h : (sleepingServer roles).ReachesWhen Regular s) :
    (∀ m t u, m ∈ s.held t → m ∈ s.held u → t = u) ∧
      ∀ t, s.rest t ≠ [] → ∃ l, s.Regular l ∧ (s.step l).isSome = true := by
  refine ⟨fun m t u ht hu => ?_, fun t ht => ?_⟩
  · have hs := sound_of_regular (fun t => inOrder_programs (roles t)) h
    rcases exclusive (fun t => inOrder_programs (roles t)) hs.overview m with
      ⟨-, hnone⟩ | ⟨-, holder, -, honly⟩
    · exact absurd ht (hnone t)
    · rw [honly t ht, honly u hu]
  · exact exists_regular_step rank_lt (fun t => inOrder_programs (roles t)) h ht

/-- **The threads of a server finish.**  From every state of such a run: no more than `work`
steps are possible, in whatever order, even if a `wait` returns on its own; where no regular
step is possible every thread is done; and some regular run leads there. -/
theorem all_finish [Fintype τ] (h : (sleepingServer roles).ReachesWhen Regular s) :
    (∀ ls v, (sleepingServer roles).exec s ls = some v → ls.length ≤ s.work) ∧
      ((∀ l, s.Regular l → s.step l = none) → ∀ t, s.rest t = []) ∧
      ∃ v, (sleepingServer roles).ReachesWhen Regular v ∧ (sleepingServer roles).Reaches s v ∧
        ∀ t, v.rest t = [] := by
  refine ⟨fun ls v he => ?_, fun hstuck t => ?_, ?_⟩
  · have hlength := bounded.length_le h.reachable (fun _ _ => trivial) he
    omega
  · by_contra ht
    obtain ⟨l, hok, hl⟩ := exists_regular_step rank_lt (fun t => inOrder_programs (roles t)) h ht
    rw [hstuck l hok] at hl
    cases hl
  · exact finishes rank_lt (fun t => inOrder_programs (roles t)) h

/-- Two replication threads with one packet each. -/
def twoThreads : Sleeping (Fin 2) Mutex where
  semaphore _ := .new 1
  held _ := []
  rest _ := handleRMCommunication false [.other]

/-- The first one is in the section, and the second one sleeps. -/
theorem oneAsleep : ∃ s, s.asleep 1 = true ∧
    (sleepingServer fun _ : Fin 2 => .replication).ReachesWhen Regular s := by
  obtain ⟨s, hs⟩ : ∃ s, twoThreads.step (.call 0 none) = some s :=
    Option.isSome_iff_exists.1 (by decide)
  obtain ⟨t, ht⟩ : ∃ t, s.step (.call 1 none) = some t := by
    cases hs
    exact Option.isSome_iff_exists.1 (by decide)
  have hstart : (sleepingServer fun _ : Fin 2 => .replication).ReachesWhen Regular twoThreads :=
    .start ⟨fun _ => rfl, fun _ => ⟨rfl, false, [.other], rfl⟩⟩
  have hfirst : twoThreads.Regular (.call 0 none) := by
    rintro m ops ⟨⟩
    decide
  have hsecond : s.Regular (.call 1 none) := by
    cases hs
    rintro m ops ⟨⟩
    decide
  refine ⟨t, ?_, (hstart.next hfirst hs).next hsecond ht⟩
  cases hs
  cases ht
  decide

theorem exclusive_and_live_oneAsleep :
    ∃ s : Sleeping (Fin 2) Mutex, s.asleep 1 = true ∧
      ∃ l, s.Regular l ∧ (s.step l).isSome = true := by
  obtain ⟨s, hs, hrun⟩ := oneAsleep
  obtain ⟨m, ops, hrest, -⟩ := asleep_iff.1 hs
  exact ⟨s, hs, (exclusive_and_live _ hrun).2 1 (by rw [hrest]; exact List.cons_ne_nil _ _)⟩

theorem all_finish_oneAsleep :
    ∃ s v : Sleeping (Fin 2) Mutex, s.asleep 1 = true ∧ ∀ t, v.rest t = [] := by
  obtain ⟨s, hs, hrun⟩ := oneAsleep
  obtain ⟨-, -, v, -, -, hdone⟩ := all_finish _ hrun
  exact ⟨s, v, hs, hdone⟩

end Semaphores

end InstantMessenger
