import Mathlib.Data.Set.Lattice
import Mathlib.Logic.Function.Basic
import InstantMessenger.Foundations.Transition

/-!
# Locks taken in an order

Threads that do nothing but wait for and post semaphores which start with 1, over any
type of threads and any type of semaphores.  A thread is given by the operations it
still has to do; what it finds in the data is in the choice of these.

* `Op`, `guarded` — a wait and a post, and a section between the two.
* `State`, `system` — the values, what each thread holds, and what it still does.
* `Deadlocked` — a set of threads, each blocked on a semaphore held by one of them.
* `Nested` — sections follow one another or stand inside one another, and the inner
  semaphore ranks above the outer one.
* `not_deadlocked` — **threads whose operations are nested never deadlock**, and
  `exists_step` — **while one of them is not finished, one of them can go on**.
-/

namespace InstantMessenger
namespace LockOrder

open Transition

/-- What a thread does with a semaphore. -/
inductive Op (μ : Type*) where
  | wait (m : μ)
  | post (m : μ)

/-- `m->wait(); body; m->post();` -/
def guarded {μ : Type*} (m : μ) (body : List (Op μ)) : List (Op μ) :=
  .wait m :: (body ++ [.post m])

variable {τ μ : Type*}

/-! ## Nested sections -/

variable (rank : μ → Nat)

/-- Sections of semaphores of rank `r` or more, one after another; and what stands inside
a section ranks above its semaphore. -/
inductive Nested : Nat → List (Op μ) → Prop
  | nil {r : Nat} : Nested r []
  | cons {r : Nat} {m : μ} {body rest : List (Op μ)} : r ≤ rank m → Nested (rank m + 1) body →
      Nested r rest → Nested r (guarded m body ++ rest)

variable {rank}

theorem Nested.mono {r r' : Nat} {ops : List (Op μ)} (h : Nested rank r ops) (hr : r' ≤ r) :
    Nested rank r' ops := by
  induction h with
  | nil => exact .nil
  | cons hm hbody _ _ ihrest => exact .cons (hr.trans hm) hbody (ihrest hr)

theorem Nested.append {r : Nat} {ops ops' : List (Op μ)} (h : Nested rank r ops)
    (h' : Nested rank r ops') : Nested rank r (ops ++ ops') := by
  induction h with
  | nil => exact h'
  | cons hm hbody _ _ ihrest =>
    rw [List.append_assoc]
    exact .cons hm hbody (ihrest h')

theorem Nested.guarded {r : Nat} {m : μ} {body : List (Op μ)} (hm : r ≤ rank m)
    (hbody : Nested rank (rank m + 1) body) : Nested rank r (guarded m body) := by
  rw [← List.append_nil (LockOrder.guarded m body)]
  exact .cons hm hbody .nil

theorem Nested.flatMap {ι : Type*} {r : Nat} {l : List ι} {f : ι → List (Op μ)}
    (h : ∀ i, Nested rank r (f i)) : Nested rank r (l.flatMap f) := by
  induction l with
  | nil => exact .nil
  | cons i l ih =>
    rw [List.flatMap_cons]
    exact (h i).append ih

theorem Nested.ite {r : Nat} {p : Prop} [Decidable p] {ops ops' : List (Op μ)}
    (h : Nested rank r ops) (h' : Nested rank r ops') :
    Nested rank r (if p then ops else ops') := by
  split
  · exact h
  · exact h'

/-! ## What a thread holds -/

variable (rank) in
/-- A thread that holds these semaphores goes on in order: what it waits for ranks above
all it holds, it posts what it waited for last, and it ends with nothing. -/
def Ordered : List μ → List (Op μ) → Prop
  | held, [] => held = []
  | held, .wait m :: ops => (∀ h ∈ held, rank h < rank m) ∧ Ordered (m :: held) ops
  | held, .post m :: ops => held.head? = some m ∧ Ordered held.tail ops

/-- Nested sections are in order, above what is held already. -/
theorem Nested.ordered {r : Nat} {ops : List (Op μ)} (h : Nested rank r ops) :
    ∀ {held : List μ} {tail : List (Op μ)}, (∀ m ∈ held, rank m < r) → Ordered rank held tail →
      Ordered rank held (ops ++ tail) := by
  induction h with
  | nil =>
    intro held tail _ htail
    exact htail
  | @cons r m body rest hm _ _ ihbody ihrest =>
    intro held tail hheld htail
    have hafter : Ordered rank (m :: held) (.post m :: (rest ++ tail)) :=
      ⟨rfl, ihrest hheld htail⟩
    have hbelow : ∀ h ∈ held, rank h < rank m := fun h hh => (hheld h hh).trans_le hm
    have hinside : Ordered rank (m :: held) (body ++ .post m :: (rest ++ tail)) := by
      refine ihbody ?_ hafter
      intro h hh
      rcases List.mem_cons.1 hh with rfl | hh
      · exact Nat.lt_succ_self _
      · exact (hbelow h hh).trans (Nat.lt_succ_self _)
    simp only [LockOrder.guarded, List.cons_append, List.append_assoc, List.nil_append]
    exact ⟨hbelow, hinside⟩

theorem Nested.ordered_nil {r : Nat} {ops : List (Op μ)} (h : Nested rank r ops) :
    Ordered rank [] ops := by
  have hops := @Nested.ordered _ _ _ _ h [] [] (by simp) rfl
  rwa [List.append_nil] at hops

/-! ## Threads -/

/-- The semaphores, and the threads. -/
structure State (τ μ : Type*) where
  value : μ → Nat
  /-- The semaphores that a thread has waited for and not posted yet, the last one first. -/
  held : τ → List μ
  /-- What a thread still does. -/
  rest : τ → List (Op μ)

/-- The thread is inside a `wait` for `m`, which it cannot leave now. -/
def Blocked (s : State τ μ) (t : τ) (m : μ) : Prop :=
  (s.rest t).head? = some (.wait m) ∧ s.value m = 0

/-- Each thread of the set is blocked on a semaphore that a thread of the set holds. -/
def Deadlocked (s : State τ μ) (D : Set τ) : Prop :=
  D.Nonempty ∧ ∀ t ∈ D, ∃ m, Blocked s t m ∧ ∃ u ∈ D, m ∈ s.held u

variable [DecidableEq τ] [DecidableEq μ]

/-- The next operation of thread `t`; `none` when it has finished or is blocked. -/
def step (s : State τ μ) (t : τ) : Option (State τ μ) :=
  match s.rest t with
  | [] => none
  | .wait m :: ops =>
    if 0 < s.value m then
      some
        { value := Function.update s.value m (s.value m - 1)
          held := Function.update s.held t (m :: s.held t)
          rest := Function.update s.rest t ops }
    else none
  | .post m :: ops =>
    some
      { value := Function.update s.value m (s.value m + 1)
        held := Function.update s.held t ((s.held t).erase m)
        rest := Function.update s.rest t ops }

/-- Each thread does one of its programs. -/
def system (programs : τ → Set (List (Op μ))) : System (State τ μ) τ where
  init s := (∀ m, s.value m = 1) ∧ ∀ t, s.held t = [] ∧ s.rest t ∈ programs t
  step := step

/-- What a step does, given by the operation that the thread does next. -/
theorem step_cases {s v : State τ μ} {t : τ} (h : step s t = some v) :
    (∃ m ops, s.rest t = .wait m :: ops ∧ 0 < s.value m ∧
      v = { value := Function.update s.value m (s.value m - 1)
            held := Function.update s.held t (m :: s.held t)
            rest := Function.update s.rest t ops }) ∨
    ∃ m ops, s.rest t = .post m :: ops ∧
      v = { value := Function.update s.value m (s.value m + 1)
            held := Function.update s.held t ((s.held t).erase m)
            rest := Function.update s.rest t ops } := by
  unfold step at h
  split at h
  · cases h
  · rename_i m ops hrest
    simp only [Option.ite_none_right_eq_some, Option.some.injEq] at h
    exact Or.inl ⟨m, ops, hrest, h.1, h.2.symm⟩
  · rename_i m ops hrest
    simp only [Option.some.injEq] at h
    exact Or.inr ⟨m, ops, hrest, h.symm⟩

variable (rank) in
/-- Every thread goes on in order, and holds each semaphore once. -/
structure AllOrdered (s : State τ μ) : Prop where
  ordered : ∀ t, Ordered rank (s.held t) (s.rest t)
  descending : ∀ t, (s.held t).Pairwise fun m m' => rank m' < rank m

theorem erase_eq_tail {held : List μ} {m : μ} (h : held.head? = some m) :
    held.erase m = held.tail := by
  obtain ⟨rest, rfl⟩ := List.head?_eq_some_iff.1 h
  rw [List.erase_cons_head, List.tail_cons]

omit [DecidableEq μ] in
/-- One thread goes on in order. -/
theorem AllOrdered.update {s : State τ μ} (hs : AllOrdered rank s) {t : τ} {held : List μ}
    {rest : List (Op μ)} (value : μ → Nat) (hordered : Ordered rank held rest)
    (hdescending : held.Pairwise fun m m' => rank m' < rank m) :
    AllOrdered rank
      ⟨value, Function.update s.held t held, Function.update s.rest t rest⟩ := by
  refine ⟨?_, ?_⟩
  · intro u
    by_cases hu : u = t
    · subst hu
      simp only [Function.update_self]
      exact hordered
    · simp only [Function.update_of_ne hu]
      exact hs.ordered u
  · exact (Function.forall_update_iff s.held fun _ held =>
      held.Pairwise fun m m' => rank m' < rank m).2 ⟨hdescending, fun u _ => hs.descending u⟩

theorem AllOrdered.step {s v : State τ μ} {t : τ} (hs : AllOrdered rank s)
    (h : step s t = some v) : AllOrdered rank v := by
  have ht := hs.ordered t
  obtain ⟨m, ops, hrest, _, rfl⟩ | ⟨m, ops, hrest, rfl⟩ := step_cases h
  · rw [hrest] at ht
    exact hs.update _ ht.2 (List.pairwise_cons.2 ⟨ht.1, hs.descending t⟩)
  · rw [hrest] at ht
    rw [erase_eq_tail ht.1]
    exact hs.update _ ht.2 (hs.descending t).tail

theorem allOrdered {programs : τ → Set (List (Op μ))} {r : Nat}
    (hp : ∀ t, ∀ ops ∈ programs t, Nested rank r ops) {s : State τ μ}
    (h : (system programs).Reachable s) : AllOrdered rank s := by
  refine h.invariant ?_ ?_
  · intro s hinit
    refine ⟨?_, ?_⟩
    · intro t
      rw [(hinit.2 t).1]
      exact (hp t _ (hinit.2 t).2).ordered_nil
    · intro t
      rw [(hinit.2 t).1]
      exact .nil
  · intro s t v hs hst
    exact hs.step hst

omit [DecidableEq τ] [DecidableEq μ] in
/-- A thread waits for a semaphore above all it holds. -/
theorem AllOrdered.rank_lt {s : State τ μ} (hs : AllOrdered rank s) {t : τ} {m h : μ}
    (hb : Blocked s t m) (hh : h ∈ s.held t) : rank h < rank m := by
  have ht := hs.ordered t
  obtain ⟨ops, hrest⟩ := List.head?_eq_some_iff.1 hb.1
  rw [hrest] at ht
  exact ht.1 h hh

/-! ## No deadlock -/

/-- **No deadlock.**  In a deadlocked set the ranks that are waited for would go up
without end. -/
theorem not_deadlocked {programs : τ → Set (List (Op μ))} {r bound : Nat}
    (hbound : ∀ m, rank m < bound) (hp : ∀ t, ∀ ops ∈ programs t, Nested rank r ops)
    {s : State τ μ} (h : (system programs).Reachable s) (D : Set τ) : ¬ Deadlocked s D := by
  have hs := allOrdered hp h
  rintro ⟨⟨t, ht⟩, hwaits⟩
  have hup : ∀ k, ∃ u ∈ D, ∃ m, Blocked s u m ∧ k ≤ rank m := by
    intro k
    induction k with
    | zero =>
      obtain ⟨m, hb, _⟩ := hwaits t ht
      exact ⟨t, ht, m, hb, Nat.zero_le _⟩
    | succ k ih =>
      obtain ⟨u, hu, m, hb, hk⟩ := ih
      obtain ⟨m', hb', v, hv, hheld⟩ := hwaits u hu
      have hm : m' = m := by
        have hhead := hb'.1.symm.trans hb.1
        cases hhead
        rfl
      subst hm
      obtain ⟨m', hb', _⟩ := hwaits v hv
      exact ⟨v, hv, m', hb', hk.trans_lt (hs.rank_lt hb' hheld)⟩
  obtain ⟨_, _, m, _, hk⟩ := hup bound
  exact absurd (hbound m) (not_lt.2 hk)

/-! ## Somebody can go on -/

/-- A semaphore is free and held by nobody, or taken and held by one thread. -/
def Exclusive (s : State τ μ) : Prop :=
  ∀ m, (s.value m = 1 ∧ ∀ t, m ∉ s.held t) ∨
    (s.value m = 0 ∧ ∃ t, m ∈ s.held t ∧ ∀ u, m ∈ s.held u → u = t)

omit [DecidableEq μ] in
/-- Whether a thread holds a semaphore does not depend on the others that come and go. -/
theorem mem_update_held_iff {s : State τ μ} {t : τ} {m : μ} {held : List μ}
    (h : m ∈ held ↔ m ∈ s.held t) (u : τ) :
    m ∈ Function.update s.held t held u ↔ m ∈ s.held u :=
  (Function.forall_update_iff s.held fun u held => m ∈ held ↔ m ∈ s.held u).2
    ⟨h, fun _ _ => Iff.rfl⟩ u

theorem Exclusive.step {s v : State τ μ} {t : τ} (hx : Exclusive s) (hs : AllOrdered rank s)
    (h : LockOrder.step s t = some v) : Exclusive v := by
  have ht := hs.ordered t
  obtain ⟨m, ops, hrest, hpos, rfl⟩ | ⟨m, ops, hrest, rfl⟩ := step_cases h
  · have hfree : s.value m = 1 ∧ ∀ u, m ∉ s.held u := by
      refine (hx m).resolve_right ?_
      rintro ⟨hzero, _⟩
      omega
    intro m'
    by_cases hm : m' = m
    · subst hm
      refine Or.inr ⟨by simp [hfree.1], t, by simp, ?_⟩
      intro u hu
      by_contra hut
      simp only [Function.update_of_ne hut] at hu
      exact hfree.2 u hu
    · have hmem := @mem_update_held_iff _ _ _ s t m' (m :: s.held t) (by simp [hm])
      simp only [Function.update_of_ne hm, hmem]
      exact hx m'
  · rw [hrest] at ht
    have hheld : m ∈ s.held t := List.mem_of_mem_head? ht.1
    obtain ⟨hzero, holder, _, honly⟩ : s.value m = 0 ∧ ∃ w, m ∈ s.held w ∧
        ∀ u, m ∈ s.held u → u = w := by
      refine (hx m).resolve_left ?_
      rintro ⟨_, hnone⟩
      exact hnone t hheld
    intro m'
    by_cases hm : m' = m
    · subst hm
      refine Or.inl ⟨by simp [hzero], ?_⟩
      intro u hu
      by_cases hut : u = t
      · subst hut
        simp only [Function.update_self] at hu
        have hnodup : (s.held u).Nodup :=
          (hs.descending u).imp fun hlt heq => by rw [heq] at hlt; exact lt_irrefl _ hlt
        exact hnodup.not_mem_erase hu
      · simp only [Function.update_of_ne hut] at hu
        exact hut ((honly u hu).trans (honly t hheld).symm)
    · have hmem := @mem_update_held_iff _ _ _ s t m' ((s.held t).erase m)
        (List.mem_erase_of_ne hm)
      simp only [Function.update_of_ne hm, hmem]
      exact hx m'

theorem exclusive {programs : τ → Set (List (Op μ))} {r : Nat}
    (hp : ∀ t, ∀ ops ∈ programs t, Nested rank r ops) {s : State τ μ}
    (h : (system programs).Reachable s) : Exclusive s := by
  have hboth : AllOrdered rank s ∧ Exclusive s := by
    refine System.Reachable.invariant (I := fun s => AllOrdered rank s ∧ Exclusive s) h ?_ ?_
    · intro s hinit
      refine ⟨allOrdered hp (.start hinit), ?_⟩
      intro m
      refine Or.inl ⟨hinit.1 m, ?_⟩
      intro t
      rw [(hinit.2 t).1]
      exact List.not_mem_nil
    · rintro s t v ⟨hs, hx⟩ hst
      exact ⟨hs.step hst, hx.step hs hst⟩
  exact hboth.2

/-- A thread that cannot go on has finished or is blocked. -/
theorem blocked_of_step_eq_none {s : State τ μ} {t : τ} (h : step s t = none)
    (hrest : s.rest t ≠ []) : ∃ m, Blocked s t m := by
  unfold step at h
  split at h
  · rename_i hnil
    exact absurd hnil hrest
  · rename_i m ops heq
    split at h
    · cases h
    · rename_i hzero
      exact ⟨m, by rw [heq]; rfl, Nat.eq_zero_of_not_pos hzero⟩
  · cases h

/-- **Somebody can go on.**  While a thread has not finished, some thread has a step. -/
theorem exists_step {programs : τ → Set (List (Op μ))} {r bound : Nat}
    (hbound : ∀ m, rank m < bound) (hp : ∀ t, ∀ ops ∈ programs t, Nested rank r ops)
    {s : State τ μ} (h : (system programs).Reachable s) {t : τ} (ht : s.rest t ≠ []) :
    ∃ u v, step s u = some v := by
  have hs := allOrdered hp h
  have hx := exclusive hp h
  by_contra hstuck
  have hnone : ∀ u, step s u = none := by
    intro u
    cases hu : step s u with
    | none => rfl
    | some v => exact absurd ⟨u, v, hu⟩ hstuck
  -- then the threads that have not finished are a deadlocked set
  refine not_deadlocked hbound hp h { u | s.rest u ≠ [] } ⟨⟨t, ht⟩, ?_⟩
  intro u hu
  obtain ⟨m, hb⟩ := blocked_of_step_eq_none (hnone u) hu
  obtain ⟨hone, _⟩ | ⟨_, w, hw, _⟩ := hx m
  · have hzero := hb.2
    omega
  · refine ⟨m, hb, w, ?_, hw⟩
    -- a thread that has finished holds nothing
    intro hfinished
    have hordered := hs.ordered w
    rw [hfinished] at hordered
    have hnil : s.held w = [] := hordered
    rw [hnil] at hw
    exact absurd hw List.not_mem_nil

end LockOrder
end InstantMessenger
