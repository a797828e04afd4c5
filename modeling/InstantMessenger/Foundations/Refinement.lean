import Mathlib.Algebra.BigOperators.Group.Finset.Piecewise
import Mathlib.Algebra.Order.BigOperators.Group.Finset
import Mathlib.Data.Fintype.BigOperators
import InstantMessenger.Foundations.Transition

/-!
# Refinement, and coming to rest

Two general facts about transition systems.  A system **refines** another one under a map
of the states when each of its steps is, through the map, some run of the other one; what
the other system guarantees then holds of it.  And a system in which steps of one kind use
up a measure **comes to rest**: after at most as many of them none is possible.

* `Refinement` — a map under which the steps of one system are runs of another.
* `Refinement.reachable` — **what is reached is, through the map, reached by the abstract
  system**.
* `trace` — what is seen of a run; `Simulation`, `Simulation.exec` — the same with a relation
  in place of the map: **a run goes along with an abstract one of which the same is seen**.
* `AtRest` — no step of a kind is possible.
* `Bounded`, `Bounded.length_le`, `Bounded.exists_atRest` — **steps that use up a
  measure**: how many there can be, and that some of them lead to rest.
* `total`, `total_update`, `total_lt` — a measure summed over the members of a family, of
  which a step changes one; `totalList` — over the elements of a list.
-/

namespace InstantMessenger
namespace Transition

open Transition.System

variable {σ ℓ τ κ : Type*}

/-- Through the map, the states the system starts from are those of the abstract one, and
each step is a run of the abstract one, possibly an empty one. -/
structure Refinement (C : System σ ℓ) (A : System τ κ) (abs : σ → τ) : Prop where
  init : ∀ s, C.init s → A.init (abs s)
  step : ∀ s l t, C.Reachable s → C.step s l = some t → A.Reaches (abs s) (abs t)

namespace Refinement

variable {C : System σ ℓ} {A : System τ κ} {abs : σ → τ}

/-- **What a run reaches, the abstract system reaches.** -/
theorem reachable (h : Refinement C A abs) {s : σ} (hs : C.Reachable s) :
    A.Reachable (abs s) := by
  induction hs with
  | start h0 => exact .start (h.init _ h0)
  | next hs _ hst ih =>
    obtain ⟨ls, hls⟩ := h.step _ _ _ hs hst
    exact ih.exec hls

end Refinement

/-! ## What is seen of a run -/

section Trace

variable {ω : Type*}

/-- What is seen of the labels, executed one after another. -/
def trace (S : System σ ℓ) (see : σ → ℓ → Option ω) (s : σ) : List ℓ → List ω
  | [] => []
  | l :: ls => (see s l).toList ++ ((S.step s l).elim [] fun t => trace S see t ls)

/-- Two runs, one after the other. -/
theorem trace_append {S : System σ ℓ} {see : σ → ℓ → Option ω} {s t : σ} {ls : List ℓ}
    (h : S.exec s ls = some t) (ms : List ℓ) :
    trace S see s (ls ++ ms) = trace S see s ls ++ trace S see t ms := by
  induction ls generalizing s with
  | nil =>
    cases h
    rfl
  | cons l ls ih =>
    rw [exec_cons, Option.bind_eq_some_iff] at h
    obtain ⟨u, hu, hrest⟩ := h
    rw [List.cons_append, trace, trace, hu, Option.elim_some, Option.elim_some, ih hrest,
      List.append_assoc]

/-- Where every step is seen, whatever the state, the trace is that of the labels. -/
theorem trace_eq_map {S : System σ ℓ} {see : ℓ → ω} {s t : σ} {ls : List ℓ}
    (h : S.exec s ls = some t) : trace S (fun _ l => some (see l)) s ls = ls.map see := by
  induction ls generalizing s with
  | nil => rfl
  | cons l ls ih =>
    rw [exec_cons, Option.bind_eq_some_iff] at h
    obtain ⟨u, hu, hrest⟩ := h
    rw [trace, hu, Option.elim_some, ih hrest]
    rfl

/-- A relation in place of the map, for where the abstract state is not determined because the
abstract system decides something earlier or later: each step is answered by a run of which
the same is seen. -/
structure Simulation (C : System σ ℓ) (see : σ → ℓ → Option ω) (A : System τ κ)
    (see' : τ → κ → Option ω) (R : σ → τ → Prop) : Prop where
  init : ∀ s, C.init s → ∃ a, A.init a ∧ R s a
  step : ∀ s l t a, C.Reachable s → R s a → C.step s l = some t →
    ∃ ks b, A.exec a ks = some b ∧ trace A see' a ks = (see s l).toList ∧ R t b

variable {C : System σ ℓ} {see : σ → ℓ → Option ω} {A : System τ κ} {see' : τ → κ → Option ω}
  {R : σ → τ → Prop}

/-- **A run goes along with one of the abstract system, and the same is seen of both.** -/
theorem Simulation.exec (h : Simulation C see A see' R) {s t : σ} {a : τ} {ls : List ℓ}
    (hs : C.Reachable s) (hst : C.exec s ls = some t) (hR : R s a) :
    ∃ ks b, A.exec a ks = some b ∧ trace A see' a ks = trace C see s ls ∧ R t b := by
  induction ls generalizing s a with
  | nil =>
    cases hst
    exact ⟨[], a, rfl, rfl, hR⟩
  | cons l ls ih =>
    rw [exec_cons, Option.bind_eq_some_iff] at hst
    obtain ⟨u, hu, hrest⟩ := hst
    obtain ⟨ks, b, hab, hseen, hb⟩ := h.step s l u a hs hR hu
    obtain ⟨ms, c, hbc, hseen', hc⟩ := ih (hs.next hu) hrest hb
    refine ⟨ks ++ ms, c, ?_, ?_, hc⟩
    · rw [exec_append, hab, Option.bind_some, hbc]
    · rw [trace_append hab, hseen, hseen', trace, hu, Option.elim_some]

end Trace

/-! ## Coming to rest -/

section Rest

variable {S : System σ ℓ} {kind : ℓ → Prop} {μ : σ → Nat}

/-- No step of this kind is possible. -/
def AtRest (S : System σ ℓ) (kind : ℓ → Prop) (s : σ) : Prop := ∀ l, kind l → S.step s l = none

/-- Each step of this kind uses up some of the measure. -/
def Bounded (S : System σ ℓ) (kind : ℓ → Prop) (μ : σ → Nat) : Prop :=
  ∀ s l t, S.Reachable s → kind l → S.step s l = some t → μ t < μ s

/-- **There are no more steps than the measure says.** -/
theorem Bounded.length_le (h : Bounded S kind μ) {s t : σ} {ls : List ℓ} (hs : S.Reachable s)
    (hkind : ∀ l ∈ ls, kind l) (he : S.exec s ls = some t) : ls.length + μ t ≤ μ s := by
  induction ls generalizing s with
  | nil =>
    cases he
    simp
  | cons l ls ih =>
    rw [exec_cons, Option.bind_eq_some_iff] at he
    obtain ⟨u, hu, hrest⟩ := he
    have hless := h s l u hs (hkind l List.mem_cons_self) hu
    have hle := ih (hs.next hu) (fun m hm => hkind m (List.mem_cons_of_mem _ hm)) hrest
    rw [List.length_cons]
    omega

/-- **Some steps of the kind lead to rest.** -/
theorem Bounded.exists_atRest (h : Bounded S kind μ) {s : σ} (hs : S.Reachable s) :
    ∃ ls t, (∀ l ∈ ls, kind l) ∧ S.exec s ls = some t ∧ AtRest S kind t := by
  induction hn : μ s using Nat.strongRecOn generalizing s with
  | ind n ih =>
    by_cases hrest : AtRest S kind s
    · exact ⟨[], s, by simp, rfl, hrest⟩
    · obtain ⟨l, hl⟩ := Classical.not_forall.1 hrest
      obtain ⟨hl, hst⟩ := Classical.not_imp.1 hl
      obtain ⟨u, hu⟩ := Option.ne_none_iff_exists'.1 hst
      have hless := h s l u hs hl hu
      obtain ⟨ls, t, hkind, he, ht⟩ := ih (μ u) (hn ▸ hless) (hs.next hu) rfl
      refine ⟨l :: ls, t, ?_, ?_, ht⟩
      · intro m hm
        rcases List.mem_cons.1 hm with rfl | hm
        · exact hl
        · exact hkind m hm
      · rw [exec_cons, hu, Option.bind_some, he]

end Rest

/-! ## A measure over a family -/

section Total

variable {κ β : Type*} [Fintype κ]

/-- The measures of all members. -/
def total (w : β → Nat) (x : κ → β) : Nat := ∑ i, w (x i)

/-- One member changes, the others keep their measure. -/
theorem total_update [DecidableEq κ] (w : β → Nat) (x : κ → β) (i : κ) (y : β) :
    total w (Function.update x i y) + w (x i) = total w x + w y := by
  have hsplit : ∀ z : κ → β, total w z = w (z i) + ∑ j ∈ Finset.univ.erase i, w (z j) := by
    intro z
    exact (Finset.add_sum_erase Finset.univ (fun j => w (z j)) (Finset.mem_univ i)).symm
  have hrest : ∑ j ∈ Finset.univ.erase i, w (Function.update x i y j) =
      ∑ j ∈ Finset.univ.erase i, w (x j) := by
    refine Finset.sum_congr rfl ?_
    intro j hj
    rw [Function.update_of_ne (Finset.ne_of_mem_erase hj)]
  rw [hsplit (Function.update x i y), hsplit x, hrest, Function.update_self]
  omega

/-- Nobody's measure grows and somebody's shrinks. -/
theorem total_lt {w : β → Nat} {x y : κ → β} (hle : ∀ i, w (x i) ≤ w (y i))
    (hlt : ∃ i, w (x i) < w (y i)) : total w x < total w y := by
  obtain ⟨i, hi⟩ := hlt
  exact Finset.sum_lt_sum (fun j _ => hle j) ⟨i, Finset.mem_univ i, hi⟩

/-- The measures of what is in a list. -/
def totalList (w : β → Nat) (xs : List β) : Nat := xs.foldr (fun x n => w x + n) 0

@[simp] theorem totalList_nil (w : β → Nat) : totalList w [] = 0 := rfl

@[simp] theorem totalList_cons (w : β → Nat) (x : β) (xs : List β) :
    totalList w (x :: xs) = w x + totalList w xs := rfl

@[simp] theorem totalList_concat (w : β → Nat) (xs : List β) (x : β) :
    totalList w (xs ++ [x]) = totalList w xs + w x := by
  induction xs with
  | nil => simp
  | cons y ys ih => rw [List.cons_append, totalList_cons, ih, totalList_cons, Nat.add_assoc]

end Total

end Transition
end InstantMessenger
