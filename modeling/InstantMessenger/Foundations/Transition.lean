import Mathlib.Logic.Relation

/-!
# Runs of a partial step function

Every concurrent part of the messenger is given as a state, a label that says
which thread moves (and what the outside answers it), and a **partial step
function**: `none` where the thread named by the label is blocked.  This file is
the theory of the runs of such a function, over any state and any label.

* `System` — the initial states and the step function; `System.exec` — a list of
  labels executed one after another.
* `ReachesWhen` — what a run can reach when each of its steps meets a condition
  on the label and on the state before the step; `Reachable` is the case without
  a condition.
* `ReachesWhen.invariant` — **the invariant rule**: what holds initially and is
  preserved by every step that meets the condition holds of every state reached.
* `reachable_of_exec`, `reachesWhen_of_execWhen` — a run given as a list of labels
  is certified by executing it.
* `Reaches` — how a run can go on.
-/

namespace InstantMessenger
namespace Transition

/-- A transition system: where it may start, and what a label does to a state.
`none` means that the label is not enabled there. -/
structure System (σ ℓ : Type*) where
  /-- The states a run may start from. -/
  init : σ → Prop
  /-- What the label does, when it is enabled. -/
  step : σ → ℓ → Option σ

namespace System

variable {σ ℓ : Type*} (S : System σ ℓ)

/-! ## Runs -/

/-- The states a run reaches when all its steps meet the condition `ok`. -/
inductive ReachesWhen (ok : σ → ℓ → Prop) : σ → Prop
  | start {s : σ} : S.init s → ReachesWhen ok s
  | next {s t : σ} {l : ℓ} : ReachesWhen ok s → ok s l → S.step s l = some t → ReachesWhen ok t

/-- The states some run reaches. -/
def Reachable : σ → Prop := S.ReachesWhen fun _ _ => True

variable {S}

theorem Reachable.start {s : σ} (h : S.init s) : S.Reachable s := ReachesWhen.start h

theorem Reachable.next {s t : σ} {l : ℓ} (h : S.Reachable s) (hst : S.step s l = some t) :
    S.Reachable t := ReachesWhen.next h trivial hst

/-- **The invariant rule.**  A property that holds initially and that every step
meeting the condition preserves holds of every state such a run reaches. -/
theorem ReachesWhen.invariant {ok : σ → ℓ → Prop} {I : σ → Prop} {s : σ}
    (h : S.ReachesWhen ok s) (hinit : ∀ t, S.init t → I t)
    (hstep : ∀ t l u, I t → ok t l → S.step t l = some u → I u) : I s := by
  induction h with
  | start h0 => exact hinit _ h0
  | next _ hok hst ih => exact hstep _ _ _ ih hok hst

/-- The invariant rule for runs without a condition. -/
theorem Reachable.invariant {I : σ → Prop} {s : σ} (h : S.Reachable s)
    (hinit : ∀ t, S.init t → I t) (hstep : ∀ t l u, I t → S.step t l = some u → I u) : I s :=
  ReachesWhen.invariant h hinit fun t l u hI _ hst => hstep t l u hI hst

/-- A run under a condition is in particular a run. -/
theorem ReachesWhen.reachable {ok : σ → ℓ → Prop} {s : σ} (h : S.ReachesWhen ok s) :
    S.Reachable s := by
  induction h with
  | start h0 => exact .start h0
  | next _ _ hst ih => exact .next ih hst

/-- A weaker condition allows more runs. -/
theorem ReachesWhen.mono {ok ok' : σ → ℓ → Prop} (himp : ∀ s l, ok s l → ok' s l) {s : σ}
    (h : S.ReachesWhen ok s) : S.ReachesWhen ok' s := by
  induction h with
  | start h0 => exact .start h0
  | next _ hok hst ih => exact .next ih (himp _ _ hok) hst

/-! ## Executing a list of labels -/

variable (S)

/-- Take the labelled steps one after another; `none` as soon as one is not
enabled. -/
def exec (s : σ) : List ℓ → Option σ
  | [] => some s
  | l :: ls => (S.step s l).bind fun t => exec t ls

/-- The same, and `none` as soon as a step does not meet the condition. -/
def execWhen (ok : σ → ℓ → Bool) (s : σ) : List ℓ → Option σ
  | [] => some s
  | l :: ls => if ok s l then (S.step s l).bind fun t => execWhen ok t ls else none

@[simp] theorem exec_nil (s : σ) : S.exec s [] = some s := rfl

theorem exec_cons (s : σ) (l : ℓ) (ls : List ℓ) :
    S.exec s (l :: ls) = (S.step s l).bind fun t => S.exec t ls := rfl

theorem exec_append (s : σ) (ls ms : List ℓ) :
    S.exec s (ls ++ ms) = (S.exec s ls).bind fun t => S.exec t ms := by
  induction ls generalizing s with
  | nil => simp
  | cons l ls ih =>
    rw [List.cons_append, exec_cons, exec_cons]
    cases S.step s l with
    | none => rfl
    | some t => simpa using ih t

variable {S}

variable (S) in
/-- Some labels lead from `s` to `t`. -/
def Reaches (s t : σ) : Prop := ∃ ls, S.exec s ls = some t

theorem Reaches.refl (s : σ) : S.Reaches s s := ⟨[], rfl⟩

theorem Reaches.cons {s t u : σ} {l : ℓ} (h : S.step s l = some t) (htu : S.Reaches t u) :
    S.Reaches s u := by
  obtain ⟨ls, hls⟩ := htu
  exact ⟨l :: ls, by rw [exec_cons, h, Option.bind_some, hls]⟩

theorem Reaches.trans {s t u : σ} (hst : S.Reaches s t) (htu : S.Reaches t u) :
    S.Reaches s u := by
  obtain ⟨ls, hls⟩ := hst
  obtain ⟨ms, hms⟩ := htu
  exact ⟨ls ++ ms, by rw [exec_append, hls, Option.bind_some, hms]⟩

/-- What executing labels from a reachable state gives is reachable. -/
theorem Reachable.exec {s t : σ} {ls : List ℓ} (h : S.Reachable s)
    (he : S.exec s ls = some t) : S.Reachable t := by
  induction ls generalizing s with
  | nil => cases he; exact h
  | cons l ls ih =>
    rw [exec_cons, Option.bind_eq_some_iff] at he
    obtain ⟨u, hu, hrest⟩ := he
    exact ih (h.next hu) hrest

/-- A run given by its labels reaches what executing them gives. -/
theorem reachable_of_exec {s t : σ} {ls : List ℓ} (h : S.init s)
    (he : S.exec s ls = some t) : S.Reachable t :=
  Reachable.exec (.start h) he

/-- Labels that meet the condition in every state go on with a run under it. -/
theorem ReachesWhen.exec {ok : σ → ℓ → Prop} {s t : σ} {ls : List ℓ} (h : S.ReachesWhen ok s)
    (hok : ∀ l ∈ ls, ∀ u, ok u l) (he : S.exec s ls = some t) : S.ReachesWhen ok t := by
  induction ls generalizing s with
  | nil => cases he; exact h
  | cons l ls ih =>
    rw [exec_cons, Option.bind_eq_some_iff] at he
    obtain ⟨u, hu, hrest⟩ := he
    exact ih (h.next (hok l List.mem_cons_self s) hu)
      (fun m hm => hok m (List.mem_cons_of_mem _ hm)) hrest

/-- A run given by its labels, each step checked against the condition. -/
theorem reachesWhen_of_execWhen {ok : σ → ℓ → Prop} {okb : σ → ℓ → Bool}
    (hok : ∀ s l, okb s l = true → ok s l) {s t : σ} {ls : List ℓ}
    (h : S.ReachesWhen ok s) (he : S.execWhen okb s ls = some t) : S.ReachesWhen ok t := by
  induction ls generalizing s with
  | nil => cases he; exact h
  | cons l ls ih =>
    rw [execWhen] at he
    split at he
    · rename_i hl
      rw [Option.bind_eq_some_iff] at he
      obtain ⟨u, hu, hrest⟩ := he
      exact ih (h.next (hok s l hl) hu) hrest
    · exact absurd he (by simp)

end System

end Transition
end InstantMessenger
