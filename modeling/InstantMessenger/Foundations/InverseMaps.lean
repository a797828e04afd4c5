import Mathlib.Logic.Function.Basic

/-!
# Two maps that lead back and forth

A map from keys to values and a map from values to keys, each the inverse of the other,
to which pairs are added and from which they are taken by writing to both.

* `Inverse` — what the one map finds, the other one leads back from.
* `Inverse.enter_iff` — **a pair can be written to both maps if and only if neither of its
  ends has another partner**.
* `Inverse.remove` — a pair can be taken out of both.
-/

namespace InstantMessenger
namespace InverseMaps

variable {α β : Type*} {f : α → Option β} {g : β → Option α} {a : α} {b : β}

/-- Each map leads back from where the other one leads to. -/
def Inverse (f : α → Option β) (g : β → Option α) : Prop := ∀ a b, f a = some b ↔ g b = some a

theorem inverse_none : Inverse (fun _ : α => (none : Option β)) (fun _ => none) := by
  intro a b
  simp

variable [DecidableEq α] [DecidableEq β]

/-- When the pair is new to both ends, or was there already, writing it keeps the maps
inverse. -/
theorem Inverse.enter (h : Inverse f g) (hf : ∀ b', f a = some b' → b' = b)
    (hg : ∀ a', g b = some a' → a' = a) :
    Inverse (Function.update f a (some b)) (Function.update g b (some a)) := by
  intro x y
  by_cases hx : x = a
  · subst hx
    by_cases hy : y = b
    · simp [hy]
    · rw [Function.update_self, Function.update_of_ne hy]
      constructor
      · intro heq
        exact absurd (Option.some.inj heq).symm hy
      · intro heq
        exact absurd (hf y ((h x y).2 heq)) hy
  · rw [Function.update_of_ne hx]
    by_cases hy : y = b
    · subst hy
      rw [Function.update_self]
      constructor
      · intro heq
        exact absurd (hg x ((h x y).1 heq)) hx
      · intro heq
        exact absurd (Option.some.inj heq).symm hx
    · rw [Function.update_of_ne hy]
      exact h x y

/-- Another partner of either end would be left with half a pair. -/
theorem Inverse.enter_iff (h : Inverse f g) :
    Inverse (Function.update f a (some b)) (Function.update g b (some a)) ↔
      (∀ b', f a = some b' → b' = b) ∧ ∀ a', g b = some a' → a' = a := by
  constructor
  · intro hnew
    constructor
    · intro b' hb'
      by_contra hne
      have hold : g b' = some a := (h a b').1 hb'
      have hkept : Function.update g b (some a) b' = some a := by
        rw [Function.update_of_ne hne, hold]
      have hback := (hnew a b').2 hkept
      rw [Function.update_self] at hback
      exact hne (Option.some.inj hback).symm
    · intro a' ha'
      by_contra hne
      have hold : f a' = some b := (h a' b).2 ha'
      have hkept : Function.update f a (some b) a' = some b := by
        rw [Function.update_of_ne hne, hold]
      have hback := (hnew a' b).1 hkept
      rw [Function.update_self] at hback
      exact hne (Option.some.inj hback).symm
  · rintro ⟨hf, hg⟩
    exact h.enter hf hg

/-- A pair is taken out of both maps. -/
theorem Inverse.remove (h : Inverse f g) (hb : g b = some a) :
    Inverse (Function.update f a none) (Function.update g b none) := by
  have ha : f a = some b := (h a b).2 hb
  intro x y
  by_cases hx : x = a
  · subst hx
    rw [Function.update_self]
    by_cases hy : y = b
    · simp [hy]
    · rw [Function.update_of_ne hy]
      constructor
      · intro heq
        cases heq
      · intro heq
        have hxy := (h x y).2 heq
        rw [ha] at hxy
        exact absurd (Option.some.inj hxy).symm hy
  · rw [Function.update_of_ne hx]
    by_cases hy : y = b
    · subst hy
      rw [Function.update_self]
      constructor
      · intro heq
        have hxy := (h x y).1 heq
        rw [hb] at hxy
        exact absurd (Option.some.inj hxy).symm hx
      · intro heq
        cases heq
    · rw [Function.update_of_ne hy]
      exact h x y

end InverseMaps
end InstantMessenger
