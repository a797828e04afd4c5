import Mathlib.Data.Nat.Find

/-!
# The first answer of a sequence

A loop that asks again and again, and ends with the first answer it gets.

* `poll` — what it returns within so many rounds.
* `First` — an answer, and none before it.
* `poll_eq_some_iff` — **the loop returns the first answer**, once it may run long enough.
* `exists_first` — where there is an answer there is a first one.
-/

namespace InstantMessenger
namespace Polling

variable {β : Type*}

/-- Ask for at most so many rounds. -/
def poll (f : Nat → Option β) : Nat → Option β
  | 0 => none
  | rounds + 1 =>
    match f 0 with
    | some b => some b
    | none => poll (fun k => f (k + 1)) rounds

/-- The answer `b` is given in round `k`, and no answer before. -/
structure First (f : Nat → Option β) (k : Nat) (b : β) : Prop where
  answer : f k = some b
  before : ∀ i < k, f i = none

variable {f : Nat → Option β} {b : β} {k : Nat}

theorem First.zero (h : f 0 = some b) : First f 0 b :=
  ⟨h, fun i hi => absurd hi (Nat.not_lt_zero i)⟩

/-- After a round without an answer the sequence goes on. -/
theorem first_succ_iff (h : f 0 = none) : First f (k + 1) b ↔ First (fun k => f (k + 1)) k b := by
  constructor
  · intro hfirst
    exact ⟨hfirst.answer, fun i hi => hfirst.before (i + 1) (Nat.succ_lt_succ hi)⟩
  · intro hfirst
    refine ⟨hfirst.answer, fun i hi => ?_⟩
    cases i with
    | zero => exact h
    | succ i => exact hfirst.before i (Nat.lt_of_succ_lt_succ hi)

/-- An answer comes no earlier than the first one. -/
theorem First.le (h : First f k b) {j : Nat} (hj : f j ≠ none) : k ≤ j := by
  by_contra hlt
  exact hj (h.before j (Nat.lt_of_not_le hlt))

/-- **The loop returns the first answer.** -/
theorem poll_eq_some_iff {rounds : Nat} : poll f rounds = some b ↔ ∃ k < rounds, First f k b := by
  induction rounds generalizing f with
  | zero => simp [poll]
  | succ rounds ih =>
    unfold poll
    cases h : f 0 with
    | some a =>
      simp only [Option.some_inj]
      constructor
      · rintro rfl
        exact ⟨0, Nat.succ_pos rounds, First.zero h⟩
      · rintro ⟨k, _, hfirst⟩
        obtain rfl : k = 0 := Nat.le_zero.1 (hfirst.le (by simp [h]))
        exact Option.some_inj.1 (h.symm.trans hfirst.answer)
    | none =>
      simp only [ih]
      constructor
      · rintro ⟨k, hk, hfirst⟩
        exact ⟨k + 1, Nat.succ_lt_succ hk, (first_succ_iff h).2 hfirst⟩
      · rintro ⟨k, hk, hfirst⟩
        cases k with
        | zero =>
          have hanswer := hfirst.answer
          rw [h] at hanswer
          cases hanswer
        | succ k => exact ⟨k, Nat.lt_of_succ_lt_succ hk, (first_succ_iff h).1 hfirst⟩

/-- Where there is an answer there is a first one. -/
theorem exists_first (h : ∃ k, f k ≠ none) : ∃ k b, First f k b := by
  classical
  obtain ⟨b, hb⟩ := Option.ne_none_iff_exists'.1 (Nat.find_spec h)
  exact ⟨Nat.find h, b, hb, fun i hi => not_not.1 (Nat.find_min h hi)⟩

end Polling
end InstantMessenger
