import InstantMessenger.Foundations.Cyclic

/-!
# Who comes next on a ring

Some of the positions on a ring are taken.  A position looks for the next one that
is taken by trying one after another.

* `NoneBetween P i j` — no position strictly between `i` and `j` is taken.
* `NoneBetween.source_unique` — **a taken position has one predecessor** among the
  taken ones.
* `rank T k` — the positions in the order in which they come after `T`, which is
  itself the last; `NoneBetween.rank_lt` and `NoneBetween.rank_le` say that the next
  taken position is the next in this order.
-/

namespace InstantMessenger
namespace Cyclic

variable {n : Nat}

/-- The distance, with and without wrapping round. -/
theorem dist_cases (i j : Fin n) :
    (i : Nat) ≤ j ∧ dist i j + i = j ∨ (j : Nat) < i ∧ dist i j + i = j + n := by
  have hi := i.isLt
  have hj := j.isLt
  unfold dist
  rcases Nat.lt_or_ge (j : Nat) i with h | h
  · rw [Nat.mod_eq_of_lt (by omega)]
    omega
  · rw [show (j : Nat) + (n - i) = j - i + n by omega, Nat.add_mod_right,
      Nat.mod_eq_of_lt (by omega)]
    omega

theorem next_cases (i : Fin n) :
    (i : Nat) + 1 < n ∧ (next i : Nat) = i + 1 ∨ (i : Nat) + 1 = n ∧ (next i : Nat) = 0 := by
  have hi := i.isLt
  have hval : (next i : Nat) = (i + 1) % n := rfl
  rcases Nat.lt_or_ge ((i : Nat) + 1) n with h | h
  · exact .inl ⟨h, hval.trans (Nat.mod_eq_of_lt h)⟩
  · have heq : (i : Nat) + 1 = n := by omega
    exact .inr ⟨heq, by rw [hval, heq, Nat.mod_self]⟩

theorem dist_self (i : Fin n) : dist i i = 0 := by
  have h := dist_cases i i
  omega

/-- A position is named by its distance from any other. -/
theorem dist_injective {i j k : Fin n} (h : dist i j = dist i k) : j = k := by
  rw [← shift_dist i j, h, shift_dist]

/-! ## Taken positions -/

/-- No taken position is strictly between `i` and `j`. -/
def NoneBetween (P : Fin n → Prop) (i j : Fin n) : Prop :=
  ∀ k, P k → ¬dist (next i) k < dist (next i) j

/-- The place of `k` in the order in which the positions come after `T`. -/
def rank (T k : Fin n) : Nat := dist (next T) k

section Taken

variable {P Q : Fin n → Prop} {i j k d T : Fin n}

theorem NoneBetween.mono (h : NoneBetween P i j) (hsub : ∀ k, Q k → P k) : NoneBetween Q i j :=
  fun k hk => h k (hsub k hk)

/-- Nothing is between neighbours. -/
theorem noneBetween_next (P : Fin n → Prop) (i : Fin n) : NoneBetween P i (next i) := by
  intro k _ hlt
  rw [dist_self] at hlt
  exact absurd hlt (Nat.not_lt_zero _)

/-- A position that is not taken can be passed over. -/
theorem NoneBetween.pass (h : NoneBetween P i j) (hj : ¬P j) : NoneBetween P i (next j) := by
  intro k hk hlt
  have hkj : (k : Nat) ≠ j := fun heq => hj (Fin.ext heq ▸ hk)
  have hle := h k hk
  have hnext := next_cases i
  have hnext' := next_cases j
  have hdk := dist_cases (next i) k
  have hdj := dist_cases (next i) j
  have hdn := dist_cases (next i) (next j)
  omega

/-- Who finds himself next is alone. -/
theorem NoneBetween.alone (h : NoneBetween P i i) (hk : P k) : k = i := by
  have hle := h k hk
  have hlast := dist_next_self i
  have hlt := dist_lt (next i) k
  exact dist_injective (i := next i) (by omega)

/-- **One predecessor.** -/
theorem NoneBetween.source_unique (h : NoneBetween P i j) (h' : NoneBetween P k j) (hi : P i)
    (hk : P k) : i = k := by
  have hle := h k hk
  have hle' := h' i hi
  have hnext := next_cases i
  have hnext' := next_cases k
  have hdk := dist_cases (next i) k
  have hdj := dist_cases (next i) j
  have hdi := dist_cases (next k) i
  have hdj' := dist_cases (next k) j
  refine Fin.ext ?_
  omega

/-! ## The order after a position -/

theorem rank_self (T : Fin n) : rank T T + 1 = n := dist_next_self T

theorem rank_lt (T k : Fin n) : rank T k < n := dist_lt _ _

theorem rank_injective (h : rank T j = rank T k) : j = k := dist_injective h

theorem rank_lt_self (h : k ≠ T) : rank T k < rank T T := by
  have hne : rank T k ≠ rank T T := fun heq => h (rank_injective heq)
  have hlt := rank_lt T k
  have hlast := rank_self T
  omega

/-- The next taken position comes later, unless `T` was passed. -/
theorem NoneBetween.rank_lt (h : NoneBetween P d j) (hT : P T) (hd : d ≠ T) :
    rank T d < rank T j := by
  have hle := h T hT
  have hne : (d : Nat) ≠ T := fun heq => hd (Fin.ext heq)
  have hnext := next_cases d
  have hnext' := next_cases T
  have hdT := dist_cases (next d) T
  have hdj := dist_cases (next d) j
  have hrd := dist_cases (next T) d
  have hrj := dist_cases (next T) j
  unfold rank
  omega

/-- What comes before the next taken position came no later than this one. -/
theorem NoneBetween.rank_le (h : NoneBetween P d j) (hT : P T) (hd : d ≠ T) (hk : P k)
    (hlt : rank T k < rank T j) : rank T k ≤ rank T d := by
  have hle := h T hT
  have hle' := h k hk
  have hne : (d : Nat) ≠ T := fun heq => hd (Fin.ext heq)
  have hnext := next_cases d
  have hnext' := next_cases T
  have hdT := dist_cases (next d) T
  have hdj := dist_cases (next d) j
  have hdk := dist_cases (next d) k
  have hrd := dist_cases (next T) d
  have hrj := dist_cases (next T) j
  have hrk := dist_cases (next T) k
  unfold rank at hlt ⊢
  omega

end Taken

end Cyclic
end InstantMessenger
