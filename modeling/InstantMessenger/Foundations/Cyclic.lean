import Mathlib.Data.Fin.Basic
import Mathlib.Logic.Relation
import Mathlib.Algebra.Order.Ring.Int

/-!
# Going round a ring

Positions `0, …, n-1` on a directed ring.

* `shift i k` — the position `k` steps after `i`; `next` — one step, `prev` — one
  step back.
* `dist i j` — the number of steps from `i` to `j`, less than `n`.
* `shift_dist`, `dist_shift` — **the two are inverse to each other** on distances
  below `n`, and `shift_size` closes the ring.
* `reach_of_next` — one directed cycle leads from everywhere to everywhere.
-/

namespace InstantMessenger
namespace Cyclic

variable {n : Nat}

/-- The position `k` steps after `i`. -/
def shift (i : Fin n) (k : Nat) : Fin n := ⟨(i + k) % n, Nat.mod_lt _ i.pos⟩

/-- The next position. -/
def next (i : Fin n) : Fin n := shift i 1

/-- The number of steps from `i` to `j`. -/
def dist (i j : Fin n) : Nat := (j + (n - i)) % n

@[simp] theorem shift_zero (i : Fin n) : shift i 0 = i := Fin.ext (Nat.mod_eq_of_lt i.isLt)

theorem shift_shift (i : Fin n) (k l : Nat) : shift (shift i k) l = shift i (k + l) := by
  refine Fin.ext ?_
  show ((i + k) % n + l) % n = (i + (k + l)) % n
  rw [Nat.mod_add_mod, Nat.add_assoc]

theorem shift_succ (i : Fin n) (k : Nat) : shift i (k + 1) = next (shift i k) :=
  (shift_shift i k 1).symm

/-- Once round the ring. -/
@[simp] theorem shift_size (i : Fin n) : shift i n = i := by
  refine Fin.ext ?_
  show (i + n) % n = i
  rw [Nat.add_mod_right, Nat.mod_eq_of_lt i.isLt]

theorem dist_lt (i j : Fin n) : dist i j < n := Nat.mod_lt _ i.pos

theorem shift_dist (i j : Fin n) : shift i (dist i j) = j := by
  refine Fin.ext ?_
  show (i + (j + (n - i)) % n) % n = j
  rw [Nat.add_mod_mod, show (i : Nat) + (j + (n - i)) = j + n by omega, Nat.add_mod_right,
    Nat.mod_eq_of_lt j.isLt]

theorem dist_shift {k : Nat} (i : Fin n) (hk : k < n) : dist i (shift i k) = k := by
  show ((i + k) % n + (n - i)) % n = k
  rw [Nat.mod_add_mod, show (i : Nat) + k + (n - i) = k + n by omega, Nat.add_mod_right,
    Nat.mod_eq_of_lt hk]

/-- A position is named by its distance. -/
theorem shift_eq_iff {i j : Fin n} {k : Nat} (hk : k < n) : shift i k = j ↔ k = dist i j := by
  constructor
  · rintro rfl
    exact (dist_shift i hk).symm
  · rintro rfl
    exact shift_dist i j

/-- One position more comes within reach. -/
theorem dist_lt_succ_iff_of_ne {i j : Fin n} {k : Nat} (h : j ≠ shift i k) :
    dist i j < k + 1 ↔ dist i j < k := by
  have hne : dist i j ≠ k := fun hd => h (by rw [← hd, shift_dist])
  omega

/-- Positions at different distances differ. -/
theorem shift_ne {k l : Nat} (i : Fin n) (hk : k < n) (hl : l < n) (h : k ≠ l) :
    shift i k ≠ shift i l := by
  intro heq
  rw [shift_eq_iff hk, dist_shift i hl] at heq
  exact h heq

theorem ne_next (hn : 1 < n) (i : Fin n) : i ≠ next i := by
  intro heq
  rw [next, ← shift_zero i, shift_shift] at heq
  exact shift_ne i (by omega) hn Nat.zero_ne_one heq

/-- The last position before `i`, seen from `i`. -/
theorem dist_next_self (i : Fin n) : dist (next i) i + 1 = n := by
  have hpos : 0 < n := i.pos
  have hlast : shift (next i) (n - 1) = i := by
    rw [next, shift_shift, Nat.add_sub_cancel' hpos, shift_size]
  have hdist := (shift_eq_iff (show n - 1 < n by omega)).1 hlast
  omega

/-- Once round, one step before the end. -/
theorem shift_next_last (i : Fin n) : shift (next i) (n - 1) = i := by
  have hlast := dist_next_self i
  rw [shift_eq_iff (by omega)]
  omega

/-- Only the last step comes back. -/
theorem shift_next_ne (i : Fin n) {k : Nat} (hk : k + 1 < n) : shift (next i) k ≠ i := by
  intro heq
  have hlast := dist_next_self i
  rw [shift_eq_iff (by omega)] at heq
  omega

theorem shift_inj (i : Fin n) {k l : Nat} (hk : k < n) (hl : l < n) :
    shift i k = shift i l ↔ k = l :=
  ⟨fun heq => by_contra fun hne => shift_ne i hk hl hne heq, fun h => h ▸ rfl⟩

theorem shift_eq_next_iff (i : Fin n) {k l : Nat} (hl : l < n) (hk : k + 1 < n) :
    shift i l = next (shift i k) ↔ l = k + 1 := by
  rw [← shift_succ, shift_inj i hl hk]

/-- One position is next to another one. -/
theorem shift_ne_next (i : Fin n) {k l : Nat} (hl : l < n) (hk : k + 1 < n) (h : l ≠ k + 1) :
    shift i l ≠ next (shift i k) := mt (shift_eq_next_iff i hl hk).1 h

/-- The others are reached before the last step. -/
theorem dist_next_lt {i j : Fin n} (h : j ≠ i) : dist (next i) j + 1 < n := by
  have hlt := dist_lt (next i) j
  refine Nat.lt_of_le_of_ne hlt fun heq => h ?_
  rw [← shift_dist (next i) j, show dist (next i) j = n - 1 by omega, shift_next_last]

/-- The position after the one at a distance. -/
theorem next_eq_shift (i j : Fin n) : next j = shift i (dist i j + 1) := by
  rw [shift_succ, shift_dist]

/-- The position before `i`. -/
def prev (i : Fin n) : Fin n := shift i (n - 1)

@[simp] theorem next_prev (i : Fin n) : next (prev i) = i := by
  rw [next, prev, shift_shift, Nat.sub_add_cancel i.pos, shift_size]

@[simp] theorem prev_next (i : Fin n) : prev (next i) = i := by
  rw [next, prev, shift_shift, Nat.add_sub_cancel' i.pos, shift_size]

theorem next_injective : Function.Injective (next : Fin n → Fin n) :=
  Function.LeftInverse.injective prev_next

/-- Steps to the next position lead from everywhere to everywhere. -/
theorem reach_of_next {r : Fin n → Fin n → Prop} (h : ∀ i, r i (next i)) (i j : Fin n) :
    Relation.ReflTransGen r i j := by
  have hsteps : ∀ k, Relation.ReflTransGen r i (shift i k) := by
    intro k
    induction k with
    | zero => rw [shift_zero]
    | succ k ih =>
      rw [shift_succ]
      exact ih.tail (h _)
  rw [← shift_dist i j]
  exact hsteps _

end Cyclic
end InstantMessenger
