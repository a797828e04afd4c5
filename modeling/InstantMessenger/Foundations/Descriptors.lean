import Mathlib.Logic.Function.Basic

/-!
# Numbers that are used again

A table gives small numbers to the owners of something (connections, say), and
takes them back.  Who remembers a number may find it with another owner later.

* `Table`, `give`, `release` — the table and its two operations.
* `RefersTo` — **what a remembered number is good for**: it still belongs to the
  owner it was remembered for, or to nobody.
* `RefersTo.give`, `RefersTo.release` — it stays so as long as the number itself is
  not given away.
-/

namespace InstantMessenger
namespace Descriptors

/-- The owner of every number, `none` for a free one. -/
abbrev Table (κ : Type*) := Nat → Option κ

variable {κ : Type*} {t : Table κ} {d e : Nat} {c c' : κ}

/-- The number `d` is given to `c`. -/
def give (t : Table κ) (d : Nat) (c : κ) : Table κ := Function.update t d (some c)

/-- The number `d` is free again. -/
def release (t : Table κ) (d : Nat) : Table κ := Function.update t d none

@[simp] theorem give_self (t : Table κ) (d : Nat) (c : κ) : give t d c d = some c :=
  Function.update_self ..

theorem give_of_ne (h : e ≠ d) : give t d c e = t e := Function.update_of_ne h ..

@[simp] theorem release_self (t : Table κ) (d : Nat) : release t d d = none :=
  Function.update_self ..

theorem release_of_ne (h : e ≠ d) : release t d e = t e := Function.update_of_ne h ..

theorem release_of_none (d : Nat) (h : t e = none) : release t d e = none := by
  by_cases hed : e = d
  · rw [hed, release_self]
  · rw [release_of_ne hed, h]

/-- A number that has an owner is not the one that is given away. -/
theorem give_of_some (hfree : t d = none) (h : t e = some c) : give t d c' e = some c := by
  rw [give_of_ne, h]
  rintro rfl
  rw [hfree] at h
  cases h

/-- Releasing what belongs to another owner changes nothing here. -/
theorem release_of_some (hd : t d = some c') (hne : c ≠ c') (h : t e = some c) :
    release t d e = some c := by
  rw [release_of_ne, h]
  rintro rfl
  rw [hd] at h
  exact hne (Option.some.inj h).symm

/-- The number is `c`'s, or nobody's. -/
def RefersTo (t : Table κ) (d : Nat) (c : κ) : Prop := t d = none ∨ t d = some c

theorem RefersTo.of_some (h : t d = some c) : RefersTo t d c := .inr h

theorem RefersTo.eq (h : RefersTo t d c) (hd : t d = some c') : c' = c := by
  rcases h with h | h
  · rw [h] at hd
    cases hd
  · rw [h] at hd
    exact (Option.some.inj hd).symm

theorem RefersTo.give (h : RefersTo t e c) (hne : e ≠ d) :
    RefersTo (Descriptors.give t d c') e c := by
  unfold RefersTo
  rwa [give_of_ne hne]

theorem RefersTo.release (h : RefersTo t e c) (d : Nat) :
    RefersTo (Descriptors.release t d) e c := by
  by_cases hed : e = d
  · rw [hed]
    exact .inl (release_self t d)
  · unfold RefersTo
    rwa [release_of_ne hed]

end Descriptors
end InstantMessenger
