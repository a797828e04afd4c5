import Mathlib.Data.List.DropRight

/-!
# A window on the end of a log

A log only grows; a window keeps the last entries of it, possibly behind older
entries that nobody asks for.

* `Tracks j window log` — the last `min j (log.length)` entries of the window are
  those of the log.
* `Tracks.concat`, `Tracks.rtake` — **appending to both** widens a window by one,
  and **cropping** keeps what it still covers.
-/

namespace InstantMessenger
namespace Recent

variable {α : Type*} {j m : Nat} {window log : List α}

theorem length_rtake (l : List α) (j : Nat) : (l.rtake j).length = min j l.length := by
  rw [List.rtake, List.length_drop]
  omega

theorem rtake_rtake (l : List α) (h : j ≤ m) : (l.rtake m).rtake j = l.rtake j := by
  rw [List.rtake, List.rtake, List.rtake, List.length_drop, List.drop_drop]
  congr 1
  omega

theorem rtake_of_length_le {l : List α} (h : l.length ≤ j) : l.rtake j = l := by
  rw [List.rtake, Nat.sub_eq_zero_of_le h, List.drop_zero]

theorem rtake_suffix (l : List α) (j : Nat) : l.rtake j <:+ l := List.drop_suffix _ l

/-- A part of the end of the log that covers the last entries has the same last
entries. -/
theorem rtake_of_suffix (h : window <:+ log) (hj : min j log.length ≤ window.length) :
    window.rtake j = log.rtake j := by
  obtain ⟨old, rfl⟩ := h
  rw [List.length_append] at hj
  rw [List.rtake, List.rtake, List.length_append, List.drop_append]
  rcases Nat.lt_or_ge window.length j with hlt | hge
  · have hold : old = [] := List.eq_nil_of_length_eq_zero (by omega)
    rw [hold, List.length_nil, List.drop_nil, List.nil_append]
    congr 1
    omega
  · rw [List.drop_of_length_le (show old.length ≤ old.length + window.length - j by omega),
      List.nil_append]
    congr 1
    omega

/-- The window ends with the last `j` entries of the log, or with all of them. -/
def Tracks (j : Nat) (window log : List α) : Prop :=
  window.rtake (min j log.length) = log.rtake (min j log.length)

/-- Every window tracks a log that is empty. -/
theorem tracks_nil (j : Nat) (window : List α) : Tracks j window [] := by
  unfold Tracks
  rw [List.length_nil, Nat.min_zero, List.rtake_zero, List.rtake_zero]

theorem Tracks.mono (h : Tracks m window log) (hj : j ≤ m) : Tracks j window log := by
  unfold Tracks at h ⊢
  have hle : min j log.length ≤ min m log.length := by omega
  rw [← rtake_rtake window hle, h, rtake_rtake log hle]

/-- Cropping a window to `m` entries keeps the last `j`. -/
theorem Tracks.rtake (h : Tracks j window log) (hj : j ≤ m) : Tracks j (window.rtake m) log := by
  unfold Tracks at h ⊢
  rwa [rtake_rtake window (by omega)]

/-- An entry goes to the window and to the log. -/
theorem Tracks.concat (h : Tracks j window log) (x : α) :
    Tracks (j + 1) (window ++ [x]) (log ++ [x]) := by
  unfold Tracks at h ⊢
  have hmin : min (j + 1) (log ++ [x]).length = min j log.length + 1 := by
    rw [List.length_append, List.length_singleton]
    omega
  rw [hmin, List.rtake_concat_succ, List.rtake_concat_succ, h]

end Recent
end InstantMessenger
