import Mathlib.Data.List.Basic

/-!
# Pieces of a text

`std::getline` cuts a stream at every delimiter.  A delimiter ends the piece before
it, so a delimiter at the very end opens no further piece, and a text without any is
one piece unless it is empty.

* `getlines d s` — the pieces that the loop `while (getline(stream, piece, d))` sees.
* `joinLines d ps` — the pieces written out, each with a delimiter behind it.
* `getlines_joinLines` — **what was written piece by piece is read back**, when no
  piece holds the delimiter.
* `HasLines`, `getlines_of_hasLines` — the last piece may also lack its delimiter.
* `not_mem_of_mem_getlines`, `subset_of_mem_getlines` — a piece holds no delimiter, and
  nothing that is not in the text.
-/

namespace InstantMessenger
namespace Lines

variable {α : Type*} [DecidableEq α] {d : α}

/-- The pieces of a text. -/
def getlines (d : α) : List α → List (List α)
  | [] => []
  | c :: s =>
    if c = d then [] :: getlines d s
    else match getlines d s with
      | [] => [[c]]
      | p :: ps => (c :: p) :: ps

/-- Every piece with a delimiter behind it. -/
def joinLines (d : α) (ps : List (List α)) : List α := ps.flatMap fun p => p ++ [d]

@[simp] theorem getlines_nil : getlines d [] = [] := rfl

@[simp] theorem getlines_delim (s : List α) : getlines d (d :: s) = [] :: getlines d s := by
  rw [getlines, if_pos rfl]

omit [DecidableEq α] in
@[simp] theorem joinLines_nil : joinLines d [] = [] := rfl

omit [DecidableEq α] in
@[simp] theorem joinLines_cons (p : List α) (ps : List (List α)) :
    joinLines d (p :: ps) = p ++ d :: joinLines d ps := by
  simp [joinLines]

omit [DecidableEq α] in
theorem joinLines_append (ps qs : List (List α)) :
    joinLines d (ps ++ qs) = joinLines d ps ++ joinLines d qs := List.flatMap_append

/-- A piece in front of a delimiter. -/
theorem getlines_piece {p : List α} (hp : d ∉ p) (s : List α) :
    getlines d (p ++ d :: s) = p :: getlines d s := by
  induction p with
  | nil => rw [List.nil_append, getlines_delim]
  | cons c p ih =>
    have hc : c ≠ d := fun h => hp (h ▸ List.mem_cons_self ..)
    rw [List.cons_append, getlines, if_neg hc, ih fun h => hp (List.mem_cons_of_mem _ h)]

/-- A text without a delimiter. -/
theorem getlines_of_not_mem {p : List α} (hne : p ≠ []) (hp : d ∉ p) : getlines d p = [p] := by
  induction p with
  | nil => exact absurd rfl hne
  | cons c p ih =>
    have hc : c ≠ d := fun h => hp (h ▸ List.mem_cons_self ..)
    rw [getlines, if_neg hc]
    by_cases hempty : p = []
    · rw [hempty, getlines_nil]
    · rw [ih hempty fun h => hp (List.mem_cons_of_mem _ h)]

/-- No piece holds the delimiter. -/
theorem not_mem_of_mem_getlines {p s : List α} (h : p ∈ getlines d s) : d ∉ p := by
  induction s generalizing p with
  | nil => cases h
  | cons c s ih =>
    by_cases hc : c = d
    · rw [hc, getlines_delim] at h
      rcases List.mem_cons.1 h with rfl | h
      · exact List.not_mem_nil
      · exact ih h
    · rw [getlines, if_neg hc] at h
      cases hs : getlines d s with
      | nil =>
        rw [hs] at h
        rw [List.mem_singleton.1 h]
        simpa using Ne.symm hc
      | cons q qs =>
        rw [hs] at h ih
        rcases List.mem_cons.1 h with rfl | h
        · rw [List.mem_cons, not_or]
          exact ⟨Ne.symm hc, ih (List.mem_cons_self ..)⟩
        · exact ih (List.mem_cons_of_mem _ h)

/-- A piece is made of the text. -/
theorem subset_of_mem_getlines {p s : List α} (h : p ∈ getlines d s) : p ⊆ s := by
  induction s generalizing p with
  | nil => cases h
  | cons c s ih =>
    by_cases hc : c = d
    · rw [hc, getlines_delim] at h
      rcases List.mem_cons.1 h with rfl | h
      · exact List.nil_subset _
      · exact List.Subset.trans (ih h) (List.subset_cons_self ..)
    · rw [getlines, if_neg hc] at h
      cases hs : getlines d s with
      | nil =>
        rw [hs] at h
        rw [List.mem_singleton.1 h]
        exact List.cons_subset_cons _ (List.nil_subset _)
      | cons q qs =>
        rw [hs] at h ih
        rcases List.mem_cons.1 h with rfl | h
        · exact List.cons_subset_cons _ (ih (List.mem_cons_self ..))
        · exact List.Subset.trans (ih (List.mem_cons_of_mem _ h)) (List.subset_cons_self ..)

/-- Pieces in front of another text. -/
theorem getlines_joinLines_append {ps : List (List α)} (h : ∀ p ∈ ps, d ∉ p) (s : List α) :
    getlines d (joinLines d ps ++ s) = ps ++ getlines d s := by
  induction ps with
  | nil => rfl
  | cons p ps ih =>
    rw [joinLines_cons, List.append_assoc, List.cons_append,
      getlines_piece (h p (List.mem_cons_self ..)), ih fun q hq => h q (List.mem_cons_of_mem _ hq),
      List.cons_append]

/-- **Pieces are read back.** -/
theorem getlines_joinLines {ps : List (List α)} (h : ∀ p ∈ ps, d ∉ p) :
    getlines d (joinLines d ps) = ps := by
  have happend := getlines_joinLines_append h []
  rwa [List.append_nil, getlines_nil, List.append_nil] at happend

/-- A text that ends with a delimiter is its pieces. -/
theorem joinLines_getlines_concat (s : List α) :
    joinLines d (getlines d (s ++ [d])) = s ++ [d] := by
  induction s with
  | nil => rw [List.nil_append, getlines_delim, getlines_nil, joinLines_cons, joinLines_nil]; rfl
  | cons c s ih =>
    rw [List.cons_append]
    by_cases hc : c = d
    · rw [hc, getlines_delim, joinLines_cons, ih]
      rfl
    · rw [getlines, if_neg hc]
      cases hs : getlines d (s ++ [d]) with
      | nil =>
        rw [hs] at ih
        exact absurd ih.symm (List.append_ne_nil_of_right_ne_nil s (List.cons_ne_nil d []))
      | cons p ps =>
        rw [hs, joinLines_cons] at ih
        show joinLines d ((c :: p) :: ps) = _
        rw [joinLines_cons, List.cons_append, ih]

/-- There are no more pieces than there are elements. -/
theorem length_getlines_le (d : α) (s : List α) : (getlines d s).length ≤ s.length := by
  induction s with
  | nil => exact Nat.le_refl _
  | cons c s ih =>
    by_cases hc : c = d
    · rw [hc, getlines_delim]
      exact Nat.succ_le_succ ih
    · rw [getlines, if_neg hc]
      cases hs : getlines d s with
      | nil => exact Nat.succ_le_succ (Nat.zero_le _)
      | cons p ps =>
        rw [hs] at ih
        exact Nat.le_trans ih (Nat.le_succ _)

/-- A text with these pieces, with or without a delimiter behind the last one. -/
def HasLines (d : α) (text : List α) (ps : List (List α)) : Prop :=
  text = joinLines d ps ∨ text ++ [d] = joinLines d ps

omit [DecidableEq α] in
theorem exists_joinLines_eq (p : List α) (ps : List (List α)) :
    ∃ s, joinLines d (p :: ps) = s ++ [d] := by
  induction ps generalizing p with
  | nil => exact ⟨p, joinLines_cons p []⟩
  | cons q ps ih =>
    obtain ⟨s, hs⟩ := ih q
    refine ⟨p ++ d :: s, ?_⟩
    rw [joinLines_cons, hs, List.append_assoc]
    rfl

/-- **Pieces are read back**, also without the last delimiter. -/
theorem getlines_of_hasLines {text : List α} {ps : List (List α)} (h : HasLines d text ps)
    (hps : ∀ p ∈ ps, d ∉ p) (hlast : ∀ p, ps.getLast? = some p → p ≠ []) :
    getlines d text = ps := by
  rcases h with rfl | h
  · exact getlines_joinLines hps
  · induction ps generalizing text with
    | nil => exact absurd h (List.append_ne_nil_of_right_ne_nil _ (List.cons_ne_nil d []))
    | cons p ps ih =>
      have hp := hps p (List.mem_cons_self ..)
      cases ps with
      | nil =>
        obtain rfl : text = p := List.append_cancel_right (h.trans (joinLines_cons p []))
        exact getlines_of_not_mem (hlast text rfl) hp
      | cons q ps =>
        obtain ⟨s, hs⟩ := exists_joinLines_eq (d := d) q ps
        have htext : text = p ++ d :: s := by
          apply (List.append_left_inj [d]).1
          rw [h, joinLines_cons, hs, List.append_assoc]
          rfl
        rw [htext, getlines_piece hp, ih ?_ ?_ hs.symm]
        · intro r hr
          exact hps r (List.mem_cons_of_mem _ hr)
        · intro r hr
          apply hlast r
          rw [List.getLast?_cons_cons]
          exact hr

end Lines
end InstantMessenger
