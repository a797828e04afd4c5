import Mathlib.Data.List.Chain
import Mathlib.Data.List.GetD
import Mathlib.Data.List.InsertIdx

/-!
# Erasing from a vector inside a range-for over it

A C++ `for (auto x : v)` fixes both ends of the iteration before the first
round.  When the body calls `v.erase(v.begin() + i)` the elements behind `i`
move down, the size drops, and the loop still runs to the old end: it skips the
element that moved into slot `i`, and its last rounds read slots that no longer
belong to the vector.

* `eraseAt` — `v.erase(v.begin() + i)`.  An erase at or past the end moves
  nothing and still drops the last element.
* `eraseLoop p dead` — the loop that erases the elements satisfying `p`.  A slot
  past the end was moved from and destroyed; it reads as `dead`.
* `skipping` — what the loop leaves while `dead` is not one it would erase: the
  neighbour behind an erased element stays.
* `eraseLoop_eq_filter_iff`, `eraseLoop_eq_filter` — then the loop is `filter` if and
  only if no two neighbours are to be erased; so with at most one element to erase.
* `eraseLoop_sublist`, `eraseLoop_pair` — in general it leaves a part of the
  vector, and on two elements it may skip the second or drop one too many.
* `tracedLoop` — the loop with its reads and erases.  `inRange_tracedLoop_iff`: it stays
  inside the vector **if and only if it erases nothing before its last round**;
  `exact_tracedLoop_iff`: when it leaves just what does not match a key as well.
-/

namespace InstantMessenger
namespace EraseLoop

variable {α : Type*}

/-- `v.erase(v.begin() + i)`. -/
def eraseAt (v : List α) (i : Nat) : List α :=
  if i < v.length then v.eraseIdx i else v.dropLast

/-- `n` more rounds of the loop, the next one at index `i`. -/
def rounds (p : α → Bool) (dead : α) : Nat → Nat → List α → List α
  | 0, _, v => v
  | n + 1, i, v => rounds p dead n (i + 1) (if p (v.getD i dead) then eraseAt v i else v)

/-- The whole loop: as many rounds as the vector had elements at the start. -/
def eraseLoop (p : α → Bool) (dead : α) (v : List α) : List α := rounds p dead v.length 0 v

variable {p : α → Bool} {dead : α}

/-! ## Neighbours -/

/-- What the loop leaves while nothing past the end is erased: the element behind an
erased one is skipped. -/
def skipping (p : α → Bool) : List α → List α
  | [] => []
  | [x] => if p x then [] else [x]
  | x :: y :: w => if p x then y :: skipping p w else x :: skipping p (y :: w)

theorem getD_append_cons (v : List α) (x : α) (w : List α) :
    (v ++ x :: w).getD v.length dead = x := by
  rw [List.getD_append_right _ _ _ _ (Nat.le_refl _), Nat.sub_self]
  rfl

theorem eraseAt_append_cons (v : List α) (x : α) (w : List α) :
    eraseAt (v ++ x :: w) v.length = v ++ w := by
  rw [eraseAt, if_pos (by simp), List.eraseIdx_append_of_length_le (Nat.le_refl _),
    Nat.sub_self]
  rfl

/-- A round at the index of `x`, behind the prefix `v`. -/
theorem rounds_succ (n : Nat) (v : List α) (x : α) (w : List α) :
    rounds p dead (n + 1) v.length (v ++ x :: w) =
      rounds p dead n (v.length + 1) (if p x then v ++ w else v ++ x :: w) := by
  rw [rounds, getD_append_cons, eraseAt_append_cons]

/-- Rounds at indices past the end find nothing. -/
theorem rounds_past (hdead : p dead = false) (n : Nat) {i : Nat} {v : List α}
    (hi : v.length ≤ i) : rounds p dead n i v = v := by
  induction n generalizing i with
  | zero => rfl
  | succ n ih =>
    have hread : v.getD i dead = dead := List.getD_eq_default _ _ hi
    rw [rounds, hread, hdead]
    exact ih (by omega)

/-- Rounds over `w` behind a prefix. -/
theorem rounds_eq_skipping (hdead : p dead = false) {n : Nat} {w : List α} (v : List α)
    (hn : w.length ≤ n) : rounds p dead n v.length (v ++ w) = v ++ skipping p w := by
  induction n using Nat.strong_induction_on generalizing v w with
  | _ n ih =>
    match w, n with
    | [], n =>
      rw [List.append_nil]
      exact (rounds_past hdead n (Nat.le_refl _)).trans (List.append_nil v).symm
    | [x], n + 1 =>
      rw [rounds_succ, rounds_past hdead]
      · rw [skipping]
        split
        · rfl
        · rfl
      · split <;> simp
    | x :: y :: w, n + 1 =>
      have hstep : ∀ z u, u.length ≤ n → rounds p dead n (v.length + 1) (v ++ z :: u) =
          v ++ z :: skipping p u := by
        intro z u hu
        have h := ih n (Nat.lt_succ_self n) (v ++ [z]) hu
        simpa using h
      rw [rounds_succ, skipping]
      simp only [List.length_cons] at hn
      split
      · exact hstep y w (by omega)
      · exact hstep x (y :: w) (by simp only [List.length_cons]; omega)

theorem skipping_eq_filter_iff (v : List α) :
    skipping p v = v.filter (fun x => !p x) ↔
      v.IsChain fun x y => p x = true → p y = false := by
  induction v using skipping.induct p with
  | case1 => simp [skipping]
  | case2 x hx => simp [skipping, hx]
  | case3 x hx => simp [skipping, hx]
  | case4 x y w hx ih =>
    rw [skipping, if_pos hx, List.filter_cons_of_neg (by simp [hx]), List.isChain_cons_cons]
    by_cases hy : p y = true
    · -- `y` is skipped although it should go
      refine iff_of_false ?_ ?_
      · intro heq
        have hmem : y ∈ (y :: w).filter fun x => !p x := heq ▸ List.mem_cons_self
        simp [hy] at hmem
      · rintro ⟨hxy, -⟩
        exact absurd (hxy hx) (by simp [hy])
    · have hyf : p y = false := by simpa using hy
      rw [List.filter_cons_of_pos (by simp [hyf]), List.cons_inj_right, ih]
      constructor
      · intro hw
        refine ⟨fun _ => hyf, List.IsChain.cons hw ?_⟩
        intro z _ hpy
        exact absurd hpy hy
      · rintro ⟨-, hw⟩
        exact hw.tail
  | case5 x y w hx ih =>
    have hxf : p x = false := by simpa using hx
    rw [skipping, if_neg hx, List.filter_cons_of_pos (by simp [hxf]), List.cons_inj_right, ih,
      List.isChain_cons_cons]
    exact (and_iff_right fun hpx => absurd hpx hx).symm

theorem eraseLoop_eq_skipping (hdead : p dead = false) (v : List α) :
    eraseLoop p dead v = skipping p v :=
  rounds_eq_skipping hdead [] (Nat.le_refl _)

/-- **What the loop gets right**, while nothing past the end is erased: it is `filter` if and
only if no two neighbours are to be erased. -/
theorem eraseLoop_eq_filter_iff (hdead : p dead = false) (v : List α) :
    eraseLoop p dead v = v.filter (fun x => !p x) ↔
      v.IsChain fun x y => p x = true → p y = false := by
  rw [eraseLoop_eq_skipping hdead, skipping_eq_filter_iff]

/-- **With at most one element to erase, the loop is `filter`.** -/
theorem eraseLoop_eq_filter {v : List α} (hv : v.countP p ≤ 1) (hdead : p dead = false) :
    eraseLoop p dead v = v.filter (fun x => !p x) := by
  refine (eraseLoop_eq_filter_iff hdead v).2 (List.Pairwise.isChain ?_)
  induction v with
  | nil => exact List.Pairwise.nil
  | cons x v ih =>
    rw [List.countP_cons] at hv
    refine List.Pairwise.cons ?_ (ih (by omega))
    intro y hy hx
    rw [if_pos hx] at hv
    have hnone := List.countP_eq_zero.1 (show v.countP p = 0 by omega) y hy
    simpa using hnone

/-- With nothing to erase the loop changes nothing. -/
theorem eraseLoop_eq_self {v : List α} (hv : ∀ x ∈ v, p x = false) (hdead : p dead = false) :
    eraseLoop p dead v = v := by
  have hnone : v.countP p = 0 := List.countP_eq_zero.2 fun x hx => by simp [hv x hx]
  rw [eraseLoop_eq_filter (by omega) hdead]
  exact List.filter_eq_self.2 fun x hx => by simp [hv x hx]

/-! ## Part of the vector -/

/-- The loop leaves a part of the vector, in order. -/
theorem rounds_sublist (n i : Nat) (v : List α) : (rounds p dead n i v).Sublist v := by
  induction n generalizing i v with
  | zero => exact List.Sublist.refl _
  | succ n ih =>
    rw [rounds]
    refine (ih _ _).trans ?_
    split
    · rw [eraseAt]
      split
      · exact List.eraseIdx_sublist v i
      · exact List.dropLast_sublist v
    · exact List.Sublist.refl _

theorem eraseLoop_sublist (v : List α) : (eraseLoop p dead v).Sublist v := rounds_sublist _ _ v

/-- The loop looks at an element only through the test: it erases the same slots of a
vector of labelled elements. -/
theorem rounds_map {β : Type*} (f : β → α) (d : β) (n i : Nat) (v : List β) :
    (rounds (fun x => p (f x)) d n i v).map f = rounds p (f d) n i (v.map f) := by
  induction n generalizing i v with
  | zero => rfl
  | succ n ih =>
    have herase : (eraseAt v i).map f = eraseAt (v.map f) i := by
      rw [eraseAt, eraseAt, List.length_map]
      split
      · exact (List.eraseIdx_map f v i).symm
      · exact (List.map_dropLast)
    rw [rounds, rounds, List.getD_map, ih]
    split
    · rw [herase]
    · rfl

theorem eraseLoop_map {β : Type*} (f : β → α) (d : β) (v : List β) :
    (eraseLoop (fun x => p (f x)) d v).map f = eraseLoop p (f d) (v.map f) := by
  rw [eraseLoop, eraseLoop, List.length_map, rounds_map]

/-! ## One element, two elements -/

theorem eraseLoop_singleton (a : α) : eraseLoop p dead [a] = if p a then [] else [a] := by
  cases ha : p a <;> simp [eraseLoop, rounds, eraseAt, ha]

/-- When the first of two elements goes, the second round reads the slot behind the
last element, and an erase there drops the element that moved up. -/
theorem eraseLoop_pair (a b : α) :
    eraseLoop p dead [a, b] =
      if p a then (if p dead then [] else [b]) else (if p b then [a] else [a, b]) := by
  cases ha : p a <;> cases hb : p b <;> cases hd : p dead <;>
    simp [eraseLoop, rounds, eraseAt, ha, hb, hd]

/-! ## What the loop touches -/

/-- A read or an erase of a slot, with the size of the vector at that moment. -/
inductive Access where
  | read (index size : Nat)
  | erase (index size : Nat)
  deriving DecidableEq, Repr

/-- The slot belongs to the vector. -/
def Access.InRange : Access → Prop
  | .read index size => index < size
  | .erase index size => index < size

instance : DecidablePred Access.InRange
  | .read index size => inferInstanceAs (Decidable (index < size))
  | .erase index size => inferInstanceAs (Decidable (index < size))

/-- What a run of the loop leaves, and its accesses in order. -/
structure Run (α : Type*) where
  vector : List α
  accesses : List Access

/-- The run with earlier accesses. -/
def Run.after (earlier : List Access) (r : Run α) : Run α :=
  { r with accesses := earlier ++ r.accesses }

/-- `rounds`, with the accesses: a round reads the slot at its index and erases it, when
the element passes the test. -/
def tracedRounds (p : α → Bool) (dead : α) : Nat → Nat → List α → Run α
  | 0, _, v => ⟨v, []⟩
  | n + 1, i, v =>
    if p (v.getD i dead) then
      (tracedRounds p dead n (i + 1) (eraseAt v i)).after [.read i v.length, .erase i v.length]
    else (tracedRounds p dead n (i + 1) v).after [.read i v.length]

/-- `eraseLoop`, with the accesses. -/
def tracedLoop (p : α → Bool) (dead : α) (v : List α) : Run α :=
  tracedRounds p dead v.length 0 v

namespace Run

variable {r : Run α} {key : α → Bool} {v : List α}

/-- No access is at or past the end of the vector. -/
def InRange (r : Run α) : Prop := ∀ a ∈ r.accesses, a.InRange

instance (r : Run α) : Decidable r.InRange :=
  inferInstanceAs (Decidable (∀ a ∈ r.accesses, a.InRange))

@[simp] theorem inRange_after (earlier : List Access) :
    (r.after earlier).InRange ↔ (∀ a ∈ earlier, a.InRange) ∧ r.InRange :=
  List.forall_mem_append

/-- A run over `v` that stays in range and leaves, in order, what does not match `key`. -/
structure Exact (key : α → Bool) (v : List α) (r : Run α) : Prop where
  inRange : r.InRange
  vector : r.vector = v.filter fun x => !key x

end Run

/-- The accesses change nothing. -/
theorem vector_tracedRounds (n i : Nat) (v : List α) :
    (tracedRounds p dead n i v).vector = rounds p dead n i v := by
  induction n generalizing i v with
  | zero => rfl
  | succ n ih =>
    rw [tracedRounds, rounds]
    split
    · exact ih (i + 1) (eraseAt v i)
    · exact ih (i + 1) v

theorem vector_tracedLoop (v : List α) : (tracedLoop p dead v).vector = eraseLoop p dead v :=
  vector_tracedRounds _ _ v

theorem length_eraseAt_le (v : List α) (i : Nat) : (eraseAt v i).length ≤ v.length := by
  rw [eraseAt]
  split
  · exact List.length_eraseIdx_le v i
  · rw [List.length_dropLast]
    exact Nat.sub_le ..

/-- More rounds to come than elements: the last one reads past the end. -/
theorem not_inRange_of_length_lt {n i : Nat} {v : List α} (hn : 0 < n)
    (hv : v.length < i + n) : ¬ (tracedRounds p dead n i v).InRange := by
  induction n generalizing i v with
  | zero => exact absurd hn (Nat.lt_irrefl 0)
  | succ n ih =>
    rw [tracedRounds]
    rcases Nat.eq_zero_or_pos n with rfl | hpos
    · -- the round itself
      have hread : ¬ Access.InRange (.read i v.length) := Nat.not_lt.2 (by omega)
      split
      · exact fun h => hread (((Run.inRange_after _).1 h).1 _ (by simp))
      · exact fun h => hread (((Run.inRange_after _).1 h).1 _ (by simp))
    · have hlen := length_eraseAt_le v i
      split
      · exact fun h => ih hpos (by omega) ((Run.inRange_after _).1 h).2
      · exact fun h => ih hpos (by omega) ((Run.inRange_after _).1 h).2

/-- Rounds over `w` behind a prefix stay in range as long as nothing is erased before the
last of them. -/
theorem inRange_tracedRounds_iff (v w : List α) :
    (tracedRounds p dead w.length v.length (v ++ w)).InRange ↔
      ∀ x ∈ w.dropLast, p x = false := by
  induction w generalizing v with
  | nil => exact iff_of_true (List.forall_mem_nil _) (List.forall_mem_nil _)
  | cons x w ih =>
    have hin : v.length < (v ++ x :: w).length := by simp
    rw [List.length_cons, tracedRounds, getD_append_cons, eraseAt_append_cons]
    by_cases hx : p x = true
    · rw [if_pos hx, Run.inRange_after]
      cases w with
      | nil =>
        -- the last round: nothing is read after the erase
        refine iff_of_true ⟨?_, List.forall_mem_nil _⟩ (List.forall_mem_nil _)
        exact List.forall_mem_cons.2 ⟨hin, List.forall_mem_singleton.2 hin⟩
      | cons y w =>
        refine iff_of_false (fun h => ?_) fun h => ?_
        · refine not_inRange_of_length_lt ?_ ?_ h.2
          · exact Nat.succ_pos _
          · rw [List.length_append]
            omega
        · have hxf := h x (by simp)
          rw [hx] at hxf
          cases hxf
    · have hxf : p x = false := by simpa using hx
      have hrest := ih (v ++ [x])
      rw [List.append_assoc, List.length_append] at hrest
      have hread : ∀ a ∈ [Access.read v.length (v ++ x :: w).length], a.InRange :=
        List.forall_mem_singleton.2 hin
      rw [if_neg hx, Run.inRange_after, and_iff_right hread]
      refine hrest.trans ?_
      cases w with
      | nil => exact iff_of_true (List.forall_mem_nil _) (List.forall_mem_nil _)
      | cons y w =>
        rw [List.dropLast_cons_cons, List.forall_mem_cons]
        exact (and_iff_right hxf).symm

/-- **When the loop stays in range**: if and only if it erases nothing before its last
round. -/
theorem inRange_tracedLoop_iff (v : List α) :
    (tracedLoop p dead v).InRange ↔ ∀ x ∈ v.dropLast, p x = false :=
  inRange_tracedRounds_iff [] v

/-- Rounds over `w` behind a prefix that erase nothing before the last of them. -/
theorem rounds_of_dropLast {w : List α} (hw : ∀ x ∈ w.dropLast, p x = false) (v : List α) :
    rounds p dead w.length v.length (v ++ w) = v ++ w.filter fun x => !p x := by
  induction w generalizing v with
  | nil => rfl
  | cons x w ih =>
    rw [List.length_cons, rounds_succ]
    cases w with
    | nil =>
      rw [List.length_nil, rounds, List.filter_singleton]
      cases hx : p x with
      | true => rfl
      | false => rfl
    | cons y w =>
      rw [List.dropLast_cons_cons, List.forall_mem_cons] at hw
      have hrest := ih hw.2 (v ++ [x])
      rw [List.append_assoc, List.length_append] at hrest
      rw [hw.1, if_neg Bool.false_ne_true, List.filter_cons_of_pos (by rw [hw.1]; rfl)]
      exact hrest.trans (List.append_assoc ..)

theorem eraseLoop_of_dropLast {v : List α} (hv : ∀ x ∈ v.dropLast, p x = false) :
    eraseLoop p dead v = v.filter fun x => !p x :=
  rounds_of_dropLast hv []

/-- **When the loop does its work**: it erases nothing before its last round, and its test
is the key. -/
theorem exact_tracedLoop_iff {key : α → Bool} (v : List α) :
    (tracedLoop p dead v).Exact key v ↔
      (∀ x ∈ v.dropLast, p x = false) ∧ ∀ x ∈ v, p x = key x := by
  constructor
  · rintro ⟨hin, hleft⟩
    have hv := (inRange_tracedLoop_iff v).1 hin
    refine ⟨hv, ?_⟩
    rw [vector_tracedLoop, eraseLoop_of_dropLast hv] at hleft
    intro x hx
    have hmem : (x ∈ v.filter fun x => !p x) ↔ x ∈ v.filter fun x => !key x := by rw [hleft]
    rw [List.mem_filter, List.mem_filter, and_iff_right hx, and_iff_right hx] at hmem
    simpa using hmem
  · rintro ⟨hv, hkey⟩
    refine ⟨(inRange_tracedLoop_iff v).2 hv, ?_⟩
    rw [vector_tracedLoop, eraseLoop_of_dropLast hv]
    apply List.filter_congr
    intro x hx
    rw [hkey x hx]

end EraseLoop
end InstantMessenger
