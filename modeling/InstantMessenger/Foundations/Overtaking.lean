import Mathlib.Data.List.Basic

/-!
# A log that one copy follows at once and another out of turn

Two copies of a state machine receive the same entries.  One copy applies an
entry when it enters the log; at the other the entry waits, and waiting entries
may be applied out of turn.  An entry may pass the ones before it when it is
**independent** of them: the two orders give the same state.

* `replay` — apply a list of entries, oldest first.
* `Independence` — a relation that guarantees that two entries commute, and that
  later entries do not destroy.
* `replay_overtake` — **an entry that is independent of those before it may be
  applied first**: what is left then leads to the same state.
* `split_at_first`, `find?_eraseP_owner` — what taking one entry out leaves.
-/

namespace InstantMessenger
namespace Overtaking

variable {σ ε : Type*} (apply : ε → σ → σ)

/-- Apply the entries one after another. -/
def replay (entries : List ε) (s : σ) : σ := entries.foldl (fun s e => apply e s) s

@[simp] theorem replay_nil (s : σ) : replay apply [] s = s := rfl

@[simp] theorem replay_cons (e : ε) (es : List ε) (s : σ) :
    replay apply (e :: es) s = replay apply es (apply e s) := rfl

theorem replay_append (es fs : List ε) (s : σ) :
    replay apply (es ++ fs) s = replay apply fs (replay apply es s) :=
  List.foldl_append ..

/-- In a state, two entries whose order does not matter, now or later. -/
structure Independence (ind : σ → ε → ε → Prop) : Prop where
  commute : ∀ {s a b}, ind s a b → apply b (apply a s) = apply a (apply b s)
  stable : ∀ {s a b} (c : ε), ind s a b → ind (apply c s) a b

variable {apply} {ind : σ → ε → ε → Prop}

/-- An entry independent of a list of entries commutes with the whole list. -/
theorem apply_replay (hind : Independence apply ind) {e : ε} {before : List ε} {s : σ}
    (h : ∀ x ∈ before, ind s x e) :
    apply e (replay apply before s) = replay apply before (apply e s) := by
  induction before generalizing s with
  | nil => rfl
  | cons x xs ih =>
    have hx : ind s x e := h x (List.mem_cons_self ..)
    have hxs : ∀ y ∈ xs, ind (apply x s) y e := fun y hy =>
      hind.stable x (h y (List.mem_cons_of_mem _ hy))
    rw [replay_cons, ih hxs, replay_cons, hind.commute hx]

/-- **Overtaking.**  When `e` is independent of the entries before it, applying
it first and the others afterwards gives what the log gives. -/
theorem replay_overtake (hind : Independence apply ind) {e : ε} {before after : List ε} {s : σ}
    (h : ∀ x ∈ before, ind s x e) :
    replay apply (before ++ after) (apply e s) = replay apply (before ++ e :: after) s := by
  rw [replay_append, replay_append, replay_cons, apply_replay hind h]

/-! ## Taking the first entry that satisfies a test -/

/-- A list around the first element that satisfies a test, and the list without
that element. -/
theorem split_at_first {p : ε → Bool} {l : List ε} {x : ε} (h : l.find? p = some x) :
    ∃ after, l = l.takeWhile (fun y => !p y) ++ x :: after ∧
      l.eraseP p = l.takeWhile (fun y => !p y) ++ after := by
  induction l with
  | nil => exact absurd h (by simp)
  | cons y l ih =>
    by_cases hy : p y = true
    · rw [List.find?_cons_of_pos hy, Option.some.injEq] at h
      subst h
      exact ⟨l, by simp [hy], by simp [hy]⟩
    · rw [List.find?_cons_of_neg hy] at h
      obtain ⟨after, hl, herase⟩ := ih h
      have htake : (y :: l).takeWhile (fun z => !p z) = y :: l.takeWhile (fun z => !p z) := by
        simp [hy]
      refine ⟨after, ?_, ?_⟩
      · rw [htake, List.cons_append, ← hl]
      · rw [List.eraseP_cons_of_neg hy, htake, List.cons_append, herase]

/-! ## At most one entry of each owner -/

section Owners

variable {κ : Type*} [BEq κ] [LawfulBEq κ] (owner : ε → κ)

/-- Taking an owner's first entry takes all there is of that owner. -/
theorem eraseP_owner {l : List ε} (h : (l.map owner).Nodup) (k : κ) :
    l.eraseP (fun x => owner x == k) = l.filter fun x => owner x != k := by
  induction l with
  | nil => rfl
  | cons x l ih =>
    rw [List.map_cons, List.nodup_cons] at h
    by_cases hx : owner x = k
    · rw [List.eraseP_cons_of_pos (by simpa using hx), List.filter_cons_of_neg (by simpa using hx)]
      refine (List.filter_eq_self.2 ?_).symm
      intro y hy
      have hne : owner y ≠ k := fun hyk => h.1 (hx ▸ hyk ▸ List.mem_map_of_mem hy)
      simpa using hne
    · rw [List.eraseP_cons_of_neg (by simpa using hx), List.filter_cons_of_pos (by simpa using hx),
        ih h.2]

/-- An owner finds its entry. -/
theorem find?_owner_of_mem {l : List ε} (h : (l.map owner).Nodup) {x : ε} (hx : x ∈ l) :
    l.find? (fun y => owner y == owner x) = some x := by
  induction l with
  | nil => cases hx
  | cons y l ih =>
    rw [List.map_cons, List.nodup_cons] at h
    rcases List.mem_cons.1 hx with rfl | hx
    · exact List.find?_cons_of_pos (by simp)
    · have hne : owner y ≠ owner x := fun heq => h.1 (heq ▸ List.mem_map_of_mem hx)
      rw [List.find?_cons_of_neg (by simpa using hne), ih h.2 hx]

/-- The other owners find their entry as before. -/
theorem find?_eraseP_owner {l : List ε} (h : (l.map owner).Nodup) (k k' : κ) :
    (l.eraseP fun x => owner x == k).find? (fun x => owner x == k') =
      if k' == k then none else l.find? fun x => owner x == k' := by
  rw [eraseP_owner owner h, List.find?_filter]
  split
  · rename_i heq
    rw [beq_iff_eq] at heq
    refine List.find?_eq_none.2 ?_
    intro x _
    simp [heq]
  · rename_i hne
    congr 1
    funext x
    by_cases hx : owner x = k'
    · simpa [hx] using hne
    · simp [hx]

end Owners

end Overtaking
end InstantMessenger
