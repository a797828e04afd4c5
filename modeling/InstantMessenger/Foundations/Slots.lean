import Mathlib.Data.List.Basic

/-!
# A list of threads

Threads are numbered by their place in a list: a new one goes to the end, and one
that moves on replaces its own entry.

* `getElem?_set_cases`, `getElem?_concat_cases` — an entry after such a change is
  the changed one or an old one.
* `flatMap_set_perm`, `countP_flatMap_set` — what all entries hold together, when one
  is replaced.
* `map_set_of_eq`, `mem_set_iff_of_nodup` — entries that carry a key of their own,
  which no change touches.
-/

namespace InstantMessenger
namespace Slots

variable {α : Type*} {l : List α} {i j : Nat} {a b x : α}

/-- An entry after the entry `i` was replaced. -/
theorem getElem?_set_cases (hi : l[i]? = some a) (h : (l.set i b)[j]? = some x) :
    (j = i ∧ x = b) ∨ (j ≠ i ∧ l[j]? = some x) := by
  have hlen : i < l.length := (List.getElem?_eq_some_iff.1 hi).1
  by_cases hij : j = i
  · subst hij
    rw [List.getElem?_set_self hlen, Option.some.injEq] at h
    exact .inl ⟨rfl, h.symm⟩
  · rw [List.getElem?_set_ne (Ne.symm hij)] at h
    exact .inr ⟨hij, h⟩

theorem getElem?_set_of_ne (hij : j ≠ i) (h : l[j]? = some x) : (l.set i b)[j]? = some x := by
  rwa [List.getElem?_set_ne (Ne.symm hij)]

theorem getElem?_set_self_of_some (hi : l[i]? = some a) : (l.set i b)[i]? = some b := by
  rw [List.getElem?_set_self (List.getElem?_eq_some_iff.1 hi).1]

/-- An entry after one was added at the end. -/
theorem getElem?_concat_cases (h : (l ++ [b])[j]? = some x) :
    l[j]? = some x ∨ (j = l.length ∧ x = b) := by
  rcases Nat.lt_or_ge j l.length with hj | hj
  · rw [List.getElem?_append_left hj] at h
    exact .inl h
  · rw [List.getElem?_append_right hj] at h
    have hlast : j - l.length < 1 := by
      have hlt := (List.getElem?_eq_some_iff.1 h).1
      simpa using hlt
    have hj' : j = l.length := by omega
    subst hj'
    rw [Nat.sub_self] at h
    exact .inr ⟨rfl, (Option.some.inj h).symm⟩

theorem getElem?_concat_of_some (h : l[j]? = some x) : (l ++ [b])[j]? = some x := by
  rw [List.getElem?_append_left (List.getElem?_eq_some_iff.1 h).1, h]

/-! ## What the entries hold -/

section Holdings

variable {β : Type*} (holds : α → List β)

/-- Replacing an entry exchanges what it held. -/
theorem flatMap_set_perm (hi : l[i]? = some a) (b : α) :
    ((l.set i b).flatMap holds ++ holds a).Perm (l.flatMap holds ++ holds b) := by
  induction l generalizing i with
  | nil => cases hi
  | cons y l ih =>
    cases i with
    | zero =>
      obtain rfl : y = a := Option.some.inj hi
      rw [List.set_cons_zero, List.flatMap_cons, List.flatMap_cons, List.append_assoc (holds y)]
      exact List.perm_append_comm.trans (List.perm_append_comm.append_left _)
    | succ i =>
      rw [List.getElem?_cons_succ] at hi
      rw [List.set_cons_succ, List.flatMap_cons, List.flatMap_cons, List.append_assoc,
        List.append_assoc]
      exact (ih hi).append_left _

/-- Counting in what the entries hold, when one entry is replaced. -/
theorem countP_flatMap_set (p : β → Bool) (hi : l[i]? = some a) (b : α) :
    ((l.set i b).flatMap holds).countP p + (holds a).countP p =
      (l.flatMap holds).countP p + (holds b).countP p := by
  have hcount := (flatMap_set_perm holds hi b).countP_eq p
  rwa [List.countP_append, List.countP_append] at hcount

variable {holds}

theorem mem_flatMap_set {y : β} (h : y ∈ (l.set i b).flatMap holds) :
    y ∈ holds b ∨ y ∈ l.flatMap holds := by
  obtain ⟨x, hx, hy⟩ := List.mem_flatMap.1 h
  rcases List.mem_or_eq_of_mem_set hx with hx | rfl
  · exact .inr (List.mem_flatMap.2 ⟨x, hx, hy⟩)
  · exact .inl hy

end Holdings

/-! ## Entries with a key -/

section Keys

variable {κ : Type*} {key : α → κ}

/-- Replacing an entry by one with its key keeps the keys. -/
theorem map_set_of_eq (hi : l[i]? = some a) (hkey : key b = key a) :
    (l.set i b).map key = l.map key := by
  obtain ⟨hlt, rfl⟩ := List.getElem?_eq_some_iff.1 hi
  rw [List.map_set, hkey, ← List.map_set, List.set_getElem_self]

/-- When keys are not shared, the entries after a replacement are the new one and
those with another key. -/
theorem mem_set_iff_of_nodup (hnodup : (l.map key).Nodup) (hi : l[i]? = some a)
    (hkey : key b = key a) : x ∈ l.set i b ↔ x = b ∨ (x ∈ l ∧ key x ≠ key a) := by
  induction l generalizing i with
  | nil => cases hi
  | cons y l ih =>
    rw [List.map_cons, List.nodup_cons] at hnodup
    cases i with
    | zero =>
      obtain rfl : y = a := Option.some.inj hi
      have hrest : x ∈ l → key x ≠ key y := fun hx h => hnodup.1 (h ▸ List.mem_map_of_mem hx)
      rw [List.set_cons_zero, List.mem_cons, List.mem_cons]
      constructor
      · exact Or.imp id fun hx => ⟨.inr hx, hrest hx⟩
      · rintro (hx | ⟨rfl | hx, hne⟩)
        · exact .inl hx
        · exact absurd rfl hne
        · exact .inr hx
    | succ i =>
      rw [List.getElem?_cons_succ] at hi
      have hya : key y ≠ key a := fun h =>
        hnodup.1 (h ▸ List.mem_map_of_mem (List.mem_of_getElem? hi))
      rw [List.set_cons_succ, List.mem_cons, List.mem_cons, ih hnodup.2 hi]
      constructor
      · rintro (rfl | hx | ⟨hx, hne⟩)
        · exact .inr ⟨.inl rfl, hya⟩
        · exact .inl hx
        · exact .inr ⟨.inr hx, hne⟩
      · rintro (hx | ⟨hx | hx, hne⟩)
        · exact .inr (.inl hx)
        · exact .inl hx
        · exact .inr (.inr ⟨hx, hne⟩)

end Keys

end Slots
end InstantMessenger
