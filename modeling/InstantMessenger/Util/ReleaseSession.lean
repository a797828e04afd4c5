import InstantMessenger.Util.User

/-!
# What `releaseSession` does to a user

The loop of `User::releaseSession` compares the client id of every session with the
client id it looks for, and **with the front-end address** it looks for; the address
of the session is never read, and the loop erases from the vector it runs over.  A
user holds at most two sessions, so every case can be told.

* `User.released` — the sessions that are left.
* `User.Releasable` — what must be true of a session for the loop to do its work.
* `User.released_eq_erase_iff` — **exactly then the loop takes out one occurrence of
  the session** and nothing else.
-/

namespace InstantMessenger

namespace User

/-- The sessions that `releaseSession` leaves. -/
def released (c : Session) (cs : List Session) : List Session :=
  EraseLoop.eraseLoop (releaseTest c.1 c.2) ([], []) cs

/-- The client id of the session is not the address of its front end, no session
before it has the same client id, and behind an empty client id nothing follows. -/
structure Releasable (c : Session) (cs : List Session) : Prop where
  notAddress : c.1 ≠ c.2
  first : ∀ d ∈ cs.takeWhile (· != c), d.1 ≠ c.1
  last : c.1 = [] → cs.dropWhile (· != c) = [c]

instance (c : Session) (cs : List Session) : Decidable (Releasable c cs) :=
  decidable_of_iff (c.1 ≠ c.2 ∧ (∀ d ∈ cs.takeWhile (· != c), d.1 ≠ c.1) ∧
      (c.1 = [] → cs.dropWhile (· != c) = [c]))
    ⟨fun h => ⟨h.1, h.2.1, h.2.2⟩, fun h => ⟨h.1, h.2, h.3⟩⟩

theorem releaseTest_iff {c d : Session} :
    releaseTest c.1 c.2 d = true ↔ d.1 = c.1 ∧ c.1 ≠ c.2 := by
  rw [releaseTest, Bool.and_eq_true, beq_iff_eq, bne_iff_ne]
  constructor
  · rintro ⟨h1, h2⟩
    exact ⟨h1, h1 ▸ h2⟩
  · rintro ⟨h1, h2⟩
    exact ⟨h1, h1 ▸ h2⟩

/-- Where a session stands in a list of at most two. -/
theorem places {c : Session} {cs : List Session} (hlen : cs.length ≤ 2) (hc : c ∈ cs) :
    cs = [c] ∨ (∃ b, cs = [c, b]) ∨ ∃ a, a ≠ c ∧ cs = [a, c] := by
  match cs, hlen with
  | [a], _ =>
    rw [List.mem_singleton.1 hc]
    exact .inl rfl
  | [a, b], _ =>
    by_cases ha : a = c
    · exact .inr (.inl ⟨b, by rw [ha]⟩)
    · have hb : c = b := by simpa [Ne.symm ha] using hc
      exact .inr (.inr ⟨a, ha, by rw [hb]⟩)

theorem released_of_address {c : Session} (h : c.1 = c.2) (cs : List Session) :
    released c cs = cs := by
  refine EraseLoop.eraseLoop_eq_self (fun d _ => ?_) ?_
  · rw [← Bool.not_eq_true, releaseTest_iff]
    exact fun hd => hd.2 h
  · rw [← Bool.not_eq_true, releaseTest_iff]
    exact fun hd => hd.2 h

section Places

variable {a b c : Session}

theorem released_alone (h : c.1 ≠ c.2) : released c [c] = [] := by
  rw [released, EraseLoop.eraseLoop_singleton, if_pos (releaseTest_iff.2 ⟨rfl, h⟩)]

theorem released_first (h : c.1 ≠ c.2) :
    released c [c, b] = if c.1 = [] then [] else [b] := by
  rw [released, EraseLoop.eraseLoop_pair, if_pos (releaseTest_iff.2 ⟨rfl, h⟩)]
  simp only [releaseTest_iff, and_iff_left h, @eq_comm _ ([] : Str)]

theorem released_second (h : c.1 ≠ c.2) :
    released c [a, c] = if a.1 = c.1 then (if c.1 = [] then [] else [c]) else [a] := by
  rw [released, EraseLoop.eraseLoop_pair, if_pos (releaseTest_iff.2 ⟨rfl, h⟩)]
  simp only [releaseTest_iff, and_iff_left h, @eq_comm _ ([] : Str)]

theorem releasable_alone (h : c.1 ≠ c.2) : Releasable c [c] :=
  ⟨h, by simp, by simp⟩

theorem releasable_first_iff (h : c.1 ≠ c.2) : Releasable c [c, b] ↔ c.1 ≠ [] := by
  constructor
  · intro hr hempty
    simpa using hr.last hempty
  · intro hpos
    exact ⟨h, by simp, fun hempty => absurd hempty hpos⟩

theorem releasable_second_iff (h : c.1 ≠ c.2) (ha : a ≠ c) :
    Releasable c [a, c] ↔ a.1 ≠ c.1 := by
  constructor
  · intro hr
    exact hr.first a (by simp [ha])
  · intro hne
    exact ⟨h, by simp [ha, hne], by simp [ha]⟩

end Places

/-- The loop takes one occurrence of the session out exactly when it is releasable. -/
theorem released_eq_erase_iff {c : Session} {cs : List Session} (hlen : cs.length ≤ 2)
    (hc : c ∈ cs) : released c cs = cs.erase c ↔ Releasable c cs := by
  by_cases hf : c.1 = c.2
  · rw [released_of_address hf]
    refine iff_of_false (fun h => ?_) fun h => h.notAddress hf
    have hless := List.length_erase_of_mem hc
    rw [← h] at hless
    have hpos := List.length_pos_of_mem hc
    omega
  obtain rfl | ⟨b, rfl⟩ | ⟨a, ha, rfl⟩ := places hlen hc
  · rw [released_alone hf]
    exact iff_of_true (by simp) (releasable_alone hf)
  · rw [released_first hf, releasable_first_iff hf, List.erase_cons_head]
    by_cases hempty : c.1 = [] <;> simp [hempty]
  · rw [released_second hf, releasable_second_iff hf ha, List.erase_cons_tail (by simpa using ha),
      List.erase_cons_head]
    by_cases hsame : a.1 = c.1
    · by_cases hempty : c.1 = [] <;> simp [hsame, hempty, Ne.symm ha]
    · simp [hsame]

/-- A session that is releasable stays so when another occurrence is taken out. -/
theorem Releasable.erase {c d : Session} {cs : List Session} (hlen : cs.length ≤ 2)
    (h : Releasable c cs) (hc : c ∈ cs.erase d) : Releasable c (cs.erase d) := by
  by_cases hd : d ∈ cs
  · have hless := List.length_erase_of_mem hd
    have hpos := List.length_pos_of_mem hd
    obtain ⟨a, ha⟩ : ∃ a, cs.erase d = [a] := by
      refine List.length_eq_one_iff.1 ?_
      have hleft := List.length_pos_of_mem hc
      omega
    rw [ha] at hc ⊢
    rw [← List.mem_singleton.1 hc]
    exact releasable_alone h.notAddress
  · rwa [List.erase_of_not_mem hd]

/-- A client id that is not empty loses at most one session. -/
theorem length_le_released {c : Session} {cs : List Session} (hlen : cs.length ≤ 2)
    (hc : c ∈ cs) (hpos : c.1 ≠ []) : cs.length ≤ (released c cs).length + 1 := by
  by_cases hf : c.1 = c.2
  · rw [released_of_address hf]
    omega
  obtain rfl | ⟨b, rfl⟩ | ⟨a, ha, rfl⟩ := places hlen hc
  · simp
  · simp [released_first hf, hpos]
  · rw [released_second hf]
    by_cases hsame : a.1 = c.1 <;> simp [hsame, hpos]

/-- Some session with the client id leaves. -/
theorem countP_released_lt {c : Session} {cs : List Session} (hlen : cs.length ≤ 2)
    (hc : c ∈ cs) (hf : c.1 ≠ c.2) :
    (released c cs).countP (fun d => d.1 == c.1) < cs.countP fun d => d.1 == c.1 := by
  obtain rfl | ⟨b, rfl⟩ | ⟨a, ha, rfl⟩ := places hlen hc
  · simp [released_alone hf]
  · rw [released_first hf]
    by_cases hempty : c.1 = [] <;> simp [hempty, List.countP_cons]
  · rw [released_second hf]
    by_cases hsame : a.1 = c.1
    · by_cases hempty : c.1 = [] <;> simp [hsame, hempty]
    · rw [if_neg hsame]
      simp [hsame]

/-- When every other session stays, the session is releasable. -/
theorem releasable_of_filter {c : Session} {cs : List Session} (hlen : cs.length ≤ 2)
    (hc : c ∈ cs) (hf : c.1 ≠ c.2) (hpos : c.1 ≠ [])
    (h : (released c cs).filter (· != c) = cs.filter (· != c)) : Releasable c cs := by
  obtain rfl | ⟨b, rfl⟩ | ⟨a, ha, rfl⟩ := places hlen hc
  · exact releasable_alone hf
  · exact (releasable_first_iff hf).2 hpos
  · refine (releasable_second_iff hf ha).2 ?_
    intro hsame
    rw [released_second hf, if_pos hsame, if_neg hpos] at h
    simp [ha] at h

end User
end InstantMessenger
