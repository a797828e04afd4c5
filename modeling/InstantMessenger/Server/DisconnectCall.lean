import InstantMessenger.Server.Sessions
import InstantMessenger.Util.ReleaseSession

/-!
# One call of `disconnectSession`

`disconnectSession` looks for the first user with the session, lowers that user's
counter by one, and lets the user release the session.  Nothing is assumed here of
the client ids: sessions may be repeated, within a user and across users.

* `Replica.Seated` — every user of a group has one or two sessions.
* `Replica.owner_cases`, `Replica.dropSession_append` — **what a call does**: nothing,
  or one user in the middle of the list releases the session.
* `Replica.others`, `Replica.countOf` — the entries of the other sessions, and the
  number of entries of the session that a user has.
* `Replica.dropSession_closes_iff` — exactly when one call closes exactly the session.
-/

namespace InstantMessenger

namespace Replica

open Ledger User

/-- Every user of a group has one or two sessions. -/
def Seated (us : List User) : Prop :=
  ∀ x ∈ us, x.clientIdentifiers ≠ [] ∧
    x.clientIdentifiers.length ≤ MAX_NUMBER_OF_SIMULTANEOUS_CONNECTIONS

/-- A user that is left without a session leaves the list. -/
def kept (x : User) : List User := if x.clientIdentifiers.length < 1 then [] else [x]

theorem entries_append (n : Str) (us vs : List User) :
    entries n (us ++ vs) = entries n us ++ entries n vs := List.flatMap_append

theorem entries_kept (n : Str) (x : User) :
    entries n (kept x) = x.clientIdentifiers.map (Entry.mk n x.username) := by
  rw [kept]
  split
  · rename_i h
    rw [List.eq_nil_of_length_eq_zero (Nat.lt_one_iff.1 h)]
    rfl
  · rw [entries_cons, entries_nil, List.append_nil]

theorem releaseOwner_append {c : Session} {pre post : List User} {x : User}
    (hpre : ∀ y ∈ pre, c ∉ y.clientIdentifiers) (hx : c ∈ x.clientIdentifiers) :
    Group.releaseOwner c.1 c.2 (pre ++ x :: post) =
      pre ++ kept (x.releaseSession c.1 c.2) ++ post := by
  induction pre with
  | nil =>
    have hcx : x.getActiveConnections.contains (c.1, c.2) = true := by
      simpa [User.getActiveConnections] using hx
    rw [List.nil_append, List.nil_append, Group.releaseOwner, if_pos hcx, kept]
    by_cases hlt : (x.releaseSession c.1 c.2).clientIdentifiers.length < 1
    · rw [if_pos hlt]
      exact if_pos hlt
    · rw [if_neg hlt]
      exact if_neg hlt
  | cons y pre ih =>
    have hy : ¬y.getActiveConnections.contains (c.1, c.2) = true := by
      simpa [User.getActiveConnections] using hpre y (List.mem_cons_self ..)
    rw [List.cons_append, Group.releaseOwner, if_neg hy,
      ih fun z hz => hpre z (List.mem_cons_of_mem _ hz)]
    rfl

/-- Where the session is: with nobody, or with the first user that has it. -/
theorem owner_cases (c : Session) (us : List User) :
    (∀ x ∈ us, c ∉ x.clientIdentifiers) ∨
      ∃ pre x post, us = pre ++ x :: post ∧ (∀ y ∈ pre, c ∉ y.clientIdentifiers) ∧
        c ∈ x.clientIdentifiers := by
  induction us with
  | nil => exact .inl (by simp)
  | cons y us ih =>
    by_cases hy : c ∈ y.clientIdentifiers
    · exact .inr ⟨[], y, us, rfl, by simp, hy⟩
    · rcases ih with hnone | ⟨pre, x, post, rfl, hpre, hx⟩
      · exact .inl (by simpa [hy] using hnone)
      · exact .inr ⟨y :: pre, x, post, rfl, by simpa [hy] using hpre, hx⟩

theorem getUserFromConnectionId_eq_none {c : Session} {us : List User}
    (h : ∀ x ∈ us, c ∉ x.clientIdentifiers) : Group.getUserFromConnectionId us c.1 c.2 = none :=
  List.find?_eq_none.2 fun x hx => by simpa [User.getActiveConnections] using h x hx

theorem getUserFromConnectionId_append {c : Session} {pre post : List User} {x : User}
    (hpre : ∀ y ∈ pre, c ∉ y.clientIdentifiers) (hx : c ∈ x.clientIdentifiers) :
    Group.getUserFromConnectionId (pre ++ x :: post) c.1 c.2 = some x := by
  refine List.find?_eq_some_iff_append.2 ⟨by simpa [User.getActiveConnections] using hx, pre,
    post, rfl, fun y hy => ?_⟩
  simpa [User.getActiveConnections] using hpre y hy

theorem dropSession_of_not_mem {c : Session} {us : List User} (counts : Counts)
    (h : ∀ x ∈ us, c ∉ x.clientIdentifiers) : dropSession c (us, counts) = (us, counts) := by
  rw [dropSession, getUserFromConnectionId_eq_none h]

theorem dropSession_append {c : Session} {pre post : List User} {x : User} (counts : Counts)
    (hpre : ∀ y ∈ pre, c ∉ y.clientIdentifiers) (hx : c ∈ x.clientIdentifiers) :
    dropSession c (pre ++ x :: post, counts) =
      (pre ++ kept (x.releaseSession c.1 c.2) ++ post,
        counts.set x.username (counts.get x.username - 1)) := by
  rw [dropSession, getUserFromConnectionId_append hpre hx]
  exact Prod.ext (releaseOwner_append hpre hx) rfl

theorem seated_dropSession {c : Session} {us : List User} {counts : Counts} (h : Seated us) :
    Seated (dropSession c (us, counts)).1 := by
  obtain hnone | ⟨pre, x, post, rfl, hpre, hx⟩ := owner_cases c us
  · rwa [dropSession_of_not_mem counts hnone]
  · rw [dropSession_append counts hpre hx]
    intro y hy
    rw [List.append_assoc, List.mem_append, List.mem_append] at hy
    rcases hy with hy | hy | hy
    · exact h y (List.mem_append_left _ hy)
    · rw [kept] at hy
      split at hy
      · cases hy
      · rename_i hlt
        rw [List.mem_singleton.1 hy]
        refine ⟨fun hnil => hlt (by rw [hnil]; decide), ?_⟩
        exact (EraseLoop.eraseLoop_sublist x.clientIdentifiers).length_le.trans (h x (by simp)).2
    · exact h y (List.mem_append_right _ (List.mem_cons_of_mem _ hy))

/-! ## Entries of one session -/

/-- The entries that are not of the session. -/
def others (c : Session) (es : List Entry) : List Entry := es.filter fun e => !(e.session == c)

theorem others_append (c : Session) (es fs : List Entry) :
    others c (es ++ fs) = others c es ++ others c fs := List.filter_append ..

theorem others_map (n u : Str) (c : Session) (cs : List Session) :
    others c (cs.map (Entry.mk n u)) = (cs.filter (· != c)).map (Entry.mk n u) :=
  filter_map_mk n u c cs

theorem others_entries_of_not_mem {n : Str} {c : Session} {us : List User}
    (h : ∀ x ∈ us, c ∉ x.clientIdentifiers) : others c (entries n us) = entries n us := by
  refine List.filter_eq_self.2 ?_
  intro e he
  obtain ⟨x, hx, hex⟩ := List.mem_flatMap.1 he
  obtain ⟨d, hd, rfl⟩ := List.mem_map.1 hex
  have hdc : d ≠ c := fun heq => h x hx (heq ▸ hd)
  simpa using hdc

theorem not_mem_of_others_entries {n : Str} {c : Session} {us : List User} {es : List Entry}
    (h : ∀ e ∈ entries n us, e ∈ others c es) : ∀ x ∈ us, c ∉ x.clientIdentifiers := by
  intro x hx hc
  have he : (⟨n, x.username, c⟩ : Entry) ∈ entries n us :=
    List.mem_flatMap.2 ⟨x, hx, List.mem_map_of_mem hc⟩
  simpa [others] using h _ he

theorem entries_middle (n : Str) (pre post : List User) (x : User) :
    entries n (pre ++ x :: post) =
      entries n pre ++ x.clientIdentifiers.map (Entry.mk n x.username) ++ entries n post := by
  rw [entries_append, entries_cons, List.append_assoc]

theorem entries_released {n : Str} {c : Session} {pre post : List User} {x : User}
    (counts : Counts) (hpre : ∀ y ∈ pre, c ∉ y.clientIdentifiers) (hx : c ∈ x.clientIdentifiers) :
    entries n (dropSession c (pre ++ x :: post, counts)).1 =
      entries n pre ++ (released c x.clientIdentifiers).map (Entry.mk n x.username) ++
        entries n post := by
  rw [dropSession_append counts hpre hx, entries_append, entries_append, entries_kept]
  rfl

theorem entries_dropSession_sublist (n : Str) (c : Session) (us : List User) (counts : Counts) :
    (entries n (dropSession c (us, counts)).1).Sublist (entries n us) := by
  obtain hnone | ⟨pre, x, post, rfl, hpre, hx⟩ := owner_cases c us
  · rw [dropSession_of_not_mem counts hnone]
  · rw [entries_released counts hpre hx, entries_middle]
    exact (((EraseLoop.eraseLoop_sublist _).map _).append_left _).append_right _

/-- The number of entries of the session that belong to a user. -/
def countOf (c : Session) (k : Str) (es : List Entry) : Nat :=
  es.countP fun e => e.session == c && decide (e.user = k)

theorem countOf_append (c : Session) (k : Str) (es fs : List Entry) :
    countOf c k (es ++ fs) = countOf c k es + countOf c k fs := List.countP_append

theorem countOf_map (n u k : Str) (c : Session) (cs : List Session) :
    countOf c k (cs.map (Entry.mk n u)) = if u = k then cs.count c else 0 := by
  rw [countOf, List.countP_map]
  by_cases hk : u = k
  · rw [if_pos hk]
    exact List.countP_congr fun d _ => by simp [hk]
  · rw [if_neg hk]
    exact List.countP_eq_zero.2 fun d _ => by simp [hk]

theorem countOf_entries_of_not_mem {n k : Str} {c : Session} {us : List User}
    (h : ∀ x ∈ us, c ∉ x.clientIdentifiers) : countOf c k (entries n us) = 0 := by
  refine List.countP_eq_zero.2 ?_
  intro e he
  obtain ⟨x, hx, hex⟩ := List.mem_flatMap.1 he
  obtain ⟨d, hd, rfl⟩ := List.mem_map.1 hex
  have hdc : d ≠ c := fun heq => h x hx (heq ▸ hd)
  simp [hdc]

/-! ## One session -/

/-- The sessions of the users. -/
def sessionsOf (us : List User) : List Session := us.flatMap User.getActiveConnections

theorem sessionsOf_middle (pre post : List User) (x : User) :
    sessionsOf (pre ++ x :: post) = sessionsOf pre ++ x.clientIdentifiers ++ sessionsOf post := by
  rw [sessionsOf, List.flatMap_append, List.flatMap_cons, ← List.append_assoc]
  rfl

theorem count_sessionsOf_of_not_mem {c : Session} {us : List User}
    (h : ∀ x ∈ us, c ∉ x.clientIdentifiers) : (sessionsOf us).count c = 0 := by
  refine List.count_eq_zero.2 ?_
  intro hc
  obtain ⟨x, hx, hcx⟩ := List.mem_flatMap.1 hc
  exact h x hx hcx

theorem not_mem_of_count_sessionsOf {c : Session} {us : List User}
    (h : (sessionsOf us).count c = 0) : ∀ x ∈ us, c ∉ x.clientIdentifiers := by
  intro x hx hc
  exact List.count_eq_zero.1 h (List.mem_flatMap.2 ⟨x, hx, hc⟩)

theorem filter_eq_erase {c : Session} {cs : List Session} (h : cs.count c ≤ 1) :
    cs.filter (· != c) = cs.erase c := by
  induction cs with
  | nil => rfl
  | cons d cs ih =>
    by_cases hd : d = c
    · subst hd
      rw [List.count_cons_self] at h
      have hnot : d ∉ cs := List.count_eq_zero.1 (by omega)
      rw [List.erase_cons_head, List.filter_cons_of_neg (by simp)]
      exact List.filter_eq_self.2 fun e he => by
        have hed : e ≠ d := fun heq => hnot (heq ▸ he)
        simpa using hed
    · rw [List.erase_cons_tail (by simpa using hd), List.filter_cons_of_pos (by simpa using hd),
        ih (by rwa [List.count_cons_of_ne hd] at h)]

/-- **One session, one call**: exactly that session is closed when it is open at most
once and its owner can release it. -/
theorem dropSession_closes_iff {n : Str} {c : Session} {us : List User} {counts : Counts}
    (hs : Seated us) :
    Closes Entry.user (fun e => e.session == c) (entries n us) counts.get
        (entries n (dropSession c (us, counts)).1) (dropSession c (us, counts)).2.get ↔
      (sessionsOf us).count c ≤ 1 ∧
        ∀ x ∈ us, c ∈ x.clientIdentifiers → Releasable c x.clientIdentifiers := by
  obtain hnone | ⟨pre, x, post, rfl, hpre, hx⟩ := owner_cases c us
  · rw [dropSession_of_not_mem counts hnone]
    refine iff_of_true (Closes.nothing fun e he => ?_) ⟨?_, fun x hx hc => absurd hc (hnone x hx)⟩
    · obtain ⟨x, hx, hex⟩ := List.mem_flatMap.1 he
      obtain ⟨d, hd, rfl⟩ := List.mem_map.1 hex
      have hdc : d ≠ c := fun heq => hnone x hx (heq ▸ hd)
      simpa using hdc
    · rw [count_sessionsOf_of_not_mem hnone]
      exact Nat.zero_le _
  have hlen := (hs x (by simp)).2
  have hcount : (sessionsOf (pre ++ x :: post)).count c =
      x.clientIdentifiers.count c + (sessionsOf post).count c := by
    rw [sessionsOf_middle, List.count_append, List.count_append, count_sessionsOf_of_not_mem hpre,
      Nat.zero_add]
  have hone : 1 ≤ x.clientIdentifiers.count c := List.one_le_count_iff.2 hx
  constructor
  · intro h
    -- nobody behind the owner has the session, and the owner has lost exactly its occurrences
    have hentries := h.entries
    have hpost : ∀ y ∈ post, c ∉ y.clientIdentifiers := by
      refine @not_mem_of_others_entries n c post (entries n (pre ++ x :: post)) ?_
      intro e he
      rw [others, ← hentries, entries_released counts hpre hx]
      exact List.mem_append_right _ he
    have hreleased : released c x.clientIdentifiers = x.clientIdentifiers.filter (· != c) := by
      have hsplit : others c (entries n (pre ++ x :: post)) =
          entries n pre ++ (x.clientIdentifiers.filter (· != c)).map (Entry.mk n x.username) ++
            entries n post := by
        rw [entries_middle, others_append, others_append, others_entries_of_not_mem hpre,
          others_entries_of_not_mem hpost, others_map]
      have hmiddle := hentries.trans hsplit
      rw [entries_released counts hpre hx] at hmiddle
      have hmap := List.append_cancel_left (List.append_cancel_right hmiddle)
      exact List.map_injective_iff.2 (fun a b hab => (Entry.mk.inj hab).2.2) hmap
    have howner := h.counter x.username
    have hocc : countOf c x.username (entries n (pre ++ x :: post)) =
        x.clientIdentifiers.count c := by
      rw [entries_middle, countOf_append, countOf_append, countOf_entries_of_not_mem hpre,
        countOf_entries_of_not_mem hpost, countOf_map, if_pos rfl, Nat.zero_add, Nat.add_zero]
    rw [dropSession_append counts hpre hx, Counts.get_set_self] at howner
    rw [countOf] at hocc
    rw [hocc] at howner
    have hexact : x.clientIdentifiers.count c = 1 := by omega
    refine ⟨?_, ?_⟩
    · rw [hcount, hexact, count_sessionsOf_of_not_mem hpost]
    · intro y hy hc
      rcases List.mem_append.1 hy with hy | hy
      · exact absurd hc (hpre y hy)
      · rcases List.mem_cons.1 hy with rfl | hy
        · refine (released_eq_erase_iff hlen hc).1 ?_
          rw [hreleased, filter_eq_erase hexact.le]
        · exact absurd hc (hpost y hy)
  · rintro ⟨hle, hrel⟩
    have hexact : x.clientIdentifiers.count c = 1 := by omega
    have hpost := @not_mem_of_count_sessionsOf c post (by omega)
    have hreleased := (released_eq_erase_iff hlen hx).2 (hrel x (by simp) hx)
    constructor
    · show _ = others c _
      rw [entries_released counts hpre hx, entries_middle, others_append, others_append,
        others_entries_of_not_mem hpre, others_entries_of_not_mem hpost, others_map, hreleased,
        filter_eq_erase hexact.le]
    · intro k
      show _ = counts.get k - (countOf c k _ : Int)
      rw [entries_middle, countOf_append, countOf_append, countOf_entries_of_not_mem hpre,
        countOf_entries_of_not_mem hpost, countOf_map, hexact, dropSession_append counts hpre hx,
        Counts.get_set]
      by_cases hk : k = x.username
      · rw [if_pos hk, if_pos hk.symm, hk]
        rfl
      · rw [if_neg hk, if_neg (Ne.symm hk)]
        omega

end Replica

end InstantMessenger
