import InstantMessenger.Server.DisconnectCall

/-!
# A DISCONNECT that carries the sentinel

With the client id `FE_DISCONNECT` a disconnect event is a sweep: one call of
`disconnectSession` for every session of the front end, in the order of a snapshot.
A packet may carry that client id, and then it is about a session of that name.

* `Replica.dropAll` — calls one after another; the sweep is one of these.
* `Replica.dropAll_closes` — calls for every session of a kind close them all, when their
  owners can release them; `Replica.dropAll_replicate_closes` for one session.
* `Replica.drift`, `Replica.dropAll_calls` — **the measure**: how far a counter is ahead
  of the sessions it counts.  Calls that leave the other sessions in place never
  raise it, and a call for another session lowers it.
* `Replica.dropEvent_sentinel_closes_iff` — exactly when the sweep closes exactly the
  sessions that carry the sentinel themselves.
-/

namespace InstantMessenger

namespace Replica

open Ledger User

/-! ## One call after another -/

/-- The calls of `disconnectSession` for these sessions. -/
def dropAll (ds : List Session) (s : List User × Counts) : List User × Counts :=
  ds.foldl (fun s d => dropSession d s) s

@[simp] theorem dropAll_nil (s : List User × Counts) : dropAll [] s = s := rfl

@[simp] theorem dropAll_cons (d : Session) (ds : List Session) (s : List User × Counts) :
    dropAll (d :: ds) s = dropAll ds (dropSession d s) := rfl

/-- The sweep calls for the sessions of its front end. -/
theorem sweep_eq_dropAll (f : Str) (ds : List Session) (s : List User × Counts) :
    sweep f ds s = dropAll (ds.filter fun d => d.2 == f) s := by
  induction ds generalizing s with
  | nil => rfl
  | cons d ds ih =>
    rw [sweep, List.foldl_cons]
    by_cases hd : d.2 = f
    · have hdf : (d.1, f) = d := Prod.ext rfl hd.symm
      rw [if_pos hd, hdf, List.filter_cons_of_pos (by simpa using hd), dropAll_cons]
      exact ih _
    · rw [if_neg hd, List.filter_cons_of_neg (by simpa using hd)]
      exact ih s

theorem seated_dropAll {ds : List Session} {s : List User × Counts} (h : Seated s.1) :
    Seated (dropAll ds s).1 := by
  induction ds generalizing s with
  | nil => exact h
  | cons d ds ih => exact @ih (dropSession d s) (seated_dropSession h)

theorem entries_dropAll_sublist (n : Str) (ds : List Session) (s : List User × Counts) :
    (entries n (dropAll ds s).1).Sublist (entries n s.1) := by
  induction ds generalizing s with
  | nil => exact List.Sublist.refl _
  | cons d ds ih => exact (ih _).trans (entries_dropSession_sublist n d s.1 s.2)

theorem filter_erase {p : Session → Bool} {d : Session} (hd : p d = true) (cs : List Session) :
    (cs.erase d).filter (fun c => !p c) = cs.filter fun c => !p c := by
  induction cs with
  | nil => rfl
  | cons c cs ih =>
    by_cases hc : c = d
    · rw [hc, List.erase_cons_head, List.filter_cons_of_neg (by simp [hd])]
    · rw [List.erase_cons_tail (by simpa using hc), List.filter_cons, List.filter_cons, ih]

theorem sessionsOf_append (us vs : List User) :
    sessionsOf (us ++ vs) = sessionsOf us ++ sessionsOf vs := List.flatMap_append

theorem sessionsOf_kept (x : User) : sessionsOf (kept x) = x.clientIdentifiers := by
  rw [kept]
  split
  · rename_i h
    rw [List.eq_nil_of_length_eq_zero (Nat.lt_one_iff.1 h)]
    rfl
  · exact List.append_nil _

theorem mem_kept {x y : User} (h : y ∈ kept x) : y = x := by
  rw [kept] at h
  split at h
  · cases h
  · exact List.mem_singleton.1 h

/-! ## Calls for every session of a kind -/

/-- A user without the sessions of a kind, if one is left. -/
def without (p : Session → Bool) (x : User) : Option User :=
  if (x.clientIdentifiers.filter fun d => !p d) = [] then none
  else some { x with clientIdentifiers := x.clientIdentifiers.filter fun d => !p d }

/-- The number of sessions of a kind that a user has. -/
def countKind (p : Session → Bool) (k : Str) (es : List Entry) : Nat :=
  es.countP fun e => p e.session && decide (e.user = k)

section Kind

variable {n : Str} {p : Session → Bool}

theorem without_of_ne_nil {x : User} (h : (x.clientIdentifiers.filter fun d => !p d) ≠ []) :
    without p x = some { x with clientIdentifiers := x.clientIdentifiers.filter fun d => !p d } :=
  if_neg h

theorem entries_without (n : Str) (p : Session → Bool) (us : List User) :
    entries n (us.filterMap (without p)) = (entries n us).filter fun e => !p e.session := by
  induction us with
  | nil => rfl
  | cons x us ih =>
    have hhead : (x.clientIdentifiers.map (Entry.mk n x.username)).filter
        (fun e => !p e.session) =
          (x.clientIdentifiers.filter fun d => !p d).map (Entry.mk n x.username) := by
      rw [List.filter_map]
      rfl
    rw [entries_cons, List.filter_append, hhead, ← ih]
    by_cases h : (x.clientIdentifiers.filter fun d => !p d) = []
    · have hgone : without p x = none := if_pos h
      rw [List.filterMap_cons_none hgone, h]
      rfl
    · rw [List.filterMap_cons_some (without_of_ne_nil h), entries_cons]

/-- Nobody has a session of the kind. -/
theorem filterMap_without_of_forall {us : List User} (hs : Seated us)
    (h : ∀ x ∈ us, ∀ d ∈ x.clientIdentifiers, p d = false) :
    us.filterMap (without p) = us := by
  induction us with
  | nil => rfl
  | cons x us ih =>
    have hx : (x.clientIdentifiers.filter fun d => !p d) = x.clientIdentifiers :=
      List.filter_eq_self.2 fun d hd => by simp [h x (List.mem_cons_self ..) d hd]
    have hkeep : without p x = some x := by
      rw [without, hx, if_neg (hs x (List.mem_cons_self ..)).1]
    rw [List.filterMap_cons_some hkeep, ih (fun y hy => hs y (List.mem_cons_of_mem _ hy))
      fun y hy => h y (List.mem_cons_of_mem _ hy)]

/-- It does not matter when a session of the kind leaves. -/
theorem filterMap_kept {x : User} {d : Session} (hd : p d = true) :
    (kept { x with clientIdentifiers := x.clientIdentifiers.erase d }).filterMap (without p) =
      [x].filterMap (without p) := by
  have hfilter := filter_erase hd x.clientIdentifiers
  rw [kept]
  split
  · rename_i hlt
    have hnil : x.clientIdentifiers.erase d = [] :=
      List.eq_nil_of_length_eq_zero (Nat.lt_one_iff.1 hlt)
    rw [hnil] at hfilter
    have hgone : without p x = none := if_pos hfilter.symm
    rw [List.filterMap_cons_none hgone]
  · simp only [List.filterMap_cons, without, hfilter, List.filterMap_nil]

/-- As many calls as there are sessions of the kind close them all, in whatever order,
when their owners can release them; users further back are not reached. -/
theorem dropAll_closes {ds : List Session} {us rest : List User} {counts : Counts}
    (hs : Seated us) (hds : ds.Perm ((sessionsOf us).filter p))
    (hrel : ∀ x ∈ us, ∀ c ∈ x.clientIdentifiers, p c = true → Releasable c x.clientIdentifiers) :
    (dropAll ds (us ++ rest, counts)).1 = us.filterMap (without p) ++ rest ∧
      ∀ k, (dropAll ds (us ++ rest, counts)).2.get k =
        counts.get k - countKind p k (entries n us) := by
  induction ds generalizing us counts with
  | nil =>
    have hnone : ∀ x ∈ us, ∀ d ∈ x.clientIdentifiers, p d = false := by
      intro x hx d hd
      have hnil := List.filter_eq_nil_iff.1 hds.nil_eq.symm d (List.mem_flatMap.2 ⟨x, hx, hd⟩)
      simpa using hnil
    refine ⟨by rw [filterMap_without_of_forall hs hnone, dropAll_nil], ?_⟩
    intro k
    have hzero : countKind p k (entries n us) = 0 := by
      refine List.countP_eq_zero.2 ?_
      intro e he
      obtain ⟨x, hx, hex⟩ := List.mem_flatMap.1 he
      obtain ⟨d, hd, rfl⟩ := List.mem_map.1 hex
      simp [hnone x hx d hd]
    rw [hzero]
    simp
  | cons d ds ih =>
    obtain ⟨hopen, hd⟩ := List.mem_filter.1 (hds.subset (List.mem_cons_self ..))
    obtain hnone | ⟨pre, x, post, rfl, hpre, hx⟩ := owner_cases d us
    · obtain ⟨x, hx, hdx⟩ := List.mem_flatMap.1 hopen
      exact absurd hdx (hnone x hx)
    have hlen := (hs x (by simp)).2
    have hreleased : x.releaseSession d.1 d.2 =
        { x with clientIdentifiers := x.clientIdentifiers.erase d } := by
      have hr := (released_eq_erase_iff hlen hx).2 (hrel x (by simp) d hx hd)
      show { x with clientIdentifiers := released d x.clientIdentifiers } = _
      rw [hr]
    have hperm := List.perm_cons_erase hx
    have hseated := @seated_dropSession d _ counts hs
    rw [dropSession_append counts hpre hx, hreleased] at hseated
    rw [dropAll_cons, List.append_assoc, List.cons_append, dropSession_append counts hpre hx,
      hreleased, ← List.append_assoc]
    have hleft : ds.Perm ((sessionsOf (pre ++ kept { x with
        clientIdentifiers := x.clientIdentifiers.erase d } ++ post)).filter p) := by
      refine (List.perm_cons d).1 (hds.trans ?_)
      rw [sessionsOf_middle, sessionsOf_append, sessionsOf_append, sessionsOf_kept,
        ← List.filter_cons_of_pos hd]
      refine List.Perm.filter p ?_
      refine ((hperm.append_left _).append_right _).trans ?_
      rw [List.append_assoc, List.append_assoc]
      exact List.perm_middle
    obtain ⟨husers, hcounter⟩ := @ih _ (counts.set x.username (counts.get x.username - 1)) hseated
      hleft (by
      intro y hy c hc hp
      rw [List.append_assoc, List.mem_append, List.mem_append] at hy
      rcases hy with hy | hy | hy
      · exact hrel y (by simp [hy]) c hc hp
      · rw [mem_kept hy] at hc ⊢
        exact (hrel x (by simp) c (List.mem_of_mem_erase hc) hp).erase hlen hc
      · exact hrel y (by simp [hy]) c hc hp)
    refine ⟨?_, ?_⟩
    · rw [husers, List.filterMap_append, List.filterMap_append, filterMap_kept hd,
        ← List.filterMap_append, ← List.filterMap_append, List.append_assoc]
      rfl
    · intro k
      have hcount : countKind p k (x.clientIdentifiers.map (Entry.mk n x.username)) =
          countKind p k ((x.clientIdentifiers.erase d).map (Entry.mk n x.username)) +
            if x.username = k then 1 else 0 := by
        rw [countKind, (hperm.map _).countP_eq, List.map_cons, List.countP_cons]
        simp [countKind, hd]
      rw [hcounter k, entries_append, entries_append, entries_kept, entries_middle, Counts.get_set]
      simp only [countKind, List.countP_append] at hcount ⊢
      rw [hcount]
      by_cases hk : k = x.username
      · rw [if_pos hk, if_pos hk.symm, hk]
        omega
      · rw [if_neg hk, if_neg (Ne.symm hk)]
        omega

/-- As many calls as there are occurrences of one session close them all. -/
theorem dropAll_replicate_closes {c : Session} {m : Nat} {us : List User} {counts : Counts}
    (hs : Seated us) (hm : (sessionsOf us).count c = m)
    (hrel : ∀ x ∈ us, c ∈ x.clientIdentifiers → Releasable c x.clientIdentifiers) :
    Closes Entry.user (fun e => e.session == c) (entries n us) counts.get
      (entries n (dropAll (List.replicate m c) (us, counts)).1)
      (dropAll (List.replicate m c) (us, counts)).2.get := by
  have hds : (List.replicate m c).Perm ((sessionsOf us).filter (· == c)) := by
    rw [List.filter_beq, hm]
  obtain ⟨husers, hcounter⟩ := @dropAll_closes n (· == c) _ us [] counts hs hds (by
    intro x hx d hd hdc
    rw [eq_of_beq hdc] at hd ⊢
    exact hrel x hx hd)
  rw [List.append_nil, List.append_nil] at husers
  rw [List.append_nil] at hcounter
  refine ⟨?_, hcounter⟩
  rw [husers, entries_without]

end Kind

/-! ## What the calls of a sweep must not do -/

/-- How far a counter is ahead of the sessions it counts. -/
def drift (n : Str) (s : List User × Counts) (k : Str) : Int :=
  s.2.get k - held Entry.user (entries n s.1) k

theorem held_map (n u k : Str) (cs : List Session) :
    held Entry.user (cs.map (Entry.mk n u)) k = if u = k then cs.length else 0 := by
  rw [held, List.countP_map]
  by_cases hk : u = k
  · rw [if_pos hk]
    exact List.countP_eq_length.2 fun d _ => by simp [hk]
  · rw [if_neg hk]
    exact List.countP_eq_zero.2 fun d _ => by simp [hk]

/-- A call lowers the counter at least as often as it closes a session. -/
theorem drift_dropSession_le {n k : Str} {d : Session} {s : List User × Counts}
    (hs : Seated s.1) (hpos : d.1 ≠ []) : drift n (dropSession d s) k ≤ drift n s k := by
  obtain ⟨us, counts⟩ := s
  obtain hnone | ⟨pre, x, post, rfl, hpre, hx⟩ := owner_cases d us
  · rw [dropSession_of_not_mem counts hnone]
  have hlen := length_le_released (hs x (by simp)).2 hx hpos
  rw [drift, drift, entries_released counts hpre hx, entries_middle,
    dropSession_append counts hpre hx, held_append, held_append, held_append, held_append,
    held_map, held_map, Counts.get_set]
  by_cases hk : k = x.username
  · rw [if_pos hk, if_pos hk.symm, if_pos hk.symm, hk]
    dsimp only
    omega
  · rw [if_neg hk, if_neg (Ne.symm hk), if_neg (Ne.symm hk)]

/-- A client id that is the address of its front end closes nothing, and is counted. -/
theorem dropSession_of_address {d : Session} {us : List User} (counts : Counts) (hs : Seated us)
    (hf : d.1 = d.2) : (dropSession d (us, counts)).1 = us := by
  obtain hnone | ⟨pre, x, post, rfl, hpre, hx⟩ := owner_cases d us
  · rw [dropSession_of_not_mem counts hnone]
  · have hsame : x.releaseSession d.1 d.2 = x := by
      have hreleased := released_of_address hf x.clientIdentifiers
      show { x with clientIdentifiers := released d x.clientIdentifiers } = x
      rw [hreleased]
    have hkept : kept x = [x] := by
      refine if_neg fun hlt => (hs x (by simp)).1 ?_
      exact List.eq_nil_of_length_eq_zero (Nat.lt_one_iff.1 hlt)
    rw [dropSession_append counts hpre hx, hsame, hkept, List.append_assoc]
    rfl

theorem drift_dropSession_lt {n : Str} {d : Session} {s : List User × Counts} (hs : Seated s.1)
    (hf : d.1 = d.2) (hopen : d ∈ sessionsOf s.1) :
    ∃ k, drift n (dropSession d s) k < drift n s k := by
  obtain ⟨k, hk⟩ := dropSession_get_lt (s := s) hopen
  refine ⟨k, ?_⟩
  rw [drift, drift, dropSession_of_address s.2 hs hf]
  omega

/-- A call for another session of the front end, with a client id of its own, closes
a session that should stay. -/
theorem others_dropSession_ne {n : Str} {c d : Session} {s : List User × Counts}
    (hs : Seated s.1) (hfe : d.2 = c.2) (hdc : d ≠ c) (hf : d.1 ≠ d.2)
    (hopen : d ∈ sessionsOf s.1) :
    others c (entries n (dropSession d s).1) ≠ others c (entries n s.1) := by
  obtain ⟨us, counts⟩ := s
  have hid : d.1 ≠ c.1 := fun h => hdc (Prod.ext h hfe)
  -- the sessions with this client id are all among the others
  have hcount : ∀ es : List Entry, (others c es).countP (fun e => e.session.1 == d.1) =
      es.countP fun e => e.session.1 == d.1 := by
    intro es
    rw [others, List.countP_filter]
    refine List.countP_congr ?_
    intro e _
    rw [Bool.and_eq_true, beq_iff_eq]
    refine ⟨fun h => h.1, fun h => ⟨h, ?_⟩⟩
    have hec : e.session ≠ c := fun heq => hid (by rw [← h, heq])
    simpa using hec
  obtain hnone | ⟨pre, x, post, rfl, hpre, hx⟩ := owner_cases d us
  · obtain ⟨x, hx, hdx⟩ := List.mem_flatMap.1 hopen
    exact absurd hdx (hnone x hx)
  intro heq
  have hless := countP_released_lt (hs x (by simp)).2 hx hf
  have hsame := congrArg (fun es : List Entry => es.countP fun e => e.session.1 == d.1) heq
  simp only [hcount] at hsame
  rw [entries_released counts hpre hx, entries_middle, List.countP_append, List.countP_append,
    List.countP_append, List.countP_append, List.countP_map, List.countP_map] at hsame
  have hmap : ((fun e : Entry => e.session.1 == d.1) ∘ Entry.mk n x.username) =
      fun e : Session => e.1 == d.1 := rfl
  rw [hmap] at hsame
  omega

/-- What is still there at the end was there in between. -/
theorem others_between {n : Str} {c d : Session} {ds : List Session} {s : List User × Counts}
    (h : others c (entries n (dropAll ds (dropSession d s)).1) = others c (entries n s.1)) :
    others c (entries n (dropSession d s).1) = others c (entries n s.1) := by
  have hfirst : (others c (entries n (dropSession d s).1)).Sublist (others c (entries n s.1)) :=
    (entries_dropSession_sublist n d s.1 s.2).filter _
  have hrest := (entries_dropAll_sublist n ds (dropSession d s)).filter fun e => !(e.session == c)
  refine hfirst.eq_of_length_le ?_
  rw [← h]
  exact hrest.length_le

/-- Calls that leave the other sessions in place never let a counter get ahead, and
one for another session lets one fall behind. -/
theorem dropAll_calls {n : Str} {c : Session} {ds : List Session} {s : List User × Counts}
    (hpos : c.1 ≠ []) (hs : Seated s.1)
    (hopen : ∀ d ∈ ds, d.2 = c.2 ∧ (d ≠ c → d ∈ sessionsOf s.1))
    (hkeep : others c (entries n (dropAll ds s).1) = others c (entries n s.1)) :
    (∀ k, drift n (dropAll ds s) k ≤ drift n s k) ∧
      ((∃ d ∈ ds, d ≠ c) → ∃ k, drift n (dropAll ds s) k < drift n s k) := by
  induction ds generalizing s with
  | nil => exact ⟨fun _ => le_refl _, fun ⟨d, hd, _⟩ => absurd hd List.not_mem_nil⟩
  | cons d ds ih =>
    rw [dropAll_cons] at hkeep ⊢
    have hfirst := others_between hkeep
    obtain ⟨hfe, hd⟩ := hopen d (List.mem_cons_self ..)
    have hmem : ∀ us : List User, ∀ e : Session, e ≠ c →
        (e ∈ sessionsOf us ↔ ∃ x ∈ others c (entries n us), x.session = e) := by
      intro us e hec
      constructor
      · intro he
        obtain ⟨x, hx, hex⟩ := List.mem_flatMap.1 he
        refine ⟨⟨n, x.username, e⟩, List.mem_filter.2 ⟨?_, by simpa using hec⟩, rfl⟩
        exact List.mem_flatMap.2 ⟨x, hx, List.mem_map_of_mem hex⟩
      · rintro ⟨y, hy, rfl⟩
        obtain ⟨x, hx, hyx⟩ := List.mem_flatMap.1 (List.mem_filter.1 hy).1
        obtain ⟨e, he, rfl⟩ := List.mem_map.1 hyx
        exact List.mem_flatMap.2 ⟨x, hx, he⟩
    have hrest := @ih (dropSession d s) (seated_dropSession hs) (fun e he => by
      obtain ⟨hefe, heopen⟩ := hopen e (List.mem_cons_of_mem _ he)
      refine ⟨hefe, ?_⟩
      intro hec
      rw [hmem _ e hec, hfirst, ← hmem _ e hec]
      exact heopen hec) (hkeep.trans hfirst.symm)
    by_cases hdc : d = c
    · subst hdc
      refine ⟨fun k => (hrest.1 k).trans (drift_dropSession_le hs hpos), ?_⟩
      rintro ⟨e, he, hec⟩
      rcases List.mem_cons.1 he with rfl | he
      · exact absurd rfl hec
      · obtain ⟨k, hk⟩ := hrest.2 ⟨e, he, hec⟩
        exact ⟨k, lt_of_lt_of_le hk (drift_dropSession_le hs hpos)⟩
    · by_cases hf : d.1 = d.2
      · have hstep : ∀ k, drift n (dropSession d s) k ≤ drift n s k := by
          intro k
          rw [drift, drift, dropSession_of_address s.2 hs hf]
          have hget := dropSession_get_le d s k
          omega
        obtain ⟨k, hk⟩ := @drift_dropSession_lt n d s hs hf (hd hdc)
        exact ⟨fun k => (hrest.1 k).trans (hstep k), fun _ => ⟨k, lt_of_le_of_lt (hrest.1 k) hk⟩⟩
      · exact absurd hfirst (others_dropSession_ne hs hfe hdc hf (hd hdc))

/-- Calls for one session that close all of it and nothing else found only owners that
could release it. -/
theorem releasable_of_dropAll_replicate {n : Str} {c : Session} {m : Nat}
    {s : List User × Counts} (hpos : c.1 ≠ []) (hs : Seated s.1)
    (hkeep : others c (entries n (dropAll (List.replicate m c) s).1) = others c (entries n s.1))
    (hgone : ∀ x ∈ (dropAll (List.replicate m c) s).1, c ∉ x.clientIdentifiers) :
    ∀ x ∈ s.1, c ∈ x.clientIdentifiers → Releasable c x.clientIdentifiers := by
  induction m generalizing s with
  | zero => exact fun x hx hc => absurd hc (hgone x hx)
  | succ m ih =>
    rw [List.replicate_succ, dropAll_cons] at hkeep hgone
    have hfirst := others_between hkeep
    have hrest := @ih (dropSession c s) (seated_dropSession hs) (hkeep.trans hfirst.symm) hgone
    obtain ⟨us, counts⟩ := s
    by_cases hf : c.1 = c.2
    · rwa [dropSession_of_address counts hs hf] at hrest
    obtain hnone | ⟨pre, x, post, rfl, hpre, hx⟩ := owner_cases c us
    · exact fun x hx hc => absurd hc (hnone x hx)
    rw [entries_released counts hpre hx, entries_middle, others_append, others_append,
      others_append, others_append, others_map, others_map] at hfirst
    have hmap := List.append_cancel_left (List.append_cancel_right hfirst)
    have hfilter := List.map_injective_iff.2 (fun a b hab => (Entry.mk.inj hab).2.2) hmap
    rw [dropSession_append counts hpre hx] at hrest
    intro y hy hc
    rcases List.mem_append.1 hy with hy | hy
    · exact absurd hc (hpre y hy)
    · rcases List.mem_cons.1 hy with rfl | hy
      · exact releasable_of_filter (hs y (by simp)).2 hx hf hpos hfilter
      · exact hrest y (List.mem_append_right _ hy) hc

/-! ## The loss of a whole front end, asked for by its name -/

/-- A user's sessions are the other ones and those of `c`. -/
theorem held_others (c : Session) (k : Str) (es : List Entry) :
    held Entry.user es k = countOf c k es + held Entry.user (others c es) k :=
  countP_split (fun e : Entry => e.session == c) (fun e => decide (e.user = k)) es

theorem others_others (c : Session) (es : List Entry) : others c (others c es) = others c es := by
  rw [others, List.filter_eq_self]
  exact fun e he => (List.mem_filter.1 he).2

theorem sentinel_ne_nil : FE_DISCONNECT ≠ [] := by decide

section Sweep

variable {n f : Str} {us : List User} {counts : Counts}

/-- What the calls of a sweep have to say about the counters. -/
theorem dropEvent_sentinel_calls (hs : Seated us)
    (hentries : entries n (dropEvent (FE_DISCONNECT, f) (us, counts)).1 =
      others (FE_DISCONNECT, f) (entries n us)) :
    (∀ k, (dropEvent (FE_DISCONNECT, f) (us, counts)).2.get k ≤
        counts.get k - countOf (FE_DISCONNECT, f) k (entries n us)) ∧
      ((∃ d ∈ sessionsOf us, d.2 = f ∧ d ≠ (FE_DISCONNECT, f)) →
        ∃ k, (dropEvent (FE_DISCONNECT, f) (us, counts)).2.get k <
          counts.get k - countOf (FE_DISCONNECT, f) k (entries n us)) := by
  rw [dropEvent_sentinel, sweep_eq_dropAll] at hentries ⊢
  dsimp only at hentries ⊢
  rw [← sessionsOf] at hentries ⊢
  have hdrift : ∀ k, drift n (dropAll ((sessionsOf us).filter fun d => d.2 == f) (us, counts)) k =
      (dropAll ((sessionsOf us).filter fun d => d.2 == f) (us, counts)).2.get k -
        held Entry.user (entries n us) k + countOf (FE_DISCONNECT, f) k (entries n us) := by
    intro k
    have hsplit := held_others (FE_DISCONNECT, f) k (entries n us)
    rw [drift, hentries]
    omega
  obtain ⟨hle, hlt⟩ := @dropAll_calls n (FE_DISCONNECT, f)
    ((sessionsOf us).filter fun d => d.2 == f) (us, counts) sentinel_ne_nil hs
    (fun d hd => ⟨by simpa using (List.mem_filter.1 hd).2, fun _ => (List.mem_filter.1 hd).1⟩)
    (by rw [hentries, others_others])
  refine ⟨?_, ?_⟩
  · intro k
    have hk := hle k
    rw [hdrift, drift] at hk
    dsimp only at hk
    omega
  · rintro ⟨d, hd, hdf, hne⟩
    obtain ⟨k, hk⟩ := hlt ⟨d, List.mem_filter.2 ⟨hd, by simpa using hdf⟩, hne⟩
    rw [hdrift, drift] at hk
    dsimp only at hk
    exact ⟨k, by omega⟩

/-- **A DISCONNECT that carries the sentinel** closes exactly the sessions it names when
the front end has no others, and their owners can release them. -/
theorem dropEvent_sentinel_closes_iff (hs : Seated us) :
    Closes Entry.user (fun e => e.session == (FE_DISCONNECT, f)) (entries n us) counts.get
        (entries n (dropEvent (FE_DISCONNECT, f) (us, counts)).1)
        (dropEvent (FE_DISCONNECT, f) (us, counts)).2.get ↔
      (∀ d ∈ sessionsOf us, d.2 = f → d = (FE_DISCONNECT, f)) ∧
        ∀ x ∈ us, (FE_DISCONNECT, f) ∈ x.clientIdentifiers →
          Releasable (FE_DISCONNECT, f) x.clientIdentifiers := by
  constructor
  · intro h
    obtain ⟨hle, hlt⟩ := dropEvent_sentinel_calls hs h.entries
    have honly : ∀ d ∈ sessionsOf us, d.2 = f → d = (FE_DISCONNECT, f) := by
      intro d hd hdf
      by_contra hne
      obtain ⟨k, hk⟩ := hlt ⟨d, hd, hdf, hne⟩
      have hcounter := h.counter k
      change _ = _ - (countOf (FE_DISCONNECT, f) k _ : Int) at hcounter
      omega
    refine ⟨honly, ?_⟩
    have hentries := h.entries
    rw [dropEvent_sentinel, sweep_eq_dropAll] at hentries
    obtain ⟨m, hall⟩ : ∃ m, ((us.flatMap User.getActiveConnections).filter fun d => d.2 == f) =
        List.replicate m (FE_DISCONNECT, f) := by
      refine ⟨_, List.eq_replicate_of_mem fun d hd => ?_⟩
      exact honly d (List.mem_filter.1 hd).1 (by simpa using (List.mem_filter.1 hd).2)
    rw [hall] at hentries
    refine @releasable_of_dropAll_replicate n (FE_DISCONNECT, f) m (us, counts) sentinel_ne_nil hs
      ?_ ?_
    · rw [hentries]
      exact others_others _ _
    · refine @not_mem_of_others_entries n (FE_DISCONNECT, f) _ (entries n us) ?_
      intro e he
      rw [hentries] at he
      exact he
  · rintro ⟨honly, hrel⟩
    have hall : ((us.flatMap User.getActiveConnections).filter fun d => d.2 == f) =
        List.replicate ((sessionsOf us).count (FE_DISCONNECT, f)) (FE_DISCONNECT, f) := by
      rw [← List.filter_beq]
      refine List.filter_congr ?_
      intro d hd
      by_cases hdf : d.2 = f
      · simp [honly d hd hdf]
      · have hne : d ≠ (FE_DISCONNECT, f) := fun h => hdf (congrArg Prod.snd h)
        rw [beq_eq_false_iff_ne.2 hdf, beq_eq_false_iff_ne.2 hne]
    rw [dropEvent_sentinel, sweep_eq_dropAll, hall]
    exact dropAll_replicate_closes hs rfl hrel

end Sweep

end Replica

end InstantMessenger
