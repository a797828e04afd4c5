import InstantMessenger.Server.ExactDisconnect

/-!
# Clean-up after the loss of a front end

The loss of the front end `f` is a disconnect event with the sentinel: in every group one
call of `disconnectSession` for each session of `f`, in the order of a snapshot.  A
call looks for the pair, and goes to the first user that has it; `releaseSession`
erases by another condition.  So a call may close two sessions, or a session of
another front end, or none.

* `Replica.Clearable` — the users of a group whose sessions of `f` can all be released.
* `Replica.clearable_cases` — how a user can fail to be one.
* `Replica.clearable_of_dropAll` — **a sweep that is right in the end was right at every
  call**, if each call found a user.
* `Replica.dropEverywhere_clears_iff` — all groups at once: what all counters have lost
  together tells that every call found a user.
* `Server.frontEndLoss_exact_iff` — after every run, the loss of a front end closes
  exactly its sessions if and only if every group is clearable.
* `Server.frontEndLoss_counterexample` — one client id on two front ends.
-/

namespace InstantMessenger

namespace Replica

open Ledger User

/-- Every session of the front end can be released by its owner. -/
def Clearable (f : Str) (us : List User) : Prop :=
  ∀ x ∈ us, ∀ c ∈ x.clientIdentifiers, c.2 = f → Releasable c x.clientIdentifiers

instance (f : Str) (us : List User) : Decidable (Clearable f us) :=
  inferInstanceAs (Decidable (∀ x ∈ us, ∀ c ∈ x.clientIdentifiers, c.2 = f →
    Releasable c x.clientIdentifiers))

/-- The sessions of the front end. -/
def ofFrontEnd (f : Str) (d : Session) : Bool := d.2 == f

/-- The calls of the sweep, for the users of one group. -/
def calls (f : Str) (us : List User) : List Session := (sessionsOf us).filter (ofFrontEnd f)

theorem dropEvent_eq_dropAll (f : Str) (us : List User) (counts : Counts) :
    dropEvent (FE_DISCONNECT, f) (us, counts) = dropAll (calls f us) (us, counts) := by
  rw [dropEvent_sentinel, sweep_eq_dropAll]
  rfl

theorem calls_append (f : Str) (us vs : List User) :
    calls f (us ++ vs) = calls f us ++ calls f vs := by
  rw [calls, sessionsOf_append, List.filter_append]
  rfl

theorem calls_cons (f : Str) (x : User) (us : List User) :
    calls f (x :: us) = x.clientIdentifiers.filter (ofFrontEnd f) ++ calls f us :=
  List.filter_append ..

theorem mem_calls {f : Str} {us : List User} {d : Session} :
    d ∈ calls f us ↔ d ∈ sessionsOf us ∧ d.2 = f := by
  rw [calls, List.mem_filter, ofFrontEnd, beq_iff_eq]

/-! ## Calls that find a user -/

/-- Every call finds a user with the session. -/
def AllFound : List Session → List User × Counts → Prop
  | [], _ => True
  | d :: ds, s => d ∈ sessionsOf s.1 ∧ AllFound ds (dropSession d s)

theorem dropAll_append (ds es : List Session) (s : List User × Counts) :
    dropAll (ds ++ es) s = dropAll es (dropAll ds s) := List.foldl_append

theorem AllFound.of_append {ds es : List Session} {s : List User × Counts}
    (h : AllFound (ds ++ es) s) : AllFound es (dropAll ds s) := by
  induction ds generalizing s with
  | nil => exact h
  | cons d ds ih => exact ih h.2

/-- A call that finds a user takes one off that user's counter, no other call takes
anything. -/
theorem lowered_dropSession (K : Finset Str) (d : Session) (s : List User × Counts) :
    lowered K s.2.get (dropSession d s).2.get ≤ if d ∈ sessionsOf s.1 then 1 else 0 := by
  obtain ⟨us, counts⟩ := s
  obtain hnone | ⟨pre, x, post, rfl, hpre, hx⟩ := owner_cases d us
  · rw [dropSession_of_not_mem counts hnone, lowered_self]
    split <;> decide
  · have hmem : d ∈ sessionsOf (pre ++ x :: post) := List.mem_flatMap.2 ⟨x, by simp, hx⟩
    have hone : ∀ j, (dropSession d (pre ++ x :: post, counts)).2.get j =
        counts.get j - if x.username = j then 1 else 0 := by
      intro j
      rw [dropSession_append counts hpre hx, Counts.get_set]
      by_cases hj : j = x.username
      · rw [if_pos hj, if_pos hj.symm, hj]
      · rw [if_neg hj, if_neg (Ne.symm hj)]
        omega
    rw [lowered_one K hone, if_pos hmem]
    split <;> decide

theorem lowered_dropAll_le (K : Finset Str) (ds : List Session) (s : List User × Counts) :
    lowered K s.2.get (dropAll ds s).2.get ≤ ds.length := by
  induction ds generalizing s with
  | nil => exact (lowered_self K _).le
  | cons d ds ih =>
    have hfirst := lowered_dropSession K d s
    have hrest := ih (dropSession d s)
    rw [dropAll_cons, lowered_trans K _ (dropSession d s).2.get, List.length_cons]
    split at hfirst <;> omega

/-- When the counters have lost one for every call, every call has found a user. -/
theorem allFound_of_lowered {K : Finset Str} {ds : List Session} {s : List User × Counts}
    (h : (ds.length : Int) ≤ lowered K s.2.get (dropAll ds s).2.get) : AllFound ds s := by
  induction ds generalizing s with
  | nil => trivial
  | cons d ds ih =>
    have hfirst := lowered_dropSession K d s
    have hrest := lowered_dropAll_le K ds (dropSession d s)
    rw [dropAll_cons, lowered_trans K _ (dropSession d s).2.get, List.length_cons] at h
    split at hfirst
    · rename_i hopen
      exact ⟨hopen, ih (by omega)⟩
    · omega

/-! ## What calls leave of the sessions -/

theorem sessionsOf_eq_map (n : Str) (us : List User) :
    sessionsOf us = (entries n us).map Entry.session := by
  induction us with
  | nil => rfl
  | cons x us ih =>
    rw [entries_cons, List.map_append, ← ih, List.map_map]
    have hsame : Entry.session ∘ Entry.mk n x.username = id := rfl
    rw [hsame, List.map_id]
    rfl

theorem sessionsOf_dropAll_sublist (ds : List Session) (s : List User × Counts) :
    (sessionsOf (dropAll ds s).1).Sublist (sessionsOf s.1) := by
  rw [sessionsOf_eq_map [], sessionsOf_eq_map []]
  exact (entries_dropAll_sublist [] ds s).map _

theorem sessionsOf_released {d : Session} {pre post : List User} {x : User} (counts : Counts)
    (hpre : ∀ y ∈ pre, d ∉ y.clientIdentifiers) (hx : d ∈ x.clientIdentifiers) :
    sessionsOf (dropSession d (pre ++ x :: post, counts)).1 =
      sessionsOf pre ++ released d x.clientIdentifiers ++ sessionsOf post := by
  rw [dropSession_append counts hpre hx, sessionsOf_append, sessionsOf_append, sessionsOf_kept]
  rfl

/-- A part that has fewer elements of a kind has fewer of every wider kind. -/
theorem countP_lt_of_sublist {α : Type*} {p q : α → Bool} {l l' : List α} (hsub : l.Sublist l')
    (hpq : ∀ a, p a = true → q a = true) (h : l.countP p < l'.countP p) :
    l.countP q < l'.countP q := by
  by_contra hle
  have hfilter : l.filter q = l'.filter q := by
    refine (hsub.filter q).eq_of_length_le ?_
    rw [← List.countP_eq_length_filter, ← List.countP_eq_length_filter]
    omega
  have hsame : ∀ m : List α, m.countP p = (m.filter q).countP p := by
    intro m
    rw [List.countP_filter]
    refine List.countP_congr ?_
    intro a _
    rw [Bool.and_eq_true]
    exact ⟨fun ha => ⟨ha, hpq a ha⟩, fun ha => ha.1⟩
  rw [hsame l, hsame l', hfilter] at h
  exact absurd h (lt_irrefl _)

/-- The sessions whose client id is not the address of the front end. -/
def named (f : Str) (d : Session) : Bool := d.1 != f

/-- Every call for a session with a client id of its own closes at least one such. -/
theorem countP_named_dropAll {f : Str} {ds : List Session} {s : List User × Counts}
    (hs : Seated s.1) (hf : ∀ d ∈ ds, d.2 = f) (hfound : AllFound ds s) :
    ds.countP (named f) + (sessionsOf (dropAll ds s).1).countP (named f) ≤
      (sessionsOf s.1).countP (named f) := by
  induction ds generalizing s with
  | nil => simp
  | cons d ds ih =>
    obtain ⟨hopen, hrest⟩ := hfound
    have htail := @ih (dropSession d s) (seated_dropSession hs)
      (fun e he => hf e (List.mem_cons_of_mem _ he)) hrest
    have hle : (sessionsOf (dropSession d s).1).countP (named f) ≤
        (sessionsOf s.1).countP (named f) := (sessionsOf_dropAll_sublist [d] s).countP_le
    rw [dropAll_cons, List.countP_cons]
    by_cases hd : named f d = true
    · have hless : (sessionsOf (dropSession d s).1).countP (named f) <
          (sessionsOf s.1).countP (named f) := by
        refine @countP_lt_of_sublist Session (fun e => e.1 == d.1) _ _ _
          (sessionsOf_dropAll_sublist [d] s) ?_ ?_
        · intro e he
          rw [named, eq_of_beq he]
          exact hd
        · obtain ⟨us, counts⟩ := s
          obtain hnone | ⟨pre, x, post, rfl, hpre, hx⟩ := owner_cases d us
          · obtain ⟨x, hx, hdx⟩ := List.mem_flatMap.1 hopen
            exact absurd hdx (hnone x hx)
          have hne : d.1 ≠ d.2 := by
            rw [hf d (List.mem_cons_self ..)]
            simpa [named] using hd
          have hlost := countP_released_lt (hs x (by simp)).2 hx hne
          rw [sessionsOf_released counts hpre hx, sessionsOf_middle, List.countP_append,
            List.countP_append, List.countP_append, List.countP_append]
          omega
      rw [if_pos hd]
      omega
    · rw [if_neg hd]
      omega

/-! ## A session nobody can release -/

/-- The address of the front end is a client id, and no empty client id stands before it. -/
def Stuck (f : Str) (cs : List Session) : Prop :=
  (f, f) ∈ cs ∧ (cs = [([], f), (f, f)] → f = [])

theorem Stuck.released {f : Str} {cs : List Session} {d : Session} (h : Stuck f cs)
    (hlen : cs.length ≤ 2) (hd : d ∈ cs) (hf : d.2 = f) : Stuck f (released d cs) := by
  by_cases haddr : d.1 = d.2
  · rwa [released_of_address haddr]
  have hdf : d ≠ (f, f) := by
    rintro rfl
    exact haddr rfl
  have hdid : f ≠ d.1 := fun he => haddr (by rw [← he, hf])
  have halone : Stuck f [(f, f)] := ⟨List.mem_singleton_self _, fun he => by simp at he⟩
  obtain rfl | ⟨b, rfl⟩ | ⟨a, ha, rfl⟩ := places hlen hd
  · exact absurd (List.mem_singleton.1 h.1).symm hdf
  · have hb : b = (f, f) := by simpa [Ne.symm hdf, @eq_comm _ (f, f)] using h.1
    have hpos : d.1 ≠ [] := by
      intro hempty
      have hfnil := h.2 (by rw [hb, ← hempty, ← hf])
      exact hdid (by rw [hempty, hfnil])
    rw [released_first haddr, if_neg hpos, hb]
    exact halone
  · have ha' : a = (f, f) := by simpa [Ne.symm hdf, @eq_comm _ (f, f)] using h.1
    rw [released_second haddr, ha', if_neg hdid]
    exact halone

theorem stuck_dropAll {f : Str} {ds : List Session} {s : List User × Counts} (hs : Seated s.1)
    (hf : ∀ d ∈ ds, d.2 = f) (h : ∃ x ∈ s.1, Stuck f x.clientIdentifiers) :
    ∃ x ∈ (dropAll ds s).1, Stuck f x.clientIdentifiers := by
  induction ds generalizing s with
  | nil => exact h
  | cons d ds ih =>
    refine @ih (dropSession d s) (seated_dropSession hs)
      (fun e he => hf e (List.mem_cons_of_mem _ he)) ?_
    obtain ⟨us, counts⟩ := s
    obtain ⟨y, hy, hstuck⟩ := h
    obtain hnone | ⟨pre, x, post, rfl, hpre, hx⟩ := owner_cases d us
    · rw [dropSession_of_not_mem counts hnone]
      exact ⟨y, hy, hstuck⟩
    rw [dropSession_append counts hpre hx]
    rcases List.mem_append.1 hy with hy | hy
    · exact ⟨y, by simp [hy], hstuck⟩
    rcases List.mem_cons.1 hy with rfl | hy
    · have hleft := hstuck.released (hs y (by simp)).2 hx (hf d (List.mem_cons_self ..))
      refine ⟨y.releaseSession d.1 d.2, ?_, hleft⟩
      have hkept : kept (y.releaseSession d.1 d.2) = [y.releaseSession d.1 d.2] := by
        refine if_neg ?_
        have hpos := List.length_pos_of_mem hleft.1
        exact Nat.not_lt.2 hpos
      simp [hkept]
    · exact ⟨y, by simp [hy], hstuck⟩

/-! ## How a user can fail -/

/-- The first call for a user closes a session of another front end, or two sessions with
client ids of their own. -/
def Overreaches (f : Str) (d : Session) (cs : List Session) : Prop :=
  (released d cs).countP (fun e => !ofFrontEnd f e) < cs.countP (fun e => !ofFrontEnd f e) ∨
    (released d cs).countP (named f) + 2 ≤ cs.countP (named f)

/-- **How a user can fail to be cleared.**  The address of the front end is one of its
client ids, or its first call goes too far. -/
theorem clearable_cases {f : Str} {cs : List Session} (hlen : cs.length ≤ 2) :
    (∀ c ∈ cs, c.2 = f → Releasable c cs) ∨ Stuck f cs ∨ (f ≠ [] ∧ cs = [([], f), (f, f)]) ∨
      ∃ d ds, cs.filter (ofFrontEnd f) = d :: ds ∧ Overreaches f d cs := by
  by_cases haddr : (f, f) ∈ cs
  · by_cases hpair : cs = [([], f), (f, f)]
    · by_cases hnil : f = []
      · exact .inr (.inl ⟨haddr, fun _ => hnil⟩)
      · exact .inr (.inr (.inl ⟨hnil, hpair⟩))
    · exact .inr (.inl ⟨haddr, fun h => absurd h hpair⟩)
  by_cases hall : ∀ c ∈ cs, c.2 = f → Releasable c cs
  · exact .inl hall
  refine .inr (.inr (.inr ?_))
  push Not at hall
  obtain ⟨c, hc, hcf, hbad⟩ := hall
  have hne : c.1 ≠ c.2 := by
    intro h
    have hcff : c = (f, f) := Prod.ext (h.trans hcf) hcf
    exact haddr (hcff ▸ hc)
  have hin : ofFrontEnd f c = true := by simpa [ofFrontEnd] using hcf
  have hnamed : named f c = true := by simpa [named, ← hcf] using hne
  obtain rfl | ⟨b, rfl⟩ | ⟨a, ha, rfl⟩ := places hlen hc
  · exact absurd (releasable_alone hne) hbad
  · -- an empty client id in front: both sessions go
    rw [releasable_first_iff hne, not_not] at hbad
    refine ⟨c, [b].filter (ofFrontEnd f), by rw [List.filter_cons_of_pos hin], ?_⟩
    rw [Overreaches, released_first hne, if_pos hbad]
    by_cases hb : ofFrontEnd f b = true
    · have hbn : named f b = true := by
        have hbf : b.2 = f := by simpa [ofFrontEnd] using hb
        have hbne : b ≠ (f, f) := fun h => haddr (by simp [h])
        have hbid : b.1 ≠ f := fun h => hbne (Prod.ext h hbf)
        simpa [named] using hbid
      exact .inr (by simp [hnamed, hbn])
    · exact .inl (by simp [hin, hb])
  · -- an equal client id in front, on another front end: it goes instead
    have hsame : a.1 = c.1 := by
      by_contra h
      exact hbad ((releasable_second_iff hne ha).2 h)
    have haf : ofFrontEnd f a = false := by
      have ha2 : a.2 ≠ f := fun h => ha (Prod.ext hsame (h.trans hcf.symm))
      simpa [ofFrontEnd] using ha2
    refine ⟨c, [], by simp [haf, hin], .inl ?_⟩
    rw [released_second hne, if_pos hsame]
    by_cases hempty : c.1 = [] <;> simp [hempty, hin, haf]

/-! ## A sweep that is right in the end -/

theorem sessionsOf_without (p : Session → Bool) (us : List User) :
    sessionsOf (us.filterMap (without p)) = (sessionsOf us).filter fun d => !p d := by
  rw [sessionsOf_eq_map [], entries_without, sessionsOf_eq_map [], List.filter_map]
  rfl

section Exact

variable {f : Str} {d : Session} {x : User} {pre us : List User} {counts : Counts}

/-- The users have no session of the front end. -/
def Clean (f : Str) (us : List User) : Prop := ∀ y ∈ us, ∀ d ∈ y.clientIdentifiers, d.2 ≠ f

theorem Clean.calls_eq_nil (h : Clean f pre) : calls f pre = [] := by
  refine List.filter_eq_nil_iff.2 ?_
  intro d hd
  obtain ⟨y, hy, hdy⟩ := List.mem_flatMap.1 hd
  simpa [ofFrontEnd] using h y hy d hdy

theorem Clean.not_mem (h : Clean f pre) (hd : d.2 = f) : ∀ y ∈ pre, d ∉ y.clientIdentifiers :=
  fun y hy hdy => h y hy d hdy hd

/-- The first call of a sweep that is right in the end does not go too far. -/
theorem not_overreaches {ds : List Session} (hs : Seated (pre ++ x :: us)) (hpre : Clean f pre)
    (hcalls : calls f (x :: us) = d :: ds) (hx : d ∈ x.clientIdentifiers)
    (hfound : AllFound (d :: ds) (pre ++ x :: us, counts))
    (hexact : sessionsOf (dropAll (d :: ds) (pre ++ x :: us, counts)).1 =
      (sessionsOf (pre ++ x :: us)).filter fun e => !ofFrontEnd f e) :
    ¬Overreaches f d x.clientIdentifiers := by
  have hcall : ∀ e ∈ d :: ds, e.2 = f := fun e he => (mem_calls.1 (hcalls ▸ he)).2
  have hfirst := @sessionsOf_released d pre us x counts
    (hpre.not_mem (hcall d (List.mem_cons_self ..))) hx
  have hsub := sessionsOf_dropAll_sublist ds (dropSession d (pre ++ x :: us, counts))
  have hafter := @countP_named_dropAll f ds (dropSession d (pre ++ x :: us, counts))
    (seated_dropSession hs) (fun e he => hcall e (List.mem_cons_of_mem _ he)) hfound.2
  rw [dropAll_cons] at hexact
  rw [hexact, hfirst] at hsub hafter
  rintro (hlost | hlost)
  · -- a session of another front end is gone
    have hle := hsub.countP_le (p := fun e => !ofFrontEnd f e)
    rw [List.countP_filter, sessionsOf_middle] at hle
    simp only [Bool.and_self, List.countP_append] at hle
    omega
  · -- two sessions with client ids of their own are gone, for one call
    have hsplit := countP_split (ofFrontEnd f) (named f) (sessionsOf (pre ++ x :: us))
    have hnamed : (sessionsOf (pre ++ x :: us)).countP (fun e => ofFrontEnd f e && named f e) =
        (d :: ds).countP (named f) := by
      rw [← hcalls, ← List.nil_append (calls f (x :: us)), ← hpre.calls_eq_nil, ← calls_append,
        calls, List.countP_filter]
      exact List.countP_congr fun e _ => by rw [Bool.and_comm]
    have hone : (d :: ds).countP (named f) ≤ ds.countP (named f) + 1 := by
      rw [List.countP_cons]
      split <;> omega
    rw [hnamed, sessionsOf_middle] at hsplit
    rw [sessionsOf_middle] at hafter
    simp only [List.countP_append] at hsplit hafter
    omega

/-- The calls for the sessions of a user that can release them, behind users that are
not reached. -/
theorem dropAll_own (hs : Seated (pre ++ x :: us)) (hpre : Clean f pre)
    (hclear : ∀ c ∈ x.clientIdentifiers, c.2 = f → Releasable c x.clientIdentifiers) :
    (dropAll (x.clientIdentifiers.filter (ofFrontEnd f)) (pre ++ x :: us, counts)).1 =
      (pre ++ [x]).filterMap (without (ofFrontEnd f)) ++ us := by
  have hseated : Seated (pre ++ [x]) := by
    intro y hy
    refine hs y ?_
    rcases List.mem_append.1 hy with hy | hy
    · exact List.mem_append_left _ hy
    · rw [List.mem_singleton.1 hy]
      simp
  have hds : (x.clientIdentifiers.filter (ofFrontEnd f)).Perm
      ((sessionsOf (pre ++ [x])).filter (ofFrontEnd f)) := by
    rw [← calls, calls_append, hpre.calls_eq_nil, calls_cons]
    exact .of_eq (List.append_nil _).symm
  have hclosed := @dropAll_closes [] (ofFrontEnd f) _ (pre ++ [x]) us counts hseated hds (by
    intro y hy c hc hcf
    have hcf' : c.2 = f := by simpa [ofFrontEnd] using hcf
    rcases List.mem_append.1 hy with hy | hy
    · exact absurd hcf' (hpre y hy c hc)
    · rw [List.mem_singleton.1 hy] at hc ⊢
      exact hclear c hc hcf')
  rw [← hclosed.1, List.append_assoc, List.singleton_append]

/-- An empty client id in front of the address: one call, and the user is gone. -/
theorem dropSession_pair (hpre : Clean f pre) (hpos : f ≠ [])
    (hpair : x.clientIdentifiers = [([], f), (f, f)]) :
    dropSession ([], f) (pre ++ x :: us, counts) =
      (pre ++ us, counts.set x.username (counts.get x.username - 1)) := by
  have hx : (([], f) : Session) ∈ x.clientIdentifiers := by simp [hpair]
  have hnil : (x.releaseSession [] f).clientIdentifiers = [] := by
    show released ([], f) x.clientIdentifiers = []
    rw [hpair, released_first (Ne.symm hpos), if_pos rfl]
  have hgone : kept (x.releaseSession [] f) = [] := by
    rw [kept, hnil]
    rfl
  rw [dropSession_append counts (hpre.not_mem rfl) hx, hgone, List.append_nil]

/-- **A sweep that is right in the end was right at every call.**  The users in front have
no session of the front end; every call has found a user; and in the end exactly the
sessions of the front end are gone.  Then all users are clearable. -/
theorem clearable_of_dropAll (hs : Seated (pre ++ us)) (hpre : Clean f pre)
    (hfound : AllFound (calls f us) (pre ++ us, counts))
    (hexact : sessionsOf (dropAll (calls f us) (pre ++ us, counts)).1 =
      (sessionsOf (pre ++ us)).filter fun d => !ofFrontEnd f d) : Clearable f us := by
  induction us generalizing pre counts with
  | nil => exact fun x hx => absurd hx List.not_mem_nil
  | cons x us ih =>
    rcases clearable_cases (f := f) (hs x (by simp)).2 with hclear | hstuck | ⟨hpos, hpair⟩ |
      ⟨d, ds, hfirst, hover⟩
    · -- the calls for this user close its sessions, and the others follow
      rw [calls_cons] at hfound hexact
      set before := (pre ++ [x]).filterMap (without (ofFrontEnd f)) with hbefore
      set own := x.clientIdentifiers.filter (ofFrontEnd f)
      have hstate : dropAll own (pre ++ x :: us, counts) =
          (before ++ us, (dropAll own (pre ++ x :: us, counts)).2) :=
        Prod.ext (dropAll_own hs hpre hclear) rfl
      have hseated := @seated_dropAll own (pre ++ x :: us, counts) hs
      have hleft := hfound.of_append
      rw [dropAll_append] at hexact
      rw [hstate] at hseated hleft hexact
      have hclean : Clean f before := by
        intro y hy d hd
        have hmem : d ∈ sessionsOf before := List.mem_flatMap.2 ⟨y, hy, hd⟩
        rw [hbefore, sessionsOf_without, List.mem_filter] at hmem
        simpa [ofFrontEnd] using hmem.2
      have hrest := ih hseated hclean hleft (by
        rw [hexact, ← List.singleton_append, ← List.append_assoc, sessionsOf_append,
          List.filter_append, sessionsOf_append before us, hbefore, sessionsOf_without,
          List.filter_append, List.filter_filter]
        simp only [Bool.and_self])
      exact List.forall_mem_cons.2 ⟨hclear, hrest⟩
    · obtain ⟨y, hy, hleft⟩ := @stuck_dropAll f _ (pre ++ x :: us, counts) hs
        (fun d hd => (mem_calls.1 hd).2) ⟨x, by simp, hstuck⟩
      have hmem : (f, f) ∈ sessionsOf (dropAll (calls f (x :: us)) (pre ++ x :: us, counts)).1 :=
        List.mem_flatMap.2 ⟨y, hy, hleft.1⟩
      rw [hexact, List.mem_filter] at hmem
      simp [ofFrontEnd] at hmem
    · -- the first call closes both sessions, and the second one needs somebody else
      have hcalls : calls f (x :: us) = ([], f) :: (f, f) :: calls f us := by
        rw [calls_cons, hpair]
        simp [ofFrontEnd]
      rw [hcalls] at hfound hexact
      obtain ⟨-, hsecond, hrest⟩ := hfound
      rw [dropAll_cons, dropAll_cons] at hexact
      rw [dropSession_pair hpre hpos hpair] at hsecond hrest hexact
      have hseated : Seated (pre ++ us) := by
        intro y hy
        refine hs y ?_
        rcases List.mem_append.1 hy with hy | hy <;> simp [hy]
      set less := counts.set x.username (counts.get x.username - 1)
      have hstate : dropSession (f, f) (pre ++ us, less) =
          (pre ++ us, (dropSession (f, f) (pre ++ us, less)).2) :=
        Prod.ext (dropSession_of_address less hseated rfl) rfl
      rw [hstate] at hrest hexact
      have hclear := ih hseated hpre hrest (by
        rw [hexact, sessionsOf_middle, hpair, sessionsOf_append, List.filter_append,
          List.filter_append, List.filter_append]
        simp [ofFrontEnd])
      obtain ⟨y, hy, hyf⟩ := List.mem_flatMap.1 hsecond
      rcases List.mem_append.1 hy with hy | hy
      · exact absurd rfl (hpre y hy (f, f) hyf)
      · exact absurd rfl (hclear y hy (f, f) hyf rfl).notAddress
    · have hcalls : calls f (x :: us) = d :: (ds ++ calls f us) := by
        rw [calls_cons, hfirst, List.cons_append]
      have hd : d ∈ x.clientIdentifiers.filter (ofFrontEnd f) := by
        rw [hfirst]
        exact List.mem_cons_self ..
      have hx := (List.mem_filter.1 hd).1
      rw [hcalls] at hfound hexact
      exact absurd hover (not_overreaches hs hpre hcalls hx hfound hexact)

end Exact

/-! ## All groups -/

/-- The users of each group for itself. -/
def usersByGroup (gs : List GroupReplica) : List (List User) := gs.map GroupReplica.users

theorem length_calls (n f : Str) (us : List User) :
    (calls f us).length = (entries n us).countP fun e => ofFrontEnd f e.session := by
  rw [calls, sessionsOf_eq_map n, ← List.countP_eq_length_filter, List.countP_map]
  rfl

theorem lowered_dropEverywhere_le (K : Finset Str) (f : Str) (gs : List GroupReplica)
    (counts : Counts) :
    lowered K counts.get (dropEverywhere (FE_DISCONNECT, f) gs counts).2.get ≤
      (ledger gs).countP fun e => ofFrontEnd f e.session := by
  induction gs generalizing counts with
  | nil => exact (lowered_self K _).le
  | cons g gs ih =>
    have hfirst := lowered_dropAll_le K (calls f g.users) (g.users, counts)
    have hrest := ih (dropEvent (FE_DISCONNECT, f) (g.users, counts)).2
    rw [length_calls g.groupName] at hfirst
    rw [dropEvent_eq_dropAll] at hrest
    rw [dropEverywhere, dropEvent_eq_dropAll, ledger_cons, List.countP_append]
    dsimp only at hfirst ⊢
    rw [lowered_trans K _ (dropAll (calls f g.users) (g.users, counts)).2.get]
    omega

/-- When the users of every group are right, and the counters have lost one for every
session of the front end, every group is clearable. -/
theorem clearable_of_dropEverywhere {K : Finset Str} {f : Str} {gs : List GroupReplica}
    {counts : Counts} (hs : AllSeated gs)
    (husers : usersByGroup (dropEverywhere (FE_DISCONNECT, f) gs counts).1 =
      (usersByGroup gs).map (List.filterMap (without (ofFrontEnd f))))
    (hcounter : ((ledger gs).countP fun e => ofFrontEnd f e.session : Int) ≤
      lowered K counts.get (dropEverywhere (FE_DISCONNECT, f) gs counts).2.get) :
    ∀ g ∈ gs, Clearable f g.users := by
  induction gs generalizing counts with
  | nil => exact fun g hg => absurd hg List.not_mem_nil
  | cons g gs ih =>
    rw [dropEverywhere, dropEvent_eq_dropAll] at husers hcounter
    simp only [usersByGroup, List.map_cons, List.cons.injEq] at husers
    rw [ledger_cons, List.countP_append,
      lowered_trans K _ (dropAll (calls f g.users) (g.users, counts)).2.get] at hcounter
    -- no part of the counters has lost more than its calls, so none has lost less
    have hfirst := lowered_dropAll_le K (calls f g.users) (g.users, counts)
    have hrest := lowered_dropEverywhere_le K f gs (dropAll (calls f g.users) (g.users, counts)).2
    have hlength := length_calls g.groupName f g.users
    dsimp only at hfirst hcounter
    have hg : Seated g.users := hs g (List.mem_cons_self ..)
    have hfound : AllFound (calls f g.users) (g.users, counts) := by
      refine @allFound_of_lowered K _ (g.users, counts) ?_
      dsimp only
      omega
    have hexact : sessionsOf (dropAll (calls f g.users) ([] ++ g.users, counts)).1 =
        (sessionsOf ([] ++ g.users)).filter fun d => !ofFrontEnd f d := by
      rw [List.nil_append, husers.1, sessionsOf_without]
    refine List.forall_mem_cons.2 ⟨?_, ?_⟩
    · exact @clearable_of_dropAll f [] g.users counts hg (fun y hy => absurd hy List.not_mem_nil)
        hfound hexact
    · refine ih (fun x hx => hs x (List.mem_cons_of_mem _ hx)) husers.2 ?_
      omega

/-- Every group is clearable: the calls do what they are for. -/
theorem dropEverywhere_clears {f : Str} {gs : List GroupReplica} {counts : Counts}
    (hs : AllSeated gs) (hclear : ∀ g ∈ gs, Clearable f g.users) :
    usersByGroup (dropEverywhere (FE_DISCONNECT, f) gs counts).1 =
        (usersByGroup gs).map (List.filterMap (without (ofFrontEnd f))) ∧
      ∀ k, (dropEverywhere (FE_DISCONNECT, f) gs counts).2.get k =
        counts.get k - countKind (ofFrontEnd f) k (ledger gs) := by
  induction gs generalizing counts with
  | nil => exact ⟨rfl, fun k => by simp [dropEverywhere, ledger, countKind]⟩
  | cons g gs ih =>
    obtain ⟨hg, hgs⟩ := List.forall_mem_cons.1 hclear
    obtain ⟨husers, hcounter⟩ := @dropAll_closes g.groupName (ofFrontEnd f) (calls f g.users)
      g.users [] counts (hs g (List.mem_cons_self ..)) (List.Perm.refl _)
      (fun x hx c hc hcf => hg x hx c hc (by simpa [ofFrontEnd] using hcf))
    rw [List.append_nil, List.append_nil] at husers
    rw [List.append_nil] at hcounter
    obtain ⟨hrest, hlast⟩ := @ih (dropAll (calls f g.users) (g.users, counts)).2
      (fun x hx => hs x (List.mem_cons_of_mem _ hx)) hgs
    rw [dropEverywhere, dropEvent_eq_dropAll]
    refine ⟨?_, ?_⟩
    · simp only [usersByGroup, List.map_cons, List.cons.injEq]
      exact ⟨husers, hrest⟩
    · intro k
      have hsplit : countKind (ofFrontEnd f) k (ledger (g :: gs)) =
          countKind (ofFrontEnd f) k (entries g.groupName g.users) +
            countKind (ofFrontEnd f) k (ledger gs) := List.countP_append
      dsimp only
      rw [hlast k, hcounter k, hsplit]
      omega

/-- **All groups**: the users and the counters are right together exactly when every
group is clearable. -/
theorem dropEverywhere_clears_iff {f : Str} {gs : List GroupReplica} {counts : Counts}
    (hs : AllSeated gs) :
    (usersByGroup (dropEverywhere (FE_DISCONNECT, f) gs counts).1 =
          (usersByGroup gs).map (List.filterMap (without (ofFrontEnd f))) ∧
        ∀ k, (dropEverywhere (FE_DISCONNECT, f) gs counts).2.get k =
          counts.get k - countKind (ofFrontEnd f) k (ledger gs)) ↔
      ∀ g ∈ gs, Clearable f g.users := by
  constructor
  · rintro ⟨husers, hcounter⟩
    have hlowered := @lowered_eq_countP Entry Str _ Entry.user (ledger gs) counts.get
      (dropEverywhere (FE_DISCONNECT, f) gs counts).2.get (fun e => ofFrontEnd f e.session)
      ((ledger gs).map Entry.user).toFinset
      (fun e he => List.mem_toFinset.2 (List.mem_map_of_mem he)) hcounter
    exact clearable_of_dropEverywhere hs husers hlowered.ge
  · exact dropEverywhere_clears hs

end Replica

namespace Server

open Ledger

/-! ## The result -/

/-- What the loss of the front end `f` is for. -/
structure CleansUp (f : Str) (s t : Server) : Prop where
  /-- Every group keeps the sessions of other front ends, in place and in order, and the
  users that still have one. -/
  groups : t.groupMap.map (fun g => (g.groupName, g.users)) =
    s.groupMap.map fun g =>
      (g.groupName, g.users.filterMap (Replica.without (Replica.ofFrontEnd f)))
  /-- Every counter is lowered by the number of sessions its user has lost. -/
  counter : ∀ user, t.connectionsCount.get user = s.connectionsCount.get user -
    s.openSessions.countP fun e => Replica.ofFrontEnd f e.session && decide (e.user = user)

/-- **Clean-up after a front end.**  After every run, the loss of the front end `f` closes
exactly its sessions, and counts them, if and only if each of them can be released by its
owner: its client id is not `f`, no session before it has the same client id, and behind
an empty client id nothing follows. -/
theorem frontEndLoss_exact_iff {isPrimary : Bool} {feAddresses : List Str} {ms : List Moment}
    {time : Int} {f : Str} :
    CleansUp f ((Server.new isPrimary feAddresses).run ms)
        (((Server.new isPrimary feAddresses).run ms).closeClientConnection time
          (FE_DISCONNECT, f)) ↔
      ∀ g ∈ ((Server.new isPrimary feAddresses).run ms).groupMap, Replica.Clearable f g.users := by
  have hstart : Replica.AllSeated (Server.new isPrimary feAddresses).replica.groups :=
    fun g hg => absurd hg List.not_mem_nil
  have hseated := allSeated_run ms hstart
  set s := (Server.new isPrimary feAddresses).run ms with hs
  have hiff := @Replica.dropEverywhere_clears_iff f s.replica.groups s.connectionsCount hseated
  have hcond : (∀ g ∈ s.replica.groups, Replica.Clearable f g.users) ↔
      ∀ g ∈ s.groupMap, Replica.Clearable f g.users := by
    rw [replica, List.forall_mem_map]
    rfl
  have husers : (s.closeClientConnection time (FE_DISCONNECT, f)).groupMap.map Group.users =
      Replica.usersByGroup (Replica.dropEverywhere (FE_DISCONNECT, f) s.replica.groups
        s.connectionsCount).1 := by
    rw [← closeClientConnection_groups s time, Replica.usersByGroup, List.map_map]
    rfl
  have hleft : s.groupMap.map
      (fun g => g.users.filterMap (Replica.without (Replica.ofFrontEnd f))) =
        (Replica.usersByGroup s.replica.groups).map
          (List.filterMap (Replica.without (Replica.ofFrontEnd f))) := by
    rw [Replica.usersByGroup, replica, List.map_map, List.map_map]
    rfl
  rw [← hcond, ← hiff, ← closeClientConnection_counts s time, ← husers, ← hleft,
    ← map_named_iff (closeClientConnection_names s time (FE_DISCONNECT, f))]
  constructor
  · intro h
    refine ⟨h.groups, ?_⟩
    intro k
    have hk := h.counter k
    rwa [openSessions_eq_ledger] at hk
  · rintro ⟨hsame, hcounter⟩
    refine ⟨hsame, ?_⟩
    intro k
    rw [openSessions_eq_ledger]
    exact hcounter k

/-- The session of the other front end is closed in the place of the one that is lost. -/
theorem frontEndLoss_counterexample :
    ¬CleansUp "f2".toList ((Server.new true ["f1".toList, "f2".toList]).run twoDevices)
      (((Server.new true ["f1".toList, "f2".toList]).run twoDevices).closeClientConnection 0
        (FE_DISCONNECT, "f2".toList)) := by
  intro h
  exact absurd h.groups (by decide)

/-- The loss of the first front end is cleaned up. -/
example : ∀ g ∈ ((Server.new true ["f1".toList, "f2".toList]).run twoDevices).groupMap,
    Replica.Clearable "f1".toList g.users := by
  decide

end Server

end InstantMessenger
