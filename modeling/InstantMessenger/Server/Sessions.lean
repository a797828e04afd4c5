import InstantMessenger.Foundations.Ledger
import InstantMessenger.Server.Independence
import InstantMessenger.Server.Replication

/-!
# The sessions as a ledger

The counters of `connectionsCount` live in the server; the sessions they count
live in the users, which live in the groups.  Read as a ledger, whose entries are
the open sessions of all groups and whose owners are the usernames, every
operation of the server either opens one entry or closes those that satisfy a
test.

* `Entry`, `entries`, `ledger` — the open sessions of a group and of all groups.
* `dropSession_closes`, `dropEvent_closes`, `disconnect_closes` — **a disconnect
  closes exactly the session it names, or every session of its front end**: the
  counter is lowered in `disconnectSession`, the session leaves in
  `releaseSession`, and the user leaves the list with its last session.
* `join_opens` — **a JOIN below the limit opens one entry**: the counter goes up
  first, and `registerSession`, whose result is ignored, does not refuse.
-/

namespace InstantMessenger

/-- An open session, with the user it belongs to and the group it is in. -/
structure Entry where
  groupName : Str
  user : Str
  session : Session
  deriving DecidableEq, Repr

namespace Replica

open Ledger

/-- The open sessions of these users of a group. -/
def entries (groupName : Str) (us : List User) : List Entry :=
  us.flatMap fun x => x.clientIdentifiers.map (Entry.mk groupName x.username)

/-- The open sessions of all groups. -/
def ledger (gs : List GroupReplica) : List Entry := gs.flatMap fun g => entries g.groupName g.users

/-- The client ids of open sessions. -/
def clientIds (es : List Entry) : List Str := es.map fun e => e.session.1

/-- No session has the address `f`, or nothing, for its client id. -/
def NoClientIs (f : Str) (es : List Entry) : Prop := ∀ e ∈ es, e.session.1 ≠ f ∧ e.session.1 ≠ []

theorem NoClientIs.sublist {f : Str} {es es' : List Entry} (h : NoClientIs f es)
    (hsub : es'.Sublist es) : NoClientIs f es' := fun e he => h e (hsub.subset he)

theorem clientIds_nodup_of_sublist {es es' : List Entry} (h : (clientIds es).Nodup)
    (hsub : es'.Sublist es) : (clientIds es').Nodup := h.sublist (hsub.map _)

/-! ## The sessions of one group -/

@[simp] theorem entries_nil (n : Str) : entries n [] = [] := rfl

theorem entries_cons (n : Str) (x : User) (us : List User) :
    entries n (x :: us) = x.clientIdentifiers.map (Entry.mk n x.username) ++ entries n us := rfl

theorem clientIds_append (es fs : List Entry) :
    clientIds (es ++ fs) = clientIds es ++ clientIds fs := List.map_append

theorem clientIds_map_mk (n u : Str) (cs : List Session) :
    clientIds (cs.map (Entry.mk n u)) = cs.map Prod.fst := by
  rw [clientIds, List.map_map]
  rfl

theorem filter_map_mk (n u : Str) (c : Session) (cs : List Session) :
    (cs.map (Entry.mk n u)).filter (fun e => !(e.session == c)) =
      (cs.filter (· != c)).map (Entry.mk n u) := by
  rw [List.filter_map]
  rfl

end Replica

/-- When no two sessions of a user share a client id, `releaseSession` removes
the session it is called with and no other. -/
theorem User.releaseSession_clientIdentifiers {x : User} {c : Session}
    (hids : (x.clientIdentifiers.map Prod.fst).Nodup) (hmem : c ∈ x.clientIdentifiers)
    (hne : c.1 ≠ c.2) (hpos : c.1 ≠ []) :
    (x.releaseSession c.1 c.2).clientIdentifiers = x.clientIdentifiers.filter (· != c) := by
  have hone : x.clientIdentifiers.countP (User.releaseTest c.1 c.2) ≤ 1 := by
    calc x.clientIdentifiers.countP (User.releaseTest c.1 c.2)
        ≤ x.clientIdentifiers.countP (fun d => d.1 == c.1) :=
          List.countP_mono_left fun d _ h => by
            rw [User.releaseTest, Bool.and_eq_true] at h
            exact h.1
      _ = (x.clientIdentifiers.map Prod.fst).count c.1 := by
          rw [List.count, List.countP_map]
          rfl
      _ ≤ 1 := List.nodup_iff_count_le_one.1 hids c.1
  have hdead : User.releaseTest c.1 c.2 ([], []) = false := by
    rw [User.releaseTest, Bool.and_eq_false_iff]
    exact .inl (by simpa using Ne.symm hpos)
  rw [User.releaseSession, EraseLoop.eraseLoop_eq_filter hone hdead]
  refine List.filter_congr ?_
  intro d hd
  by_cases hdc : d = c
  · subst hdc
    simp [User.releaseTest, hne]
  · have hd1 : (d.1 == c.1) = false :=
      beq_eq_false_iff_ne.2 fun h => hdc (List.inj_on_of_nodup_map hids hd hmem h)
    rw [User.releaseTest, hd1, bne_iff_ne.2 hdc]
    rfl

namespace Replica

open Ledger

theorem not_mem_sessions_of_nodup {n : Str} {x : User} {us : List User} {c : Session}
    (hids : (clientIds (entries n (x :: us))).Nodup) (hc : c ∈ x.clientIdentifiers) :
    ∀ e ∈ entries n us, e.session ≠ c := by
  rw [entries_cons, clientIds_append, clientIds_map_mk] at hids
  intro e he hec
  refine (List.nodup_append'.1 hids).2.2 (List.mem_map_of_mem hc) ?_
  rw [← hec]
  exact List.mem_map_of_mem he

/-- The owner of a session releases it, and nobody else loses one. -/
theorem entries_releaseOwner {n : Str} {us : List User} {c : Session}
    (hids : (clientIds (entries n us)).Nodup) (hno : NoClientIs c.2 (entries n us)) :
    entries n (Group.releaseOwner c.1 c.2 us) =
      (entries n us).filter fun e => !(e.session == c) := by
  induction us with
  | nil => rfl
  | cons x us ih =>
    have hsub : (entries n us).Sublist (entries n (x :: us)) := by
      rw [entries_cons]
      exact List.sublist_append_right ..
    have hx : (x.clientIdentifiers.map Prod.fst).Nodup := by
      rw [entries_cons, clientIds_append, clientIds_map_mk] at hids
      exact (List.nodup_append'.1 hids).1
    rw [Group.releaseOwner]
    by_cases hc : c ∈ x.clientIdentifiers
    · have hcx : x.getActiveConnections.contains (c.1, c.2) = true := by
        simpa [User.getActiveConnections] using hc
      have hgen := hno ⟨n, x.username, c⟩ (by
        rw [entries_cons]
        exact List.mem_append_left _ (List.mem_map_of_mem hc))
      have hrel := User.releaseSession_clientIdentifiers hx hc hgen.1 hgen.2
      have hrest : (entries n us).filter (fun e => !(e.session == c)) = entries n us :=
        List.filter_eq_self.2 fun e he => by
          simpa using not_mem_sessions_of_nodup hids hc e he
      rw [if_pos hcx, entries_cons, List.filter_append, hrest, filter_map_mk, ← hrel]
      by_cases hempty : (x.releaseSession c.1 c.2).clientIdentifiers.length < 1
      · rw [List.eq_nil_of_length_eq_zero (Nat.lt_one_iff.1 hempty)]
        exact congrArg _ (if_pos hempty)
      · exact congrArg _ (if_neg hempty)
    · have hcx : ¬x.getActiveConnections.contains (c.1, c.2) = true := by
        simpa [User.getActiveConnections] using hc
      have hhead : x.clientIdentifiers.filter (· != c) = x.clientIdentifiers :=
        List.filter_eq_self.2 fun d hd => by
          have hdc : d ≠ c := fun h => hc (h ▸ hd)
          simpa using hdc
      rw [if_neg hcx, entries_cons, entries_cons, List.filter_append, filter_map_mk, hhead,
        ih (clientIds_nodup_of_sublist hids hsub) (hno.sublist hsub)]

/-- **One session is closed**, or none when it is not open. -/
theorem dropSession_closes {n : Str} {s : List User × Counts} {c : Session}
    (hids : (clientIds (entries n s.1)).Nodup) (hno : NoClientIs c.2 (entries n s.1)) :
    Closes Entry.user (fun e => e.session == c) (entries n s.1) s.2.get
      (entries n (dropSession c s).1) (dropSession c s).2.get := by
  unfold dropSession
  cases howner : Group.getUserFromConnectionId s.1 c.1 c.2 with
  | none =>
    refine Closes.nothing ?_
    intro e he
    obtain ⟨x, hx, hex⟩ := List.mem_flatMap.1 he
    obtain ⟨d, hd, rfl⟩ := List.mem_map.1 hex
    have hnot := List.find?_eq_none.1 howner x hx
    have hdc : d ≠ c := by
      rintro rfl
      exact hnot (by simpa [User.getActiveConnections] using hd)
    simpa using hdc
  | some user =>
    have huser := List.mem_of_find?_eq_some howner
    have hc : c ∈ user.clientIdentifiers := by
      simpa [User.getActiveConnections] using List.find?_some howner
    have hmem : (⟨n, user.username, c⟩ : Entry) ∈ entries n s.1 :=
      List.mem_flatMap.2 ⟨user, huser, List.mem_map_of_mem hc⟩
    refine Closes.single (List.Nodup.of_map _ hids) hmem (fun e he => ?_)
      (entries_releaseOwner hids hno) (fun k => ?_)
    · rw [beq_iff_eq]
      constructor
      · intro hec
        exact List.inj_on_of_nodup_map hids he hmem (congrArg Prod.fst hec)
      · rintro rfl
        rfl
    · rw [Counts.get_set]
      by_cases hk : user.username = k
      · rw [if_pos hk.symm, if_pos hk, hk]
      · rw [if_neg (Ne.symm hk), if_neg hk]
        omega

/-- The sweep over a snapshot closes its sessions of the front end `f`. -/
theorem sweep_closes {n f : Str} {ds : List Session} {s : List User × Counts}
    (hids : (clientIds (entries n s.1)).Nodup) (hno : NoClientIs f (entries n s.1)) :
    Closes Entry.user (fun e => ds.contains e.session && e.session.2 == f) (entries n s.1) s.2.get
      (entries n (sweep f ds s).1) (sweep f ds s).2.get := by
  induction ds generalizing s with
  | nil => exact Closes.nothing fun _ _ => rfl
  | cons d ds ih =>
    rw [sweep, List.foldl_cons]
    by_cases hd : d.2 = f
    · have hdf : (d.1, f) = d := Prod.ext rfl hd.symm
      rw [if_pos hd]
      have hfirst := dropSession_closes (c := (d.1, f)) hids hno
      have hrest := ih (clientIds_nodup_of_sublist hids hfirst.sublist) (hno.sublist hfirst.sublist)
      refine (hfirst.trans hrest).congr ?_
      intro e _
      rw [hdf, List.contains_cons]
      by_cases he : e.session = d
      · simp [he, hd]
      · rw [beq_eq_false_iff_ne.2 he, Bool.false_or, Bool.false_or]
    · rw [if_neg hd]
      refine (ih hids hno).congr ?_
      intro e _
      rw [List.contains_cons]
      by_cases he : e.session = d
      · simp [he, hd]
      · rw [beq_eq_false_iff_ne.2 he, Bool.false_or]

/-- The sessions that a disconnect event of `c` is about. -/
def closedBy (c : Session) (e : Entry) : Bool :=
  if c.1 = FE_DISCONNECT then e.session.2 == c.2 else e.session == c

theorem dropEvent_closes {n : Str} {s : List User × Counts} {c : Session}
    (hids : (clientIds (entries n s.1)).Nodup) (hno : NoClientIs c.2 (entries n s.1)) :
    Closes Entry.user (closedBy c) (entries n s.1) s.2.get
      (entries n (dropEvent c s).1) (dropEvent c s).2.get := by
  obtain ⟨id, f⟩ := c
  by_cases hc : id = FE_DISCONNECT
  · subst hc
    rw [dropEvent_sentinel]
    refine (sweep_closes hids hno).congr ?_
    intro e he
    obtain ⟨x, hx, hex⟩ := List.mem_flatMap.1 he
    obtain ⟨d, hd, rfl⟩ := List.mem_map.1 hex
    have hopen : (s.1.flatMap User.getActiveConnections).contains d = true := by
      rw [List.contains_iff_mem]
      exact List.mem_flatMap.2 ⟨x, hx, hd⟩
    rw [hopen, Bool.true_and, closedBy, if_pos rfl]
  · rw [dropEvent, if_neg hc]
    refine (dropSession_closes hids hno).congr ?_
    intro e _
    rw [closedBy, if_neg hc]

/-! ## The sessions of all groups -/

theorem ledger_cons (g : GroupReplica) (gs : List GroupReplica) :
    ledger (g :: gs) = entries g.groupName g.users ++ ledger gs := rfl

theorem dropEverywhere_closes {c : Session} {gs : List GroupReplica} {counts : Counts}
    (hids : (clientIds (ledger gs)).Nodup) (hno : NoClientIs c.2 (ledger gs)) :
    Closes Entry.user (closedBy c) (ledger gs) counts.get
      (ledger (dropEverywhere c gs counts).1) (dropEverywhere c gs counts).2.get := by
  induction gs generalizing counts with
  | nil => exact Closes.nothing fun e he => absurd he List.not_mem_nil
  | cons g gs ih =>
    rw [ledger_cons] at hids hno ⊢
    have hhead : (entries g.groupName g.users).Sublist
        (entries g.groupName g.users ++ ledger gs) := List.sublist_append_left ..
    have htail : (ledger gs).Sublist
        (entries g.groupName g.users ++ ledger gs) := List.sublist_append_right ..
    exact (dropEvent_closes (s := (g.users, counts)) (clientIds_nodup_of_sublist hids hhead)
      (hno.sublist hhead)).append
      (ih (clientIds_nodup_of_sublist hids htail) (hno.sublist htail))

/-- **A disconnect closes what it is about.** -/
theorem disconnect_closes {c : Session} {r : Replica} (hids : (clientIds (ledger r.groups)).Nodup)
    (hno : NoClientIs c.2 (ledger r.groups)) :
    Closes Entry.user (closedBy c) (ledger r.groups) r.connectionsCount.get
      (ledger (r.disconnect c).groups) (r.disconnect c).connectionsCount.get :=
  dropEverywhere_closes hids hno

/-! ## Joining -/

/-- A session is added, or refused by `registerSession`. -/
theorem entries_addSession_cases (n user : Str) (c : Session) (us : List User) :
    ((Group.addSession c.1 c.2 user us).2 = 0 ∧
        (entries n (Group.addSession c.1 c.2 user us).1).Perm (⟨n, user, c⟩ :: entries n us)) ∨
      ((Group.addSession c.1 c.2 user us).2 = -1 ∧
        entries n (Group.addSession c.1 c.2 user us).1 = entries n us) := by
  induction us with
  | nil => exact .inl ⟨rfl, List.Perm.refl _⟩
  | cons x us ih =>
    rw [Group.addSession]
    by_cases hx : user = x.username
    · rw [if_pos hx]
      by_cases hlen : x.clientIdentifiers.length < MAX_NUMBER_OF_SIMULTANEOUS_CONNECTIONS
      · refine .inl ?_
        simp only [User.registerSession_of_lt _ _ hlen, entries_cons, List.map_append]
        rw [hx, List.append_assoc]
        exact ⟨trivial, List.perm_middle⟩
      · refine .inr ?_
        simp only [User.registerSession, if_neg hlen, and_self]
    · rw [if_neg hx]
      refine ih.imp (fun h => ⟨h.1, ?_⟩) (fun h => ⟨h.1, ?_⟩)
      · rw [entries_cons, entries_cons]
        exact (h.2.append_left _).trans List.perm_middle
      · rw [entries_cons, entries_cons, h.2]

/-- A user below the limit takes the session. -/
theorem entries_addSession {n user : Str} {c : Session} {us : List User}
    (hlimit : held Entry.user (entries n us) user < MAX_NUMBER_OF_SIMULTANEOUS_CONNECTIONS) :
    (entries n (Group.addSession c.1 c.2 user us).1).Perm (⟨n, user, c⟩ :: entries n us) := by
  induction us with
  | nil => exact List.Perm.refl _
  | cons x us ih =>
    rw [entries_cons, held_append, held, List.countP_map] at hlimit
    rw [Group.addSession]
    by_cases hx : user = x.username
    · have hlen : x.clientIdentifiers.length < MAX_NUMBER_OF_SIMULTANEOUS_CONNECTIONS := by
        have hall : x.clientIdentifiers.countP
            ((fun e : Entry => decide (e.user = user)) ∘ Entry.mk n x.username) =
              x.clientIdentifiers.length :=
          List.countP_eq_length.2 fun d _ => by simpa using hx.symm
        omega
      rw [if_pos hx]
      simp only [User.registerSession_of_lt _ _ hlen, entries_cons, List.map_append]
      rw [hx, List.append_assoc]
      exact List.perm_middle
    · rw [if_neg hx, entries_cons, entries_cons]
      exact (List.Perm.append_left _ (ih (by omega))).trans List.perm_middle

theorem updateGroup_of_not_mem {f : GroupReplica → GroupReplica} {n : Str}
    {gs : List GroupReplica} (h : n ∉ names gs) : updateGroup n f gs = gs := by
  refine (List.map_congr_left fun g hg => if_neg ?_).trans (List.map_id gs)
  rintro rfl
  exact h (List.mem_map_of_mem hg)

theorem ledger_addSession {n user : Str} {c : Session} {gs : List GroupReplica}
    (hnames : (names gs).Nodup) (hn : n ∈ names gs)
    (hlimit : held Entry.user (ledger gs) user < MAX_NUMBER_OF_SIMULTANEOUS_CONNECTIONS) :
    (ledger (updateGroup n (addSession c user) gs)).Perm (⟨n, user, c⟩ :: ledger gs) := by
  induction gs with
  | nil => exact absurd hn List.not_mem_nil
  | cons g gs ih =>
    rw [ledger_cons, held_append] at hlimit
    rw [names, List.map_cons, List.nodup_cons] at hnames
    by_cases hg : g.groupName = n
    · -- the group is the first one, and no other has its name
      subst hg
      have hcons : updateGroup g.groupName (addSession c user) (g :: gs) =
          addSession c user g :: gs := by
        have hrest := updateGroup_of_not_mem (f := addSession c user) hnames.1
        rw [updateGroup, List.map_cons, if_pos rfl]
        exact congrArg _ hrest
      rw [hcons, ledger_cons, ledger_cons]
      have hadd := @entries_addSession g.groupName user c g.users (by omega)
      exact hadd.append_right _
    · have hcons : updateGroup n (addSession c user) (g :: gs) =
          g :: updateGroup n (addSession c user) gs := by
        rw [updateGroup, List.map_cons, if_neg hg]
        rfl
      have hn' : n ∈ names gs := (List.mem_cons.1 hn).resolve_left (Ne.symm hg)
      rw [hcons, ledger_cons, ledger_cons]
      exact ((ih hnames.2 hn' (by omega)).append_left _).trans List.perm_middle

theorem ledger_withGroup (gs : List GroupReplica) (n : Str) :
    ledger (withGroup gs n) = ledger gs := by
  by_cases h : n ∈ names gs
  · rw [withGroup_of_mem h]
  · rw [withGroup_of_not_mem h, ledger, List.flatMap_append]
    simp [ledger]

theorem names_withGroup_nodup {gs : List GroupReplica} (h : (names gs).Nodup) (n : Str) :
    (names (withGroup gs n)).Nodup := by
  by_cases hn : n ∈ names gs
  · rwa [withGroup_of_mem hn]
  · rw [withGroup_of_not_mem hn, names, List.map_append]
    exact h.append (List.nodup_singleton _) (List.disjoint_singleton.2 hn)

theorem mem_names_withGroup (gs : List GroupReplica) (n : Str) : n ∈ names (withGroup gs n) := by
  by_cases hn : n ∈ names gs
  · rwa [withGroup_of_mem hn]
  · rw [withGroup_of_not_mem hn, names, List.map_append]
    exact List.mem_append_right _ (List.mem_singleton.2 rfl)

theorem names_join_nodup {r : Replica} (h : (names r.groups).Nodup) (user g : Str) (c : Session) :
    (names (r.join user g c).groups).Nodup := by
  rw [join_groups]
  split
  · exact h
  · rw [names_updateGroup (addSession_keepsName _ _)]
    exact names_withGroup_nodup h g

/-- **A JOIN below the limit opens one session.** -/
theorem join_opens {r : Replica} {user g : Str} {c : Session} (hnames : (names r.groups).Nodup)
    (hbalanced : Balanced Entry.user (ledger r.groups) r.connectionsCount.get)
    (h : r.connectionsCount.get user < MAX_NUMBER_OF_SIMULTANEOUS_CONNECTIONS) :
    Opens Entry.user ⟨g, user, c⟩ (ledger r.groups) r.connectionsCount.get
      (ledger (r.join user g c).groups) (r.join user g c).connectionsCount.get := by
  have hlimit : held Entry.user (ledger (withGroup r.groups g)) user <
      MAX_NUMBER_OF_SIMULTANEOUS_CONNECTIONS := by
    have hcount := hbalanced user
    rw [ledger_withGroup]
    omega
  have hjoin : r.join user g c =
      ⟨r.connectionsCount.set user (r.connectionsCount.get user + 1),
        updateGroup g (addSession c user) (withGroup r.groups g)⟩ := by
    unfold join
    rw [Server.incrementNumberOfConnectionsFromUser_eq, if_neg (not_le.2 h)]
    exact if_neg (show ¬(0 : Int) = USER_SESSIONS_LIMIT_REACHED by decide)
  rw [hjoin]
  constructor
  · have hadd := ledger_addSession (c := c) (names_withGroup_nodup hnames g)
      (mem_names_withGroup r.groups g) hlimit
    rwa [ledger_withGroup] at hadd
  · intro k
    rw [Counts.get_set]
    by_cases hk : user = k
    · rw [if_pos hk.symm, if_pos hk, hk]
    · rw [if_neg (Ne.symm hk), if_neg hk, add_zero]

end Replica

end InstantMessenger
