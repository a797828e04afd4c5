import InstantMessenger.Server.ExactDisconnect

/-!
# Joined and left

`registerNewSession` announces a user that is new in the list of the group, and
`disconnectSession` one that leaves it with the last session.  Everything else that
happens to the sessions of a user is silent.

* `Group.SessionCall`, `Group.afterCalls` — the calls that a group of the primary gets.
* `Group.Change` — **what a call does to the list and the queue**: nothing, a user
  more and a JOINED, or a user less and a LEFT.
* `Group.Announced` — the invariant: the notices about a user alternate, and tell
  whether the user is listed.
* `Group.notices_alternate` — **so it is after every run**.
-/

namespace InstantMessenger

namespace Group

/-- The names in the user list. -/
def usernames (g : Group) : List Str := g.users.map User.username

/-- The notices about a user that were put into the queue. -/
def notices (g : Group) (user : Str) : List Str :=
  (g.messages_queue.filter fun m => m.isNotification && m.user == user).map Message.text

/-- JOINED and LEFT in turn. -/
def alternation : Nat → List Str
  | 0 => []
  | n + 1 => alternation n ++ [if n % 2 = 0 then JOINED_MESSAGE else LEFT_GROUP_MESSAGE]

/-- A call that opens or closes sessions of the group.  The counters belong to the server. -/
inductive SessionCall where
  | registerNewSession (o : Outside) (clientID feAddress userName : Str)
  | handleDisconnectEvent (time : Int) (counts : Counts) (clientID feAddress : Str)

/-- The group of a primary after a call. -/
def afterCall (g : Group) : SessionCall → Group
  | .registerNewSession o clientID feAddress userName =>
    (g.registerNewSession true o clientID feAddress userName).1
  | .handleDisconnectEvent time counts clientID feAddress =>
    (handleDisconnectEvent true time clientID feAddress (g, counts)).1

/-- The group of a primary after these calls. -/
def afterCalls (g : Group) (calls : List SessionCall) : Group := calls.foldl afterCall g

/-! ## What a call changes -/

/-- The list and the queue of `h` come from those of `g` by one announcement at most. -/
inductive Change (g h : Group) : Prop
  | silent (hnames : h.usernames = g.usernames) (hqueue : h.messages_queue = g.messages_queue)
  | joined (user : Str) (time : Int) (hnew : user ∉ g.usernames)
      (hnames : h.usernames = g.usernames ++ [user])
      (hqueue : h.messages_queue =
        g.messages_queue ++ [⟨JOINED_MESSAGE, user, g.groupName, time, true⟩])
  | left (user : Str) (time : Int) (before behind : List Str)
      (hlisted : g.usernames = before ++ user :: behind) (hnames : h.usernames = before ++ behind)
      (hqueue : h.messages_queue =
        g.messages_queue ++ [⟨LEFT_GROUP_MESSAGE, user, g.groupName, time, true⟩])

theorem addSession_usernames (clientID feAddress userName : Str) (us : List User) :
    (userName ∈ us.map User.username →
        (addSession clientID feAddress userName us).1.map User.username = us.map User.username) ∧
      (userName ∉ us.map User.username →
        (addSession clientID feAddress userName us).1.map User.username =
          us.map User.username ++ [userName]) := by
  induction us with
  | nil => exact ⟨fun h => absurd h List.not_mem_nil, fun _ => rfl⟩
  | cons u us ih =>
    rw [addSession, List.map_cons, List.mem_cons]
    by_cases hu : userName = u.username
    · have hsame : (u.registerSession clientID feAddress).1.username = u.username := by
        rw [User.registerSession]
        split <;> rfl
      rw [if_pos hu, List.map_cons, hsame]
      exact ⟨fun _ => rfl, fun h => absurd (.inl hu) h⟩
    · rw [if_neg hu, List.map_cons, or_iff_right hu]
      exact ⟨fun h => congrArg _ (ih.1 h), fun h => congrArg _ (ih.2 h)⟩

theorem registerNewSession_change (g : Group) (o : Outside) (clientID feAddress userName : Str) :
    Change g (g.registerNewSession true o clientID feAddress userName).1 := by
  obtain ⟨hold, hnew⟩ := addSession_usernames clientID feAddress userName g.users
  have hisNew : (g.users.all fun u => userName != u.username) =
      !decide (userName ∈ g.usernames) := by
    rw [Bool.eq_iff_iff]
    simp only [List.all_eq_true, bne_iff_ne, Bool.not_eq_true', decide_eq_false_iff_not, usernames,
      List.mem_map, not_exists, not_and]
    exact ⟨fun h x hx heq => h x hx heq.symm, fun h x hx heq => h x hx heq.symm⟩
  by_cases hlisted : userName ∈ g.usernames
  · refine .silent (hold hlisted) ?_
    rw [registerNewSession, hisNew, decide_eq_true hlisted]
    rfl
  · refine .joined userName o.time hlisted (hnew hlisted) ?_
    rw [registerNewSession, hisNew, decide_eq_false hlisted]
    rfl

theorem disconnectSession_change (time : Int) (c : Session) (g : Group) (counts : Counts) :
    Change g (disconnectSession true time c.1 c.2 (g, counts)).1 := by
  obtain hnone | ⟨pre, x, post, husers, hpre, hx⟩ := Replica.owner_cases c g.users
  · rw [disconnectSession, Replica.getUserFromConnectionId_eq_none hnone]
    exact .silent rfl rfl
  have howner := @Replica.getUserFromConnectionId_append c pre post x hpre hx
  have hreleased := @Replica.releaseOwner_append c pre post x hpre hx
  rw [← husers] at howner hreleased
  have hsplit : g.usernames = pre.map User.username ++ x.username :: post.map User.username := by
    rw [usernames, husers, List.map_append, List.map_cons]
  rw [disconnectSession, howner]
  dsimp only
  rw [hreleased, Replica.kept]
  by_cases hlast : (x.releaseSession c.1 c.2).clientIdentifiers.length < 1
  · rw [if_pos hlast, if_pos ⟨hlast, rfl⟩]
    refine .left x.username time _ _ hsplit ?_ rfl
    rw [usernames, List.append_nil, List.map_append]
  · rw [if_neg hlast, if_neg fun h => hlast h.1]
    refine .silent ?_ rfl
    rw [hsplit, usernames, List.map_append, List.map_append, List.append_assoc]
    rfl

/-! ## The notices about one user -/

/-- The names differ, and the notices about every user alternate and tell whether the user is
listed. -/
structure Announced (g : Group) : Prop where
  distinct : g.usernames.Nodup
  alternate : ∀ user, ∃ n, g.notices user = alternation n ∧ (n % 2 = 1 ↔ user ∈ g.usernames)

theorem announced_new (name : Str) : Announced (new name) :=
  ⟨List.nodup_nil, fun _ => ⟨0, rfl, by simp [usernames, new]⟩⟩

theorem notices_append {g h : Group} {m : Message}
    (hqueue : h.messages_queue = g.messages_queue ++ [m]) (hm : m.isNotification = true)
    (user : Str) : h.notices user = g.notices user ++ if m.user = user then [m.text] else [] := by
  rw [notices, hqueue, List.filter_append, List.map_append, ← notices]
  by_cases hu : m.user = user <;> simp [hm, hu]

theorem Announced.change {g h : Group} (hg : Announced g) (hc : Change g h) : Announced h := by
  cases hc with
  | silent hnames hqueue =>
    refine ⟨by rw [hnames]; exact hg.distinct, fun user => ?_⟩
    rw [hnames, notices, hqueue]
    exact hg.alternate user
  | joined name time hnew hnames hqueue =>
    refine ⟨?_, fun user => ?_⟩
    · rw [hnames]
      exact hg.distinct.append (List.nodup_singleton _) (List.disjoint_singleton.2 hnew)
    · obtain ⟨n, hn, hlisted⟩ := hg.alternate user
      rw [notices_append hqueue rfl, hnames, hn]
      by_cases hu : name = user
      · subst hu
        have heven : n % 2 = 0 := by
          have hodd := mt hlisted.1 hnew
          omega
        refine ⟨n + 1, by rw [if_pos rfl, alternation, if_pos heven], ?_⟩
        exact iff_of_true (by omega) (by simp)
      · refine ⟨n, by rw [if_neg hu, List.append_nil], hlisted.trans ?_⟩
        simp [Ne.symm hu]
  | left name time before behind hsplit hnames hqueue =>
    have hdistinct := hg.distinct
    rw [hsplit] at hdistinct
    obtain ⟨hgone, hrest⟩ := List.nodup_middle.1 hdistinct |> List.nodup_cons.1
    refine ⟨hnames ▸ hrest, fun user => ?_⟩
    obtain ⟨n, hn, hlisted⟩ := hg.alternate user
    rw [notices_append hqueue rfl, hnames, hn]
    rw [hsplit] at hlisted
    by_cases hu : name = user
    · subst hu
      have hodd : n % 2 = 1 := hlisted.2 (by simp)
      refine ⟨n + 1, by rw [if_pos rfl, alternation, if_neg (by omega)], ?_⟩
      exact iff_of_false (by omega) hgone
    · refine ⟨n, by rw [if_neg hu, List.append_nil], hlisted.trans ?_⟩
      simp [Ne.symm hu]

/-! ## Every call -/

theorem Announced.disconnectSession {g : Group} (hg : Announced g) (time : Int) (c : Session)
    (counts : Counts) : Announced (disconnectSession true time c.1 c.2 (g, counts)).1 :=
  hg.change (disconnectSession_change time c g counts)

/-- The sweep over a snapshot of the sessions. -/
theorem Announced.sweep {g : Group} (hg : Announced g) (time : Int) (feAddress : Str)
    (snapshot : List Session) (counts : Counts) :
    Announced (snapshot.foldl (fun s c =>
      if c.2 = feAddress then Group.disconnectSession true time c.1 feAddress s else s)
        (g, counts)).1 := by
  induction snapshot generalizing g counts with
  | nil => exact hg
  | cons c snapshot ih =>
    rw [List.foldl_cons]
    split
    · exact ih (hg.disconnectSession time (c.1, feAddress) counts) _
    · exact ih hg counts

theorem Announced.afterCall {g : Group} (hg : Announced g) (call : SessionCall) :
    Announced (g.afterCall call) := by
  cases call with
  | registerNewSession o clientID feAddress userName =>
    exact hg.change (registerNewSession_change g o clientID feAddress userName)
  | handleDisconnectEvent time counts clientID feAddress =>
    rw [Group.afterCall, handleDisconnectEvent]
    split
    · exact hg.sweep time feAddress _ counts
    · exact hg.disconnectSession time (clientID, feAddress) counts

theorem seated_afterCall {g : Group} (hg : Replica.Seated g.users) (call : SessionCall) :
    Replica.Seated (g.afterCall call).users := by
  cases call with
  | registerNewSession o clientID feAddress userName =>
    exact Replica.seated_addSession (clientID, feAddress) userName hg
  | handleDisconnectEvent time counts clientID feAddress =>
    have hreplica := (handleDisconnectEvent_replica true time (clientID, feAddress) g counts).1
    rw [show (g.afterCall (.handleDisconnectEvent time counts clientID feAddress)).users = _ from
      congrArg GroupReplica.users hreplica]
    exact Replica.seated_dropEvent hg

/-- The last notice of an alternation. -/
theorem getLast?_alternation (n : Nat) :
    (alternation n).getLast? = some JOINED_MESSAGE ↔ n % 2 = 1 := by
  cases n with
  | zero => simp [alternation]
  | succ n =>
    have hne : LEFT_GROUP_MESSAGE ≠ JOINED_MESSAGE := by decide
    rw [alternation, List.getLast?_append, List.getLast?_singleton, Option.some_or, Option.some_inj]
    split
    · exact iff_of_true rfl (by omega)
    · exact iff_of_false hne (by omega)

theorem announced_afterCalls {g : Group} (hg : Announced g) (hs : Replica.Seated g.users)
    (calls : List SessionCall) :
    Announced (g.afterCalls calls) ∧ Replica.Seated (g.afterCalls calls).users := by
  induction calls generalizing g with
  | nil => exact ⟨hg, hs⟩
  | cons call calls ih => exact ih (hg.afterCall call) (seated_afterCall hs call)

/-- **Joined and left notices alternate.**  After every run of calls on a group of the
primary, no two users have one name, every user has one or two sessions, and the
notices about every user are JOINED and LEFT in turn, the last one JOINED exactly
when the user is listed. -/
theorem notices_alternate (name : Str) (calls : List SessionCall) :
    ((new name).afterCalls calls).usernames.Nodup ∧
      (∀ x ∈ ((new name).afterCalls calls).users, 1 ≤ x.getActiveConnections.length ∧
        x.getActiveConnections.length ≤ MAX_NUMBER_OF_SIMULTANEOUS_CONNECTIONS) ∧
      ∀ user, (∃ n, ((new name).afterCalls calls).notices user = alternation n) ∧
        ((((new name).afterCalls calls).notices user).getLast? = some JOINED_MESSAGE ↔
          user ∈ ((new name).afterCalls calls).usernames) := by
  obtain ⟨hannounced, hseated⟩ := announced_afterCalls (announced_new name)
    (fun x hx => absurd hx List.not_mem_nil) calls
  refine ⟨hannounced.distinct, ?_, ?_⟩
  · intro x hx
    obtain ⟨hne, hle⟩ := hseated x hx
    exact ⟨List.length_pos_iff.2 hne, hle⟩
  · intro user
    obtain ⟨n, hn, hlisted⟩ := hannounced.alternate user
    refine ⟨⟨n, hn⟩, ?_⟩
    rw [hn, getLast?_alternation, hlisted]

end Group

end InstantMessenger
