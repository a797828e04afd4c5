import InstantMessenger.Server.DisconnectCall

/-!
# Sessions with a number

Two sessions of a group may be the same pair: nothing keeps a client from joining
twice.  To say what one of them receives, every session gets the number of its
registration, and what the code does to a list of sessions is done to the list of
numbered ones.

* `Seat`, `Table` — a session with its number, and a user with such sessions.
* `Table.user` — **the numbers forgotten**: `users_addSeat` and
  `users_handleDisconnectEvent` say that then the operations are the code's own.
* `seatsOf_addSeat`, `seatsOf_handleDisconnectEvent_sublist` — a registration adds its
  seat or is refused, and a disconnect event only takes seats away.
-/

namespace InstantMessenger

/-- A session, with the number of its registration. -/
structure Seat where
  session : Session
  number : Nat
  deriving DecidableEq, Repr

/-- A user of a group, whose sessions are numbered. -/
structure Table where
  username : Str
  seats : List Seat
  deriving DecidableEq, Repr

namespace Table

/-- The user without the numbers. -/
def user (t : Table) : User := ⟨t.username, t.seats.map Seat.session⟩

/-- The users without the numbers. -/
def users (ts : List Table) : List User := ts.map user

/-- All seats of a group. -/
def seatsOf (ts : List Table) : List Seat := ts.flatMap Table.seats

/-- The numbers of the sessions that are open. -/
def numbers (ts : List Table) : List Nat := (seatsOf ts).map Seat.number

/-! ## The operations of the code -/

/-- The session is offered to the user with this name, or to a new one. -/
def addSeat (seat : Seat) (userName : Str) : List Table → List Table
  | [] => [⟨userName, [seat]⟩]
  | t :: ts =>
    if userName = t.username then
      if t.seats.length < MAX_NUMBER_OF_SIMULTANEOUS_CONNECTIONS then
        { t with seats := t.seats ++ [seat] } :: ts
      else t :: ts
    else t :: addSeat seat userName ts

/-- The loop of `releaseSession` over the numbered sessions. -/
def releaseSession (clientID feAddress : Str) (t : Table) : Table :=
  { t with
    seats := EraseLoop.eraseLoop (fun s => User.releaseTest clientID feAddress s.session)
      ⟨([], []), 0⟩ t.seats }

/-- The first user with the session releases it. -/
def disconnectSession (clientID feAddress : Str) : List Table → List Table
  | [] => []
  | t :: ts =>
    if (t.seats.map Seat.session).contains (clientID, feAddress) then
      let t' := t.releaseSession clientID feAddress
      if t'.seats.length < 1 then ts else t' :: ts
    else t :: disconnectSession clientID feAddress ts

/-- A disconnect event of one session or, with the sentinel, of a front end. -/
def handleDisconnectEvent (clientID feAddress : Str) (ts : List Table) : List Table :=
  if clientID = FE_DISCONNECT then
    ((seatsOf ts).map Seat.session).foldl
      (fun ts c => if c.2 = feAddress then disconnectSession c.1 feAddress ts else ts) ts
  else disconnectSession clientID feAddress ts

/-! ## The numbers forgotten -/

theorem users_cons (t : Table) (ts : List Table) : users (t :: ts) = t.user :: users ts := rfl

/-- The sessions are the ones a message is broadcast to. -/
theorem sessions_seatsOf (ts : List Table) :
    (seatsOf ts).map Seat.session = (users ts).flatMap User.getActiveConnections := by
  rw [seatsOf, users, List.map_flatMap, List.flatMap_map]
  rfl

theorem users_addSeat (seat : Seat) (userName : Str) (ts : List Table) :
    users (addSeat seat userName ts) =
      (Group.addSession seat.session.1 seat.session.2 userName (users ts)).1 := by
  induction ts with
  | nil => rfl
  | cons t ts ih =>
    rw [users_cons, addSeat, Group.addSession]
    by_cases hname : userName = t.username
    · rw [if_pos hname, if_pos (show userName = t.user.username from hname), User.registerSession]
      have hlen : t.user.clientIdentifiers.length = t.seats.length := List.length_map _
      rw [hlen]
      split
      · rw [users_cons, user, List.map_append]
        rfl
      · rfl
    · rw [if_neg hname, if_neg (show ¬userName = t.user.username from hname), users_cons, ih]

theorem user_releaseSession (clientID feAddress : Str) (t : Table) :
    (t.releaseSession clientID feAddress).user = t.user.releaseSession clientID feAddress := by
  rw [user, releaseSession, EraseLoop.eraseLoop_map Seat.session]
  rfl

theorem users_disconnectSession (clientID feAddress : Str) (ts : List Table) :
    users (disconnectSession clientID feAddress ts) =
      Group.releaseOwner clientID feAddress (users ts) := by
  induction ts with
  | nil => rfl
  | cons t ts ih =>
    rw [users_cons, disconnectSession, Group.releaseOwner]
    have hlen : (t.releaseSession clientID feAddress).seats.length =
        (t.user.releaseSession clientID feAddress).getActiveConnections.length := by
      rw [← user_releaseSession]
      exact (List.length_map _).symm
    have hact : t.user.getActiveConnections = t.seats.map Seat.session := rfl
    rw [hact]
    split
    · simp only [hlen]
      split
      · rfl
      · rw [users_cons, user_releaseSession]
    · rw [users_cons, ih]

theorem releaseOwner_of_not_mem {c : Session} {us : List User}
    (h : ∀ x ∈ us, c ∉ x.clientIdentifiers) : Group.releaseOwner c.1 c.2 us = us := by
  induction us with
  | nil => rfl
  | cons x us ih =>
    have hx : ¬x.getActiveConnections.contains (c.1, c.2) = true := by
      simpa [User.getActiveConnections] using h x (List.mem_cons_self ..)
    rw [Group.releaseOwner, if_neg hx, ih fun y hy => h y (List.mem_cons_of_mem _ hy)]

theorem dropSession_fst (c : Session) (us : List User) (counts : Counts) :
    (Replica.dropSession c (us, counts)).1 = Group.releaseOwner c.1 c.2 us := by
  obtain hnone | ⟨pre, x, post, rfl, hpre, hx⟩ := Replica.owner_cases c us
  · rw [Replica.dropSession_of_not_mem counts hnone, releaseOwner_of_not_mem hnone]
  · rw [Replica.dropSession_append counts hpre hx, Replica.releaseOwner_append hpre hx]

theorem users_sweep (feAddress : Str) (snapshot : List Session) (ts : List Table)
    (counts : Counts) :
    users (snapshot.foldl
        (fun ts c => if c.2 = feAddress then disconnectSession c.1 feAddress ts else ts) ts) =
      (snapshot.foldl
        (fun s d => if d.2 = feAddress then Replica.dropSession (d.1, feAddress) s else s)
        (users ts, counts)).1 := by
  induction snapshot generalizing ts counts with
  | nil => rfl
  | cons c snapshot ih =>
    rw [List.foldl_cons, List.foldl_cons]
    by_cases hc : c.2 = feAddress
    · rw [if_pos hc, if_pos hc, ih _ (Replica.dropSession (c.1, feAddress) (users ts, counts)).2,
        users_disconnectSession, ← dropSession_fst (c.1, feAddress) (users ts) counts]
    · rw [if_neg hc, if_neg hc, ih]

theorem users_handleDisconnectEvent (isPrimary : Bool) (time : Int) (c : Session) (g : Group)
    (counts : Counts) {ts : List Table} (h : users ts = g.users) :
    users (handleDisconnectEvent c.1 c.2 ts) =
      (Group.handleDisconnectEvent isPrimary time c.1 c.2 (g, counts)).1.users := by
  have hreplica := (Group.handleDisconnectEvent_replica isPrimary time c g counts).1
  have husers : (Group.handleDisconnectEvent isPrimary time c.1 c.2 (g, counts)).1.users =
      (Replica.dropEvent c (g.users, counts)).1 := congrArg GroupReplica.users hreplica
  rw [husers, handleDisconnectEvent, Replica.dropEvent, ← h]
  split
  · rw [users_sweep c.2 _ ts counts, sessions_seatsOf]
  · rw [users_disconnectSession, dropSession_fst]

/-! ## The numbers -/

/-- A registration adds its seat, or is refused. -/
theorem seatsOf_addSeat (seat : Seat) (userName : Str) (ts : List Table) :
    ((Group.addSession seat.session.1 seat.session.2 userName (users ts)).2 = 0 ∧
        (seatsOf (addSeat seat userName ts)).Perm (seatsOf ts ++ [seat])) ∨
      ((Group.addSession seat.session.1 seat.session.2 userName (users ts)).2 = -1 ∧
        seatsOf (addSeat seat userName ts) = seatsOf ts) := by
  induction ts with
  | nil => exact .inl ⟨rfl, List.Perm.refl _⟩
  | cons t ts ih =>
    rw [users_cons, addSeat, Group.addSession]
    by_cases hname : userName = t.username
    · rw [if_pos hname, if_pos (show userName = t.user.username from hname), User.registerSession]
      have hlen : t.user.clientIdentifiers.length = t.seats.length := List.length_map _
      rw [hlen]
      by_cases hlt : t.seats.length < MAX_NUMBER_OF_SIMULTANEOUS_CONNECTIONS
      · rw [if_pos hlt, if_pos hlt]
        refine .inl ⟨rfl, ?_⟩
        rw [seatsOf, seatsOf, List.flatMap_cons, List.flatMap_cons, List.append_assoc,
          List.append_assoc]
        exact List.perm_append_comm.append_left _
      · rw [if_neg hlt, if_neg hlt]
        exact .inr ⟨rfl, rfl⟩
    · rw [if_neg hname, if_neg (show ¬userName = t.user.username from hname)]
      refine ih.imp (fun h => ⟨h.1, ?_⟩) (fun h => ⟨h.1, ?_⟩)
      · rw [seatsOf, seatsOf, List.flatMap_cons, List.flatMap_cons, List.append_assoc]
        exact h.2.append_left _
      · exact congrArg (t.seats ++ ·) h.2

theorem seatsOf_disconnectSession_sublist (clientID feAddress : Str) (ts : List Table) :
    (seatsOf (disconnectSession clientID feAddress ts)).Sublist (seatsOf ts) := by
  induction ts with
  | nil => exact List.Sublist.refl _
  | cons t ts ih =>
    rw [disconnectSession]
    split
    · dsimp only
      split
      · exact List.sublist_append_right ..
      · exact (EraseLoop.eraseLoop_sublist t.seats).append_right _
    · exact ih.append_left t.seats

/-- A disconnect event takes seats away, and leaves the others as they are. -/
theorem seatsOf_handleDisconnectEvent_sublist (clientID feAddress : Str) (ts : List Table) :
    (seatsOf (handleDisconnectEvent clientID feAddress ts)).Sublist (seatsOf ts) := by
  rw [handleDisconnectEvent]
  split
  · generalize (seatsOf ts).map Seat.session = snapshot
    induction snapshot generalizing ts with
    | nil => exact List.Sublist.refl _
    | cons c snapshot ih =>
      rw [List.foldl_cons]
      refine (ih _).trans ?_
      split
      · exact seatsOf_disconnectSession_sublist ..
      · exact List.Sublist.refl _
  · exact seatsOf_disconnectSession_sublist ..

end Table
end InstantMessenger
