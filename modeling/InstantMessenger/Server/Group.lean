import InstantMessenger.Util.User

/-!
# Groups

`Group.cpp`, each section under `usersSemaphore` or `messageQueueSemaphore` as
one function: joining, leaving, and putting a message into the queue.  The
thread that drains the queue is not part of this file; `messages_queue` is every
message that was ever put into it, oldest first.

What a call reads from outside the server's memory is its argument: the clock,
and the history that `readGroupHistoryMessages` returned.  What it writes to a
front end is returned as a list of `Sent`.
-/

namespace InstantMessenger

/-- What a call reads from outside: the clock and the stored history. -/
structure Outside where
  time : Int := 0
  history : List Message := []
  deriving Repr

/-- A packet written to the front end with this address. -/
abbrev Sent := Str × Packet

/-- The map `connectionsCount`, from usernames to counters. -/
abbrev Counts := Str → Option Int

namespace Counts

/-- `connectionsCount[user] = n`. -/
def set (m : Counts) (user : Str) (n : Int) : Counts := fun u => if u = user then some n else m u

/-- `connectionsCount[user]` as a value: a missing key reads as zero. -/
def get (m : Counts) (user : Str) : Int := (m user).getD 0

@[simp] theorem get_set_self (m : Counts) (u : Str) (n : Int) : (m.set u n).get u = n := by
  simp [get, set]

theorem get_set (m : Counts) (u v : Str) (n : Int) :
    (m.set u n).get v = if v = u then n else m.get v := by
  by_cases h : v = u <;> simp [get, set, h]

end Counts

/-- A group: its name, its users in the order they joined, and every message
that was put into its queue. -/
structure Group where
  groupName : Str
  users : List User
  messages_queue : List Message
  deriving DecidableEq, Repr

namespace Group

/-- `Group::Group`. -/
def new (name : Str) : Group := ⟨name, [], []⟩

/-- `Group::getAllActiveConnectionIds`. -/
def getAllActiveConnectionIds (g : Group) : List Session :=
  g.users.flatMap User.getActiveConnections

/-- `Group::addMessageToMessageQueue`. -/
def addMessageToMessageQueue (g : Group) (m : Message) : Group :=
  { g with messages_queue := g.messages_queue ++ [m] }

/-- `Group::sendActivityMessage`. -/
def sendActivityMessage (g : Group) (userName actionText : Str) (time : Int) : Group :=
  g.addMessageToMessageQueue ⟨actionText, userName, g.groupName, time, true⟩

/-- `Group::processReceivedMessage`. -/
def processReceivedMessage (g : Group) (userName message : Str) (time : Int) : Group :=
  g.addMessageToMessageQueue ⟨message, userName, g.groupName, time, false⟩

/-! ## Joining -/

/-- `Group::sendAcceptToUser`. -/
def sendAcceptToUser (clientID feAddress : Str) : List Sent :=
  [(feAddress, { type := .ACCEPT_PACKET, user_id := clientID })]

/-- `Group::sendHistoryToUser`. -/
def sendHistoryToUser (history : List Message) (clientID feAddress : Str) : List Sent :=
  history.map fun m =>
    (feAddress,
      { type := .MESSAGE_PACKET, username := m.user, group := m.group, message := m.text,
        timestamp := m.time, user_id := clientID })

/-- The users of `registerNewSession` after its loop: the session is offered to
the first user with this name, and to a new user at the end of the list when no
user has it. -/
def addSession (clientID feAddress userName : Str) : List User → List User × Int
  | [] =>
    let r := (User.new userName).registerSession clientID feAddress
    ([r.1], r.2)
  | u :: us =>
    if userName = u.username then
      let r := u.registerSession clientID feAddress
      (r.1 :: us, r.2)
    else
      let r := addSession clientID feAddress userName us
      (u :: r.1, r.2)

/-- `Group::registerNewSession`: the group, the result and what was sent. -/
def registerNewSession (isPrimaryServer : Bool) (o : Outside) (g : Group)
    (clientID feAddress userName : Str) : Group × Int × List Sent :=
  let sent := if isPrimaryServer then
      sendAcceptToUser clientID feAddress ++ sendHistoryToUser o.history clientID feAddress
    else []
  let isNew := g.users.all fun u => userName != u.username
  let g' := if isNew && isPrimaryServer then
      g.sendActivityMessage userName JOINED_MESSAGE o.time else g
  let r := addSession clientID feAddress userName g.users
  ({ g' with users := r.1 }, r.2, sent)

/-! ## Leaving -/

/-- `Group::getUserFromConnectionId`. -/
def getUserFromConnectionId (users : List User) (clientID feAddress : Str) : Option User :=
  users.find? fun u => u.getActiveConnections.contains (clientID, feAddress)

/-- The users of `disconnectSession`: the user that `getUserFromConnectionId`
finds releases the session, and leaves the list when it has no session left. -/
def releaseOwner (clientID feAddress : Str) : List User → List User
  | [] => []
  | u :: us =>
    if u.getActiveConnections.contains (clientID, feAddress) then
      let u' := u.releaseSession clientID feAddress
      if u'.getActiveConnections.length < 1 then us else u' :: us
    else u :: releaseOwner clientID feAddress us

/-- `Group::disconnectSession`. -/
def disconnectSession (isPrimaryServer : Bool) (time : Int) (clientID feAddress : Str)
    (s : Group × Counts) : Group × Counts :=
  match getUserFromConnectionId s.1.users clientID feAddress with
  | none => s
  | some user =>
    let counts := s.2.set user.username (s.2.get user.username - 1)
    let leaves := (user.releaseSession clientID feAddress).getActiveConnections.length < 1
    let g := if leaves ∧ isPrimaryServer then
        s.1.sendActivityMessage user.username LEFT_GROUP_MESSAGE time else s.1
    ({ g with users := releaseOwner clientID feAddress s.1.users }, counts)

/-- `Group::handleDisconnectEvent`: one session, or with the sentinel every
session of the front end, in the order of a snapshot taken first. -/
def handleDisconnectEvent (isPrimaryServer : Bool) (time : Int) (clientID feAddress : Str)
    (s : Group × Counts) : Group × Counts :=
  if clientID = FE_DISCONNECT then
    s.1.getAllActiveConnectionIds.foldl
      (fun s c =>
        if c.2 = feAddress then disconnectSession isPrimaryServer time c.1 feAddress s else s) s
  else disconnectSession isPrimaryServer time clientID feAddress s

end Group

end InstantMessenger
