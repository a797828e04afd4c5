import InstantMessenger.Server.Group

/-!
# The server

`server.cpp` and `server_group_manager.cpp`: the map of connection counters, the
groups, the connected front ends, and what the server does with one packet of a
front end, with one packet of the primary, and with the loss of a front end.

The sections of a call that are protected by different semaphores run one after
another here; the runs in which the listener threads interleave are built from
these functions in `InstantMessenger.Server.Interleaving` and
`InstantMessenger.Server.Confirmation`.
-/

namespace InstantMessenger

/-- The memory of a server.  `groupMap` holds each group under its own name. -/
structure Server where
  isPrimaryServer : Bool
  connectionsCount : Counts
  groupMap : List Group
  feAddresses : List Str

namespace Server

/-- `Server::Server`, once connected to these front ends. -/
def new (isPrimaryServer : Bool) (feAddresses : List Str) : Server :=
  ⟨isPrimaryServer, fun _ => none, [], feAddresses⟩

/-! ## `ServerGroupManager` -/

/-- `ServerGroupManager::groupExists`. -/
def groupExists (groups : List Group) (groupName : Str) : Bool :=
  groups.any fun g => g.groupName == groupName

/-- `groupMap[groupName]`, the pointer followed and its target replaced. -/
def updateGroup (groupName : Str) (f : Group → Group) (groups : List Group) : List Group :=
  groups.map fun g => if g.groupName = groupName then f g else g

/-- `groupMap[groupName]`, when there is such a group. -/
def findGroup (groups : List Group) (groupName : Str) : Option Group :=
  groups.find? fun g => g.groupName == groupName

/-- The first part of `registerUserToGroup`: the group is made when it is new. -/
def withGroup (groups : List Group) (groupName : Str) : List Group :=
  if groupExists groups groupName then groups else groups ++ [Group.new groupName]

/-- After that part there is a group. -/
theorem findGroup_withGroup (groups : List Group) (groupName : Str) :
    ∃ g, findGroup (withGroup groups groupName) groupName = some g := by
  refine Option.isSome_iff_exists.1 ?_
  rw [findGroup, List.find?_isSome, withGroup]
  split
  · rename_i hex
    exact List.any_eq_true.1 hex
  · exact ⟨Group.new groupName, List.mem_append_right _ (List.mem_singleton.2 rfl),
      by simp [Group.new]⟩

/-- `ServerGroupManager::registerUserToGroup`: the groups, the result of
`registerNewSession` and what it sent. -/
def registerUserToGroup (isPrimaryServer : Bool) (o : Outside) (groups : List Group)
    (clientIdentifier : Session) (username groupName : Str) : List Group × Int × List Sent :=
  let groups' := withGroup groups groupName
  let register := fun g : Group =>
    g.registerNewSession isPrimaryServer o clientIdentifier.1 clientIdentifier.2 username
  (updateGroup groupName (fun g => (register g).1) groups',
    ((findGroup groups' groupName).map fun g => (register g).2).getD (0, []))

/-- `ServerGroupManager::processReceivedPacket`. -/
def processReceivedPacket (time : Int) (groups : List Group) (packet : Packet) : List Group :=
  if groupExists groups packet.group then
    updateGroup packet.group
      (fun g => g.processReceivedMessage packet.username packet.message time) groups
  else groups

/-- `ServerGroupManager::propagateSocketDisconnectionEvent`: one group after
another, the counters handed on. -/
def propagateSocketDisconnectionEvent (isPrimaryServer : Bool) (time : Int)
    (connectionId : Session) : List Group → Counts → List Group × Counts
  | [], counts => ([], counts)
  | g :: gs, counts =>
    let r := Group.handleDisconnectEvent isPrimaryServer time connectionId.1 connectionId.2
      (g, counts)
    let rest := propagateSocketDisconnectionEvent isPrimaryServer time connectionId gs r.2
    (r.1 :: rest.1, rest.2)

/-! ## Joining and leaving -/

/-- `Server::incrementNumberOfConnectionsFromUser`: the counters and the result. -/
def incrementNumberOfConnectionsFromUser (counts : Counts) (user : Str) : Counts × Int :=
  match counts user with
  | some n =>
    if MAX_NUMBER_OF_SIMULTANEOUS_CONNECTIONS ≤ n then (counts, USER_SESSIONS_LIMIT_REACHED)
    else (counts.set user (n + 1), 0)
  | none => (counts.set user 1, 0)

/-- The map without the case of a missing key: it reads as zero. -/
theorem incrementNumberOfConnectionsFromUser_eq (counts : Counts) (user : Str) :
    incrementNumberOfConnectionsFromUser counts user =
      if MAX_NUMBER_OF_SIMULTANEOUS_CONNECTIONS ≤ counts.get user then
        (counts, USER_SESSIONS_LIMIT_REACHED)
      else (counts.set user (counts.get user + 1), 0) := by
  unfold incrementNumberOfConnectionsFromUser Counts.get
  cases counts user with
  | none => rfl
  | some n => rfl

/-- `Server::registerUserToServer`: the server, the result and what was sent. -/
def registerUserToServer (s : Server) (o : Outside) (registrationPacket : Packet)
    (feAddress : Str) : Server × Int × List Sent :=
  let r := incrementNumberOfConnectionsFromUser s.connectionsCount registrationPacket.username
  if r.2 = USER_SESSIONS_LIMIT_REACHED then
    (s, -1,
      if s.isPrimaryServer then
        [(feAddress,
          { type := .CONNECTION_REFUSED_PACKET, user_id := registrationPacket.user_id })]
      else [])
  else
    let clientFrontEndIdentifier := (registrationPacket.user_id, feAddress)
    let g := registerUserToGroup s.isPrimaryServer o s.groupMap clientFrontEndIdentifier
      registrationPacket.username registrationPacket.group
    ({ s with connectionsCount := r.1, groupMap := g.1 }, g.2)

/-- `Server::closeClientConnection`. -/
def closeClientConnection (s : Server) (time : Int) (clientConnectionId : Session) : Server :=
  let r := propagateSocketDisconnectionEvent s.isPrimaryServer time clientConnectionId s.groupMap
    s.connectionsCount
  { s with groupMap := r.1, connectionsCount := r.2 }

/-- `Server::purgeFeConnection`. -/
def purgeFeConnection (s : Server) (feAddress : Str) : Server :=
  { s with feAddresses := EraseLoop.eraseLoop (· == feAddress) [] s.feAddresses }

/-- `Server::closeFrontEndConnection`.  Nothing happens when the front end was
closed before. -/
def closeFrontEndConnection (s : Server) (time : Int) (feAddress : Str) : Server :=
  if s.feAddresses.contains feAddress then
    (s.closeClientConnection time (FE_DISCONNECT, feAddress)).purgeFeConnection feAddress
  else s

/-! ## One packet -/

/-- What the primary does with a packet of a front end once the replication
section is over: the branches at the end of `listenFrontEndCommunication`. -/
def applyLocally (s : Server) (o : Outside) (receivedPacket : Packet) (feAddress : Str) :
    Server × List Sent :=
  if receivedPacket.isMessage then
    ({ s with groupMap := processReceivedPacket o.time s.groupMap receivedPacket },
      [(feAddress, { type := .ACK_PACKET, user_id := receivedPacket.user_id })])
  else if receivedPacket.isKeepAlive then (s, [])
  else if receivedPacket.isJoinMessage then
    let r := s.registerUserToServer o receivedPacket feAddress
    (r.1, r.2.2)
  else if receivedPacket.isDisconnect then
    (s.closeClientConnection o.time (receivedPacket.user_id, feAddress), [])
  else (s, [])

/-- The packets that `listenFrontEndCommunication` replicates. -/
def isReplicated (p : Packet) : Bool := p.isMessage || p.isJoinMessage || p.isDisconnect

/-- The packet as it goes over the replication link. -/
def replicationPacket (p : Packet) (feAddress : Str) : Packet :=
  { p with frontEndAddress := feAddress }

/-- What `handleRMCommunication` does with one packet. -/
def handleRMCommunication (s : Server) (o : Outside) (receivedPacket : Packet) : Server :=
  let address := receivedPacket.frontEndAddress
  if receivedPacket.isMessage then
    { s with
      groupMap := processReceivedPacket o.time s.groupMap
        { receivedPacket with type := .REPLICATION_PACKET } }
  else if receivedPacket.isJoinMessage then (s.registerUserToServer o receivedPacket address).1
  else if receivedPacket.isDisconnect then
    s.closeClientConnection o.time (receivedPacket.user_id, address)
  else s

end Server

end InstantMessenger
