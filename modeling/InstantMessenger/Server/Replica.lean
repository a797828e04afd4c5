import InstantMessenger.Server.Server

/-!
# What a replica is a replica of

A primary and a backup do not hold the same memory: they differ in their clocks,
in the notices that only a primary queues, in the front ends they are connected
to.  What is replicated is the **replica state**: the connection counters and,
for each group, its users with their sessions and the sequence of
(username, text) pairs handed to it.

* `Replica`, `Replica.apply` — that state, and what a JOIN, MESSAGE or DISCONNECT
  of a front end does to it.  No clock, no role and no answer is involved.
* `applyLocally_replica`, `handleRMCommunication_replica` — **both code paths
  refine it**: the branches of `listenFrontEndCommunication` on a primary and the
  branches of `handleRMCommunication` on a backup make the same change.
* `closeFrontEndConnection_replica` — what the loss of a front end does, which no
  packet announces.
-/

namespace InstantMessenger

/-! ## The replica state -/

/-- The part of a group that is replicated. -/
structure GroupReplica where
  groupName : Str
  users : List User
  /-- The (username, text) pairs that `processReceivedMessage` was called with. -/
  handed : List (Str × Str)
  deriving DecidableEq, Repr

/-- The replica state. -/
@[ext] structure Replica where
  connectionsCount : Counts
  groups : List GroupReplica

namespace Group

/-- The messages handed to the group: everything queued that is not a notice. -/
def handed (g : Group) : List (Str × Str) :=
  (g.messages_queue.filter fun m => !m.isNotification).map fun m => (m.user, m.text)

/-- The replicated part of a group. -/
def replica (g : Group) : GroupReplica := ⟨g.groupName, g.users, g.handed⟩

end Group

/-- The replicated part of a server. -/
def Server.replica (s : Server) : Replica := ⟨s.connectionsCount, s.groupMap.map Group.replica⟩

namespace Replica

/-- Change the group with this name. -/
def updateGroup (groupName : Str) (f : GroupReplica → GroupReplica) (groups : List GroupReplica) :
    List GroupReplica :=
  groups.map fun g => if g.groupName = groupName then f g else g

/-- The group is added when there is none with this name. -/
def withGroup (groups : List GroupReplica) (groupName : Str) : List GroupReplica :=
  if groups.any fun g => g.groupName == groupName then groups
  else groups ++ [⟨groupName, [], []⟩]

/-- The group gets a session. -/
def addSession (c : Session) (user : Str) (g : GroupReplica) : GroupReplica :=
  { g with users := (Group.addSession c.1 c.2 user g.users).1 }

/-- The group gets a message. -/
def hand (user text : Str) (g : GroupReplica) : GroupReplica :=
  { g with handed := g.handed ++ [(user, text)] }

/-- A JOIN: refused at the limit, else counted and added to its group. -/
def join (user group : Str) (c : Session) (r : Replica) : Replica :=
  let n := Server.incrementNumberOfConnectionsFromUser r.connectionsCount user
  if n.2 = USER_SESSIONS_LIMIT_REACHED then r
  else ⟨n.1, updateGroup group (addSession c user) (withGroup r.groups group)⟩

/-- A MESSAGE: handed to its group; an unknown group gets nothing. -/
def message (user text group : Str) (r : Replica) : Replica :=
  { r with groups := updateGroup group (hand user text) r.groups }

/-- One session ends: its owner releases it, and the owner's counter drops. -/
def dropSession (c : Session) (s : List User × Counts) : List User × Counts :=
  match Group.getUserFromConnectionId s.1 c.1 c.2 with
  | none => s
  | some user =>
    (Group.releaseOwner c.1 c.2 s.1, s.2.set user.username (s.2.get user.username - 1))

/-- A disconnect event in one group. -/
def dropEvent (c : Session) (s : List User × Counts) : List User × Counts :=
  if c.1 = FE_DISCONNECT then
    (s.1.flatMap User.getActiveConnections).foldl
      (fun s d => if d.2 = c.2 then dropSession (d.1, c.2) s else s) s
  else dropSession c s

/-- A disconnect event in every group, the counters handed on. -/
def dropEverywhere (c : Session) : List GroupReplica → Counts → List GroupReplica × Counts
  | [], counts => ([], counts)
  | g :: gs, counts =>
    let r := dropEvent c (g.users, counts)
    let rest := dropEverywhere c gs r.2
    ({ g with users := r.1 } :: rest.1, rest.2)

/-- A DISCONNECT of the session `c`; with the sentinel, of a whole front end. -/
def disconnect (c : Session) (r : Replica) : Replica :=
  let s := dropEverywhere c r.groups r.connectionsCount
  ⟨s.2, s.1⟩

/-- What a packet of the front end `feAddress` does to the replica state. -/
def apply (p : Packet) (feAddress : Str) (r : Replica) : Replica :=
  match p.type with
  | .MESSAGE_PACKET => r.message p.username p.message p.group
  | .JOIN_PACKET => r.join p.username p.group (p.user_id, feAddress)
  | .DISCONNECT_PACKET => r.disconnect (p.user_id, feAddress)
  | _ => r

end Replica

/-! ## The groups refine it -/

namespace Group

@[simp] theorem replica_groupName (g : Group) : g.replica.groupName = g.groupName := rfl

theorem handed_addMessage (g : Group) (m : Message) :
    (g.addMessageToMessageQueue m).handed =
      g.handed ++ if m.isNotification then [] else [(m.user, m.text)] := by
  cases h : m.isNotification <;>
    simp [handed, addMessageToMessageQueue, List.filter_append, h]

@[simp] theorem sendActivityMessage_groupName (g : Group) (user text : Str) (time : Int) :
    (g.sendActivityMessage user text time).groupName = g.groupName := rfl

/-- A notice is not a message handed to the group. -/
@[simp] theorem sendActivityMessage_handed (g : Group) (user text : Str) (time : Int) :
    (g.sendActivityMessage user text time).handed = g.handed := by
  rw [sendActivityMessage, handed_addMessage]
  simp

theorem replica_processReceivedMessage (g : Group) (user text : Str) (time : Int) :
    (g.processReceivedMessage user text time).replica = Replica.hand user text g.replica := by
  simp only [replica, processReceivedMessage, handed_addMessage, Replica.hand]
  simp [addMessageToMessageQueue]

theorem replica_with_users (g : Group) (us : List User) :
    ({ g with users := us } : Group).replica = { g.replica with users := us } := rfl

theorem replica_registerNewSession (isPrimary : Bool) (o : Outside) (g : Group)
    (c : Session) (user : Str) :
    (g.registerNewSession isPrimary o c.1 c.2 user).1.replica =
      Replica.addSession c user g.replica := by
  simp only [registerNewSession, replica_with_users, Replica.addSession]
  split <;> simp [replica]

theorem disconnectSession_replica (isPrimary : Bool) (time : Int) (c : Session) (g : Group)
    (counts : Counts) :
    let r := disconnectSession isPrimary time c.1 c.2 (g, counts)
    let d := Replica.dropSession c (g.users, counts)
    r.1.replica = { g.replica with users := d.1 } ∧ r.2 = d.2 := by
  simp only [disconnectSession, Replica.dropSession]
  cases getUserFromConnectionId g.users c.1 c.2 with
  | none => exact ⟨rfl, rfl⟩
  | some user =>
    refine ⟨?_, rfl⟩
    simp only [replica_with_users]
    split <;> simp [replica]

/-- The sweep over a snapshot of sessions, on a group and on its replica. -/
theorem sweep_replica (isPrimary : Bool) (time : Int) (f : Str) (snapshot : List Session)
    (g : Group) (counts : Counts) :
    let r := snapshot.foldl
      (fun s d => if d.2 = f then disconnectSession isPrimary time d.1 f s else s) (g, counts)
    let d := snapshot.foldl
      (fun s d => if d.2 = f then Replica.dropSession (d.1, f) s else s) (g.users, counts)
    r.1.replica = { g.replica with users := d.1 } ∧ r.2 = d.2 := by
  induction snapshot generalizing g counts with
  | nil => exact ⟨rfl, rfl⟩
  | cons x xs ih =>
    simp only [List.foldl_cons]
    by_cases hx : x.2 = f
    · rw [if_pos hx, if_pos hx]
      have hstep := disconnectSession_replica isPrimary time (x.1, f) g counts
      set r := disconnectSession isPrimary time x.1 f (g, counts) with hr
      obtain ⟨hrep, hcnt⟩ := hstep
      have hpair : (r.1.users, r.2) = Replica.dropSession (x.1, f) (g.users, counts) :=
        Prod.ext (congrArg GroupReplica.users hrep) hcnt
      have hrest := ih r.1 r.2
      rw [hpair] at hrest
      refine ⟨hrest.1.trans ?_, hrest.2⟩
      rw [hrep]
    · rw [if_neg hx, if_neg hx]
      exact ih g counts

theorem handleDisconnectEvent_replica (isPrimary : Bool) (time : Int) (c : Session) (g : Group)
    (counts : Counts) :
    let r := handleDisconnectEvent isPrimary time c.1 c.2 (g, counts)
    let d := Replica.dropEvent c (g.users, counts)
    r.1.replica = { g.replica with users := d.1 } ∧ r.2 = d.2 := by
  simp only [handleDisconnectEvent, Replica.dropEvent, getAllActiveConnectionIds]
  split
  · exact sweep_replica isPrimary time c.2 _ g counts
  · exact disconnectSession_replica isPrimary time c g counts

end Group

/-! ## The server refines it -/

namespace Server

theorem updateGroup_replica {f : Group → Group} {F : GroupReplica → GroupReplica}
    (h : ∀ g, (f g).replica = F g.replica) (name : Str) (gs : List Group) :
    (updateGroup name f gs).map Group.replica =
      Replica.updateGroup name F (gs.map Group.replica) := by
  simp only [updateGroup, Replica.updateGroup, List.map_map]
  refine List.map_congr_left ?_
  intro g _
  by_cases hn : g.groupName = name <;> simp [hn, h g]

theorem any_groupName_replica (gs : List Group) (name : Str) :
    ((gs.map Group.replica).any fun g => g.groupName == name) = groupExists gs name := by
  simp [groupExists, List.any_map, Function.comp_def]

theorem withGroup_replica (gs : List Group) (name : Str) :
    (withGroup gs name).map Group.replica =
      Replica.withGroup (gs.map Group.replica) name := by
  rw [withGroup, Replica.withGroup, any_groupName_replica]
  split
  · rfl
  · rw [List.map_append]
    rfl

/-- Changing a group that does not exist changes nothing. -/
theorem updateGroup_of_not_exists {F : GroupReplica → GroupReplica} {gs : List Group}
    {name : Str} (h : groupExists gs name = false) :
    Replica.updateGroup name F (gs.map Group.replica) = gs.map Group.replica := by
  simp only [groupExists, List.any_eq_false] at h
  simp only [Replica.updateGroup, List.map_map]
  refine List.map_congr_left fun g hg => if_neg ?_
  simpa using h g hg

theorem processReceivedPacket_replica (time : Int) (gs : List Group) (p : Packet) :
    (processReceivedPacket time gs p).map Group.replica =
      Replica.updateGroup p.group (Replica.hand p.username p.message)
        (gs.map Group.replica) := by
  rw [processReceivedPacket]
  cases h : groupExists gs p.group with
  | true =>
    exact updateGroup_replica (fun g => g.replica_processReceivedMessage _ _ _) _ _
  | false => exact (updateGroup_of_not_exists h).symm

theorem registerUserToServer_replica (s : Server) (o : Outside) (p : Packet) (fe : Str) :
    (s.registerUserToServer o p fe).1.replica =
      s.replica.join p.username p.group (p.user_id, fe) := by
  unfold registerUserToServer Replica.join
  by_cases h : (incrementNumberOfConnectionsFromUser s.connectionsCount p.username).2 =
      USER_SESSIONS_LIMIT_REACHED
  · simp [replica, h]
  · simp only [replica, h, if_false, registerUserToGroup, Replica.mk.injEq, true_and]
    rw [← withGroup_replica]
    exact updateGroup_replica
      (fun g => Group.replica_registerNewSession _ _ g (p.user_id, fe) _) _ _

theorem propagate_replica (isPrimary : Bool) (time : Int) (c : Session) (gs : List Group)
    (counts : Counts) :
    let r := propagateSocketDisconnectionEvent isPrimary time c gs counts
    let d := Replica.dropEverywhere c (gs.map Group.replica) counts
    r.1.map Group.replica = d.1 ∧ r.2 = d.2 := by
  induction gs generalizing counts with
  | nil => exact ⟨rfl, rfl⟩
  | cons g gs ih =>
    obtain ⟨hrep, hcnt⟩ := Group.handleDisconnectEvent_replica isPrimary time c g counts
    simp only [propagateSocketDisconnectionEvent, List.map_cons, Replica.dropEverywhere]
    have hrest := ih (Group.handleDisconnectEvent isPrimary time c.1 c.2 (g, counts)).2
    rw [hcnt] at hrest
    rw [hcnt]
    refine ⟨?_, hrest.2⟩
    rw [hrest.1, hrep]
    rfl

theorem closeClientConnection_replica (s : Server) (time : Int) (c : Session) :
    (s.closeClientConnection time c).replica = s.replica.disconnect c := by
  obtain ⟨hgs, hcnt⟩ :=
    propagate_replica s.isPrimaryServer time c s.groupMap s.connectionsCount
  exact Replica.ext hcnt hgs

/-- **A primary refines the replica machine**, whatever its clock and the stored
histories are. -/
theorem applyLocally_replica (s : Server) (o : Outside) (p : Packet) (fe : Str) :
    (s.applyLocally o p fe).1.replica = s.replica.apply p fe := by
  unfold applyLocally Replica.apply
  cases h : p.type <;>
    simp only [Packet.isMessage, Packet.isKeepAlive, Packet.isJoinMessage, Packet.isDisconnect,
      h, beq_self_eq_true, reduceCtorEq, beq_iff_eq, if_true, if_false]
  case MESSAGE_PACKET => exact Replica.ext rfl (processReceivedPacket_replica _ _ _)
  case JOIN_PACKET => exact registerUserToServer_replica s o p fe
  case DISCONNECT_PACKET => exact closeClientConnection_replica s o.time _

/-- **A backup refines the same machine** when it gets the replication packet. -/
theorem handleRMCommunication_replica (s : Server) (o : Outside) (p : Packet) (fe : Str) :
    (s.handleRMCommunication o (replicationPacket p fe)).replica = s.replica.apply p fe := by
  unfold handleRMCommunication Replica.apply
  cases h : p.type <;>
    simp only [Packet.isMessage, Packet.isJoinMessage, Packet.isDisconnect, replicationPacket,
      h, beq_self_eq_true, reduceCtorEq, beq_iff_eq, if_true, if_false]
  case MESSAGE_PACKET => exact Replica.ext rfl (processReceivedPacket_replica _ _ _)
  case JOIN_PACKET => exact registerUserToServer_replica s o _ fe
  case DISCONNECT_PACKET => exact closeClientConnection_replica s o.time _

/-- A packet that is not replicated changes no replica state. -/
theorem replica_apply_of_not_replicated {p : Packet} (h : isReplicated p = false) (fe : Str)
    (r : Replica) : r.apply p fe = r := by
  unfold Replica.apply
  cases hp : p.type <;>
    simp_all [isReplicated, Packet.isMessage, Packet.isJoinMessage, Packet.isDisconnect]

/-- The loss of a connected front end is a disconnect of all its sessions. -/
theorem closeFrontEndConnection_replica (s : Server) (time : Int) (fe : Str) :
    (s.closeFrontEndConnection time fe).replica =
      if s.feAddresses.contains fe then s.replica.disconnect (FE_DISCONNECT, fe)
      else s.replica := by
  rw [closeFrontEndConnection]
  split
  · exact closeClientConnection_replica s time (FE_DISCONNECT, fe)
  · rfl

end Server

end InstantMessenger
