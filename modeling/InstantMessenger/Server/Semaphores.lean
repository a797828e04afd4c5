import InstantMessenger.Foundations.LockOrder
import InstantMessenger.Util.Definitions

/-!
# The semaphores of a server

Which semaphores the functions of a server take, and in what order: `server.cpp`,
`server_group_manager.cpp`, `Group.cpp`, `server_message_manager.cpp`, `user.cpp`,
`FeAddressBook.cpp` and `ConnectionMonitor.cpp`.  Each function of the source is given by
its `wait`s and `post`s; what it reads from the data (whether this is the primary, which
users and sessions there are, how long the history is) is an argument, so that nothing is
assumed about it.

* `Mutex` — the semaphores that start with 1, and `Mutex.rank`, the order they are taken in:
  `sockets_connections`, a group's users, its message queue or a user's own, the address
  book.
* `Semaphores.Role`, `Semaphores.programs` — the threads, and all they may do.
* `Semaphores.no_deadlock` — **in no reachable state is there a set of threads that are all
  blocked on semaphores held in the set**, and `Semaphores.exists_step`.
-/

namespace InstantMessenger

open LockOrder Transition

/-- The semaphores that guard data.  A `User` is given by its address. -/
inductive Mutex where
  | sockets_connections
  | feAddresses
  | users (group : Str)
  | messageQueue (group : Str)
  | user (address : Nat)
  | feAddressBook
  | socketLastKeepAlive
  deriving DecidableEq

/-- The order in which they are taken. -/
def Mutex.rank : Mutex → Nat
  | .sockets_connections => 0
  | .feAddresses => 0
  | .users _ => 1
  | .messageQueue _ => 2
  | .user _ => 2
  | .feAddressBook => 3
  | .socketLastKeepAlive => 3

namespace Semaphores

abbrev Ops := List (Op Mutex)

/-! ## `FeAddressBook.cpp`, `ConnectionMonitor.cpp` -/

def getInternalSocketId : Ops := guarded .feAddressBook []

def removeServerSocket : Ops := guarded .feAddressBook []

def refresh : Ops := guarded .socketLastKeepAlive []

def killSocket : Ops := guarded .socketLastKeepAlive []

/-- `keepsMonitoringConnection`, with so many rounds of its loop. -/
def keepsMonitoringConnection (rounds : List Unit) : Ops :=
  guarded .socketLastKeepAlive [] ++ rounds.flatMap fun _ => guarded .socketLastKeepAlive []

def monitor (rounds : List Unit) : Ops :=
  keepsMonitoringConnection rounds ++ guarded .socketLastKeepAlive []

/-! ## `user.cpp` -/

def initSessionList (user : Nat) : Ops := guarded (.user user) []

/-- `User::User`. -/
def newUser (user : Nat) : Ops := initSessionList user

/-- Both branches post before they return. -/
def registerSession (user : Nat) : Ops := guarded (.user user) []

def releaseSession (user : Nat) : Ops := guarded (.user user) []

/-! ## `server_message_manager.cpp` -/

def getSocketFromAddress : Ops := getInternalSocketId

def sendMessageToSession : Ops := getSocketFromAddress

def sendMessageToAddress : Ops := getSocketFromAddress

def sendPacketToSocketId : Ops := getSocketFromAddress

def broadcastMessageToUsers (connectionIds : List (Str × Str)) : Ops :=
  connectionIds.flatMap fun _ => sendMessageToSession

/-! ## `Group.cpp` -/

def addMessageToMessageQueue (group : Str) : Ops := guarded (.messageQueue group) []

def sendActivityMessage (group : Str) : Ops := addMessageToMessageQueue group

def processReceivedMessage (group : Str) : Ops := addMessageToMessageQueue group

def sendAcceptToUser : Ops := sendPacketToSocketId

def sendHistoryToUser (group : Str) (messages : List Message) : Ops :=
  guarded (.messageQueue group) (messages.flatMap fun _ => sendMessageToAddress)

/-- What `registerNewSession` finds. -/
structure Joining where
  isPrimaryServer : Bool
  history : List Message
  /-- The username is in the list of users. -/
  known : Bool
  /-- `isPrimaryServer` when it is read again. -/
  isPrimaryServer' : Bool
  /-- The `User` that the session is registered with. -/
  user : Nat

def registerNewSession (group : Str) (j : Joining) : Ops :=
  (if j.isPrimaryServer then sendAcceptToUser ++ sendHistoryToUser group j.history else []) ++
    guarded (.users group)
      ((if j.known then []
        else newUser j.user ++ (if j.isPrimaryServer' then sendActivityMessage group else [])) ++
      registerSession j.user)

/-- What `disconnectSession` finds, when there is a user for the pair. -/
structure Leaving where
  user : Nat
  /-- No session is left. -/
  last : Bool
  isPrimaryServer : Bool

def disconnectSession (group : Str) : Option Leaving → Ops
  | none => []
  | some l =>
    releaseSession l.user ++
      (if l.last then (if l.isPrimaryServer then sendActivityMessage group else []) else [])

/-- One `disconnectSession` for the pair of a client, or one for each session of a front
end. -/
def handleDisconnectEvent (group : Str) (sessions : List (Option Leaving)) : Ops :=
  guarded (.users group) (sessions.flatMap (disconnectSession group))

/-- What a round of `consumeMessageQueue` finds, when the queue is not empty. -/
structure Consuming where
  isPrimaryServer : Bool
  connectionIds : List (Str × Str)

/-- One round of the loops of `consumeMessageQueue`. -/
def consume (group : Str) : Option Consuming → Ops
  | none => guarded (.messageQueue group) []
  | some c =>
    guarded (.messageQueue group) [] ++
      guarded (.users group)
        (if c.isPrimaryServer then broadcastMessageToUsers c.connectionIds else [])

def consumeMessageQueue (group : Str) (rounds : List (Option Consuming)) : Ops :=
  rounds.flatMap (consume group)

/-! ## `server_group_manager.cpp` -/

def registerUserToGroup (group : Str) (j : Joining) : Ops := registerNewSession group j

def processReceivedPacket (group : Str) (groupExists : Bool) : Ops :=
  if groupExists then processReceivedMessage group else []

/-- The groups of the map, each with what its `handleDisconnectEvent` finds. -/
def propagateSocketDisconnectionEvent (groupMap : List (Str × List (Option Leaving))) : Ops :=
  groupMap.flatMap fun g => handleDisconnectEvent g.1 g.2

/-! ## `server.cpp` -/

def registerUserToServer (limitReached isPrimaryServer : Bool) (group : Str) (j : Joining) :
    Ops :=
  guarded .sockets_connections
    (if limitReached then (if isPrimaryServer then getSocketFromAddress else []) else []) ++
  (if limitReached then [] else registerUserToGroup group j)

def closeClientConnection (groupMap : List (Str × List (Option Leaving))) : Ops :=
  guarded .sockets_connections (propagateSocketDisconnectionEvent groupMap)

/-- `purgeFeConnection`, with the addresses of `feAddresses` that its loop finds. -/
def purgeFeConnection (found : List Str) : Ops :=
  guarded .feAddresses (found.flatMap fun _ => removeServerSocket)

/-- What `closeFrontEndConnection` finds. -/
structure Closing where
  connectionFound : Bool
  groupMap : List (Str × List (Option Leaving))
  found : List Str

def closeFrontEndConnection (c : Closing) : Ops :=
  guarded .feAddresses [] ++
    (if c.connectionFound then
      closeClientConnection c.groupMap ++ getSocketFromAddress ++ purgeFeConnection c.found
    else [])

/-- What a thread does with a packet. -/
inductive Received where
  | message (group : Str) (groupExists : Bool)
  | keepAlive
  | join (limitReached isPrimaryServer : Bool) (group : Str) (j : Joining)
  | disconnect (groupMap : List (Str × List (Option Leaving)))
  | other

/-- One round of `listenFrontEndCommunication`; the packet is replicated inside the first
section. -/
def listen (r : Received) : Ops :=
  guarded .sockets_connections [] ++
    match r with
    | .message group groupExists => processReceivedPacket group groupExists
    | .keepAlive => refresh
    | .join limitReached isPrimaryServer group j =>
      registerUserToServer limitReached isPrimaryServer group j
    | .disconnect groupMap => closeClientConnection groupMap
    | .other => []

def listenFrontEndCommunication (packets : List Received) (c : Closing) : Ops :=
  getSocketFromAddress ++ packets.flatMap listen ++ killSocket ++ closeFrontEndConnection c

def monitorConnection (rounds : List Unit) (c : Closing) : Ops :=
  getSocketFromAddress ++ monitor rounds ++ closeFrontEndConnection c

/-- One round of `handleRMCommunication`; it does nothing with a keep-alive. -/
def replicate (r : Received) : Ops :=
  guarded .sockets_connections [] ++
    match r with
    | .message group groupExists => processReceivedPacket group groupExists
    | .join limitReached isPrimaryServer group j =>
      registerUserToServer limitReached isPrimaryServer group j
    | .disconnect groupMap => closeClientConnection groupMap
    | .keepAlive => []
    | .other => []

def handleRMCommunication (isPrimaryServer : Bool) (packets : List Received) : Ops :=
  if isPrimaryServer then [] else packets.flatMap replicate

/-! ## The threads -/

/-- What a thread was started for. -/
inductive Role where
  | listener
  | monitor
  | replication
  | consumer (group : Str)

/-- All that a thread may do.  A loop of the source makes any number of rounds. -/
def programs : Role → Set Ops
  | .listener => { ops | ∃ packets c, ops = listenFrontEndCommunication packets c }
  | .monitor => { ops | ∃ rounds c, ops = monitorConnection rounds c }
  | .replication => { ops | ∃ isPrimaryServer packets,
      ops = handleRMCommunication isPrimaryServer packets }
  | .consumer group => { ops | ∃ rounds, ops = consumeMessageQueue group rounds }

/-! ## The order -/

abbrev InOrder (r : Nat) (ops : Ops) : Prop := Nested Mutex.rank r ops

/-- A section with nothing inside. -/
theorem inOrder_guarded_nil (m : Mutex) : InOrder m.rank (guarded m []) :=
  Nested.guarded le_rfl .nil

theorem inOrder_addMessageToMessageQueue (group : Str) :
    InOrder 2 (addMessageToMessageQueue group) := inOrder_guarded_nil (.messageQueue group)

theorem inOrder_getSocketFromAddress : InOrder 3 getSocketFromAddress :=
  inOrder_guarded_nil .feAddressBook

theorem inOrder_sendHistoryToUser (group : Str) (messages : List Message) :
    InOrder 2 (sendHistoryToUser group messages) := by
  refine Nested.guarded (le_refl (Mutex.messageQueue group).rank) ?_
  exact Nested.flatMap fun _ => inOrder_getSocketFromAddress

theorem inOrder_registerNewSession (group : Str) (j : Joining) :
    InOrder 1 (registerNewSession group j) := by
  refine Nested.append ?_ ?_
  · refine Nested.ite ?_ .nil
    exact (inOrder_getSocketFromAddress.mono (by decide)).append
      ((inOrder_sendHistoryToUser group j.history).mono (by decide))
  · refine Nested.guarded (le_refl (Mutex.users group).rank) ?_
    have hsession : InOrder 2 (registerSession j.user) := inOrder_guarded_nil (.user j.user)
    have hnew : InOrder 2 (newUser j.user) := inOrder_guarded_nil (.user j.user)
    exact (Nested.ite .nil (hnew.append
      (Nested.ite (inOrder_addMessageToMessageQueue group) .nil))).append hsession

theorem inOrder_disconnectSession (group : Str) (o : Option Leaving) :
    InOrder 2 (disconnectSession group o) := by
  cases o with
  | none => exact .nil
  | some l =>
    have hrelease : InOrder 2 (releaseSession l.user) := inOrder_guarded_nil (.user l.user)
    exact hrelease.append
      (Nested.ite (Nested.ite (inOrder_addMessageToMessageQueue group) .nil) .nil)

theorem inOrder_handleDisconnectEvent (group : Str) (sessions : List (Option Leaving)) :
    InOrder 1 (handleDisconnectEvent group sessions) :=
  Nested.guarded (le_refl (Mutex.users group).rank)
    (Nested.flatMap (inOrder_disconnectSession group))

theorem inOrder_consume (group : Str) (o : Option Consuming) : InOrder 1 (consume group o) := by
  have hqueue : InOrder 1 (guarded (.messageQueue group) []) :=
    (inOrder_guarded_nil (.messageQueue group)).mono (Nat.le_succ 1)
  cases o with
  | none => exact hqueue
  | some c =>
    refine hqueue.append (Nested.guarded (le_refl (Mutex.users group).rank) ?_)
    refine Nested.ite (Nested.flatMap ?_) .nil
    intro _
    exact inOrder_getSocketFromAddress.mono (Nat.le_succ 2)

theorem inOrder_registerUserToServer (limitReached isPrimaryServer : Bool) (group : Str)
    (j : Joining) :
    InOrder 0 (registerUserToServer limitReached isPrimaryServer group j) := by
  refine Nested.append ?_ ?_
  · refine Nested.guarded (le_refl Mutex.sockets_connections.rank) ?_
    exact Nested.ite
      (Nested.ite (inOrder_getSocketFromAddress.mono (by decide)) .nil) .nil
  · exact Nested.ite .nil ((inOrder_registerNewSession group j).mono (by decide))

theorem inOrder_closeClientConnection (groupMap : List (Str × List (Option Leaving))) :
    InOrder 0 (closeClientConnection groupMap) := by
  refine Nested.guarded (le_refl Mutex.sockets_connections.rank) ?_
  exact Nested.flatMap fun g => inOrder_handleDisconnectEvent g.1 g.2

theorem inOrder_closeFrontEndConnection (c : Closing) :
    InOrder 0 (closeFrontEndConnection c) := by
  refine (inOrder_guarded_nil .feAddresses).append (Nested.ite ?_ .nil)
  refine ((inOrder_closeClientConnection c.groupMap).append
    (inOrder_getSocketFromAddress.mono (by decide))).append ?_
  refine Nested.guarded (le_refl Mutex.feAddresses.rank) (Nested.flatMap ?_)
  intro _
  exact (inOrder_guarded_nil .feAddressBook).mono (by decide)

theorem inOrder_listen (r : Received) : InOrder 0 (listen r) := by
  refine (inOrder_guarded_nil .sockets_connections).append ?_
  cases r with
  | message group groupExists =>
    exact Nested.ite ((inOrder_addMessageToMessageQueue group).mono (by decide)) .nil
  | keepAlive => exact (inOrder_guarded_nil .socketLastKeepAlive).mono (by decide)
  | join limitReached isPrimaryServer group j =>
    exact inOrder_registerUserToServer limitReached isPrimaryServer group j
  | disconnect groupMap => exact inOrder_closeClientConnection groupMap
  | other => exact .nil

theorem inOrder_replicate (r : Received) : InOrder 0 (replicate r) := by
  refine (inOrder_guarded_nil .sockets_connections).append ?_
  cases r with
  | message group groupExists =>
    exact Nested.ite ((inOrder_addMessageToMessageQueue group).mono (by decide)) .nil
  | keepAlive => exact .nil
  | join limitReached isPrimaryServer group j =>
    exact inOrder_registerUserToServer limitReached isPrimaryServer group j
  | disconnect groupMap => exact inOrder_closeClientConnection groupMap
  | other => exact .nil

theorem inOrder_monitor (rounds : List Unit) : InOrder 0 (monitor rounds) := by
  have hsection : InOrder 0 (guarded .socketLastKeepAlive []) :=
    (inOrder_guarded_nil .socketLastKeepAlive).mono (by decide)
  exact (hsection.append (Nested.flatMap fun _ => hsection)).append hsection

/-- Every thread takes its semaphores in the order of their ranks. -/
theorem inOrder_programs (role : Role) : ∀ ops ∈ programs role, InOrder 0 ops := by
  have hsocket : InOrder 0 getSocketFromAddress :=
    inOrder_getSocketFromAddress.mono (by decide)
  intro ops hops
  cases role with
  | listener =>
    obtain ⟨packets, c, rfl⟩ := hops
    have hkill : InOrder 0 killSocket := (inOrder_guarded_nil .socketLastKeepAlive).mono (by decide)
    exact ((hsocket.append (Nested.flatMap inOrder_listen)).append hkill).append
      (inOrder_closeFrontEndConnection c)
  | monitor =>
    obtain ⟨rounds, c, rfl⟩ := hops
    exact (hsocket.append (inOrder_monitor rounds)).append (inOrder_closeFrontEndConnection c)
  | replication =>
    obtain ⟨isPrimaryServer, packets, rfl⟩ := hops
    exact Nested.ite .nil (Nested.flatMap inOrder_replicate)
  | consumer group =>
    obtain ⟨rounds, rfl⟩ := hops
    exact Nested.flatMap fun o => (inOrder_consume group o).mono (by decide)

theorem rank_lt (m : Mutex) : m.rank < 4 := by
  cases m <;> simp [Mutex.rank]

/-! ## The result -/

variable {τ : Type*} [DecidableEq τ]

/-- The threads of a server, each with its role. -/
def server (roles : τ → Role) : System (State τ Mutex) τ := system fun t => programs (roles t)

/-- **No deadlock among the semaphores.**  Whatever threads a server has, and whatever they
find, no reachable state has a set of threads that are all blocked on semaphores held by
threads of the set. -/
theorem no_deadlock (roles : τ → Role) :
    ∀ s, (server roles).Reachable s → ∀ D : Set τ, ¬ Deadlocked s D := by
  intro s hs D
  exact not_deadlocked rank_lt (fun t => inOrder_programs (roles t)) hs D

/-- Thread 1 consumes the queue of the group with the empty name, and the others replicate the
loss of a client of that group. -/
def consumerAndReplicas (t : Nat) : Role := if t = 1 then .consumer [] else .replication

def consuming : State Nat Mutex where
  value _ := 1
  held _ := []
  rest t :=
    if t = 1 then consumeMessageQueue [] [some ⟨true, [([], [])]⟩]
    else handleRMCommunication false [.disconnect [([], [some ⟨0, true, false⟩])]]

/-- Thread 0 is inside `sockets_connections` and blocked on the users, which thread 1 reads, and
thread 2 is blocked on `sockets_connections`. -/
theorem no_deadlock_nested :
    ∃ s, (server consumerAndReplicas).exec consuming [2, 2, 0, 0, 0, 1, 1, 1] = some s ∧
      s.held 0 = [.sockets_connections] ∧ Blocked s 0 (.users []) ∧ s.held 1 = [.users []] ∧
      Blocked s 2 .sockets_connections ∧ ¬ Deadlocked s {0, 1, 2} := by
  have hinit : (server consumerAndReplicas).init consuming := by
    refine ⟨fun _ => rfl, fun t => ⟨rfl, ?_⟩⟩
    by_cases ht : t = 1
    · rw [ht]
      exact ⟨_, rfl⟩
    · simp only [consumerAndReplicas, consuming, if_neg ht]
      exact ⟨_, _, rfl⟩
  obtain ⟨s, hs⟩ : ∃ s, (server consumerAndReplicas).exec consuming [2, 2, 0, 0, 0, 1, 1, 1] =
    some s := ⟨_, rfl⟩
  have hdeadlock := no_deadlock consumerAndReplicas s (System.reachable_of_exec hinit hs) {0, 1, 2}
  refine ⟨s, hs, ?_, ?_, ?_, ?_, hdeadlock⟩ <;> cases hs
  · rfl
  · exact ⟨rfl, rfl⟩
  · rfl
  · exact ⟨rfl, rfl⟩

/-- While a thread has not finished, some thread can go on. -/
theorem exists_step (roles : τ → Role) {s : State τ Mutex} (hs : (server roles).Reachable s)
    {t : τ} (ht : s.rest t ≠ []) : ∃ u v, (server roles).step s u = some v :=
  LockOrder.exists_step rank_lt (fun t => inOrder_programs (roles t)) hs ht

end Semaphores

end InstantMessenger
