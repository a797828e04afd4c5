import InstantMessenger.Foundations.Slots
import InstantMessenger.Foundations.Transition
import InstantMessenger.Server.Replica
import InstantMessenger.Server.ReplicationLink

/-!
# A front end and the servers behind it

`ProxyFE.cpp`, from a client's socket to `serverRM_socket`, together with the
primary that reads it, the backups it replicates to, and the crash of the primary.

* `ClientThread`, `Failover.processing_message` — a message goes from the thread of
  its client through one slot to the sender thread; a JOIN or a DISCONNECT is sent
  by the thread itself.
* `Failover.sendPacket`, `Failover.sendToServer` — one turn of the retry loop, which
  is left when `write` reports no error.
* `Failover.step`, `failover` — the threads of the front end, of the primary and of
  the backups, the crash, the promotion and the new connection as a transition
  system.

A backup confirms what it has handled; the threads that do so are those of
`InstantMessenger.Server.Confirmation`, and here the primary reads a confirmation
once the backup holds no packet of it any more.
-/

namespace InstantMessenger

open Slots

/-- Where the thread of a client is in `listenClientCommunication`. -/
inductive ClientThread where
  | reading
  /-- In front of `processing_message_semaphore->wait()`. -/
  | waiting (x : Tagged)
  /-- In its own call of `sendToServer`. -/
  | sending (x : Tagged)
  deriving DecidableEq, Repr

/-- What is behind the number `serverRM_socket`. -/
inductive ServerSocket where
  | connected
  /-- The peer has crashed, and nobody has noticed. -/
  | unseen
  | closed
  /-- Closed, and the number was given to the socket of a client. -/
  | reused
  deriving DecidableEq, Repr

/-- Where the primary is in `listenFrontEndCommunication`.  The backups have
numbers, and a packet goes to them in this order. -/
inductive PrimaryThread where
  | reading
  /-- About to send to the backup with this number. -/
  | replicating (x : Tagged) (backup : Nat)
  /-- About to read its confirmation. -/
  | confirming (x : Tagged) (backup : Nat)
  /-- After the replication section. -/
  | replicated (x : Tagged)
  deriving DecidableEq, Repr

/-- A server, the replication packets it has not handled, and the serial numbers of
the messages it has handed to their groups. -/
structure Node where
  server : Server
  incoming : List Tagged
  handed : List Nat

/-- The message is handed to its group when there is such a group. -/
def handedTo (groups : List Group) (x : Tagged) : List Nat :=
  if x.packet.isMessage && Server.groupExists groups x.packet.group then [x.serial] else []

/-- `handleRMCommunication`: the next packet of the primary is handled. -/
def Node.handle (b : Node) (o : Outside) : Option Node :=
  match b.incoming with
  | [] => none
  | x :: rest =>
    some
      { server := b.server.handleRMCommunication o x.packet
        incoming := rest
        handed := b.handed ++ handedTo b.server.groupMap x }

/-- `applyLocally`: the primary applies a packet of the front end. -/
def Node.finish (b : Node) (feAddress : Str) (o : Outside) (x : Tagged) : Node :=
  { b with
    server := (b.server.applyLocally o x.packet feAddress).1
    handed := b.handed ++ handedTo b.server.groupMap x }

/-- A front end and its servers.  `accepted` are the groups a client was accepted
in, `read` the serial numbers of the messages that were read from clients, and
`heir` the backup that takes over. -/
structure Failover where
  threads : List ClientThread
  /-- `none` when the semaphore is free. -/
  processing_message : Option Tagged
  serverRM_socket : ServerSocket
  buffer : List Tagged
  primary : Option Node
  listener : PrimaryThread
  backups : List Node
  heir : Option Nat
  accepted : List Str
  read : List Nat
  serial : Nat

/-- A step of the front end, of a server, or of nature. -/
inductive FailoverStep where
  /-- A client connects, and may get the number of the closed socket. -/
  | connect (takesNumber : Bool)
  /-- The client with that number leaves. -/
  | leave
  | readClient (thread : Nat) (p : Packet)
  /-- `processIncomingClientMessage`, once the semaphore is free. -/
  | handOver (thread : Nat)
  /-- A turn of the sender's loop. -/
  | send (succeeds : Bool)
  /-- A turn of the loop of a client's thread. -/
  | sendOwn (thread : Nat) (succeeds : Bool)
  /-- `handleServerDisconnection`. -/
  | see
  /-- `handleServerConnection`. -/
  | accept
  | readFrontEnd
  | replicate
  | handle (backup : Nat) (o : Outside)
  | readConfirmation
  | post
  | finish (o : Outside)
  /-- The primary crashes, and this backup will take over. -/
  | crash (heir : Nat)
  | promote
  /-- The new primary handles what the old one has sent it. -/
  | handlePromoted (o : Outside)

namespace Failover

/-- `Socket::sendPacket` on `serverRM_socket`: `none` is `ERROR_SENDING`.  A write
to a peer whose crash nobody has noticed may succeed. -/
def sendPacket (s : Failover) (succeeds : Bool) (x : Tagged) : Option Failover :=
  match s.serverRM_socket with
  | .connected => some { s with buffer := s.buffer ++ [x] }
  | .unseen => if succeeds then some s else none
  | .closed => none
  | .reused => some s

/-- A turn of the loop of `ProxyFE::sendToServer`: after an error the next one is
a retry, else the call returns. -/
def sendToServer (s : Failover) (succeeds : Bool) (x : Tagged)
    (returns : Failover → Failover) : Failover :=
  ((s.sendPacket succeeds x).map returns).getD s

/-- A client is accepted when an ACCEPT is sent. -/
def acceptedIn (p : Packet) (sent : List Sent) : List Str :=
  if sent.any fun r => r.2.type == .ACCEPT_PACKET then [p.group] else []

/-- What a step does.  A client sends messages to a group it was accepted in. -/
def step (feAddress : Str) (s : Failover) : FailoverStep → Option Failover
  | .connect takesNumber =>
    if takesNumber then
      if s.serverRM_socket = .closed then
        some { s with threads := s.threads ++ [.reading], serverRM_socket := .reused }
      else none
    else some { s with threads := s.threads ++ [.reading] }
  | .leave =>
    if s.serverRM_socket = .reused then some { s with serverRM_socket := .closed } else none
  | .readClient i p =>
    let x : Tagged := ⟨s.serial, p⟩
    if s.threads[i]? = some .reading ∧ Server.isReplicated p = true ∧
        (p.isMessage = true → p.group ∈ s.accepted) then
      some { s with
        threads := s.threads.set i (if p.isMessage then .waiting x else .sending x)
        read := s.read ++ if p.isMessage then [s.serial] else []
        serial := s.serial + 1 }
    else none
  | .handOver i =>
    match s.threads[i]?, s.processing_message with
    | some (.waiting x), none =>
      some { s with threads := s.threads.set i .reading, processing_message := some x }
    | _, _ => none
  | .send succeeds =>
    s.processing_message.map fun x =>
      s.sendToServer succeeds x fun t => { t with processing_message := none }
  | .sendOwn i succeeds =>
    match s.threads[i]? with
    | some (.sending x) =>
      some (s.sendToServer succeeds x fun t => { t with threads := t.threads.set i .reading })
    | _ => none
  | .see =>
    if s.serverRM_socket = .unseen then some { s with serverRM_socket := .closed } else none
  | .accept =>
    if (s.serverRM_socket = .closed ∨ s.serverRM_socket = .reused) ∧ s.primary.isSome = true then
      some { s with serverRM_socket := .connected }
    else none
  | .readFrontEnd =>
    match s.primary, s.listener, s.buffer with
    | some _, .reading, x :: rest =>
      some { s with listener := .replicating x 0, buffer := rest }
    | _, _, _ => none
  | .replicate =>
    match s.listener with
    | .replicating x i =>
      s.backups[i]?.map fun b =>
        { s with
          backups := s.backups.set i
            { b with
              incoming := b.incoming ++
                [{ x with packet := Server.replicationPacket x.packet feAddress }] }
          listener := .confirming x i }
    | _ => none
  | .handle i o =>
    s.backups[i]?.bind fun b => (b.handle o).map fun b' =>
      { s with backups := s.backups.set i b' }
  | .readConfirmation =>
    match s.listener with
    | .confirming x i =>
      s.backups[i]?.bind fun b =>
        if b.incoming = [] then some { s with listener := .replicating x (i + 1) } else none
    | _ => none
  | .post =>
    match s.listener with
    | .replicating x i =>
      if s.backups.length ≤ i then some { s with listener := .replicated x } else none
    | _ => none
  | .finish o =>
    match s.primary, s.listener with
    | some b, .replicated x =>
      some { s with
        primary := some (b.finish feAddress o x)
        listener := .reading
        accepted := s.accepted ++
          acceptedIn x.packet (b.server.applyLocally o x.packet feAddress).2 }
    | _, _ => none
  | .crash k =>
    if s.primary.isSome = true ∧ s.heir = none ∧ k < s.backups.length then
      some { s with
        primary := none
        listener := .reading
        buffer := []
        serverRM_socket := .unseen
        heir := some k }
    else none
  | .promote =>
    match s.primary, s.heir with
    | none, some k =>
      s.backups[k]?.map fun b =>
        { s with
          primary := some { b with
            server := { b.server with isPrimaryServer := true, feAddresses := [feAddress] } }
          backups := s.backups.eraseIdx k }
    | _, _ => none
  | .handlePromoted o =>
    s.primary.bind fun b => (b.handle o).map fun b' => { s with primary := some b' }

/-- A primary and its backups, connected to a front end. -/
def start (feAddress : Str) (backups : Nat) : Failover where
  threads := []
  processing_message := none
  serverRM_socket := .connected
  buffer := []
  primary := some ⟨Server.new true [feAddress], [], []⟩
  listener := .reading
  backups := List.replicate backups ⟨Server.new false [], [], []⟩
  heir := none
  accepted := []
  read := []
  serial := 0

end Failover

namespace Failover

/-- Nothing is in flight, the sender is idle, and there is a new primary. -/
structure Quiescent (s : Failover) (b : Node) : Prop where
  threads : ∀ t ∈ s.threads, t = .reading
  slot : s.processing_message = none
  connected : s.serverRM_socket = .connected
  buffer : s.buffer = []
  crashed : s.heir.isSome = true
  primary : s.primary = some b
  listener : s.listener = .reading
  incoming : b.incoming = []

end Failover

end InstantMessenger
