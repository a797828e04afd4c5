import InstantMessenger.Foundations.Descriptors
import InstantMessenger.Foundations.Transition
import InstantMessenger.Util.Definitions

/-!
# The threads of a front end

`ProxyFE.cpp` with the socket numbers it works with: every connection has a thread
that listens to it, the messages have one more, and what they share is
`serverRM_socket`, the two maps and the table of descriptors.

* `ClientThread`, `ServerThread` — where a listening thread is.
* `Call` — a turn of the loop of `sendToServer`: `serverRM_socket` is read, and then
  the packet is written to the number that was read.
* `step`, `proxyFE` — the transition system.
* `Moves`, `step_cases` — **what a step can do**, branch by branch; everything later is
  proved from this.

The keep-alives are left to `InstantMessenger.ProxyFe.KeepAlive`.
-/

namespace InstantMessenger

open Descriptors

namespace ProxyFE

/-- Who a descriptor was accepted for: a server, or the client with this number. -/
inductive Connection where
  | server
  | client (number : Nat)
  deriving DecidableEq, Repr

/-- A packet for the server, the client it is from, and its place among all that
were read or generated. -/
structure Outgoing where
  client : Nat
  serial : Nat
  packet : Packet
  deriving DecidableEq, Repr

/-- Where a thread is in `sendToServer`. -/
inductive Call where
  /-- At the label `retry`. -/
  | retry
  /-- In `sendPacket`, with this number. -/
  | writing (socket : Nat)
  deriving DecidableEq, Repr

/-- Where `listenClientCommunication` is. -/
inductive ClientThread where
  | reading
  /-- In `registerUserSocket`, between the two maps. -/
  | registering (x : Outgoing)
  /-- In front of `processing_message_semaphore->wait()`. -/
  | waiting (x : Outgoing)
  | sending (x : Outgoing) (call : Call)
  /-- In `handleSocketDisconnection`. -/
  | leaving
  /-- There, in front of `usersMap.erase`. -/
  | forgetting (userID : Str)
  /-- There, in front of `close`. -/
  | closing
  | gone
  deriving DecidableEq, Repr

/-- A client's connection.  `joined` is the user of its last JOIN. -/
structure Client where
  socket : Nat
  userID : Option Str
  joined : Option Str
  thread : ClientThread
  deriving DecidableEq, Repr

/-- Where the threads are that accept a server and listen to it. -/
inductive ServerThread where
  | accepting
  /-- In front of `serverRM_socket = newsockfd`. -/
  | accepted (socket : Nat)
  | listening
  /-- In `processServerPacket`, with the number that was found in `usersMap`. -/
  | found (p : Packet) (clientSocket : Nat)
  /-- In `handleSocketDisconnection`. -/
  | leaving (socket : Nat)
  | forgetting (socket : Nat) (userID : Str)
  | closing (socket : Nat)
  deriving DecidableEq, Repr

/-- A packet that was written to a client. -/
structure Delivery where
  userID : Str
  packet : Packet
  connection : Connection
  deriving DecidableEq, Repr

/-- Whose call of `sendToServer`. -/
inductive Sender where
  /-- `handleProcessingMessage`. -/
  | consumer
  | client (number : Nat)
  deriving DecidableEq, Repr

end ProxyFE

open ProxyFE

/-- A front end.  `generated`, `sent` and `delivered` are what was read or generated
for the server, what `sendToServer` reported as sent, and what was written to clients,
with the owner of the descriptor at that moment. -/
structure ProxyFE where
  owner : Table Connection
  serverRM_socket : Nat
  serverThread : ServerThread
  clients : Nat → Client
  connections : Nat
  /-- `none` when the semaphore is free. -/
  processing_message : Option Outgoing
  consumer : Call
  usersMap : Str → Nat
  socketsMap : Nat → Str
  generated : List Outgoing
  sent : List (Outgoing × Connection)
  delivered : List Delivery

namespace ProxyFE

/-- A step of a thread, with what the outside answers. -/
inductive Step where
  /-- `handleClientConnection`, where `accept` returns this number. -/
  | acceptClient (socket : Nat)
  | readClient (i : Nat) (p : Packet)
  /-- `readPacket` returns no packet. -/
  | hangUp (i : Nat)
  | registerSocket (i : Nat)
  /-- `processIncomingClientMessage`, once the semaphore is free. -/
  | handOver (i : Nat)
  | load (w : Sender)
  | write (w : Sender) (succeeds : Bool)
  | forgetSocket (i : Nat)
  | forgetUser (i : Nat)
  | close (i : Nat)
  | acceptServer (socket : Nat)
  | setServerSocket
  | readServer (p : Packet)
  | deliver (succeeds : Bool)
  | loseServer
  | forgetServerSocket
  | forgetServerUser
  | closeServer
  deriving DecidableEq, Repr

/-- `handleClientConnection`: a client is accepted with this number. -/
def connect (s : ProxyFE) (d : Nat) : ProxyFE :=
  { s with
    owner := give s.owner d (.client s.connections)
    clients := Function.update s.clients s.connections ⟨d, none, none, .reading⟩
    connections := s.connections + 1 }

/-- The thread of a client goes on. -/
def setThread (s : ProxyFE) (i : Nat) (t : ClientThread) : ProxyFE :=
  { s with clients := Function.update s.clients i { s.clients i with thread := t } }

/-- A packet for the server is read or generated. -/
def generate (s : ProxyFE) (i : Nat) (p : Packet) (t : Outgoing → ClientThread) : ProxyFE :=
  { s.setThread i (t ⟨i, s.generated.length, p⟩) with
    generated := s.generated ++ [⟨i, s.generated.length, p⟩] }

/-- The first packet names the user. -/
def know (s : ProxyFE) (i : Nat) (userID : Str) : ProxyFE :=
  { s with
    clients := Function.update s.clients i
      { s.clients i with userID := some ((s.clients i).userID.getD userID) } }

/-- `registerUserSocket`, up to the first map. -/
def registerUser (s : ProxyFE) (i : Nat) (userID : Str) : ProxyFE :=
  { s with
    usersMap := Function.update s.usersMap userID (s.clients i).socket
    clients := Function.update s.clients i { s.clients i with joined := some userID } }

/-- `processClientPacket`, after `userID` was set. -/
def processClientPacket (s : ProxyFE) (i : Nat) (p : Packet) : ProxyFE :=
  if p.isMessage then s.generate i p .waiting
  else if p.isJoinMessage then (s.registerUser i p.user_id).generate i p .registering
  else s

/-- The packet of a call of `sendToServer`, and where the call is. -/
def call (s : ProxyFE) : Sender → Option (Outgoing × Call)
  | .consumer => s.processing_message.map fun x => (x, s.consumer)
  | .client i =>
    match (s.clients i).thread with
    | .sending x call => some (x, call)
    | _ => none

/-- The call is at this point. -/
def setCall (s : ProxyFE) (w : Sender) (x : Outgoing) (call : Call) : ProxyFE :=
  match w with
  | .consumer => { s with consumer := call }
  | .client i => s.setThread i (.sending x call)

/-- The call returns.  The consumer posts its semaphore, and after a DISCONNECT
`handleSocketDisconnection` is called. -/
def returns (s : ProxyFE) (w : Sender) (x : Outgoing) : ProxyFE :=
  match w with
  | .consumer => { s with processing_message := none, consumer := .retry }
  | .client i => s.setThread i (if x.packet.isDisconnect then .leaving else .reading)

/-- The packets that `processServerPacket` passes on to a client. -/
def isForClient (p : Packet) : Bool :=
  p.type == .MESSAGE_PACKET || p.type == .ACK_PACKET || p.type == .ACCEPT_PACKET ||
    p.type == .CONNECTION_REFUSED_PACKET

/-- What is written to the client: the message itself, or a new packet of the type. -/
def forClient (p : Packet) : Packet := if p.isMessage then p else { type := p.type }

/-- What a step does. -/
def step (s : ProxyFE) : Step → Option ProxyFE
  | .acceptClient d =>
    if s.owner d = none then some (s.connect d) else none
  | .readClient i p =>
    if (s.clients i).thread = .reading then
      some ((s.know i p.user_id).processClientPacket i p)
    else none
  | .hangUp i =>
    if (s.clients i).thread = .reading then
      match (s.clients i).userID with
      | some userID =>
        some (s.generate i { type := .DISCONNECT_PACKET, user_id := userID } (.sending · .retry))
      | none => some (s.setThread i .leaving)
    else none
  | .registerSocket i =>
    match (s.clients i).thread with
    | .registering x =>
      some { s.setThread i (.sending x .retry) with
        socketsMap := Function.update s.socketsMap (s.clients i).socket x.packet.user_id }
    | _ => none
  | .handOver i =>
    match (s.clients i).thread, s.processing_message with
    | .waiting x, none =>
      some { s.setThread i .reading with processing_message := some x, consumer := .retry }
    | _, _ => none
  | .load w =>
    match s.call w with
    | some (x, .retry) => some (s.setCall w x (.writing s.serverRM_socket))
    | _ => none
  | .write w succeeds =>
    match s.call w with
    | some (x, .writing d) =>
      match succeeds, s.owner d with
      | true, some c => some { s.returns w x with sent := s.sent ++ [(x, c)] }
      | _, _ => some (s.setCall w x .retry)
    | _ => none
  | .forgetSocket i =>
    if (s.clients i).thread = .leaving then
      some { s.setThread i (.forgetting (s.socketsMap (s.clients i).socket)) with
        socketsMap := Function.update s.socketsMap (s.clients i).socket [] }
    else none
  | .forgetUser i =>
    match (s.clients i).thread with
    | .forgetting userID =>
      some { s.setThread i .closing with usersMap := Function.update s.usersMap userID 0 }
    | _ => none
  | .close i =>
    if (s.clients i).thread = .closing then
      some { s.setThread i .gone with owner := release s.owner (s.clients i).socket }
    else none
  | .acceptServer d =>
    if s.serverThread = .accepting ∧ s.owner d = none then
      some { s with owner := give s.owner d .server, serverThread := .accepted d }
    else none
  | .setServerSocket =>
    match s.serverThread with
    | .accepted d => some { s with serverRM_socket := d, serverThread := .listening }
    | _ => none
  | .readServer p =>
    if s.serverThread = .listening then
      -- `usersMap[userID]` is 0 for a user who is not there.
      if isForClient p && s.usersMap p.user_id != 0 then
        some { s with serverThread := .found p (s.usersMap p.user_id) }
      else some s
    else none
  | .deliver succeeds =>
    match s.serverThread with
    | .found p d =>
      match succeeds, s.owner d with
      | true, some c =>
        some { s with
          serverThread := .listening
          delivered := s.delivered ++ [⟨p.user_id, forClient p, c⟩] }
      | _, _ => some { s with serverThread := .listening }
    | _ => none
  | .loseServer =>
    if s.serverThread = .listening then
      some { s with serverThread := .leaving s.serverRM_socket }
    else none
  | .forgetServerSocket =>
    match s.serverThread with
    | .leaving d =>
      some { s with
        serverThread := .forgetting d (s.socketsMap d)
        socketsMap := Function.update s.socketsMap d [] }
    | _ => none
  | .forgetServerUser =>
    match s.serverThread with
    | .forgetting d userID =>
      some { s with
        serverThread := .closing d
        usersMap := Function.update s.usersMap userID 0 }
    | _ => none
  | .closeServer =>
    match s.serverThread with
    | .closing d => some { s with serverThread := .accepting, owner := release s.owner d }
    | _ => none

/-- The first server has connected with this number. -/
def start (d : Nat) : ProxyFE where
  owner := give (fun _ => none) d .server
  serverRM_socket := d
  serverThread := .listening
  clients _ := ⟨0, none, none, .gone⟩
  connections := 0
  processing_message := none
  consumer := .retry
  usersMap _ := 0
  socketsMap _ := []
  generated := []
  sent := []
  delivered := []

end ProxyFE

/-- The threads of a front end. -/
def proxyFE : Transition.System ProxyFE ProxyFE.Step where
  init s := ∃ d, s = ProxyFE.start d
  step := ProxyFE.step

namespace ProxyFE

variable {s t : ProxyFE}

/-- A run goes on with a step that meets the condition. -/
theorem reachesWhen_of_step {ok : ProxyFE → Step → Prop} {l : Step} (hs : proxyFE.ReachesWhen ok s)
    (hok : ok s l) (h : step s l = some t) : proxyFE.ReachesWhen ok t := .next hs hok h

theorem reachable_of_step {l : Step} (hs : proxyFE.Reachable s) (h : step s l = some t) :
    proxyFE.Reachable t := reachesWhen_of_step hs trivial h

/-- One step, and on. -/
theorem reaches_of_step {u : ProxyFE} {l : Step} (h : step s l = some t)
    (hu : proxyFE.Reaches t u) : proxyFE.Reaches s u := .cons h hu

@[simp] theorem setThread_thread (s : ProxyFE) (i : Nat) (thread : ClientThread) :
    ((s.setThread i thread).clients i).thread = thread := by
  simp only [setThread, Function.update_self]

/-! ## What a step can do -/

/-- The steps, branch by branch. -/
inductive Moves (s : ProxyFE) : Step → ProxyFE → Prop
  | acceptClient (d : Nat) (hfree : s.owner d = none) :
      Moves s (.acceptClient d) (s.connect d)
  | readMessage (i : Nat) (p : Packet) (hthread : (s.clients i).thread = .reading)
      (hmessage : p.isMessage = true) :
      Moves s (.readClient i p) { s with
        clients := Function.update s.clients i
          { s.clients i with
            userID := some ((s.clients i).userID.getD p.user_id)
            thread := .waiting ⟨i, s.generated.length, p⟩ }
        generated := s.generated ++ [⟨i, s.generated.length, p⟩] }
  | readJoin (i : Nat) (p : Packet) (hthread : (s.clients i).thread = .reading)
      (hjoin : p.isJoinMessage = true) :
      Moves s (.readClient i p) { s with
        usersMap := Function.update s.usersMap p.user_id (s.clients i).socket
        clients := Function.update s.clients i
          { s.clients i with
            userID := some ((s.clients i).userID.getD p.user_id)
            joined := some p.user_id
            thread := .registering ⟨i, s.generated.length, p⟩ }
        generated := s.generated ++ [⟨i, s.generated.length, p⟩] }
  | readOther (i : Nat) (p : Packet) (hthread : (s.clients i).thread = .reading)
      (hmessage : p.isMessage = false) (hjoin : p.isJoinMessage = false) :
      Moves s (.readClient i p) (s.know i p.user_id)
  | hangUpKnown (i : Nat) (userID : Str) (hthread : (s.clients i).thread = .reading)
      (hknown : (s.clients i).userID = some userID) :
      Moves s (.hangUp i)
        (s.generate i { type := .DISCONNECT_PACKET, user_id := userID } (.sending · .retry))
  | hangUpUnknown (i : Nat) (hthread : (s.clients i).thread = .reading)
      (hunknown : (s.clients i).userID = none) : Moves s (.hangUp i) (s.setThread i .leaving)
  | registerSocket (i : Nat) (x : Outgoing) (hthread : (s.clients i).thread = .registering x) :
      Moves s (.registerSocket i) { s.setThread i (.sending x .retry) with
        socketsMap := Function.update s.socketsMap (s.clients i).socket x.packet.user_id }
  | handOver (i : Nat) (x : Outgoing) (hthread : (s.clients i).thread = .waiting x)
      (hslot : s.processing_message = none) :
      Moves s (.handOver i)
        { s.setThread i .reading with processing_message := some x, consumer := .retry }
  | load (w : Sender) (x : Outgoing) (hcall : s.call w = some (x, .retry)) :
      Moves s (.load w) (s.setCall w x (.writing s.serverRM_socket))
  | written (w : Sender) (x : Outgoing) (d : Nat) (c : Connection)
      (hcall : s.call w = some (x, .writing d)) (hopen : s.owner d = some c) :
      Moves s (.write w true) { s.returns w x with sent := s.sent ++ [(x, c)] }
  | failed (w : Sender) (succeeds : Bool) (x : Outgoing) (d : Nat)
      (hcall : s.call w = some (x, .writing d)) :
      Moves s (.write w succeeds) (s.setCall w x .retry)
  | forgetSocket (i : Nat) (hthread : (s.clients i).thread = .leaving) :
      Moves s (.forgetSocket i)
        { s.setThread i (.forgetting (s.socketsMap (s.clients i).socket)) with
          socketsMap := Function.update s.socketsMap (s.clients i).socket [] }
  | forgetUser (i : Nat) (userID : Str) (hthread : (s.clients i).thread = .forgetting userID) :
      Moves s (.forgetUser i)
        { s.setThread i .closing with usersMap := Function.update s.usersMap userID 0 }
  | close (i : Nat) (hthread : (s.clients i).thread = .closing) :
      Moves s (.close i)
        { s.setThread i .gone with owner := release s.owner (s.clients i).socket }
  | acceptServer (d : Nat) (hthread : s.serverThread = .accepting) (hfree : s.owner d = none) :
      Moves s (.acceptServer d)
        { s with owner := give s.owner d .server, serverThread := .accepted d }
  | setServerSocket (d : Nat) (hthread : s.serverThread = .accepted d) :
      Moves s .setServerSocket { s with serverRM_socket := d, serverThread := .listening }
  | found (p : Packet) (hthread : s.serverThread = .listening)
      (hfound : s.usersMap p.user_id ≠ 0) :
      Moves s (.readServer p) { s with serverThread := .found p (s.usersMap p.user_id) }
  | notFound (p : Packet) (hthread : s.serverThread = .listening) : Moves s (.readServer p) s
  | delivered (p : Packet) (d : Nat) (c : Connection) (hthread : s.serverThread = .found p d)
      (hopen : s.owner d = some c) :
      Moves s (.deliver true) { s with
        serverThread := .listening
        delivered := s.delivered ++ [⟨p.user_id, forClient p, c⟩] }
  | undelivered (succeeds : Bool) (p : Packet) (d : Nat) (hthread : s.serverThread = .found p d) :
      Moves s (.deliver succeeds) { s with serverThread := .listening }
  | loseServer (hthread : s.serverThread = .listening) :
      Moves s .loseServer { s with serverThread := .leaving s.serverRM_socket }
  | forgetServerSocket (d : Nat) (hthread : s.serverThread = .leaving d) :
      Moves s .forgetServerSocket { s with
        serverThread := .forgetting d (s.socketsMap d)
        socketsMap := Function.update s.socketsMap d [] }
  | forgetServerUser (d : Nat) (userID : Str) (hthread : s.serverThread = .forgetting d userID) :
      Moves s .forgetServerUser { s with
        serverThread := .closing d
        usersMap := Function.update s.usersMap userID 0 }
  | closeServer (d : Nat) (hthread : s.serverThread = .closing d) :
      Moves s .closeServer { s with serverThread := .accepting, owner := release s.owner d }

theorem readClient_cases {i : Nat} {p : Packet} (h : step s (.readClient i p) = some t) :
    Moves s (.readClient i p) t := by
  simp only [step] at h
  split at h
  · rename_i hthread
    obtain rfl := Option.some.inj h
    unfold processClientPacket
    cases hmessage : p.isMessage with
    | true =>
      have hmoves := Moves.readMessage i p hthread hmessage
      simpa [know, generate, setThread] using hmoves
    | false =>
      cases hjoin : p.isJoinMessage with
      | true =>
        have hmoves := Moves.readJoin i p hthread hjoin
        simpa [know, registerUser, generate, setThread] using hmoves
      | false => exact .readOther i p hthread hmessage hjoin
  · cases h

theorem write_cases {w : Sender} {succeeds : Bool} (h : step s (.write w succeeds) = some t) :
    Moves s (.write w succeeds) t := by
  simp only [step] at h
  split at h
  · rename_i x d hcall
    split at h <;> obtain rfl := Option.some.inj h
    · rename_i c hopen
      exact .written w x d c hcall hopen
    · exact .failed w _ x d hcall
  · cases h

theorem deliver_cases {succeeds : Bool} (h : step s (.deliver succeeds) = some t) :
    Moves s (.deliver succeeds) t := by
  simp only [step] at h
  split at h
  · rename_i p d hthread
    split at h <;> obtain rfl := Option.some.inj h
    · rename_i c hopen
      exact .delivered p d c hthread hopen
    · exact .undelivered _ p d hthread
  · cases h

theorem readServer_cases {p : Packet} (h : step s (.readServer p) = some t) :
    Moves s (.readServer p) t := by
  simp only [step] at h
  split at h
  · rename_i hthread
    split at h <;> obtain rfl := Option.some.inj h
    · rename_i hfound
      simp only [Bool.and_eq_true, bne_iff_ne] at hfound
      exact .found p hthread hfound.2
    · exact .notFound p hthread
  · cases h

/-- **What a step can do.** -/
theorem step_cases {l : Step} (h : step s l = some t) : Moves s l t := by
  cases l with
  | readClient i p => exact readClient_cases h
  | write w succeeds => exact write_cases h
  | deliver succeeds => exact deliver_cases h
  | readServer p => exact readServer_cases h
  | acceptClient d =>
    simp only [step] at h
    split at h
    · rename_i hfree
      exact Option.some.inj h ▸ .acceptClient d hfree
    · cases h
  | hangUp i =>
    simp only [step] at h
    split at h
    · rename_i hthread
      split at h
      · rename_i userID hknown
        exact Option.some.inj h ▸ .hangUpKnown i userID hthread hknown
      · rename_i hunknown
        exact Option.some.inj h ▸ .hangUpUnknown i hthread hunknown
    · cases h
  | registerSocket i =>
    simp only [step] at h
    split at h
    · rename_i x hthread
      exact Option.some.inj h ▸ .registerSocket i x hthread
    · cases h
  | handOver i =>
    simp only [step] at h
    split at h
    · rename_i x hthread hslot
      exact Option.some.inj h ▸ .handOver i x hthread hslot
    · cases h
  | load w =>
    simp only [step] at h
    split at h
    · rename_i x hcall
      exact Option.some.inj h ▸ .load w x hcall
    · cases h
  | forgetSocket i =>
    simp only [step] at h
    split at h
    · rename_i hthread
      exact Option.some.inj h ▸ .forgetSocket i hthread
    · cases h
  | forgetUser i =>
    simp only [step] at h
    split at h
    · rename_i userID hthread
      exact Option.some.inj h ▸ .forgetUser i userID hthread
    · cases h
  | close i =>
    simp only [step] at h
    split at h
    · rename_i hthread
      exact Option.some.inj h ▸ .close i hthread
    · cases h
  | acceptServer d =>
    simp only [step] at h
    split at h
    · rename_i hfree
      exact Option.some.inj h ▸ .acceptServer d hfree.1 hfree.2
    · cases h
  | setServerSocket =>
    simp only [step] at h
    split at h
    · rename_i d hthread
      exact Option.some.inj h ▸ .setServerSocket d hthread
    · cases h
  | loseServer =>
    simp only [step] at h
    split at h
    · rename_i hthread
      exact Option.some.inj h ▸ .loseServer hthread
    · cases h
  | forgetServerSocket =>
    simp only [step] at h
    split at h
    · rename_i d hthread
      exact Option.some.inj h ▸ .forgetServerSocket d hthread
    · cases h
  | forgetServerUser =>
    simp only [step] at h
    split at h
    · rename_i d userID hthread
      exact Option.some.inj h ▸ .forgetServerUser d userID hthread
    · cases h
  | closeServer =>
    simp only [step] at h
    split at h
    · rename_i d hthread
      exact Option.some.inj h ▸ .closeServer d hthread
    · cases h

end ProxyFE

end InstantMessenger
