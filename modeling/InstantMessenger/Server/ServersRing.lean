import Mathlib.Logic.Function.Basic
import InstantMessenger.Foundations.Cyclic
import InstantMessenger.Foundations.Transition
import InstantMessenger.Server.Election

/-!
# The ring of servers

`ServersRing.cpp`: a server takes the first free port of `config.txt`, connects to
the server of the next line, and is connected to by the one before.  A server that
loses its successor looks for the next one that answers, and starts an election
when the one it lost was the primary.

* `ServersRing`, `ConnectThread`, `AcceptThread` — the memory of a server, and where
  its threads are in `connectToServer`, `AcceptServerConnection` and
  `listenClientCommunication`.
* `RingServers` — all servers, their listening sockets and their connections.
* `connectToServer`, `acceptServerConnection` — the steps of the two threads.
* `serversRing` — the transition system: servers are started and crash, and their
  threads take turns.
* `AtRest`, `Quiescent` — the links are up, no message is on its way, and the
  threads that reconnect have nothing to do.

A port is named by its line in `config.txt`, except where it is compared with the
primary or sent in a message.
-/

namespace InstantMessenger

open Cyclic Election

/-- Where a thread that runs `connectToServer` is; the flag is its
`canStartElection`. -/
inductive ConnectThread where
  | starting
  /-- In front of `connect`. -/
  | trying (canStartElection : Bool)
  /-- `connect` has failed. -/
  | failed (canStartElection : Bool)
  | connected (canStartElection : Bool)
  /-- In `checkIfConnectionFailed`, reading a socket. -/
  | watching (socket : Option Nat)
  deriving DecidableEq, Repr

/-- Where the thread that runs `AcceptServerConnection` and
`listenClientCommunication` is. -/
inductive AcceptThread where
  | starting
  /-- In front of `accept`. -/
  | accepting
  | listening (socket : Nat)
  deriving DecidableEq, Repr

/-- The members of a server that its threads share.  `client_port` is the port in
`client_addr`, and `myfile` the line that is read next. -/
structure ServersRing (n : Nat) where
  socket_client : Option Nat := none
  primary : Int
  client_port : Option (Fin n) := none
  disconnected : Bool := false
  isPrimary : Bool
  myfile : Fin n
  isParticipating : Bool := false
  connecting : List ConnectThread := []
  deriving DecidableEq, Repr

/-- A listening socket: who reads it, and the connections not accepted yet. -/
structure RingListener where
  thread : AcceptThread := .starting
  backlog : List Nat := []
  deriving DecidableEq, Repr

/-- A connection, and the messages in it that `dst` has not read. -/
structure RingConn (n : Nat) where
  src : Fin n
  dst : Fin n
  queue : List Str := []
  srcUp : Bool := true
  dstUp : Bool := true
  deriving DecidableEq, Repr

/-- The servers that are live, by the line of their port.  `crashed` is not in any
memory: it says whether a server has crashed since there last was none. -/
structure RingServers (n : Nat) where
  server : Fin n → Option (ServersRing n)
  listener : Fin n → RingListener
  conns : List (RingConn n)
  crashed : Bool

variable {n : Nat}

namespace RingConn

/-- Messages are written to the connection; they are lost when nobody reads it. -/
def receive (conn : RingConn n) (messages : List Str) : RingConn n :=
  if conn.dstUp then { conn with queue := conn.queue ++ messages } else conn

/-- The connection after the server `i` has crashed. -/
def hangUp (i : Fin n) (conn : RingConn n) : RingConn n :=
  { conn with
    queue := if conn.dst = i then [] else conn.queue
    srcUp := conn.srcUp && conn.src != i
    dstUp := conn.dstUp && conn.dst != i }

end RingConn

namespace ServersRing

/-- The constructor and `prepareServerConnection` of a server that can bind the port
`i`: the first port of the file is taken for the primary, and the file is read as
far as `i`. -/
def prepareServerConnection (port : Fin n → Int) (i : Fin n) : ServersRing n :=
  let primary := port ⟨0, i.pos⟩
  { primary, isPrimary := port i == primary, myfile := next i }

/-- `client_addr.sin_port` is set to what `getNewPortFromFile` returns. -/
def getNewPort (r : ServersRing n) : ServersRing n :=
  { r with client_port := some r.myfile, myfile := next r.myfile }

/-- After a disconnection the next port is tried; the own port means that no other
server is left. -/
def checkForNewPort (port : Fin n → Int) (i : Fin n) (r : ServersRing n) : ServersRing n :=
  let r := r.getNewPort
  if r.client_port = some i then
    { r with primary := port i, isPrimary := true, disconnected := false }.getNewPort
  else r

/-- The thread `t` has moved on. -/
def moves (r : ServersRing n) (t : Nat) (thread : ConnectThread) : ServersRing n :=
  { r with connecting := r.connecting.set t thread }

/-- What `listenClientCommunication` does with the result of a message. -/
def told (port : Fin n → Int) (i : Fin n) (r : ServersRing n) (p : Processed) : ServersRing n :=
  { r with
    isParticipating := p.isParticipating
    primary := if p.result ≠ 0 then p.result else r.primary
    isPrimary := r.isPrimary || (p.result != 0 && p.result == port i) }

end ServersRing

namespace RingServers

/-! ## The network -/

/-- Nobody has been started. -/
def none_started : RingServers n where
  server _ := none
  listener _ := {}
  conns := []
  crashed := false

def put (s : RingServers n) (i : Fin n) (r : ServersRing n) : RingServers n :=
  { s with server := Function.update s.server i (some r) }

def setListener (s : RingServers n) (i : Fin n) (l : RingListener) : RingServers n :=
  { s with listener := Function.update s.listener i l }

/-- A connection from `i` waits to be accepted by `j`. -/
def connect (s : RingServers n) (i j : Fin n) : RingServers n :=
  { s.setListener j { s.listener j with
      backlog := (s.listener j).backlog ++ [s.conns.length] } with
    conns := s.conns ++ [{ src := i, dst := j }] }

/-- What is written where nobody reads is lost. -/
def write (s : RingServers n) (socket : Option Nat) (messages : List Str) : RingServers n :=
  match socket with
  | none => s
  | some c =>
    match s.conns[c]? with
    | none => s
    | some conn => { s with conns := s.conns.set c (conn.receive messages) }

/-- A read from the socket blocks. -/
def isUp (s : RingServers n) (socket : Option Nat) : Bool :=
  (socket.bind fun c => s.conns[c]?).any RingConn.dstUp

def crash (s : RingServers n) (i : Fin n) : RingServers n where
  server := Function.update s.server i none
  listener := Function.update s.listener i {}
  conns := s.conns.map (RingConn.hangUp i)
  crashed := true

/-- A server is started, and binds the port `i`. -/
def start (port : Fin n → Int) (s : RingServers n) (i : Fin n) : RingServers n :=
  { (s.put i (ServersRing.prepareServerConnection port i)).setListener i {} with
    crashed := s.crashed && decide (∃ k, (s.server k).isSome) }

/-! ## The threads -/

/-- A step of the connecting thread `t` of the server `i`, which holds `r`. -/
def connectToServer (port : Fin n → Int) (s : RingServers n) (i : Fin n) (r : ServersRing n)
    (t : Nat) : ConnectThread → Option (RingServers n)
  | .starting =>
    let canStartElection := r.client_port.any fun j => port j == r.primary
    some (s.put i ({ r with socket_client := none }.getNewPort.moves t (.trying canStartElection)))
  | .trying canStartElection =>
    r.client_port.map fun j =>
      if r.socket_client.isNone && (s.server j).isSome then
        (s.connect i j).put i
          ({ r with socket_client := some s.conns.length }.moves t (.connected canStartElection))
      else s.put i (r.moves t (.failed canStartElection))
  | .failed canStartElection =>
    let r := if r.disconnected then r.checkForNewPort port i else r
    some (s.put i (r.moves t (.trying canStartElection)))
  | .connected canStartElection =>
    let s := if r.disconnected && canStartElection then
      s.write r.socket_client (startElection (port i)) else s
    some (s.put i ({ r with disconnected := false }.moves t (.watching r.socket_client)))
  | .watching socket =>
    if s.isUp socket then none
    else some (s.put i ({ r with disconnected := true }.moves t .starting))

/-- A step of the thread of the server `i` that accepts connections and reads them.  An
exception of `stoi` ends the process. -/
def acceptServerConnection (port : Fin n → Int) (s : RingServers n) (i : Fin n)
    (r : ServersRing n) : AcceptThread → Option (RingServers n)
  | .starting =>
    let r := if r.disconnected then r else { r with connecting := r.connecting ++ [.starting] }
    some ((s.put i r).setListener i { s.listener i with thread := .accepting })
  | .accepting =>
    match (s.listener i).backlog with
    | [] => none
    | c :: backlog => some (s.setListener i ⟨.listening c, backlog⟩)
  | .listening c =>
    (s.conns[c]?).bind fun conn =>
      match conn.queue with
      | message :: queue =>
        match processElectionInfo r.isParticipating message (port i) with
        | none => some (s.crash i)
        | some p =>
          let s := { s with conns := s.conns.set c { conn with queue } }
          some ((s.write r.socket_client p.sent).put i (r.told port i p))
      | [] =>
        if conn.srcUp then none
        else some ((s.put i { r with disconnected := true }).setListener i
          { s.listener i with thread := .starting })

end RingServers

/-! ## Runs -/

/-- A server binds a port or crashes, or one of its threads goes on. -/
inductive RingLabel (n : Nat) where
  | start (i : Fin n)
  | crash (i : Fin n)
  | connector (i : Fin n) (t : Nat)
  | acceptor (i : Fin n)
  deriving DecidableEq, Repr

namespace RingServers

/-- One step of the ring.  A server that is started binds the first port of the file
that no live server holds. -/
def step (port : Fin n → Int) (s : RingServers n) : RingLabel n → Option (RingServers n)
  | .start i =>
    if s.server i = none ∧ ∀ k < i, (s.server k).isSome then some (s.start port i) else none
  | .crash i => (s.server i).map fun _ => s.crash i
  | .connector i t =>
    (s.server i).bind fun r =>
      (r.connecting[t]?).bind fun thread => s.connectToServer port i r t thread
  | .acceptor i =>
    (s.server i).bind fun r => s.acceptServerConnection port i r (s.listener i).thread

/-- The outgoing link of every live server is established to a live server, no message
is on its way, and no thread that connects has a step to take. -/
structure AtRest (port : Fin n → Int) (s : RingServers n) : Prop where
  linked : ∀ i, ∀ r ∈ s.server i, ∃ c ∈ r.socket_client, ∃ conn ∈ s.conns[c]?,
    conn.dstUp = true ∧ (s.server conn.dst).isSome
  silent : ∀ conn ∈ s.conns, conn.queue = []
  connected : ∀ i, ∀ r ∈ s.server i, ∀ t < r.connecting.length,
    s.step port (.connector i t) = none

/-- And no thread that accepts has a step to take either. -/
structure Quiescent (port : Fin n → Int) (s : RingServers n) : Prop extends AtRest port s where
  accepted : ∀ i, s.step port (.acceptor i) = none

end RingServers

/-- The servers of a `config.txt` with these ports, in the order of its lines. -/
def serversRing (port : Fin n → Int) :
    Transition.System (RingServers n) (RingLabel n) where
  init s := s = .none_started
  step := RingServers.step port

end InstantMessenger
