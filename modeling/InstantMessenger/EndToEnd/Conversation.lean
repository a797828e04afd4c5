import InstantMessenger.Client.StopAndWait
import InstantMessenger.Foundations.Broadcast
import InstantMessenger.ProxyFe.HandOff

/-!
# A conversation, from the keyboard to the screens

All programs at work between two changes of membership: any number of clients, each joined to
one group through one front end, the front ends, and a primary that has no backup.  Nothing
fails: the connections carry what is written to them, in order.  A typed line goes through
the queue of its client, the slot of the front end, the listener thread of the server and the
queue of the group, and from there to every member; its ACK goes back from the listener.

* `Layout` — who is joined where.
* `Conversation`, `conversation` — the threads with the connections between them, as a
  transition system.  The client and the front end are the systems `stopAndWait` and
  `handOff`, put together with the server.
* `Conversation.Moves` — the steps, branch by branch.
* `Conversation.client_reachable`, `Conversation.frontEnd_reachable` — **what each program
  does in a conversation is a run of that program by itself**, so its own invariants hold.
-/

namespace InstantMessenger

/-- A line on its way: whose it is, and the text. -/
structure Line (ι α : Type*) where
  sender : ι
  text : α
  deriving DecidableEq, Repr

/-- What the server sends to a session, once everybody has joined. -/
inductive Reply (ι α : Type*) where
  | ack
  | message (line : Line ι α)
  deriving DecidableEq, Repr

/-- Who is joined where: the front end and the group of each client, and the sessions of each
group in the order of `getAllActiveConnectionIds`. -/
structure Layout (ι φ γ : Type*) where
  frontEnd : ι → φ
  group : ι → γ
  members : γ → List ι
  mem_members : ∀ g i, i ∈ members g ↔ group i = g
  nodup : ∀ g, (members g).Nodup

/-- Where the thread of a front end's connection is in `listenFrontEndCommunication`. -/
inductive LineListener (ι α : Type*) where
  /-- In `readPacket`. -/
  | reading
  /-- In front of the `sendPacket` of the ACK. -/
  | received (line : Line ι α)
  /-- In front of `processReceivedPacket`. -/
  | acknowledged (line : Line ι α)
  /-- In `addMessageToMessageQueue`, in front of its unlock. -/
  | pushed (line : Line ι α)
  deriving DecidableEq, Repr

/-- Where the thread of a group is in `consumeMessageQueue`. -/
inductive GroupConsumer (ι α : Type*) where
  /-- In front of `pthread_mutex_lock`. -/
  | locking
  /-- At the head of the inner loop. -/
  | draining
  /-- In front of `appendGroupMessageToHistory`. -/
  | popped (line : Line ι α)
  /-- In `broadcastMessageToUsers`, with the sessions it has still to send to. -/
  | sending (line : Line ι α) (todo : List ι)
  deriving DecidableEq, Repr

/-- The queue of a group and its consumer.  `pushed` and `done` list the lines that were put
into the queue and those whose broadcast is over. -/
structure GroupQueue (ι α : Type*) where
  messages_queue : List (Line ι α)
  /-- `mutex_consumer_producer` is not locked. -/
  unlocked : Bool
  consumer : GroupConsumer ι α
  pushed : List (Line ι α)
  done : List (Line ι α)
  deriving DecidableEq, Repr

/-- The constructor of the group locks the mutex. -/
def GroupQueue.start {ι α : Type*} : GroupQueue ι α where
  messages_queue := []
  unlocked := false
  consumer := .locking
  pushed := []
  done := []

/-- The programs, and the connections between them. -/
structure Conversation (ι φ γ α : Type*) where
  client : ι → StopAndWait (Line ι α)
  /-- The lines passed to `showMessage`. -/
  shown : ι → List (Line ι α)
  /-- The two directions of a client's connection. -/
  fromClient : ι → List (Line ι α)
  toClient : ι → List (Reply ι α)
  frontEnd : φ → HandOff ι (Line ι α)
  /-- What `listenServerCommunication` has read and not yet passed on. -/
  forwarding : φ → Option (ι × Reply ι α)
  /-- The two directions of a front end's connection with the server. -/
  toServer : φ → List (Line ι α)
  fromServer : φ → List (ι × Reply ι α)
  listener : φ → LineListener ι α
  group : γ → GroupQueue ι α

/-- The client moves without its connection. -/
def StopAndWait.Step.alone {α : Type*} : StopAndWait.Step α → Bool
  | .unlockConsumer | .lockConsumer | .drain | .lockAck | .unlockAck => true
  | .push _ | .send _ | .receive => false

/-- The front end moves without its connections. -/
def HandOff.Step.alone {ι α : Type*} : HandOff.Step ι α → Bool
  | .wait _ | .write _ | .unlock _ | .lock | .call | .post => true
  | .receive .. | .send _ => false

namespace Conversation

variable {ι φ γ α : Type*}

/-- A step of one of the threads. -/
inductive Step (ι φ γ α : Type*) where
  /-- A line is typed: `readInput`, `buildPacket` and the push. -/
  | type (i : ι) (text : α)
  | client (i : ι) (l : StopAndWait.Step (Line ι α))
  /-- The client's `sendPacket`. -/
  | send (i : ι)
  /-- `receiveFromServer` reads a packet. -/
  | receive (i : ι)
  /-- `listenClientCommunication` reads a packet. -/
  | read (i : ι)
  | frontEnd (f : φ) (l : HandOff.Step ι (Line ι α))
  /-- The front end's `sendPacket` to the server. -/
  | forward (f : φ)
  /-- `listenServerCommunication` reads a packet. -/
  | readServer (f : φ)
  /-- It sends the packet to the client. -/
  | reply (f : φ)
  /-- `listenFrontEndCommunication` reads a packet. -/
  | listen (f : φ)
  | sendAck (f : φ)
  /-- The section of `addMessageToMessageQueue`. -/
  | push (f : φ)
  | unlock (f : φ)
  | lock (g : γ)
  /-- The section of `consumeMessageQueue`. -/
  | drain (g : γ)
  /-- The line is written to the history, and the sessions are listed. -/
  | append (g : γ)
  /-- `sendMessageToSession`, or the end of the broadcast. -/
  | broadcast (g : γ)
  deriving DecidableEq, Repr

variable [DecidableEq ι] [DecidableEq φ] [DecidableEq γ]

def setClient (s : Conversation ι φ γ α) (i : ι) (c : StopAndWait (Line ι α)) :
    Conversation ι φ γ α :=
  { s with client := Function.update s.client i c }

def setFrontEnd (s : Conversation ι φ γ α) (f : φ) (h : HandOff ι (Line ι α)) :
    Conversation ι φ γ α :=
  { s with frontEnd := Function.update s.frontEnd f h }

def setListener (s : Conversation ι φ γ α) (f : φ) (l : LineListener ι α) :
    Conversation ι φ γ α :=
  { s with listener := Function.update s.listener f l }

def setGroup (s : Conversation ι φ γ α) (g : γ) (q : GroupQueue ι α) : Conversation ι φ γ α :=
  { s with group := Function.update s.group g q }

/-- The server writes to the connection of a session's front end. -/
def sendTo (s : Conversation ι φ γ α) (f : φ) (i : ι) (r : Reply ι α) : Conversation ι φ γ α :=
  { s with fromServer := Function.update s.fromServer f (s.fromServer f ++ [(i, r)]) }

/-- What a step does. -/
def step (L : Layout ι φ γ) (s : Conversation ι φ γ α) :
    Step ι φ γ α → Option (Conversation ι φ γ α)
  | .type i text => ((s.client i).step (.push ⟨i, text⟩)).map (s.setClient i)
  | .client i l => if l.alone then ((s.client i).step l).map (s.setClient i) else none
  | .send i =>
    match (s.client i).consumer with
    | .popped line =>
      ((s.client i).step (.send true)).map fun c =>
        { s.setClient i c with
          fromClient := Function.update s.fromClient i (s.fromClient i ++ [line]) }
    | _ => none
  | .receive i =>
    match s.toClient i with
    | [] => none
    | .ack :: rest =>
      ((s.client i).step .receive).map fun c =>
        { s.setClient i c with toClient := Function.update s.toClient i rest }
    | .message line :: rest =>
      if (s.client i).receiving then none
      else some { s with
        toClient := Function.update s.toClient i rest
        shown := Function.update s.shown i (s.shown i ++ [line]) }
  | .read i =>
    match s.fromClient i with
    | [] => none
    | line :: rest =>
      ((s.frontEnd (L.frontEnd i)).step (.receive i line)).map fun h =>
        { s.setFrontEnd (L.frontEnd i) h with fromClient := Function.update s.fromClient i rest }
  | .frontEnd f l => if l.alone then ((s.frontEnd f).step l).map (s.setFrontEnd f) else none
  | .forward f =>
    match (s.frontEnd f).consumer with
    | .sending line =>
      ((s.frontEnd f).step (.send true)).map fun h =>
        { s.setFrontEnd f h with
          toServer := Function.update s.toServer f (s.toServer f ++ [line]) }
    | _ => none
  | .readServer f =>
    match s.forwarding f, s.fromServer f with
    | none, packet :: rest =>
      some { s with
        forwarding := Function.update s.forwarding f (some packet)
        fromServer := Function.update s.fromServer f rest }
    | _, _ => none
  | .reply f =>
    match s.forwarding f with
    | some (i, r) =>
      some { s with
        forwarding := Function.update s.forwarding f none
        toClient := Function.update s.toClient i (s.toClient i ++ [r]) }
    | none => none
  | .listen f =>
    match s.listener f, s.toServer f with
    | .reading, line :: rest =>
      some { s.setListener f (.received line) with
        toServer := Function.update s.toServer f rest }
    | _, _ => none
  | .sendAck f =>
    match s.listener f with
    | .received line => some ((s.setListener f (.acknowledged line)).sendTo f line.sender .ack)
    | _ => none
  | .push f =>
    match s.listener f with
    | .acknowledged line =>
      let q := s.group (L.group line.sender)
      some ((s.setListener f (.pushed line)).setGroup (L.group line.sender)
        { q with messages_queue := q.messages_queue ++ [line], pushed := q.pushed ++ [line] })
    | _ => none
  | .unlock f =>
    match s.listener f with
    | .pushed line =>
      some ((s.setListener f .reading).setGroup (L.group line.sender)
        { s.group (L.group line.sender) with unlocked := true })
    | _ => none
  | .lock g =>
    match (s.group g).consumer, (s.group g).unlocked with
    | .locking, true =>
      some (s.setGroup g { s.group g with consumer := .draining, unlocked := false })
    | _, _ => none
  | .drain g =>
    match (s.group g).consumer, (s.group g).messages_queue with
    | .draining, [] => some (s.setGroup g { s.group g with consumer := .locking })
    | .draining, line :: rest =>
      some (s.setGroup g { s.group g with consumer := .popped line, messages_queue := rest })
    | _, _ => none
  | .append g =>
    match (s.group g).consumer with
    | .popped line =>
      some (s.setGroup g { s.group g with consumer := .sending line (L.members g) })
    | _ => none
  | .broadcast g =>
    match (s.group g).consumer with
    | .sending line [] =>
      some (s.setGroup g { s.group g with
        consumer := .draining
        done := (s.group g).done ++ [line] })
    | .sending line (j :: todo) =>
      some ((s.setGroup g { s.group g with consumer := .sending line todo }).sendTo
        (L.frontEnd j) j (.message line))
    | _ => none

/-- Everybody has joined, and nobody has said anything. -/
structure Start (s : Conversation ι φ γ α) : Prop where
  client : ∀ i, s.client i = StopAndWait.start
  shown : ∀ i, s.shown i = []
  fromClient : ∀ i, s.fromClient i = []
  toClient : ∀ i, s.toClient i = []
  frontEnd : ∀ f, HandOff.Start (s.frontEnd f)
  forwarding : ∀ f, s.forwarding f = none
  toServer : ∀ f, s.toServer f = []
  fromServer : ∀ f, s.fromServer f = []
  listener : ∀ f, s.listener f = .reading
  group : ∀ g, s.group g = GroupQueue.start

end Conversation

/-- The programs of a conversation. -/
def conversation {ι φ γ : Type*} (α : Type*) [DecidableEq ι] [DecidableEq φ] [DecidableEq γ]
    (L : Layout ι φ γ) :
    Transition.System (Conversation ι φ γ α) (Conversation.Step ι φ γ α) where
  init := Conversation.Start
  step := Conversation.step L

namespace Conversation

variable {ι φ γ α : Type*} [DecidableEq ι] [DecidableEq φ] [DecidableEq γ]

/-! ## What a step does -/

/-- The steps, branch by branch. -/
inductive Moves (L : Layout ι φ γ) (s : Conversation ι φ γ α) :
    Step ι φ γ α → Conversation ι φ γ α → Prop
  | type (i : ι) (text : α) (c : StopAndWait (Line ι α))
      (hc : (s.client i).step (.push ⟨i, text⟩) = some c) :
      Moves L s (.type i text) (s.setClient i c)
  | client (i : ι) (l : StopAndWait.Step (Line ι α)) (c : StopAndWait (Line ι α))
      (hl : l.alone = true) (hc : (s.client i).step l = some c) :
      Moves L s (.client i l) (s.setClient i c)
  | send (i : ι) (line : Line ι α) (c : StopAndWait (Line ι α))
      (hp : (s.client i).consumer = .popped line) (hc : (s.client i).step (.send true) = some c) :
      Moves L s (.send i) { s.setClient i c with
        fromClient := Function.update s.fromClient i (s.fromClient i ++ [line]) }
  | acked (i : ι) (rest : List (Reply ι α)) (c : StopAndWait (Line ι α))
      (hr : s.toClient i = .ack :: rest) (hc : (s.client i).step .receive = some c) :
      Moves L s (.receive i) { s.setClient i c with
        toClient := Function.update s.toClient i rest }
  | shown (i : ι) (line : Line ι α) (rest : List (Reply ι α))
      (hr : s.toClient i = .message line :: rest) (hc : (s.client i).receiving = false) :
      Moves L s (.receive i) { s with
        toClient := Function.update s.toClient i rest
        shown := Function.update s.shown i (s.shown i ++ [line]) }
  | read (i : ι) (line : Line ι α) (rest : List (Line ι α)) (h : HandOff ι (Line ι α))
      (hr : s.fromClient i = line :: rest)
      (hh : (s.frontEnd (L.frontEnd i)).step (.receive i line) = some h) :
      Moves L s (.read i) { s.setFrontEnd (L.frontEnd i) h with
        fromClient := Function.update s.fromClient i rest }
  | frontEnd (f : φ) (l : HandOff.Step ι (Line ι α)) (h : HandOff ι (Line ι α))
      (hl : l.alone = true) (hh : (s.frontEnd f).step l = some h) :
      Moves L s (.frontEnd f l) (s.setFrontEnd f h)
  | forward (f : φ) (line : Line ι α) (h : HandOff ι (Line ι α))
      (hc : (s.frontEnd f).consumer = .sending line)
      (hh : (s.frontEnd f).step (.send true) = some h) :
      Moves L s (.forward f) { s.setFrontEnd f h with
        toServer := Function.update s.toServer f (s.toServer f ++ [line]) }
  | readServer (f : φ) (packet : ι × Reply ι α) (rest : List (ι × Reply ι α))
      (hf : s.forwarding f = none) (hr : s.fromServer f = packet :: rest) :
      Moves L s (.readServer f) { s with
        forwarding := Function.update s.forwarding f (some packet)
        fromServer := Function.update s.fromServer f rest }
  | reply (f : φ) (i : ι) (r : Reply ι α) (hf : s.forwarding f = some (i, r)) :
      Moves L s (.reply f) { s with
        forwarding := Function.update s.forwarding f none
        toClient := Function.update s.toClient i (s.toClient i ++ [r]) }
  | listen (f : φ) (line : Line ι α) (rest : List (Line ι α)) (hl : s.listener f = .reading)
      (hr : s.toServer f = line :: rest) :
      Moves L s (.listen f) { s.setListener f (.received line) with
        toServer := Function.update s.toServer f rest }
  | sendAck (f : φ) (line : Line ι α) (hl : s.listener f = .received line) :
      Moves L s (.sendAck f)
        ((s.setListener f (.acknowledged line)).sendTo f line.sender .ack)
  | push (f : φ) (line : Line ι α) (hl : s.listener f = .acknowledged line) :
      Moves L s (.push f) ((s.setListener f (.pushed line)).setGroup (L.group line.sender)
        { s.group (L.group line.sender) with
          messages_queue := (s.group (L.group line.sender)).messages_queue ++ [line]
          pushed := (s.group (L.group line.sender)).pushed ++ [line] })
  | unlock (f : φ) (line : Line ι α) (hl : s.listener f = .pushed line) :
      Moves L s (.unlock f) ((s.setListener f .reading).setGroup (L.group line.sender)
        { s.group (L.group line.sender) with unlocked := true })
  | lock (g : γ) (hc : (s.group g).consumer = .locking) (hu : (s.group g).unlocked = true) :
      Moves L s (.lock g)
        (s.setGroup g { s.group g with consumer := .draining, unlocked := false })
  | drained (g : γ) (hc : (s.group g).consumer = .draining)
      (hq : (s.group g).messages_queue = []) :
      Moves L s (.drain g) (s.setGroup g { s.group g with consumer := .locking })
  | popped (g : γ) (line : Line ι α) (rest : List (Line ι α))
      (hc : (s.group g).consumer = .draining) (hq : (s.group g).messages_queue = line :: rest) :
      Moves L s (.drain g)
        (s.setGroup g { s.group g with consumer := .popped line, messages_queue := rest })
  | append (g : γ) (line : Line ι α) (hc : (s.group g).consumer = .popped line) :
      Moves L s (.append g)
        (s.setGroup g { s.group g with consumer := .sending line (L.members g) })
  | sent (g : γ) (line : Line ι α) (j : ι) (todo : List ι)
      (hc : (s.group g).consumer = .sending line (j :: todo)) :
      Moves L s (.broadcast g)
        ((s.setGroup g { s.group g with consumer := .sending line todo }).sendTo
          (L.frontEnd j) j (.message line))
  | finished (g : γ) (line : Line ι α) (hc : (s.group g).consumer = .sending line []) :
      Moves L s (.broadcast g) (s.setGroup g { s.group g with
        consumer := .draining
        done := (s.group g).done ++ [line] })

variable {L : Layout ι φ γ} {s t : Conversation ι φ γ α}

theorem moves_of_step {l : Step ι φ γ α} (h : s.step L l = some t) : s.Moves L l t := by
  cases l with
  | type i text =>
    obtain ⟨c, hc, rfl⟩ := Option.map_eq_some_iff.1 h
    exact .type i text c hc
  | client i l =>
    simp only [step, Option.ite_none_right_eq_some] at h
    obtain ⟨c, hc, rfl⟩ := Option.map_eq_some_iff.1 h.2
    exact .client i l c h.1 hc
  | send i =>
    simp only [step] at h
    split at h
    · rename_i line hp
      obtain ⟨c, hc, rfl⟩ := Option.map_eq_some_iff.1 h
      exact .send i line c hp hc
    · cases h
  | receive i =>
    simp only [step] at h
    split at h
    · cases h
    · rename_i rest hr
      obtain ⟨c, hc, rfl⟩ := Option.map_eq_some_iff.1 h
      exact .acked i rest c hr hc
    · rename_i line rest hr
      rw [Option.ite_none_left_eq_some, Bool.not_eq_true] at h
      obtain ⟨hc, h⟩ := h
      exact Option.some.inj h ▸ .shown i line rest hr hc
  | read i =>
    simp only [step] at h
    split at h
    · cases h
    · rename_i line rest hr
      obtain ⟨k, hk, rfl⟩ := Option.map_eq_some_iff.1 h
      exact .read i line rest k hr hk
  | frontEnd f l =>
    simp only [step, Option.ite_none_right_eq_some] at h
    obtain ⟨k, hk, rfl⟩ := Option.map_eq_some_iff.1 h.2
    exact .frontEnd f l k h.1 hk
  | forward f =>
    simp only [step] at h
    split at h
    · rename_i line hc
      obtain ⟨k, hk, rfl⟩ := Option.map_eq_some_iff.1 h
      exact .forward f line k hc hk
    · cases h
  | readServer f =>
    simp only [step] at h
    split at h
    · rename_i packet rest hf hr
      exact Option.some.inj h ▸ .readServer f packet rest hf hr
    · cases h
  | reply f =>
    simp only [step] at h
    split at h
    · rename_i i r hf
      exact Option.some.inj h ▸ .reply f i r hf
    · cases h
  | listen f =>
    simp only [step] at h
    split at h
    · rename_i line rest hl hr
      exact Option.some.inj h ▸ .listen f line rest hl hr
    · cases h
  | sendAck f =>
    simp only [step] at h
    split at h
    · rename_i line hl
      exact Option.some.inj h ▸ .sendAck f line hl
    · cases h
  | push f =>
    simp only [step] at h
    split at h
    · rename_i line hl
      exact Option.some.inj h ▸ .push f line hl
    · cases h
  | unlock f =>
    simp only [step] at h
    split at h
    · rename_i line hl
      exact Option.some.inj h ▸ .unlock f line hl
    · cases h
  | lock g =>
    simp only [step] at h
    split at h
    · rename_i hc hu
      exact Option.some.inj h ▸ .lock g hc hu
    · cases h
  | drain g =>
    simp only [step] at h
    split at h
    · rename_i hc hq
      exact Option.some.inj h ▸ .drained g hc hq
    · rename_i line rest hc hq
      exact Option.some.inj h ▸ .popped g line rest hc hq
    · cases h
  | append g =>
    simp only [step] at h
    split at h
    · rename_i line hc
      exact Option.some.inj h ▸ .append g line hc
    · cases h
  | broadcast g =>
    simp only [step] at h
    split at h
    · rename_i line hc
      exact Option.some.inj h ▸ .finished g line hc
    · rename_i line j todo hc
      exact Option.some.inj h ▸ .sent g line j todo hc
    · cases h

/-! ## Every program is one of its own runs -/

/-- A program of a family moves, the others stay. -/
theorem forall_update {κ β : Type*} [DecidableEq κ] {P : κ → β → Prop} {x : κ → β} {i : κ} {y : β}
    (h : ∀ j, P j (x j)) (hi : P i y) (j : κ) : P j (Function.update x i y j) :=
  (Function.forall_update_iff x fun j y => P j y).2 ⟨hi, fun j _ => h j⟩ j

theorem client_reachable (h : (conversation α L).Reachable s) (i : ι) :
    (StopAndWait.stopAndWait (Line ι α)).Reachable (s.client i) := by
  refine Transition.System.Reachable.invariant
    (I := fun s => ∀ i, (StopAndWait.stopAndWait (Line ι α)).Reachable (s.client i)) h ?_ ?_ i
  · intro t ht i
    exact .start (ht.client i)
  · intro t l u ht hst
    cases moves_of_step hst with
    | type i text _ hc => exact forall_update ht ((ht i).next (l := .push ⟨i, text⟩) hc)
    | client i l _ _ hc => exact forall_update ht ((ht i).next (l := l) hc)
    | send i _ _ _ hc => exact forall_update ht ((ht i).next (l := .send true) hc)
    | acked i _ _ _ hc => exact forall_update ht ((ht i).next (l := .receive) hc)
    | _ => exact ht

theorem frontEnd_reachable (h : (conversation α L).Reachable s) (f : φ) :
    (HandOff.handOff ι (Line ι α)).Reachable (s.frontEnd f) := by
  refine Transition.System.Reachable.invariant
    (I := fun s => ∀ f, (HandOff.handOff ι (Line ι α)).Reachable (s.frontEnd f)) h ?_ ?_ f
  · intro t ht f
    exact .start (ht.frontEnd f)
  · intro t l u ht hst
    cases moves_of_step hst with
    | read i line _ _ _ hh =>
      exact forall_update ht ((ht (L.frontEnd i)).next (l := .receive i line) hh)
    | frontEnd f l _ _ hh => exact forall_update ht ((ht f).next (l := l) hh)
    | forward f _ _ _ hh => exact forall_update ht ((ht f).next (l := .send true) hh)
    | _ => exact ht

end Conversation
end InstantMessenger
