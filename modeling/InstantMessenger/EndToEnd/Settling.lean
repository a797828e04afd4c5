import InstantMessenger.EndToEnd.AtRest

/-!
# A conversation comes to rest

Every step of a thread brings some line, some packet or some wake-up closer to its end, so
that a conversation in which nothing more is typed stops by itself.

* `StopAndWait.work`, `HandOff.work`, `Conversation.work` — how many steps are left at most,
  counted over all programs and connections.
* `Conversation.bounded` — **every step but typing uses up some of the work**.
* `Conversation.settles` — without further typing a run has at most `work` steps, some run
  comes to rest, and wherever a run comes to rest everything is delivered.
-/

namespace InstantMessenger

open Transition (total total_update totalList totalList_nil totalList_cons totalList_concat)

/-! ## The work of a client -/

section Client

variable {α : Type*} (cost : α → Nat) {c d : StopAndWait α}

/-- The work of the thread in `consumeMessagesToSendQueue`. -/
def QueueSender.work : QueueSender α → Nat
  | .locking => 0
  | .draining => 1
  | .popped message => cost message + 11
  | .awaiting => 2

/-- The work in a client, given what is left to do for a packet once it reached the front
end's slot. -/
def StopAndWait.work (c : StopAndWait α) : Nat :=
  c.consumer.work cost + totalList (fun m => cost m + 11) c.messages_queue +
    3 * c.pushing.toNat + 2 * c.consumerUnlocked.toNat + c.receiving.toNat

theorem StopAndWait.work_alone {l : StopAndWait.Step α} (hl : l.alone = true)
    (h : c.step l = some d) : d.work cost < c.work cost := by
  cases StopAndWait.moves_of_step h with
  | push | written | failed | receive => cases hl
  | unlockConsumer =>
    have hp : c.pushing = true := by
      by_contra hp
      simp [StopAndWait.step, hp] at h
    cases hu : c.consumerUnlocked <;> simp [work, hp, hu]
  | lockConsumer hc =>
    have hu : c.consumerUnlocked = true := by
      by_contra hu
      simp [StopAndWait.step, hc, hu] at h
    simp [work, QueueSender.work, hc, hu]
    omega
  | drained hc hq => simp [work, QueueSender.work, hc, hq]
  | popped message rest hc hq =>
    simp [work, QueueSender.work, hc, hq]
  | lockAck hc hu => simp [work, QueueSender.work, hc]
  | unlockAck hr => simp [work, hr]

theorem StopAndWait.work_send {message : α} (hp : c.consumer = .popped message)
    (h : c.step (.send true) = some d) : d.work cost + cost message + 9 = c.work cost := by
  cases StopAndWait.moves_of_step h with
  | written | failed =>
    simp [work, QueueSender.work, hp]
    omega

theorem StopAndWait.work_receive (h : c.step .receive = some d) :
    d.work cost = c.work cost + 1 := by
  cases StopAndWait.moves_of_step h with
  | receive hr => simp [work, hr]

end Client

/-! ## The work of a front end -/

section FrontEnd

variable {ι α : Type*} [DecidableEq ι] [Fintype ι] (cost : α → Nat) {h k : HandOff ι α}

/-- The work of a client's thread in `processIncomingClientMessage`. -/
def Incoming.work : Incoming α → Nat
  | .idle => 0
  | .waiting message => cost message + 7
  | .writing message => cost message + 6
  | .unlocking => 5

@[simp] theorem Incoming.work_idle : (.idle : Incoming α).work cost = 0 := rfl

@[simp] theorem Incoming.work_waiting (m : α) :
    (Incoming.waiting m).work cost = cost m + 7 := rfl

@[simp] theorem Incoming.work_writing (m : α) :
    (Incoming.writing m).work cost = cost m + 6 := rfl

@[simp] theorem Incoming.work_unlocking : (.unlocking : Incoming α).work cost = 5 := rfl

/-- The work of the consumer. -/
def Processing.work : Processing α → Nat
  | .locking => 0
  | .calling => 3
  | .sending _ => 2
  | .posting => 1

/-- What was written to the slot and not yet sent. -/
def HandOff.unsent (h : HandOff ι α) : List α := h.written.drop h.sent.length

/-- The work in a front end. -/
def HandOff.work (h : HandOff ι α) : Nat :=
  total (Incoming.work cost) h.clients + h.consumer.work + 4 * h.unlocked.toNat +
    totalList cost h.unsent

theorem HandOff.work_alone {l : HandOff.Step ι α} (hp : h.Phase) (hl : l.alone = true)
    (hs : h.step l = some k) : k.work cost < h.work cost := by
  cases HandOff.moves_of_step hs with
  | receive | sent | failed => cases hl
  | wait i message n hi hn =>
    have hsum := total_update (Incoming.work cost) h.clients i (.writing message)
    rw [hi] at hsum
    simp only [work, unsent, setClient, Incoming.work_waiting, Incoming.work_writing] at hsum ⊢
    omega
  | write i message hi =>
    have hsum := total_update (Incoming.work cost) h.clients i .unlocking
    have hlen := (hp.losesNothing.inOrder.1.trans hp.losesNothing.inOrder.2).length_le
    rw [hi] at hsum
    simp only [work, unsent, setClient, Incoming.work_writing, Incoming.work_unlocking] at hsum ⊢
    rw [List.drop_append_of_le_length hlen, totalList_concat]
    omega
  | unlock i hi =>
    have hsum := total_update (Incoming.work cost) h.clients i .idle
    rw [hi] at hsum
    simp only [work, unsent, setClient, Incoming.work_unlocking, Incoming.work_idle] at hsum ⊢
    cases h.unlocked <;> simp <;> omega
  | lock hc hu => simp [work, unsent, Processing.work, hc, hu]
  | call hc => simp [work, unsent, Processing.work, hc]
  | post hc => simp [work, unsent, Processing.work, hc]

theorem HandOff.work_receive {i : ι} {message : α} (hs : h.step (.receive i message) = some k) :
    k.work cost = h.work cost + cost message + 7 := by
  cases HandOff.moves_of_step hs with
  | receive _ _ hi =>
    have hsum := total_update (Incoming.work cost) h.clients i (.waiting message)
    rw [hi] at hsum
    simp only [work, unsent, setClient, Incoming.work_idle, Incoming.work_waiting] at hsum ⊢
    omega

/-- A line that is sent leaves the front end. -/
theorem HandOff.work_send {message : α} (hp : h.Phase) (hc : h.consumer = .sending message)
    (hs : h.step (.send true) = some k) : k.work cost + cost message + 1 = h.work cost := by
  cases HandOff.moves_of_step hs with
  | sent message' hc' =>
    rw [hc] at hc'
    cases hc'
    cases hp with
    | sending _ _ hc' _ _ hsent =>
      rw [hc] at hc'
      cases hc'
      simp [work, unsent, Processing.work, hc, hsent]
      omega
    | free _ _ hc' | writing _ _ _ _ _ hc' | unlocking _ _ _ _ hc' | full _ _ hc'
    | calling _ _ hc' | posting _ _ hc' =>
      rw [hc] at hc'
      cases hc'

end FrontEnd

/-! ## The work of a conversation -/

/-- The work of a client with a packet it gets. -/
def Reply.work {ι α : Type*} : Reply ι α → Nat
  | .ack => 2
  | .message _ => 1

@[simp] theorem Reply.work_ack {ι α : Type*} : (.ack : Reply ι α).work = 2 := rfl

@[simp] theorem Reply.work_message {ι α : Type*} (line : Line ι α) :
    (Reply.message line).work = 1 := rfl

section Server

variable {ι α : Type*} (size : Line ι α → Nat)

/-- The work of a listener, given the number of sessions that a line is for. -/
def LineListener.work : LineListener ι α → Nat
  | .reading => 0
  | .received line => 4 * size line + 12
  | .acknowledged line => 4 * size line + 7
  | .pushed _ => 3

@[simp] theorem LineListener.work_reading : (.reading : LineListener ι α).work size = 0 := rfl

@[simp] theorem LineListener.work_received (line : Line ι α) :
    (LineListener.received line).work size = 4 * size line + 12 := rfl

@[simp] theorem LineListener.work_acknowledged (line : Line ι α) :
    (LineListener.acknowledged line).work size = 4 * size line + 7 := rfl

@[simp] theorem LineListener.work_pushed (line : Line ι α) :
    (LineListener.pushed line).work size = 3 := rfl

/-- The work of a consumer. -/
def GroupConsumer.work : GroupConsumer ι α → Nat
  | .locking => 0
  | .draining => 1
  | .popped line => 4 * size line + 3
  | .sending _ todo => 4 * todo.length + 2

/-- The work in a group. -/
def GroupQueue.work (q : GroupQueue ι α) : Nat :=
  q.consumer.work size + totalList (fun line => 4 * size line + 3) q.messages_queue +
    2 * q.unlocked.toNat

theorem GroupQueue.work_push (q : GroupQueue ι α) (line : Line ι α) (pushed : List (Line ι α)) :
    GroupQueue.work size { q with messages_queue := q.messages_queue ++ [line], pushed } =
      q.work size + (4 * size line + 3) := by
  simp only [work, totalList_concat]
  omega

theorem GroupQueue.work_unlock (q : GroupQueue ι α) :
    GroupQueue.work size { q with unlocked := true } ≤ q.work size + 2 := by
  simp only [work, Bool.toNat_true]
  omega

theorem GroupQueue.work_lock {q : GroupQueue ι α} (hc : q.consumer = .locking)
    (hu : q.unlocked = true) :
    GroupQueue.work size { q with consumer := .draining, unlocked := false } < q.work size := by
  simp [work, GroupConsumer.work, hc, hu]
  omega

end Server

namespace Conversation

variable {ι φ γ α : Type*} {L : Layout ι φ γ}

/-- The number of sessions that a line is for. -/
def size (L : Layout ι φ γ) (line : Line ι α) : Nat := (L.members (L.group line.sender)).length

/-- The work with a line once it has reached the slot of its front end. -/
def cost (L : Layout ι φ γ) (line : Line ι α) : Nat := 4 * size L line + 13

/-- The work with a packet in the hands of a front end. -/
def forwardingWork : Option (ι × Reply ι α) → Nat
  | none => 0
  | some p => p.2.work + 1

/-- The work in a conversation: in the programs, and with what is on its way. -/
def work [Fintype ι] [Fintype φ] [Fintype γ] (L : Layout ι φ γ) (s : Conversation ι φ γ α) :
    Nat :=
  total (StopAndWait.work (cost L)) s.client +
    total (totalList fun line => cost L line + 8) s.fromClient +
    total (totalList Reply.work) s.toClient +
    total (HandOff.work (cost L)) s.frontEnd +
    total (totalList (cost L)) s.toServer +
    total (LineListener.work (size L)) s.listener +
    total forwardingWork s.forwarding +
    total (totalList fun p => p.2.work + 2) s.fromServer +
    total (GroupQueue.work (size L)) s.group

variable [DecidableEq ι] [DecidableEq φ] [DecidableEq γ] [Fintype ι] [Fintype φ] [Fintype γ]
  {s t : Conversation ι φ γ α} {l : Step ι φ γ α}

omit [DecidableEq φ] [DecidableEq γ] [Fintype ι] [Fintype φ] [Fintype γ] in
/-- The line a consumer has popped is a line of its group. -/
theorem group_of_popped (h : Carried L s) {g : γ} {line : Line ι α}
    (hc : (s.group g).consumer = .popped line) : L.group line.sender = g := by
  refine h.addressed.pushed g line ?_
  rw [← h.downward.queue g, hc]
  simp [GroupConsumer.inHand]

omit [DecidableEq ι] [DecidableEq φ] in
/-- A queue that has less to do. -/
theorem work_setGroup_lt {g : γ} {q : GroupQueue ι α}
    (hq : q.work (size L) < (s.group g).work (size L)) : work L (s.setGroup g q) < work L s := by
  have hqueue := total_update (GroupQueue.work (size L)) s.group g q
  simp only [work, setGroup]
  omega

/-- **Every step but typing uses up some of the work.** -/
theorem work_lt (h : (conversation α L).Reachable s) (hquiet : l.isTyping = false)
    (hm : s.Moves L l t) : work L t < work L s := by
  have hcarried := carried_of_reachable h
  have hphase : ∀ f, (s.frontEnd f).Phase := fun f =>
    HandOff.phase_of_reachable (frontEnd_reachable h f)
  cases hm with
  | type => cases hquiet
  | client i l c halone hc =>
    have hc := StopAndWait.work_alone (cost L) halone hc
    have hsum := total_update (StopAndWait.work (cost L)) s.client i c
    simp only [work, setClient]
    omega
  | send i line c hp hc =>
    have hc := StopAndWait.work_send (cost L) hp hc
    have hsum := total_update (StopAndWait.work (cost L)) s.client i c
    have hlines := total_update (totalList fun line => cost L line + 8) s.fromClient i
      (s.fromClient i ++ [line])
    rw [totalList_concat] at hlines
    simp only [work, setClient]
    omega
  | acked i rest c hr hc =>
    have hc := StopAndWait.work_receive (cost L) hc
    have hsum := total_update (StopAndWait.work (cost L)) s.client i c
    have hreplies := total_update (totalList Reply.work) s.toClient i rest
    simp only [hr, totalList_cons, Reply.work_ack] at hreplies
    simp only [work, setClient]
    omega
  | shown i line rest hr hc =>
    have hreplies := total_update (totalList Reply.work) s.toClient i rest
    simp only [hr, totalList_cons, Reply.work_message] at hreplies
    simp only [work]
    omega
  | read i line rest k hr hk =>
    have hk := HandOff.work_receive (cost L) hk
    have hsum := total_update (HandOff.work (cost L)) s.frontEnd (L.frontEnd i) k
    have hlines := total_update (totalList fun line => cost L line + 8) s.fromClient i rest
    rw [hr, totalList_cons] at hlines
    simp only [work, setFrontEnd]
    omega
  | frontEnd f l k halone hk =>
    have hk := HandOff.work_alone (cost L) (hphase f) halone hk
    have hsum := total_update (HandOff.work (cost L)) s.frontEnd f k
    simp only [work, setFrontEnd]
    omega
  | forward f line k hc hk =>
    have hk := HandOff.work_send (cost L) (hphase f) hc hk
    have hsum := total_update (HandOff.work (cost L)) s.frontEnd f k
    have hlines := total_update (totalList (cost L)) s.toServer f (s.toServer f ++ [line])
    rw [totalList_concat] at hlines
    simp only [work, setFrontEnd]
    omega
  | readServer f packet rest hf hr =>
    have hforward := total_update forwardingWork s.forwarding f (some packet)
    have hpackets := total_update (totalList fun p => p.2.work + 2) s.fromServer f rest
    simp only [hf, forwardingWork] at hforward
    rw [hr, totalList_cons] at hpackets
    simp only [work]
    omega
  | reply f i r hf =>
    have hforward := total_update forwardingWork s.forwarding f none
    have hreplies := total_update (totalList Reply.work) s.toClient i (s.toClient i ++ [r])
    simp only [hf, forwardingWork] at hforward
    rw [totalList_concat] at hreplies
    simp only [work]
    omega
  | listen f line rest hl hr =>
    have hlistener := total_update (LineListener.work (size L)) s.listener f (.received line)
    have hlines := total_update (totalList (cost L)) s.toServer f rest
    rw [hl, LineListener.work_reading, LineListener.work_received] at hlistener
    rw [hr, totalList_cons, cost] at hlines
    simp only [work, setListener]
    omega
  | sendAck f line hl =>
    have hlistener := total_update (LineListener.work (size L)) s.listener f (.acknowledged line)
    have hpackets := total_update (totalList fun p => p.2.work + 2) s.fromServer f
      (s.fromServer f ++ [(line.sender, .ack)])
    rw [hl, LineListener.work_received, LineListener.work_acknowledged] at hlistener
    rw [totalList_concat, Reply.work_ack] at hpackets
    simp only [work, setListener, sendTo]
    omega
  | push f line hl =>
    have hlistener := total_update (LineListener.work (size L)) s.listener f (.pushed line)
    have hqueue := total_update (GroupQueue.work (size L)) s.group (L.group line.sender)
      { s.group (L.group line.sender) with
        messages_queue := (s.group (L.group line.sender)).messages_queue ++ [line]
        pushed := (s.group (L.group line.sender)).pushed ++ [line] }
    rw [hl, LineListener.work_acknowledged, LineListener.work_pushed] at hlistener
    simp only [GroupQueue.work_push] at hqueue
    simp only [work, setListener, setGroup]
    omega
  | unlock f line hl =>
    have hlistener := total_update (LineListener.work (size L)) s.listener f .reading
    have hqueue := total_update (GroupQueue.work (size L)) s.group (L.group line.sender)
      { s.group (L.group line.sender) with unlocked := true }
    have hless := GroupQueue.work_unlock (size L) (s.group (L.group line.sender))
    rw [hl, LineListener.work_pushed, LineListener.work_reading] at hlistener
    simp only [work, setListener, setGroup] at hqueue hless ⊢
    omega
  | lock g hc hu => exact work_setGroup_lt (GroupQueue.work_lock (size L) hc hu)
  | drained g hc hq =>
    refine work_setGroup_lt ?_
    simp [GroupQueue.work, GroupConsumer.work, hc]
  | popped g line rest hc hq =>
    refine work_setGroup_lt ?_
    simp [GroupQueue.work, GroupConsumer.work, hc, hq]
  | append g line hc =>
    refine work_setGroup_lt ?_
    simp [GroupQueue.work, GroupConsumer.work, hc, size, group_of_popped hcarried hc]
  | sent g line j todo hc =>
    have hqueue := total_update (GroupQueue.work (size L)) s.group g
      { s.group g with consumer := .sending line todo }
    have hpackets := total_update (totalList fun p => p.2.work + 2) s.fromServer (L.frontEnd j)
      (s.fromServer (L.frontEnd j) ++ [(j, .message line)])
    have hless : GroupQueue.work (size L) { s.group g with consumer := .sending line todo } + 4 =
        (s.group g).work (size L) := by
      simp [GroupQueue.work, GroupConsumer.work, hc]
      omega
    rw [totalList_concat, Reply.work_message] at hpackets
    simp only [work, setGroup, sendTo] at hqueue hless ⊢
    omega
  | finished g line hc =>
    refine work_setGroup_lt ?_
    simp [GroupQueue.work, GroupConsumer.work, hc]

theorem bounded (L : Layout ι φ γ) :
    Transition.Bounded (conversation α L) (fun l => l.isTyping = false) (work L) :=
  fun _ _ _ h hquiet hst => work_lt h hquiet (moves_of_step hst)

/-! ## The result -/

/-- **The conversation comes to rest, with everything delivered.** -/
structure Settles (L : Layout ι φ γ) (s : Conversation ι φ γ α) : Prop where
  /-- Without further typing there are no more steps than this. -/
  bound : ∀ ls t, (∀ l ∈ ls, l.isTyping = false) → (conversation α L).exec s ls = some t →
    ls.length ≤ work L s
  /-- Some of them lead to rest. -/
  rests : ∃ ls t, (∀ l ∈ ls, l.isTyping = false) ∧ (conversation α L).exec s ls = some t ∧
    Quiet L t
  /-- Whatever leads to rest has delivered everything. -/
  delivered : ∀ ls t, (conversation α L).exec s ls = some t → Quiet L t → Delivered L t

/-- **Every conversation settles**: from any state that any run of the programs can reach, the
threads come to rest by themselves, after at most `work` steps, and then every line that was
typed is acknowledged and shown to every member of its group. -/
theorem settles (h : (conversation α L).Reachable s) : Settles L s where
  bound _ _ hquiet he := (Nat.le_add_right _ _).trans ((bounded L).length_le h hquiet he)
  rests := (bounded L).exists_atRest h
  delivered _ _ he hrest := delivered_of_quiet (h.exec he) hrest

/-- Two lines have been typed, one of them is on its way to the front end. -/
def twoTyped : List (Step (Fin 2) Unit Unit Nat) := oneLine.take 6

theorem settles_twoTyped :
    ∃ s, (conversation Nat twoMembers).exec silent twoTyped = some s ∧ Settles twoMembers s ∧
      s.fromClient 0 = [⟨0, 7⟩] := by
  obtain ⟨s, hs⟩ : ∃ s, (conversation Nat twoMembers).exec silent twoTyped = some s :=
    Option.isSome_iff_exists.1 (by decide)
  have hsettles := settles (Transition.System.reachable_of_exec start_silent hs)
  refine ⟨s, hs, hsettles, ?_⟩
  cases hs
  rfl

end Conversation
end InstantMessenger
