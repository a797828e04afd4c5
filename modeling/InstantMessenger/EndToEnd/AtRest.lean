import InstantMessenger.EndToEnd.OneOrder

/-!
# A conversation at rest

No thread of any program can move, except that somebody may type: what has become of the lines
that were typed before.

* `Conversation.Step.isTyping`, `Conversation.Quiet` — nothing but typing is possible.
* `Conversation.answered_le`, `Conversation.ack_expected` — the server answers no line twice,
  so that every ACK finds a client that waits for it; this is what the client by itself had
  to assume of its surroundings.
* `Conversation.Awake`, `Conversation.awake_of_reachable` — a queue with a line in it has an
  awake consumer, or one that is about to be woken.
* `Conversation.delivered_of_quiet` — **when nothing is left to do, every line is acknowledged,
  and is on the screens of all members of its group, in one order**.
-/

namespace InstantMessenger

open Broadcast (of of_nil of_append)

namespace Conversation

variable {ι φ γ α : Type*} [DecidableEq ι] [DecidableEq φ] [DecidableEq γ] {L : Layout ι φ γ}
  {s t : Conversation ι φ γ α} {l : Step ι φ γ α}

/-- A line is typed. -/
def Step.isTyping : Step ι φ γ α → Bool
  | .type .. => true
  | _ => false

/-- No thread can move, except that somebody may type. -/
def Quiet (L : Layout ι φ γ) (s : Conversation ι φ γ α) : Prop :=
  Transition.AtRest (conversation α L) (fun l => l.isTyping = false) s

/-- **Everything is delivered.** -/
structure Delivered (L : Layout ι φ γ) (s : Conversation ι φ γ α) : Prop where
  /-- Every line typed is in the common order, where its sender put it. -/
  ordered : ∀ i, s.logged L i = (s.client i).inputs
  shown : ∀ j, s.shown j = (s.group (L.group j)).pushed
  acknowledged : ∀ i, (s.client i).acknowledged = (s.client i).inputs.length

/-! ## The ACKs -/

theorem answered_length_le (i : ι) (x : LineListener ι α) :
    (of Line.sender i x.answered).length ≤ (of Line.sender i x.toPush).length := by
  cases x with
  | reading | received | pushed => exact Nat.zero_le _
  | acknowledged line => exact le_rfl

/-- No line is answered before it was sent, and none twice. -/
theorem answered_le (h : (conversation α L).Reachable s) (i : ι) :
    s.answered L i ≤ (s.client i).written.length := by
  have hserver := congrArg List.length ((carried_of_reachable h).upward.server i)
  have hsent := (sent_isPrefix h i).length_le
  have htoPush := answered_length_le i (s.listener (L.frontEnd i))
  rw [answered]
  simp only [List.length_append] at hserver
  omega

/-- **Every ACK is expected.** -/
theorem ack_expected (h : (conversation α L).Reachable s) {i : ι} {rest : List (Reply ι α)}
    (hr : s.toClient i = .ack :: rest) : (s.client i).delivered < (s.client i).written.length := by
  have hacks := (carried_of_reachable h).downward.acks i
  have hle := answered_le h i
  rw [inFlight_receive hr, if_pos rfl, Reply.acks_append] at hacks
  have hone : Reply.acks [(.ack : Reply ι α)] = 1 := rfl
  omega

/-! ## The wake-ups of the groups -/

/-- A consumer that sleeps over a line can lock the mutex, now or after an unlock. -/
def Awake (L : Layout ι φ γ) (s : Conversation ι φ γ α) : Prop :=
  ∀ g, (s.group g).consumer = .locking → (s.group g).messages_queue ≠ [] →
    (s.group g).unlocked = true ∨ ∃ f line, s.listener f = .pushed line ∧ L.group line.sender = g

theorem Awake.step (h : Awake L s) (hm : s.Moves L l t) : Awake L t := by
  intro g hc hq
  -- a listener that moves is not the one that is about to unlock
  have hkeep : ∀ {f : φ} {x : LineListener ι α}, (∀ line, s.listener f ≠ .pushed line) →
      (∃ f' line, s.listener f' = .pushed line ∧ L.group line.sender = g) →
      ∃ f' line, Function.update s.listener f x f' = .pushed line ∧ L.group line.sender = g := by
    rintro f x hf ⟨f', line, hl, hg⟩
    have hne : f' ≠ f := fun he => hf line (he ▸ hl)
    exact ⟨f', line, by rw [Function.update_of_ne hne, hl], hg⟩
  have hqueue : ∀ {g' : γ} {q : GroupQueue ι α}, g ≠ g' → (s.setGroup g' q).group g = s.group g :=
    fun hne => Function.update_of_ne hne ..
  have hself : ∀ {q : GroupQueue ι α}, (s.setGroup g q).group g = q := Function.update_self ..
  have hmoves : ∀ {g' : γ} {q : GroupQueue ι α},
      (q.consumer = .locking → q.messages_queue = []) →
      ((s.setGroup g' q).group g).consumer = .locking →
      ((s.setGroup g' q).group g).messages_queue ≠ [] →
      ((s.setGroup g' q).group g).unlocked = true ∨
        ∃ f line, s.listener f = .pushed line ∧ L.group line.sender = g := by
    intro g' q hempty
    by_cases hg : g = g'
    · subst hg
      rw [hself]
      exact fun hc hq => absurd (hempty hc) hq
    · rw [hqueue hg]
      exact h g
  cases hm with
  | listen f line rest hl hr => exact (h g hc hq).imp_right (hkeep (by simp [hl]))
  | sendAck f line hl => exact (h g hc hq).imp_right (hkeep (by simp [hl]))
  | push f line hl =>
    by_cases hg : L.group line.sender = g
    · exact .inr ⟨f, line, Function.update_self .., hg⟩
    · have hsame := @hqueue (L.group line.sender)
        { s.group (L.group line.sender) with
          messages_queue := (s.group (L.group line.sender)).messages_queue ++ [line]
          pushed := (s.group (L.group line.sender)).pushed ++ [line] } (Ne.symm hg)
      have hold := h g ((congrArg _ hsame).symm.trans hc) fun he => hq ((congrArg _ hsame).trans he)
      exact (hold.imp_left (congrArg _ hsame).trans).imp_right (hkeep (by simp [hl]))
  | unlock f line hl =>
    by_cases hg : L.group line.sender = g
    · subst hg
      exact .inl (congrArg GroupQueue.unlocked hself)
    · have hsame := @hqueue (L.group line.sender)
        { s.group (L.group line.sender) with unlocked := true } (Ne.symm hg)
      rcases h g ((congrArg _ hsame).symm.trans hc) fun he => hq ((congrArg _ hsame).trans he)
        with hu | ⟨f', line', hl', hg'⟩
      · exact .inl ((congrArg _ hsame).trans hu)
      · have hne : f' ≠ f := by
          rintro rfl
          rw [hl, LineListener.pushed.injEq] at hl'
          exact hg (hl' ▸ hg')
        exact .inr ⟨f', line', (Function.update_of_ne hne ..).trans hl', hg'⟩
  | drained g' _ hempty => exact hmoves (fun _ => hempty) hc hq
  | lock g' => exact hmoves (fun hl => (by cases hl)) hc hq
  | popped g' => exact hmoves (fun hl => (by cases hl)) hc hq
  | append g' => exact hmoves (fun hl => (by cases hl)) hc hq
  | sent g' => exact hmoves (fun hl => (by cases hl)) hc hq
  | finished g' => exact hmoves (fun hl => (by cases hl)) hc hq
  | _ => exact h g hc hq

theorem awake_of_reachable (h : (conversation α L).Reachable s) : Awake L s := by
  refine h.invariant ?_ fun t l u ht hst => ht.step (moves_of_step hst)
  intro t ht g _ hq
  rw [ht.group g] at hq
  exact absurd rfl hq

/-! ## Nothing is left to do -/

section Quiet

theorem Quiet.stuck (hq : Quiet L s) (l : Step ι φ γ α) (hl : l.isTyping = false) :
    step L s l = none := hq l hl

theorem Quiet.receiving (hq : Quiet L s) (i : ι) : (s.client i).receiving = false := by
  by_contra hr
  rw [Bool.not_eq_false] at hr
  have hnone := hq.stuck (.client i .unlockAck) rfl
  simp [step, StopAndWait.Step.alone, StopAndWait.step, hr] at hnone

/-- Nothing is on its way to a client. -/
theorem Quiet.toClient (h : (conversation α L).Reachable s) (hq : Quiet L s) (i : ι) :
    s.toClient i = [] := by
  have hr := hq.receiving i
  have hnone := hq.stuck (.receive i) rfl
  cases hto : s.toClient i with
  | nil => rfl
  | cons r rest =>
    exfalso
    cases r with
    | message line => simp [step, hto, hr] at hnone
    | ack =>
      have hexpected := ack_expected h hto
      simp [step, hto, StopAndWait.step, hr, hexpected] at hnone

theorem Quiet.forwarding (hq : Quiet L s) (f : φ) : s.forwarding f = none := by
  have hnone := hq.stuck (.reply f) rfl
  cases hf : s.forwarding f with
  | none => rfl
  | some p => simp [step, hf] at hnone

theorem Quiet.fromServer (hq : Quiet L s) (f : φ) : s.fromServer f = [] := by
  have hnone := hq.stuck (.readServer f) rfl
  cases hr : s.fromServer f with
  | nil => rfl
  | cons p rest => simp [step, hq.forwarding f, hr] at hnone

theorem Quiet.inFlight (h : (conversation α L).Reachable s) (hq : Quiet L s) (j : ι) :
    s.inFlight L j = [] := by
  rw [Conversation.inFlight, hq.toClient h, hq.forwarding, hq.fromServer]
  rfl

theorem Quiet.listener (hq : Quiet L s) (f : φ) : s.listener f = .reading := by
  cases hl : s.listener f with
  | reading => rfl
  | received line =>
    have hnone := hq.stuck (.sendAck f) rfl
    simp [step, hl] at hnone
  | acknowledged line =>
    have hnone := hq.stuck (.push f) rfl
    simp [step, hl] at hnone
  | pushed line =>
    have hnone := hq.stuck (.unlock f) rfl
    simp [step, hl] at hnone

theorem Quiet.toServer (hq : Quiet L s) (f : φ) : s.toServer f = [] := by
  have hnone := hq.stuck (.listen f) rfl
  cases hr : s.toServer f with
  | nil => rfl
  | cons line rest => simp [step, hq.listener f, hr] at hnone

/-- The consumer of a group sleeps, and its queue is empty. -/
theorem Quiet.group (h : (conversation α L).Reachable s) (hq : Quiet L s) (g : γ) :
    (s.group g).consumer = .locking ∧ (s.group g).messages_queue = [] := by
  have hc : (s.group g).consumer = .locking := by
    cases hc : (s.group g).consumer with
    | locking => rfl
    | draining =>
      have hnone := hq.stuck (.drain g) rfl
      cases hm : (s.group g).messages_queue <;> simp [step, hc, hm] at hnone
    | popped line =>
      have hnone := hq.stuck (.append g) rfl
      simp [step, hc] at hnone
    | sending line todo =>
      have hnone := hq.stuck (.broadcast g) rfl
      cases todo <;> simp [step, hc] at hnone
  refine ⟨hc, ?_⟩
  by_contra hne
  rcases awake_of_reachable h g hc hne with hu | ⟨f, line, hl, -⟩
  · have hnone := hq.stuck (.lock g) rfl
    simp [step, hc, hu] at hnone
  · rw [hq.listener f] at hl
    cases hl

/-- The slot of a front end is free, and no thread has a line for it. -/
theorem Quiet.frontEnd (h : (conversation α L).Reachable s) (hq : Quiet L s) (f : φ) :
    (∀ i, (s.frontEnd f).clients i = .idle) ∧ (s.frontEnd f).sent = (s.frontEnd f).written := by
  have halone : ∀ l : HandOff.Step ι (Line ι α), l.alone = true → (s.frontEnd f).step l = none := by
    intro l hl
    have hnone := hq.stuck (.frontEnd f l) rfl
    rwa [step, if_pos hl, Option.map_eq_none_iff] at hnone
  cases HandOff.phase_of_reachable (frontEnd_reachable h f) with
  | free hsem hu hc hout hpassed hsent =>
    refine ⟨?_, hsent⟩
    intro i
    have hi := hout i
    cases hcl : (s.frontEnd f).clients i with
    | idle => rfl
    | waiting m =>
      have hnone := halone (.wait i) rfl
      simp [HandOff.step, hcl, hsem] at hnone
    | writing m => simp [hcl, Incoming.inside] at hi
    | unlocking => simp [hcl, Incoming.inside] at hi
  | writing i m hi =>
    have hnone := halone (.write i) rfl
    simp [HandOff.step, hi] at hnone
  | unlocking i hi =>
    have hnone := halone (.unlock i) rfl
    simp [HandOff.step, hi] at hnone
  | full _ hu hc =>
    have hnone := halone .lock rfl
    simp [HandOff.step, hc, hu] at hnone
  | calling _ _ hc =>
    have hnone := halone .call rfl
    simp [HandOff.step, hc] at hnone
  | sending _ _ hc =>
    have hnone := hq.stuck (.forward f) rfl
    simp [step, HandOff.step, hc] at hnone
  | posting _ _ hc =>
    have hnone := halone .post rfl
    simp [HandOff.step, hc] at hnone

theorem Quiet.fromClient (h : (conversation α L).Reachable s) (hq : Quiet L s) (i : ι) :
    s.fromClient i = [] := by
  have hnone := hq.stuck (.read i) rfl
  have hidle := (hq.frontEnd h (L.frontEnd i)).1 i
  cases hr : s.fromClient i with
  | nil => rfl
  | cons line rest => simp [step, HandOff.step, hr, hidle] at hnone

/-- What a client has written is in the queue of its group. -/
theorem Quiet.logged (h : (conversation α L).Reachable s) (hq : Quiet L s) (i : ι) :
    s.logged L i = (s.client i).written := by
  have hup := (carried_of_reachable h).upward
  obtain ⟨hidle, hsent⟩ := hq.frontEnd h (L.frontEnd i)
  have huplink := hup.uplink i
  have hserver := hup.server i
  rw [hidle i, hq.fromClient h i] at huplink
  rw [hq.listener, hq.toServer, hsent] at hserver
  simp only [Incoming.held, LineListener.toPush, of_nil, List.append_nil] at huplink hserver
  rw [hserver, huplink]

end Quiet

/-! ## The result -/

/-- A client that is answered for everything it sent has sent everything. -/
theorem Quiet.client (h : (conversation α L).Reachable s) (hq : Quiet L s) (i : ι) :
    (s.client i).inputs = (s.client i).written ∧
      (s.client i).acknowledged = (s.client i).written.length := by
  obtain ⟨ho, hcount, hwake⟩ := StopAndWait.invariants_of_reachable (client_reachable h i)
  have hcarried := carried_of_reachable h
  have halone : ∀ l : StopAndWait.Step (Line ι α), l.alone = true →
      (s.client i).step l = none := by
    intro l hl
    have hnone := hq.stuck (.client i l) rfl
    rwa [step, if_pos hl, Option.map_eq_none_iff] at hnone
  have hsent : (s.client i).written = (s.client i).sent := ho.all (hcarried.upward.isUp i)
  -- every line was answered, and every answer was read and handled
  have hdelivered : (s.client i).delivered = (s.client i).written.length := by
    have hacks := hcarried.downward.acks i
    rw [hq.inFlight h i, answered, hq.logged h i, hq.listener] at hacks
    simpa [Reply.acks, LineListener.answered] using hacks
  have hacked : (s.client i).acknowledged = (s.client i).written.length := by
    have hreceived := hcount.received
    rw [hq.receiving i, hdelivered] at hreceived
    simpa using hreceived.symm
  have hlocking : (s.client i).consumer = .locking := by
    cases hc : (s.client i).consumer with
    | locking => rfl
    | draining =>
      have hnone := halone .drain rfl
      cases hm : (s.client i).messages_queue <;> simp [StopAndWait.step, hc, hm] at hnone
    | popped line =>
      have hnone := hq.stuck (.send i) rfl
      simp [step, StopAndWait.step, hc, hcarried.upward.isUp i] at hnone
    | awaiting =>
      have hlen := hcount.awaiting hc
      have hu : (s.client i).ackUnlocked = true := by
        cases hu : (s.client i).ackUnlocked with
        | true => rfl
        | false =>
          rw [hu, hacked, hsent] at hlen
          simp at hlen
      have hnone := halone .lockAck rfl
      simp [StopAndWait.step, hc, hu] at hnone
  have hempty : (s.client i).messages_queue = [] := by
    by_contra hne
    rcases hwake hlocking hne with hu | hp
    · have hnone := halone .lockConsumer rfl
      simp [StopAndWait.step, hlocking, hu] at hnone
    · have hnone := halone .unlockConsumer rfl
      simp [StopAndWait.step, hp] at hnone
  refine ⟨?_, hacked⟩
  rw [← ho.inputs, hlocking, hempty, hsent]
  simp [QueueSender.inHand]

/-- **At rest everything is delivered**, whatever was typed, by how many clients, through how
many front ends and into how many groups, and however the threads were scheduled. -/
theorem delivered_of_quiet (h : (conversation α L).Reachable s) (hq : Quiet L s) :
    Delivered L s where
  ordered i := (hq.logged h i).trans (hq.client h i).1.symm
  acknowledged i := by rw [(hq.client h i).1, (hq.client h i).2]
  shown j := by
    obtain ⟨hc, hempty⟩ := hq.group h (L.group j)
    have hshown := (carried_of_reachable h).downward.shown j
    have hqueue := (carried_of_reachable h).downward.queue (L.group j)
    rw [hq.inFlight h j, told, hc] at hshown
    rw [hc, hempty] at hqueue
    simp only [GroupConsumer.sentTo, GroupConsumer.inHand, List.append_nil] at hshown hqueue
    rw [← hqueue, ← hshown]
    simp [Reply.lines]

end Conversation
end InstantMessenger
