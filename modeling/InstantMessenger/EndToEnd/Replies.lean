import InstantMessenger.EndToEnd.Carriage

/-!
# What comes back in a conversation

The packets on their way to a client: the lines of its group's broadcasts, and the ACKs of its
own lines.

* `Conversation.inFlight` — the packets on their way to a client, the oldest first: in its own
  connection, in the hands of the front end, and in the connection of the front end.
* `Conversation.Downward` — **with the lines it was shown, those on the way are what was
  broadcast to the session so far**, and with the ACKs it has read, those on the way are one
  for each of its lines that the listener has answered.
* `Conversation.Carried`, `Conversation.carried_of_reachable` — the ways up and down are in
  order in every run.
-/

namespace InstantMessenger

open Broadcast (of of_nil of_append of_cons_self of_cons_ne)

/-- The line that is answered and not yet in the queue. -/
def LineListener.answered {ι α : Type*} : LineListener ι α → List (Line ι α)
  | .acknowledged line => [line]
  | .reading | .received _ | .pushed _ => []

/-- The line the consumer is at work on. -/
def GroupConsumer.inHand {ι α : Type*} : GroupConsumer ι α → List (Line ι α)
  | .popped line | .sending line _ => [line]
  | .locking | .draining => []

/-- The line that is being broadcast, if it was sent to the session already. -/
def GroupConsumer.sentTo {ι α : Type*} [DecidableEq ι] (j : ι) :
    GroupConsumer ι α → List (Line ι α)
  | .sending line todo => if j ∈ todo then [] else [line]
  | .locking | .draining | .popped _ => []

/-- The lines among the packets for a client. -/
def Reply.lines {ι α : Type*} (rs : List (Reply ι α)) : List (Line ι α) :=
  rs.filterMap fun
    | .ack => none
    | .message line => some line

/-- The number of ACKs among them. -/
def Reply.acks {ι α : Type*} (rs : List (Reply ι α)) : Nat :=
  rs.countP fun
    | .ack => true
    | .message _ => false

/-- The packets for one client on the connection of its front end. -/
def Reply.for {ι α : Type*} [DecidableEq ι] (j : ι) (ps : List (ι × Reply ι α)) :
    List (Reply ι α) :=
  ps.filterMap fun p => if p.1 = j then some p.2 else none

namespace Reply

variable {ι α : Type*}

theorem lines_append (rs qs : List (Reply ι α)) : lines (rs ++ qs) = lines rs ++ lines qs :=
  List.filterMap_append ..

theorem acks_append (rs qs : List (Reply ι α)) : acks (rs ++ qs) = acks rs + acks qs :=
  List.countP_append ..

variable [DecidableEq ι]

theorem for_append (j : ι) (ps qs : List (ι × Reply ι α)) :
    Reply.for j (ps ++ qs) = Reply.for j ps ++ Reply.for j qs := List.filterMap_append ..

theorem for_self (j : ι) (r : Reply ι α) : Reply.for j [(j, r)] = [r] := by simp [Reply.for]

theorem for_ne {i j : ι} (r : Reply ι α) (h : i ≠ j) : Reply.for j [(i, r)] = [] := by
  simp [Reply.for, h]

end Reply

namespace Conversation

variable {ι φ γ α : Type*} [DecidableEq ι] [DecidableEq φ] [DecidableEq γ] {L : Layout ι φ γ}
  {s t : Conversation ι φ γ α} {l : Step ι φ γ α}

/-! ## The packets on their way -/

/-- The packets on their way to a client, the oldest first. -/
def inFlight (L : Layout ι φ γ) (s : Conversation ι φ γ α) (j : ι) : List (Reply ι α) :=
  s.toClient j ++ Reply.for j (s.forwarding (L.frontEnd j)).toList ++
    Reply.for j (s.fromServer (L.frontEnd j))

omit [DecidableEq γ] in
/-- What the server sends to a session is behind everything on its way there. -/
theorem inFlight_sendTo (i : ι) (r : Reply ι α) (j : ι) :
    (s.sendTo (L.frontEnd i) i r).inFlight L j =
      s.inFlight L j ++ if j = i then [r] else [] := by
  show s.toClient j ++ Reply.for j (s.forwarding (L.frontEnd j)).toList ++ Reply.for j
    (Function.update s.fromServer (L.frontEnd i) (s.fromServer (L.frontEnd i) ++ [(i, r)])
      (L.frontEnd j)) = _
  by_cases hij : j = i
  · subst hij
    rw [Function.update_self, Reply.for_append, Reply.for_self, if_pos rfl, inFlight,
      List.append_assoc, List.append_assoc, List.append_assoc]
  · rw [if_neg hij, List.append_nil]
    by_cases hf : L.frontEnd j = L.frontEnd i
    · rw [hf, Function.update_self, Reply.for_append, Reply.for_ne r (Ne.symm hij),
        List.append_nil, inFlight, hf]
    · rw [Function.update_of_ne hf]
      rfl

omit [DecidableEq γ] in
/-- The front end passes the packets on in their order. -/
theorem inFlight_readServer {f : φ} {packet : ι × Reply ι α} {rest : List (ι × Reply ι α)}
    (hf : s.forwarding f = none) (hr : s.fromServer f = packet :: rest) (j : ι) :
    inFlight L { s with
      forwarding := Function.update s.forwarding f (some packet)
      fromServer := Function.update s.fromServer f rest } j = s.inFlight L j := by
  by_cases hj : L.frontEnd j = f
  · subst hj
    simp only [inFlight, Function.update_self, hf, hr, Option.toList, List.append_assoc]
    rw [← Reply.for_append]
    rfl
  · simp only [inFlight, Function.update_of_ne hj]

omit [DecidableEq γ] in
theorem inFlight_reply {f : φ} {i : ι} {r : Reply ι α} (hf : s.forwarding f = some (i, r))
    (hi : L.frontEnd i = f) (j : ι) :
    inFlight L { s with
      forwarding := Function.update s.forwarding f none
      toClient := Function.update s.toClient i (s.toClient i ++ [r]) } j = s.inFlight L j := by
  subst hi
  by_cases hij : j = i
  · subst hij
    simp only [inFlight, Function.update_self, hf, Option.toList, Reply.for_self]
    simp [Reply.for]
  · simp only [inFlight, Function.update_of_ne hij]
    by_cases hj : L.frontEnd j = L.frontEnd i
    · rw [hj, Function.update_self, hf]
      simp only [Option.toList, Reply.for_ne r (Ne.symm hij)]
      rfl
    · rw [Function.update_of_ne hj]

omit [DecidableEq φ] [DecidableEq γ] in
/-- A client takes the oldest packet. -/
theorem inFlight_receive {i : ι} {r : Reply ι α} {rest : List (Reply ι α)}
    (hr : s.toClient i = r :: rest) (j : ι) :
    s.inFlight L j = (if j = i then [r] else []) ++
      inFlight L { s with toClient := Function.update s.toClient i rest } j := by
  by_cases hij : j = i
  · subst hij
    simp [inFlight, hr]
  · simp [inFlight, hij]

/-! ## What was broadcast -/

/-- What was broadcast to a session so far. -/
def told (L : Layout ι φ γ) (s : Conversation ι φ γ α) (j : ι) : List (Line ι α) :=
  (s.group (L.group j)).done ++ (s.group (L.group j)).consumer.sentTo j

/-- How many lines of a client the listener has answered. -/
def answered (L : Layout ι φ γ) (s : Conversation ι φ γ α) (j : ι) : Nat :=
  (s.logged L j).length + (of Line.sender j (s.listener (L.frontEnd j)).answered).length

/-- **The packets for a client are the broadcasts and the ACKs it has still to see.** -/
structure Downward (L : Layout ι φ γ) (s : Conversation ι φ γ α) : Prop where
  shown : ∀ j, s.shown j ++ Reply.lines (s.inFlight L j) = s.told L j
  acks : ∀ j, (s.client j).delivered + Reply.acks (s.inFlight L j) = s.answered L j
  queue : ∀ g, (s.group g).done ++ (s.group g).consumer.inHand ++ (s.group g).messages_queue =
    (s.group g).pushed
  todo : ∀ g line todo, (s.group g).consumer = .sending line todo → todo <:+ L.members g

omit [DecidableEq φ] in
/-- A queue that moves without a broadcast tells nobody anything. -/
theorem told_setGroup {g : γ} {q : GroupQueue ι α}
    (hq : ∀ j, L.group j = g → q.done ++ q.consumer.sentTo j =
      (s.group g).done ++ (s.group g).consumer.sentTo j) (j : ι) :
    (s.setGroup g q).told L j = s.told L j := by
  show (Function.update s.group g q (L.group j)).done ++
    (Function.update s.group g q (L.group j)).consumer.sentTo j = _
  by_cases hj : L.group j = g
  · rw [hj, Function.update_self, hq j hj, told, hj]
  · rw [Function.update_of_ne hj]
    rfl

omit [DecidableEq φ] [DecidableEq γ] in
/-- A broadcast that has not sent to a session yet. -/
theorem sentTo_cons {g : γ} {line : Line ι α} {j : ι} {todo : List ι}
    (hsub : (j :: todo) <:+ L.members g) (k : ι) :
    (GroupConsumer.sending line todo).sentTo k =
      (GroupConsumer.sending line (j :: todo)).sentTo k ++ if k = j then [line] else [] := by
  have hnodup : (j :: todo).Nodup := (L.nodup g).sublist hsub.sublist
  rw [List.nodup_cons] at hnodup
  by_cases hk : k = j
  · subst hk
    simp [GroupConsumer.sentTo, hnodup.1]
  · simp [GroupConsumer.sentTo, hk]

theorem Downward.shown_step (ha : Addressed L s) (h : Downward L s) (hm : s.Moves L l t) (j : ι) :
    t.shown j ++ Reply.lines (t.inFlight L j) = t.told L j := by
  have hold := h.shown j
  cases hm with
  | acked i rest c hr hc =>
    rw [inFlight_receive hr, Reply.lines_append] at hold
    refine Eq.trans ?_ hold
    by_cases hij : j = i
    · rw [if_pos hij]
      rfl
    · rw [if_neg hij]
      rfl
  | shown i line rest hr hc =>
    rw [inFlight_receive hr, Reply.lines_append] at hold
    refine Eq.trans ?_ hold
    show Function.update s.shown i (s.shown i ++ [line]) j ++ _ = _
    by_cases hij : j = i
    · subst hij
      rw [Function.update_self, if_pos rfl, List.append_assoc]
      rfl
    · rw [Function.update_of_ne hij, if_neg hij]
      rfl
  | readServer f packet rest hf hr =>
    refine Eq.trans ?_ hold
    rw [← inFlight_readServer hf hr]
  | reply f i r hf =>
    refine Eq.trans ?_ hold
    rw [← inFlight_reply hf (ha.forwarding f _ hf)]
  | sendAck f line hl =>
    have hf := ha.listener f line (by simp [hl, LineListener.lines])
    subst hf
    refine Eq.trans ?_ hold
    show s.shown j ++
      Reply.lines ((s.sendTo (L.frontEnd line.sender) line.sender .ack).inFlight L j) = _
    rw [inFlight_sendTo, Reply.lines_append]
    by_cases hij : j = line.sender
    · simp [hij, Reply.lines]
    · simp [hij, Reply.lines]
  | sent g line i todo hc =>
    have hi : L.group i = g :=
      (L.mem_members g i).1 ((h.todo g line _ hc).subset List.mem_cons_self)
    show s.shown j ++ Reply.lines ((s.sendTo (L.frontEnd i) i (.message line)).inFlight L j) =
      (s.setGroup g { s.group g with consumer := .sending line todo }).told L j
    rw [inFlight_sendTo, Reply.lines_append, ← List.append_assoc, hold]
    show (s.group (L.group j)).done ++ (s.group (L.group j)).consumer.sentTo j ++ _ =
      (Function.update s.group g _ (L.group j)).done ++
        (Function.update s.group g _ (L.group j)).consumer.sentTo j
    by_cases hj : L.group j = g
    · rw [hj, Function.update_self, hc, List.append_assoc]
      simp only [sentTo_cons (h.todo g line _ hc) j]
      by_cases hij : j = i
      · simp [hij, Reply.lines]
      · simp [hij, Reply.lines]
    · have hij : j ≠ i := fun he => hj (he ▸ hi)
      rw [Function.update_of_ne hj, if_neg hij]
      simp [Reply.lines]
  | push f line hl => exact hold.trans (told_setGroup (by intro k _; rfl) j).symm
  | unlock f line hl => exact hold.trans (told_setGroup (by intro k _; rfl) j).symm
  | lock g hc hu =>
    exact hold.trans (told_setGroup (by intro k _; rw [hc]; rfl) j).symm
  | drained g hc hq =>
    exact hold.trans (told_setGroup (by intro k _; rw [hc]; rfl) j).symm
  | popped g line rest hc hq =>
    exact hold.trans (told_setGroup (by intro k _; rw [hc]; rfl) j).symm
  | append g line hc =>
    refine hold.trans (told_setGroup ?_ j).symm
    intro k hk
    rw [hc]
    simp [GroupConsumer.sentTo, (L.mem_members g k).2 hk]
  | finished g line hc =>
    refine hold.trans (told_setGroup ?_ j).symm
    intro k hk
    rw [hc]
    simp [GroupConsumer.sentTo]
  | _ => exact hold

/-! ## What was answered -/

theorem Downward.acks_step (ha : Addressed L s) (hup : Upward L s) (h : Downward L s)
    (hm : s.Moves L l t) (j : ι) :
    (t.client j).delivered + Reply.acks (t.inFlight L j) = t.answered L j := by
  have hold : (s.client j).delivered + Reply.acks (s.inFlight L j) = s.answered L j := h.acks j
  have hclient : ∀ {i : ι} {c : StopAndWait (Line ι α)}, c.delivered = (s.client i).delivered →
      (Function.update s.client i c j).delivered = (s.client j).delivered := by
    intro i c hc
    by_cases hji : j = i
    · rw [hji, Function.update_self, hc]
    · rw [Function.update_of_ne hji]
  have hlistener : ∀ {f : φ} {x : LineListener ι α}, x.answered = (s.listener f).answered →
      (Function.update s.listener f x (L.frontEnd j)).answered =
        (s.listener (L.frontEnd j)).answered := by
    intro f x hx
    by_cases hf : L.frontEnd j = f
    · rw [hf, Function.update_self, hx]
    · rw [Function.update_of_ne hf]
  cases hm with
  | type i text c hc =>
    exact (congrArg (· + _) (hclient (StopAndWait.step_push hc).2.2.2)).trans hold
  | client i l c hl hc =>
    exact (congrArg (· + _) (hclient (StopAndWait.step_alone hl hc).2.2.2)).trans hold
  | send i line c hp hc =>
    exact (congrArg (· + _)
      (hclient (StopAndWait.step_send hp (hup.isUp i) hc).2.2.2)).trans hold
  | acked i rest c hr hc =>
    rw [inFlight_receive hr, Reply.acks_append] at hold
    refine Eq.trans ?_ hold
    show (Function.update s.client i c j).delivered + _ = _
    by_cases hij : j = i
    · subst hij
      rw [Function.update_self, (StopAndWait.step_receive hc).2.2.2, if_pos rfl, Nat.add_assoc]
      rfl
    · rw [Function.update_of_ne hij, if_neg hij]
      simp [Reply.acks, inFlight, setClient]
  | shown i line rest hr hc =>
    rw [inFlight_receive hr, Reply.acks_append] at hold
    refine Eq.trans ?_ hold
    by_cases hij : j = i
    · simp [hij, Reply.acks, inFlight]
    · simp [hij, Reply.acks, inFlight]
  | readServer f packet rest hf hr =>
    refine Eq.trans ?_ hold
    rw [← inFlight_readServer hf hr]
  | reply f i r hf =>
    refine Eq.trans ?_ hold
    rw [← inFlight_reply hf (ha.forwarding f _ hf)]
  | listen f line rest hl hr =>
    have hkeep := @hlistener f (.received line) (by rw [hl]; rfl)
    refine hold.trans ?_
    exact (congrArg (fun x => (s.logged L j).length + (of Line.sender j x).length) hkeep).symm
  | sendAck f line hl =>
    have hf := ha.listener f line (by simp [hl, LineListener.lines])
    subst hf
    show (s.client j).delivered +
      Reply.acks ((s.sendTo (L.frontEnd line.sender) line.sender .ack).inFlight L j) =
        (s.logged L j).length + (of Line.sender j (Function.update s.listener
          (L.frontEnd line.sender) (.acknowledged line) (L.frontEnd j)).answered).length
    rw [inFlight_sendTo, Reply.acks_append, ← Nat.add_assoc, hold, answered]
    by_cases hij : j = line.sender
    · subst hij
      rw [Function.update_self, hl, if_pos rfl]
      simp [LineListener.answered, Reply.acks, of_cons_self [] rfl]
    · rw [if_neg hij]
      by_cases hf : L.frontEnd j = L.frontEnd line.sender
      · rw [hf, Function.update_self, hl]
        simp [LineListener.answered, Reply.acks, of_cons_ne [] (Ne.symm hij)]
      · rw [Function.update_of_ne hf]
        simp [Reply.acks]
  | push f line hl =>
    refine hold.trans ?_
    show _ = ((s.setGroup (L.group line.sender) _).logged L j).length + (of Line.sender j
      (Function.update s.listener f (.pushed line) (L.frontEnd j)).answered).length
    rw [logged_push rfl, answered, List.length_append]
    by_cases hf : L.frontEnd j = f
    · -- the answer is counted at the listener before, and in the queue after
      subst hf
      rw [Function.update_self, hl]
      simp [LineListener.answered, logged]
    · have hne : line.sender ≠ j := by
        rintro rfl
        exact hf (ha.listener f line (by simp [hl, LineListener.lines]))
      rw [Function.update_of_ne hf, of_cons_ne [] hne]
      simp [logged]
  | unlock f line hl =>
    have hkeep := @hlistener f .reading (by rw [hl]; rfl)
    refine hold.trans ?_
    exact (congrArg₂ (fun x y => List.length x + (of Line.sender j y).length)
      (logged_setGroup (by rfl) j) hkeep).symm
  | sent g line i todo hc =>
    show (s.client j).delivered +
      Reply.acks ((s.sendTo (L.frontEnd i) i (.message line)).inFlight L j) = _
    rw [inFlight_sendTo, Reply.acks_append, ← Nat.add_assoc, hold]
    refine Eq.trans ?_ (congrArg (fun x => List.length x +
      (of Line.sender j (s.listener (L.frontEnd j)).answered).length)
        (logged_setGroup (by rfl) j)).symm
    by_cases hij : j = i
    · simp [hij, Reply.acks, answered]
    · simp [hij, Reply.acks, answered]
  | lock g | drained g | popped g | append g | finished g =>
    refine hold.trans ?_
    exact (congrArg (fun x => List.length x +
      (of Line.sender j (s.listener (L.frontEnd j)).answered).length)
        (logged_setGroup (by rfl) j)).symm
  | _ => exact hold

/-! ## The queue of a group -/

omit [DecidableEq ι] [DecidableEq φ] in
/-- One queue moves, and stays in order. -/
theorem forall_setGroup {P : γ → GroupQueue ι α → Prop} (h : ∀ g, P g (s.group g)) {g : γ}
    {q : GroupQueue ι α} (hq : P g q) : ∀ g', P g' ((s.setGroup g q).group g') :=
  forall_update h hq

theorem Downward.queue_step (h : Downward L s) (hm : s.Moves L l t) :
    ∀ g, (t.group g).done ++ (t.group g).consumer.inHand ++ (t.group g).messages_queue =
      (t.group g).pushed := by
  have hset : ∀ {g : γ} {q : GroupQueue ι α},
      q.done ++ q.consumer.inHand ++ q.messages_queue = q.pushed →
      ∀ g', ((s.setGroup g q).group g').done ++ ((s.setGroup g q).group g').consumer.inHand ++
        ((s.setGroup g q).group g').messages_queue = ((s.setGroup g q).group g').pushed := by
    intro g q hq
    exact forall_setGroup (P := fun _ (q : GroupQueue ι α) =>
      q.done ++ q.consumer.inHand ++ q.messages_queue = q.pushed) h.queue hq
  cases hm with
  | push f line hl =>
    have hold := h.queue (L.group line.sender)
    refine hset ?_
    rw [← hold]
    simp
  | unlock f line hl => exact hset (h.queue _)
  | lock g hc hu =>
    have hold := h.queue g
    rw [hc] at hold
    exact hset hold
  | drained g hc hq =>
    have hold := h.queue g
    rw [hc] at hold
    exact hset hold
  | popped g line rest hc hq =>
    have hold := h.queue g
    rw [hc, hq] at hold
    refine hset ?_
    rw [← hold]
    simp [GroupConsumer.inHand]
  | append g line hc =>
    have hold := h.queue g
    rw [hc] at hold
    exact hset hold
  | sent g line i todo hc =>
    have hold := h.queue g
    rw [hc] at hold
    exact hset hold
  | finished g line hc =>
    have hold := h.queue g
    rw [hc] at hold
    refine hset ?_
    rw [← hold]
    simp [GroupConsumer.inHand]
  | _ => exact h.queue

theorem Downward.todo_step (h : Downward L s) (hm : s.Moves L l t) :
    ∀ g line todo, (t.group g).consumer = .sending line todo → todo <:+ L.members g := by
  have hset : ∀ {g : γ} {q : GroupQueue ι α},
      (∀ line todo, q.consumer = .sending line todo → todo <:+ L.members g) →
      ∀ g' line todo, ((s.setGroup g q).group g').consumer = .sending line todo →
        todo <:+ L.members g' := by
    intro g q hq
    exact forall_setGroup (P := fun g (q : GroupQueue ι α) =>
      ∀ line todo, q.consumer = .sending line todo → todo <:+ L.members g) h.todo hq
  cases hm with
  | push f line hl => exact hset (h.todo _)
  | unlock f line hl => exact hset (h.todo _)
  | lock g | drained g | popped g | finished g =>
    refine hset ?_
    rintro _ _ ⟨⟩
  | append g line hc =>
    refine hset ?_
    rintro _ _ ⟨⟩
    exact List.suffix_rfl
  | sent g line i todo hc =>
    refine hset ?_
    rintro _ _ ⟨⟩
    exact (List.suffix_cons i _).trans (h.todo g line _ hc)
  | _ => exact h.todo

/-! ## Every run -/

/-- The ways up and down are in order. -/
structure Carried (L : Layout ι φ γ) (s : Conversation ι φ γ α) : Prop where
  addressed : Addressed L s
  upward : Upward L s
  downward : Downward L s

omit [DecidableEq φ] [DecidableEq γ] in
theorem carried_of_start (h : Start s) : Carried L s := by
  refine ⟨⟨?_, ?_, ?_, ?_, ?_, ?_, ?_, ?_, ?_⟩, ⟨?_, ?_, ?_⟩, ⟨?_, ?_, ?_, ?_⟩⟩
  · intro i line hline
    rw [h.client i] at hline
    cases hline
  · intro i line hline
    rw [h.fromClient i] at hline
    cases hline
  · intro f i
    rw [(h.frontEnd f).clients i]
    exact ⟨fun line hline => (by cases hline), fun line hline => (by cases hline)⟩
  · intro f line hline
    rw [(h.frontEnd f).written] at hline
    cases hline
  · intro f line hline
    rw [h.toServer f] at hline
    cases hline
  · intro f line hline
    rw [h.listener f] at hline
    cases hline
  · intro g line hline
    rw [h.group g] at hline
    cases hline
  · intro f p hp
    rw [h.fromServer f] at hp
    cases hp
  · intro f p hp
    rw [h.forwarding f] at hp
    cases hp
  · intro i
    rw [h.client i]
    rfl
  · intro i
    rw [(h.frontEnd _).written, (h.frontEnd _).clients i, h.fromClient i, h.client i]
    rfl
  · intro i
    rw [logged, h.group, h.listener, h.toServer, (h.frontEnd _).sent]
    rfl
  · intro j
    rw [inFlight, told, h.shown, h.toClient, h.forwarding, h.fromServer, h.group]
    rfl
  · intro j
    rw [inFlight, answered, logged, h.client, h.toClient, h.forwarding, h.fromServer, h.group,
      h.listener]
    rfl
  · intro g
    rw [h.group g]
    rfl
  · intro g line todo hc
    rw [h.group g] at hc
    cases hc

/-- **In every run, whatever was typed is on its way up or in the queue, and whatever was
broadcast or answered is on its way down or has arrived.** -/
theorem carried_of_reachable (h : (conversation α L).Reachable s) : Carried L s := by
  induction h with
  | start h0 => exact carried_of_start h0
  | @next s t l hreach _ hst ih =>
    obtain ⟨ha, hup, hdown⟩ := ih
    have hm := moves_of_step hst
    have ho : ∀ i, (s.client i).Ordered := fun i =>
      (StopAndWait.invariants_of_reachable (client_reachable hreach i)).1
    have hp : ∀ f, (s.frontEnd f).Phase := fun f =>
      HandOff.phase_of_reachable (frontEnd_reachable hreach f)
    exact ⟨⟨ha.inputs_step hup.isUp hm, ha.fromClient_step ho hm, ha.held_step hm,
        ha.written_step hm, ha.toServer_step hp hm, ha.listener_step hm, ha.pushed_step hm,
        ha.fromServer_step hm, ha.forwarding_step hm⟩,
      ⟨hup.isUp_step hm, hup.uplink_step ha hm, hup.server_step ha hm⟩,
      ⟨hdown.shown_step ha hm, hdown.acks_step ha hup hm, hdown.queue_step hm,
        hdown.todo_step hm⟩⟩

end Conversation
end InstantMessenger
