import InstantMessenger.EndToEnd.Conversation

/-!
# The way of a line up to its group

Where the lines of a client are, between its `sendPacket` and the queue of its group.

* `HandOff.Passes` — what the front end keeps while a line goes from the thread of its client
  to the slot.
* `Conversation.Addressed` — **every line and every packet is on the path of its client**.
* `Conversation.Upward` — what the group's queue was given of a client, what the listener has
  in hand and what is on its way to the server is what the front end has sent of it; what was
  written to the slot, what its thread holds and what is on its way to the front end **is
  what the client has written**.
-/

namespace InstantMessenger

open Broadcast (of of_nil of_append of_cons_self of_cons_ne mem_of)

/-! ## What the programs keep -/

/-- A client that moves without its connection writes nothing and reads nothing. -/
theorem StopAndWait.step_alone {α : Type*} {c d : StopAndWait α} {l : StopAndWait.Step α}
    (hl : l.alone = true) (h : c.step l = some d) :
    d.inputs = c.inputs ∧ d.written = c.written ∧ d.isShutdown = c.isShutdown ∧
      d.delivered = c.delivered := by
  cases StopAndWait.moves_of_step h with
  | push | written | failed | receive => cases hl
  | _ => exact ⟨rfl, rfl, rfl, rfl⟩

theorem StopAndWait.step_push {α : Type*} {c d : StopAndWait α} {m : α}
    (h : c.step (.push m) = some d) :
    d.inputs = c.inputs ++ [m] ∧ d.written = c.written ∧ d.isShutdown = c.isShutdown ∧
      d.delivered = c.delivered := by
  cases StopAndWait.moves_of_step h
  exact ⟨rfl, rfl, rfl, rfl⟩

/-- A packet that is sent on a connection that is up is written to it. -/
theorem StopAndWait.step_send {α : Type*} {c d : StopAndWait α} {m : α}
    (hp : c.consumer = .popped m) (hup : c.isShutdown = false)
    (h : c.step (.send true) = some d) :
    d.inputs = c.inputs ∧ d.written = c.written ++ [m] ∧ d.isShutdown = false ∧
      d.delivered = c.delivered := by
  cases StopAndWait.moves_of_step h with
  | written message hc =>
    rw [hp] at hc
    cases hc
    exact ⟨rfl, rfl, hup, rfl⟩
  | failed =>
    -- the step writes, as the connection is up
    simp [StopAndWait.step, hp, hup] at h

theorem StopAndWait.step_receive {α : Type*} {c d : StopAndWait α}
    (h : c.step .receive = some d) :
    d.inputs = c.inputs ∧ d.written = c.written ∧ d.isShutdown = c.isShutdown ∧
      d.delivered = c.delivered + 1 := by
  cases StopAndWait.moves_of_step h
  exact ⟨rfl, rfl, rfl, rfl⟩

/-- The message that a client's thread has read and not written to the slot. -/
def Incoming.held {α : Type*} : Incoming α → List α
  | .waiting message | .writing message => [message]
  | .idle | .unlocking => []

section HandOff

variable {ι α : Type*} [DecidableEq ι] {h k : HandOff ι (Line ι α)}

theorem HandOff.step_receive {i : ι} {line : Line ι α} (hs : h.step (.receive i line) = some k) :
    h.clients i = .idle ∧ k = h.setClient i (.waiting line) := by
  cases HandOff.moves_of_step hs with
  | receive _ _ hi => exact ⟨hi, rfl⟩

theorem HandOff.step_send {line : Line ι α} (hc : h.consumer = .sending line)
    (hs : h.step (.send true) = some k) :
    k = { h with consumer := .posting, sent := h.sent ++ [line] } := by
  cases HandOff.moves_of_step hs with
  | sent message hm =>
    rw [hc] at hm
    cases hm
    rfl

/-- The front end keeps what it has sent; a line goes from the thread of its client to the
slot, and what there is of each client stays the same. -/
structure HandOff.Passes (h k : HandOff ι (Line ι α)) : Prop where
  sent : k.sent = h.sent
  held : ∀ i, (k.clients i).held ⊆ (h.clients i).held
  written : ∀ line ∈ k.written, line ∈ h.written ∨ line ∈ (h.clients line.sender).held
  lines : ∀ i, of Line.sender i k.written ++ (k.clients i).held =
    of Line.sender i h.written ++ (h.clients i).held

theorem HandOff.passes_of_same (hsent : k.sent = h.sent) (hwritten : k.written = h.written)
    (hheld : ∀ i, (k.clients i).held = (h.clients i).held) : HandOff.Passes h k where
  sent := hsent
  held i := by rw [hheld i]; exact List.Subset.refl _
  written line hline := .inl (hwritten ▸ hline)
  lines i := by rw [hwritten, hheld i]

theorem HandOff.held_setClient {i : ι} {thread : Incoming (Line ι α)}
    (heq : thread.held = (h.clients i).held) (j : ι) :
    ((h.setClient i thread).clients j).held = (h.clients j).held := by
  by_cases hj : j = i
  · rw [hj, HandOff.setClient_self, heq]
  · rw [HandOff.setClient_of_ne _ _ hj]

/-- So does a front end that moves without its connections. -/
theorem HandOff.step_alone {l : HandOff.Step ι (Line ι α)} (hl : l.alone = true)
    (hs : h.step l = some k) (hown : ∀ i, ∀ line ∈ (h.clients i).held, line.sender = i) :
    HandOff.Passes h k := by
  cases HandOff.moves_of_step hs with
  | receive | sent | failed => cases hl
  | lock | call | post => exact HandOff.passes_of_same rfl rfl fun _ => rfl
  | wait i message n hi hn =>
    refine HandOff.passes_of_same rfl rfl (HandOff.held_setClient ?_)
    rw [hi]
    rfl
  | unlock i hi =>
    refine HandOff.passes_of_same rfl rfl (HandOff.held_setClient ?_)
    rw [hi]
    rfl
  | write i message hi =>
    have hmi : message.sender = i := hown i message (by simp [hi, Incoming.held])
    have hself : ((h.setClient i .unlocking).clients i).held = [] := by
      rw [HandOff.setClient_self]
      rfl
    have hother : ∀ j ≠ i, ((h.setClient i .unlocking).clients j).held = (h.clients j).held := by
      intro j hj
      rw [HandOff.setClient_of_ne _ _ hj]
    refine ⟨rfl, ?_, ?_, ?_⟩
    · intro j
      by_cases hj : j = i
      · subst hj
        exact fun line hline => absurd (hself ▸ hline : line ∈ []) List.not_mem_nil
      · exact fun line hline => hother j hj ▸ hline
    · intro line hline
      rcases List.mem_append.1 hline with hline | hline
      · exact .inl hline
      · rw [List.mem_singleton.1 hline, hmi, hi]
        exact .inr (by simp [Incoming.held])
    · intro j
      by_cases hj : j = i
      · subst hj
        rw [of_append, of_cons_self [] hmi, hself, hi]
        simp [Incoming.held]
      · have hne : message.sender ≠ j := fun he => hj (he ▸ hmi)
        rw [of_append, of_cons_ne [] hne, hother j hj]
        simp

end HandOff

/-- The line of a listener, while it has one. -/
def LineListener.lines {ι α : Type*} : LineListener ι α → List (Line ι α)
  | .reading => []
  | .received line | .acknowledged line | .pushed line => [line]

/-- The line that the listener has still to put into the queue. -/
def LineListener.toPush {ι α : Type*} : LineListener ι α → List (Line ι α)
  | .received line | .acknowledged line => [line]
  | .reading | .pushed _ => []

/-- What the consumer of a front end is about to send was written to the slot. -/
theorem HandOff.Phase.mem_written {ι α : Type*} [DecidableEq ι] {h : HandOff ι (Line ι α)}
    (hp : h.Phase) {line : Line ι α} (hc : h.consumer = .sending line) : line ∈ h.written := by
  cases hp with
  | sending _ _ hc' _ _ hsent =>
    rw [hc] at hc'
    cases hc'
    simp [hsent]
  | free _ _ hc' | writing _ _ _ _ _ hc' | unlocking _ _ _ _ hc' | full _ _ hc' | calling _ _ hc'
  | posting _ _ hc' =>
    rw [hc] at hc'
    cases hc'

/-- What the consumer of a client has popped was typed. -/
theorem StopAndWait.Ordered.mem_inputs {α : Type*} {c : StopAndWait α} (ho : c.Ordered) {m : α}
    (hp : c.consumer = .popped m) : m ∈ c.inputs := by
  rw [← ho.inputs, hp]
  simp [QueueSender.inHand]

/-- The invariants of a client by itself. -/
theorem StopAndWait.invariants_of_reachable {α : Type*} {c : StopAndWait α}
    (h : (StopAndWait.stopAndWait α).Reachable c) : c.Ordered ∧ c.Counted ∧ c.Wakeable := by
  refine Transition.System.Reachable.invariant
    (I := fun c => StopAndWait.Ordered c ∧ StopAndWait.Counted c ∧ StopAndWait.Wakeable c) h ?_ ?_
  · rintro _ rfl
    exact ⟨⟨rfl, List.prefix_rfl, fun _ => rfl⟩,
      ⟨le_rfl, rfl, fun hc => (by cases hc), fun _ => ⟨rfl, rfl⟩⟩, fun _ hq => absurd rfl hq⟩
  · rintro c l d ⟨ho, hcount, hw⟩ hst
    have hm := StopAndWait.moves_of_step hst
    exact ⟨ho.step hm, hcount.step ho hm, StopAndWait.wakeable_of_moves hw hm⟩

namespace Conversation

variable {ι φ γ α : Type*} [DecidableEq ι] [DecidableEq φ] [DecidableEq γ] {L : Layout ι φ γ}
  {s t : Conversation ι φ γ α} {l : Step ι φ γ α}

/-! ## Every line is on the path of its client -/

/-- The lines are all of this client. -/
def Owned (i : ι) (lines : List (Line ι α)) : Prop := ∀ line ∈ lines, line.sender = i

/-- The lines are all of clients of this front end. -/
def Through (L : Layout ι φ γ) (f : φ) (lines : List (Line ι α)) : Prop :=
  ∀ line ∈ lines, L.frontEnd line.sender = f

/-- **Every line and every packet is where its client sends it or expects it.** -/
structure Addressed (L : Layout ι φ γ) (s : Conversation ι φ γ α) : Prop where
  inputs : ∀ i, Owned i (s.client i).inputs
  fromClient : ∀ i, Owned i (s.fromClient i)
  held : ∀ f i, Owned i ((s.frontEnd f).clients i).held ∧
    Through L f ((s.frontEnd f).clients i).held
  written : ∀ f, Through L f (s.frontEnd f).written
  toServer : ∀ f, Through L f (s.toServer f)
  listener : ∀ f, Through L f (s.listener f).lines
  pushed : ∀ g, ∀ line ∈ (s.group g).pushed, L.group line.sender = g
  fromServer : ∀ f, ∀ p ∈ s.fromServer f, L.frontEnd p.1 = f
  forwarding : ∀ f, ∀ p ∈ s.forwarding f, L.frontEnd p.1 = f

/-- What is typed changes by the typing only. -/
theorem inputs_of_moves (hup : ∀ i, (s.client i).isShutdown = false) (hm : s.Moves L l t) (i : ι) :
    (t.client i).inputs = (s.client i).inputs ∨
      ∃ text, l = .type i text ∧ (t.client i).inputs = (s.client i).inputs ++ [⟨i, text⟩] := by
  have hset : ∀ {j : ι} {c : StopAndWait (Line ι α)}, c.inputs = (s.client j).inputs →
      (Function.update s.client j c i).inputs = (s.client i).inputs := by
    intro j c hc
    by_cases hij : i = j
    · rw [hij, Function.update_self, hc]
    · rw [Function.update_of_ne hij]
  cases hm with
  | type j text c hc =>
    by_cases hij : i = j
    · subst hij
      refine .inr ⟨text, rfl, ?_⟩
      show (Function.update s.client i c i).inputs = _
      rw [Function.update_self, (StopAndWait.step_push hc).1]
    · refine .inl ?_
      show (Function.update s.client j c i).inputs = _
      rw [Function.update_of_ne hij]
  | client j l c hl hc => exact .inl (hset (StopAndWait.step_alone hl hc).1)
  | send j line c hp hc => exact .inl (hset (StopAndWait.step_send hp (hup j) hc).1)
  | acked j rest c hr hc => exact .inl (hset (StopAndWait.step_receive hc).1)
  | _ => exact .inl rfl

namespace Addressed

theorem inputs_step (h : Addressed L s) (hup : ∀ i, (s.client i).isShutdown = false)
    (hm : s.Moves L l t) (i : ι) : Owned i (t.client i).inputs := by
  rcases inputs_of_moves hup hm i with hsame | ⟨text, -, hmore⟩
  · exact hsame ▸ h.inputs i
  · rw [hmore]
    intro line hline
    rcases List.mem_append.1 hline with hline | hline
    · exact h.inputs i line hline
    · rw [List.mem_singleton.1 hline]

theorem fromClient_step (h : Addressed L s) (ho : ∀ i, (s.client i).Ordered)
    (hm : s.Moves L l t) : ∀ i, Owned i (t.fromClient i) := by
  cases hm with
  | send i line c hp hc =>
    refine forall_update (P := Owned) h.fromClient ?_
    intro line' hline
    rcases List.mem_append.1 hline with hline | hline
    · exact h.fromClient i line' hline
    · rw [List.mem_singleton.1 hline]
      exact h.inputs i line ((ho i).mem_inputs hp)
  | read i line rest k hr hk =>
    refine forall_update (P := Owned) h.fromClient ?_
    intro line' hline
    exact h.fromClient i line' (hr ▸ List.mem_cons_of_mem _ hline)
  | _ => exact h.fromClient

theorem held_step (h : Addressed L s) (hm : s.Moves L l t) : ∀ f i,
    Owned i ((t.frontEnd f).clients i).held ∧ Through L f ((t.frontEnd f).clients i).held := by
  have hset : ∀ {f : φ} {k : HandOff ι (Line ι α)},
      (∀ i, Owned i (k.clients i).held ∧ Through L f (k.clients i).held) →
      ∀ f' i, Owned i ((Function.update s.frontEnd f k f').clients i).held ∧
        Through L f' ((Function.update s.frontEnd f k f').clients i).held := by
    intro f k hk
    exact forall_update (P := fun f (k : HandOff ι (Line ι α)) => ∀ i,
      Owned i (k.clients i).held ∧ Through L f (k.clients i).held) h.held hk
  cases hm with
  | read i line rest k hr hk =>
    refine hset ?_
    obtain ⟨-, rfl⟩ := HandOff.step_receive hk
    intro j
    by_cases hj : j = i
    · subst hj
      have hj : line.sender = j := h.fromClient j line (hr ▸ List.mem_cons_self)
      rw [HandOff.setClient_self]
      refine ⟨?_, ?_⟩
      · intro line' hline
        rw [List.mem_singleton.1 hline, hj]
      · intro line' hline
        rw [List.mem_singleton.1 hline, hj]
    · rw [HandOff.setClient_of_ne _ _ hj]
      exact h.held _ j
  | frontEnd f l k hl hk =>
    refine hset fun i => ?_
    have hpass := HandOff.step_alone hl hk fun i => (h.held f i).1
    exact ⟨fun line hline => (h.held f i).1 line (hpass.held i hline),
      fun line hline => (h.held f i).2 line (hpass.held i hline)⟩
  | forward f line k hc hk =>
    refine hset ?_
    rw [HandOff.step_send hc hk]
    exact h.held f
  | _ => exact h.held

theorem written_step (h : Addressed L s) (hm : s.Moves L l t) :
    ∀ f, Through L f (t.frontEnd f).written := by
  have hset : ∀ {f : φ} {k : HandOff ι (Line ι α)}, Through L f k.written →
      ∀ f', Through L f' (Function.update s.frontEnd f k f').written := by
    intro f k hk
    exact forall_update (P := fun f (k : HandOff ι (Line ι α)) => Through L f k.written)
      h.written hk
  cases hm with
  | read i line rest k hr hk =>
    refine hset ?_
    obtain ⟨-, rfl⟩ := HandOff.step_receive hk
    exact h.written _
  | frontEnd f l k hl hk =>
    refine hset ?_
    intro line hline
    have hpass := HandOff.step_alone hl hk fun i => (h.held f i).1
    rcases hpass.written line hline with hline | hline
    · exact h.written f line hline
    · exact (h.held f _).2 line hline
  | forward f line k hc hk =>
    refine hset ?_
    rw [HandOff.step_send hc hk]
    exact h.written f
  | _ => exact h.written

theorem toServer_step (h : Addressed L s) (hp : ∀ f, (s.frontEnd f).Phase)
    (hm : s.Moves L l t) : ∀ f, Through L f (t.toServer f) := by
  cases hm with
  | forward f line k hc hk =>
    refine forall_update (P := Through L) h.toServer ?_
    intro line' hline
    rcases List.mem_append.1 hline with hline | hline
    · exact h.toServer f line' hline
    · rw [List.mem_singleton.1 hline]
      exact h.written f line ((hp f).mem_written hc)
  | listen f line rest hl hr =>
    refine forall_update (P := Through L) h.toServer ?_
    intro line' hline
    exact h.toServer f line' (hr ▸ List.mem_cons_of_mem _ hline)
  | _ => exact h.toServer

theorem listener_step (h : Addressed L s) (hm : s.Moves L l t) :
    ∀ f, Through L f (t.listener f).lines := by
  have hset : ∀ {f : φ} {x : LineListener ι α}, Through L f x.lines →
      ∀ f', Through L f' (Function.update s.listener f x f').lines := by
    intro f x hx
    exact forall_update (P := fun f (x : LineListener ι α) => Through L f x.lines) h.listener hx
  cases hm with
  | listen f line rest hl hr =>
    refine hset ?_
    intro line' hline
    rw [List.mem_singleton.1 hline]
    exact h.toServer f line (hr ▸ List.mem_cons_self)
  | sendAck f line hl | push f line hl =>
    refine hset ?_
    intro line' hline
    rw [List.mem_singleton.1 hline]
    exact h.listener f line (by simp [hl, LineListener.lines])
  | unlock f line hl =>
    refine hset ?_
    intro line' hline
    cases hline
  | _ => exact h.listener

theorem pushed_step (h : Addressed L s) (hm : s.Moves L l t) :
    ∀ g, ∀ line ∈ (t.group g).pushed, L.group line.sender = g := by
  have hset : ∀ {g : γ} {q : GroupQueue ι α}, (∀ line ∈ q.pushed, L.group line.sender = g) →
      ∀ g', ∀ line ∈ (Function.update s.group g q g').pushed, L.group line.sender = g' := by
    intro g q hq
    exact forall_update
      (P := fun g (q : GroupQueue ι α) => ∀ line ∈ q.pushed, L.group line.sender = g) h.pushed hq
  cases hm with
  | push f line hl =>
    refine hset ?_
    intro line' hline
    rcases List.mem_append.1 hline with hline | hline
    · exact h.pushed _ line' hline
    · rw [List.mem_singleton.1 hline]
  | unlock f line hl => exact hset (h.pushed _)
  | lock g | drained g | popped g | append g | sent g | finished g => exact hset (h.pushed g)
  | _ => exact h.pushed

theorem fromServer_step (h : Addressed L s) (hm : s.Moves L l t) :
    ∀ f, ∀ p ∈ t.fromServer f, L.frontEnd p.1 = f := by
  have hsend : ∀ {f : φ} {i : ι} {r : Reply ι α}, L.frontEnd i = f →
      ∀ f', ∀ p ∈ (s.sendTo f i r).fromServer f', L.frontEnd p.1 = f' := by
    intro f i r hi
    refine forall_update
      (P := fun f (ps : List (ι × Reply ι α)) => ∀ p ∈ ps, L.frontEnd p.1 = f) h.fromServer ?_
    intro p hp
    rcases List.mem_append.1 hp with hp | hp
    · exact h.fromServer f p hp
    · rw [List.mem_singleton.1 hp, hi]
  cases hm with
  | sendAck f line hl => exact hsend (h.listener f line (by simp [hl, LineListener.lines]))
  | sent g line j todo hc => exact hsend rfl
  | readServer f packet rest hf hr =>
    refine forall_update
      (P := fun f (ps : List (ι × Reply ι α)) => ∀ p ∈ ps, L.frontEnd p.1 = f) h.fromServer ?_
    intro p hp
    exact h.fromServer f p (hr ▸ List.mem_cons_of_mem _ hp)
  | _ => exact h.fromServer

theorem forwarding_step (h : Addressed L s) (hm : s.Moves L l t) :
    ∀ f, ∀ p ∈ t.forwarding f, L.frontEnd p.1 = f := by
  have hset : ∀ {f : φ} {o : Option (ι × Reply ι α)}, (∀ p ∈ o, L.frontEnd p.1 = f) →
      ∀ f', ∀ p ∈ Function.update s.forwarding f o f', L.frontEnd p.1 = f' := by
    intro f o ho
    exact forall_update
      (P := fun f (o : Option (ι × Reply ι α)) => ∀ p ∈ o, L.frontEnd p.1 = f) h.forwarding ho
  cases hm with
  | readServer f packet rest hf hr =>
    refine hset ?_
    rintro p ⟨⟩
    exact h.fromServer f packet (hr ▸ List.mem_cons_self)
  | reply f i r hf =>
    refine hset ?_
    rintro p ⟨⟩
  | _ => exact h.forwarding

end Addressed

/-! ## The way up -/

/-- The lines of a client that are in the queue of its group, or were. -/
def logged (L : Layout ι φ γ) (s : Conversation ι φ γ α) (i : ι) : List (Line ι α) :=
  of Line.sender i (s.group (L.group i)).pushed

/-- **The lines of a client, in order along their way.** -/
structure Upward (L : Layout ι φ γ) (s : Conversation ι φ γ α) : Prop where
  isUp : ∀ i, (s.client i).isShutdown = false
  uplink : ∀ i, of Line.sender i (s.frontEnd (L.frontEnd i)).written ++
    ((s.frontEnd (L.frontEnd i)).clients i).held ++ s.fromClient i = (s.client i).written
  server : ∀ i, s.logged L i ++ of Line.sender i (s.listener (L.frontEnd i)).toPush ++
    of Line.sender i (s.toServer (L.frontEnd i)) =
      of Line.sender i (s.frontEnd (L.frontEnd i)).sent

omit [DecidableEq φ] in
theorem logged_setGroup {g : γ} {q : GroupQueue ι α} (hq : q.pushed = (s.group g).pushed) (i : ι) :
    (s.setGroup g q).logged L i = s.logged L i := by
  show of Line.sender i (Function.update s.group g q (L.group i)).pushed = _
  by_cases hg : L.group i = g
  · rw [hg, Function.update_self, hq, logged, hg]
  · rw [Function.update_of_ne hg]
    rfl

omit [DecidableEq φ] in
/-- A line that is put into the queue of its client's group. -/
theorem logged_push {line : Line ι α} {q : GroupQueue ι α}
    (hq : q.pushed = (s.group (L.group line.sender)).pushed ++ [line]) (i : ι) :
    (s.setGroup (L.group line.sender) q).logged L i =
      s.logged L i ++ of Line.sender i [line] := by
  show of Line.sender i (Function.update s.group (L.group line.sender) q (L.group i)).pushed = _
  by_cases hg : L.group i = L.group line.sender
  · rw [hg, Function.update_self, hq, of_append, logged, hg]
  · have hne : line.sender ≠ i := fun he => hg (he ▸ rfl)
    rw [Function.update_of_ne hg, of_cons_ne [] hne, of_nil, List.append_nil]
    rfl

theorem Upward.isUp_step (h : Upward L s) (hm : s.Moves L l t) :
    ∀ i, (t.client i).isShutdown = false := by
  have hset : ∀ {i : ι} {c : StopAndWait (Line ι α)}, c.isShutdown = false →
      ∀ j, (Function.update s.client i c j).isShutdown = false := by
    intro i c hc
    exact forall_update (P := fun _ (c : StopAndWait (Line ι α)) => c.isShutdown = false) h.isUp hc
  cases hm with
  | type i text c hc => exact hset ((StopAndWait.step_push hc).2.2.1.trans (h.isUp i))
  | client i l c hl hc => exact hset ((StopAndWait.step_alone hl hc).2.2.1.trans (h.isUp i))
  | send i line c hp hc => exact hset (StopAndWait.step_send hp (h.isUp i) hc).2.2.1
  | acked i rest c hr hc => exact hset ((StopAndWait.step_receive hc).2.2.1.trans (h.isUp i))
  | _ => exact h.isUp

theorem Upward.uplink_step (ha : Addressed L s) (h : Upward L s) (hm : s.Moves L l t) (i : ι) :
    of Line.sender i (t.frontEnd (L.frontEnd i)).written ++
      ((t.frontEnd (L.frontEnd i)).clients i).held ++ t.fromClient i = (t.client i).written := by
  have hclient : ∀ {j : ι} {c : StopAndWait (Line ι α)}, c.written = (s.client j).written →
      (Function.update s.client j c i).written = (s.client i).written := by
    intro j c hc
    by_cases hij : i = j
    · rw [hij, Function.update_self, hc]
    · rw [Function.update_of_ne hij]
  cases hm with
  | type j text c hc => exact (h.uplink i).trans (hclient (StopAndWait.step_push hc).2.1).symm
  | client j l c hl hc =>
    exact (h.uplink i).trans (hclient (StopAndWait.step_alone hl hc).2.1).symm
  | acked j rest c hr hc =>
    exact (h.uplink i).trans (hclient (StopAndWait.step_receive hc).2.1).symm
  | send j line c hp hc =>
    show of Line.sender i (s.frontEnd (L.frontEnd i)).written ++
      ((s.frontEnd (L.frontEnd i)).clients i).held ++
        Function.update s.fromClient j (s.fromClient j ++ [line]) i =
          (Function.update s.client j c i).written
    by_cases hij : i = j
    · subst hij
      rw [Function.update_self, Function.update_self, ← List.append_assoc, h.uplink,
        (StopAndWait.step_send hp (h.isUp i) hc).2.1]
    · rw [Function.update_of_ne hij, Function.update_of_ne hij, h.uplink]
  | read j line rest k hr hk =>
    obtain ⟨hidle, rfl⟩ := HandOff.step_receive hk
    refine Eq.trans ?_ (h.uplink i)
    show of Line.sender i (Function.update s.frontEnd (L.frontEnd j)
        ((s.frontEnd (L.frontEnd j)).setClient j (.waiting line)) (L.frontEnd i)).written ++
      ((Function.update s.frontEnd (L.frontEnd j)
        ((s.frontEnd (L.frontEnd j)).setClient j (.waiting line)) (L.frontEnd i)).clients i).held ++
        Function.update s.fromClient j rest i = _
    by_cases hij : i = j
    · -- the line goes from the connection to the thread, which had none
      subst hij
      rw [Function.update_self, Function.update_self, HandOff.setClient_self, hr, hidle]
      simp [Incoming.held, HandOff.setClient]
    · rw [Function.update_of_ne hij]
      by_cases hf : L.frontEnd i = L.frontEnd j
      · rw [hf, Function.update_self, HandOff.setClient_of_ne _ _ hij]
        rfl
      · rw [Function.update_of_ne hf]
  | frontEnd f l k hl hk =>
    refine Eq.trans ?_ (h.uplink i)
    show of Line.sender i (Function.update s.frontEnd f k (L.frontEnd i)).written ++
      ((Function.update s.frontEnd f k (L.frontEnd i)).clients i).held ++ s.fromClient i = _
    have hpass := HandOff.step_alone hl hk fun i => (ha.held f i).1
    by_cases hf : L.frontEnd i = f
    · rw [hf, Function.update_self, hpass.lines]
    · rw [Function.update_of_ne hf]
  | forward f line k hc hk =>
    obtain rfl := HandOff.step_send hc hk
    refine Eq.trans ?_ (h.uplink i)
    show of Line.sender i (Function.update s.frontEnd f _ (L.frontEnd i)).written ++
      ((Function.update s.frontEnd f _ (L.frontEnd i)).clients i).held ++ s.fromClient i = _
    by_cases hf : L.frontEnd i = f
    · rw [hf, Function.update_self]
    · rw [Function.update_of_ne hf]
  | _ => exact h.uplink i

theorem Upward.server_step (ha : Addressed L s) (h : Upward L s) (hm : s.Moves L l t) (i : ι) :
    t.logged L i ++ of Line.sender i (t.listener (L.frontEnd i)).toPush ++
      of Line.sender i (t.toServer (L.frontEnd i)) =
        of Line.sender i (t.frontEnd (L.frontEnd i)).sent := by
  have hsent : ∀ {f : φ} {k : HandOff ι (Line ι α)}, k.sent = (s.frontEnd f).sent →
      (Function.update s.frontEnd f k (L.frontEnd i)).sent = (s.frontEnd (L.frontEnd i)).sent := by
    intro f k hk
    by_cases hf : L.frontEnd i = f
    · rw [hf, Function.update_self, hk]
    · rw [Function.update_of_ne hf]
  have hlistener : ∀ {f : φ} {x : LineListener ι α}, x.toPush = (s.listener f).toPush →
      (Function.update s.listener f x (L.frontEnd i)).toPush =
        (s.listener (L.frontEnd i)).toPush := by
    intro f x hx
    by_cases hf : L.frontEnd i = f
    · rw [hf, Function.update_self, hx]
    · rw [Function.update_of_ne hf]
  cases hm with
  | read j line rest k hr hk =>
    obtain ⟨-, rfl⟩ := HandOff.step_receive hk
    have hkeep := @hsent (L.frontEnd j)
      ((s.frontEnd (L.frontEnd j)).setClient j (.waiting line)) rfl
    exact (h.server i).trans (congrArg (of Line.sender i) hkeep).symm
  | frontEnd f l k hl hk =>
    have hpass := HandOff.step_alone hl hk fun i => (ha.held f i).1
    exact (h.server i).trans (congrArg (of Line.sender i) (hsent hpass.sent)).symm
  | forward f line k hc hk =>
    obtain rfl := HandOff.step_send hc hk
    show s.logged L i ++ of Line.sender i (s.listener (L.frontEnd i)).toPush ++
      of Line.sender i (Function.update s.toServer f (s.toServer f ++ [line]) (L.frontEnd i)) =
        of Line.sender i (Function.update s.frontEnd f _ (L.frontEnd i)).sent
    by_cases hf : L.frontEnd i = f
    · subst hf
      rw [Function.update_self, Function.update_self, of_append, of_append, ← h.server i]
      simp
    · rw [Function.update_of_ne hf, Function.update_of_ne hf, h.server i]
  | listen f line rest hl hr =>
    refine Eq.trans ?_ (h.server i)
    show s.logged L i ++ of Line.sender i
        (Function.update s.listener f (.received line) (L.frontEnd i)).toPush ++
      of Line.sender i (Function.update s.toServer f rest (L.frontEnd i)) = _
    by_cases hf : L.frontEnd i = f
    · subst hf
      rw [Function.update_self, Function.update_self, hl, hr, List.append_assoc,
        List.append_assoc, ← of_append, ← of_append]
      rfl
    · rw [Function.update_of_ne hf, Function.update_of_ne hf]
  | sendAck f line hl =>
    refine Eq.trans ?_ (h.server i)
    show s.logged L i ++ of Line.sender i
      (Function.update s.listener f (.acknowledged line) (L.frontEnd i)).toPush ++ _ = _
    rw [hlistener (by rw [hl]; rfl)]
    rfl
  | push f line hl =>
    refine Eq.trans ?_ (h.server i)
    show (s.setGroup (L.group line.sender) _).logged L i ++ of Line.sender i
      (Function.update s.listener f (.pushed line) (L.frontEnd i)).toPush ++ _ = _
    rw [logged_push rfl]
    by_cases hf : L.frontEnd i = f
    · -- the line goes from the listener to the queue
      subst hf
      rw [Function.update_self, hl]
      simp [LineListener.toPush, setGroup, setListener]
    · have hne : line.sender ≠ i := by
        rintro rfl
        exact hf (ha.listener f line (by simp [hl, LineListener.lines]))
      rw [Function.update_of_ne hf, of_cons_ne [] hne, of_nil, List.append_nil]
      rfl
  | unlock f line hl =>
    have hkeep := @hlistener f .reading (by rw [hl]; rfl)
    refine Eq.trans ?_ (h.server i)
    exact congrArg₂ (· ++ ·) (congrArg₂ (· ++ ·) (logged_setGroup (by rfl) i)
      (congrArg (of Line.sender i) hkeep)) rfl
  | lock g | drained g | popped g | append g | sent g | finished g =>
    refine Eq.trans ?_ (h.server i)
    exact congrArg₂ (· ++ ·) (congrArg₂ (· ++ ·) (logged_setGroup (by rfl) i) rfl) rfl
  | _ => exact h.server i

end Conversation
end InstantMessenger
