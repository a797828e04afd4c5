import InstantMessenger.EndToEnd.Replies
import InstantMessenger.Foundations.Refinement

/-!
# A conversation is a broadcast in one order

What the programs of a conversation do together, seen from outside: the lines typed by the
members of a group, the order in which they enter its queue, and the lines on the screens.

* `Conversation.overview` — a group of a conversation, seen from outside.
* `Conversation.refines_broadcast` — **seen so, every step is a step of a broadcast in one
  order, or nothing**: a line gets its place when it enters the queue, in the order in which
  its client typed, and each screen shows the places from the first one on.
* `Conversation.one_order` — **so any two members see the same order, and each sees what
  another one typed from the beginning on**, without gaps and each line once.
-/

namespace InstantMessenger

open Broadcast (of of_nil of_append of_cons_self of_isPrefix mem_of)

namespace Conversation

variable {ι φ γ α : Type*} [DecidableEq ι] [DecidableEq φ] [DecidableEq γ] {L : Layout ι φ γ}
  {s t : Conversation ι φ γ α} {l : Step ι φ γ α}

/-- A group, seen from outside. -/
def overview (L : Layout ι φ γ) (g : γ) (s : Conversation ι φ γ α) :
    Broadcast ι (Line ι α) where
  submitted i := if L.group i = g then (s.client i).inputs else []
  log := (s.group g).pushed
  shown j := if L.group j = g then s.shown j else []

/-! ## The three steps that can be seen -/

/-- What a client has written is what it typed first. -/
theorem written_isPrefix (h : (conversation α L).Reachable s) (i : ι) :
    (s.client i).written <+: (s.client i).inputs := by
  have ho := (StopAndWait.invariants_of_reachable (client_reachable h i)).1
  refine ho.written.trans ?_
  rw [← ho.inputs, List.append_assoc]
  exact List.prefix_append _ _

/-- What the front end has sent of a client is what the client wrote first. -/
theorem sent_isPrefix (h : (conversation α L).Reachable s) (i : ι) :
    of Line.sender i (s.frontEnd (L.frontEnd i)).sent <+: (s.client i).written := by
  have hslot := (HandOff.phase_of_reachable (frontEnd_reachable h (L.frontEnd i))).losesNothing
  have hup := (carried_of_reachable h).upward.uplink i
  refine (of_isPrefix (hslot.inOrder.1.trans hslot.inOrder.2)).trans ?_
  rw [← hup, List.append_assoc]
  exact List.prefix_append _ _

/-- **The line that the listener puts into the queue is the next one its client typed.** -/
theorem push_next (h : (conversation α L).Reachable s) {f : φ} {line : Line ι α}
    (hl : s.listener f = .acknowledged line) :
    (s.client line.sender).inputs[(s.logged L line.sender).length]? = some line := by
  have hc := carried_of_reachable h
  have hf := hc.addressed.listener f line (by simp [hl, LineListener.lines])
  subst hf
  have hserver := hc.upward.server line.sender
  rw [hl, LineListener.toPush, of_cons_self [] rfl, of_nil, List.append_assoc] at hserver
  have hpre := (sent_isPrefix h line.sender).trans (written_isPrefix h line.sender)
  rw [← hserver] at hpre
  obtain ⟨rest, hrest⟩ := hpre
  rw [← hrest, List.append_assoc, List.getElem?_append_right le_rfl, Nat.sub_self]
  rfl

/-- What was broadcast to a session is a beginning of what entered the queue. -/
theorem told_isPrefix (h : (conversation α L).Reachable s) (j : ι) :
    s.told L j <+: (s.group (L.group j)).pushed := by
  rw [← (carried_of_reachable h).downward.queue (L.group j), told, List.append_assoc]
  refine List.prefix_append_right_inj _ |>.2 ?_
  cases (s.group (L.group j)).consumer with
  | locking | draining | popped => exact List.nil_prefix
  | sending line todo =>
    simp only [GroupConsumer.sentTo]
    split
    · exact List.nil_prefix
    · exact List.prefix_append _ _

/-- **The line that is shown is the next one of the group.** -/
theorem show_next (h : (conversation α L).Reachable s) {j : ι} {line : Line ι α}
    {rest : List (Reply ι α)} (hr : s.toClient j = .message line :: rest) :
    (s.group (L.group j)).pushed[(s.shown j).length]? = some line := by
  have hshown := (carried_of_reachable h).downward.shown j
  have hpre := told_isPrefix h j
  rw [← hshown, inFlight_receive hr, if_pos rfl, Reply.lines_append] at hpre
  obtain ⟨more, hmore⟩ := hpre
  rw [← hmore, List.append_assoc, List.getElem?_append_right le_rfl, Nat.sub_self]
  rfl

/-! ## All other steps -/

omit [DecidableEq ι] [DecidableEq φ] in
/-- Nothing that can be seen has changed. -/
theorem overview_congr (g : γ) (hinputs : ∀ i, (t.client i).inputs = (s.client i).inputs)
    (hpushed : (t.group g).pushed = (s.group g).pushed) (hshown : t.shown = s.shown) :
    t.overview L g = s.overview L g := by
  simp only [overview, hinputs, hpushed, hshown]

omit [DecidableEq ι] [DecidableEq φ] in
theorem pushed_setGroup {g : γ} {q : GroupQueue ι α} (hq : q.pushed = (s.group g).pushed) (g' : γ) :
    ((s.setGroup g q).group g').pushed = (s.group g').pushed := by
  show (Function.update s.group g q g').pushed = _
  by_cases hg : g' = g
  · rw [hg, Function.update_self, hq]
  · rw [Function.update_of_ne hg]

omit [DecidableEq φ] in
/-- Typing is a submission to the group of the client. -/
theorem overview_type (g : γ) (i : ι) (text : α) {c : StopAndWait (Line ι α)}
    (hc : (s.client i).step (.push ⟨i, text⟩) = some c) :
    (broadcast Line.sender fun i => L.group i = g).Reaches (s.overview L g)
      ((s.setClient i c).overview L g) := by
  have hinputs : ∀ j, ((s.setClient i c).client j).inputs =
      if j = i then (s.client i).inputs ++ [⟨i, text⟩] else (s.client j).inputs := by
    intro j
    show (Function.update s.client i c j).inputs = _
    by_cases hj : j = i
    · subst hj
      rw [Function.update_self, if_pos rfl, (StopAndWait.step_push hc).1]
    · rw [Function.update_of_ne hj, if_neg hj]
  by_cases hg : L.group i = g
  · refine .cons (l := .submit ⟨i, text⟩) ?_ (.refl _)
    show Broadcast.step Line.sender (fun i => L.group i = g) _ (.submit ⟨i, text⟩) = some _
    rw [Broadcast.step, if_pos hg]
    congr 1
    simp only [overview, hinputs]
    congr 1
    funext j
    by_cases hj : j = i
    · subst hj
      simp [hg]
    · rw [Function.update_of_ne hj, if_neg hj]
  · have hsame : (s.setClient i c).overview L g = s.overview L g := by
      simp only [overview, hinputs]
      congr 1
      funext j
      by_cases hj : j = i
      · simp [hj, hg]
      · simp [hj]
    rw [hsame]
    exact .refl _

/-- A line that enters the queue gets its place. -/
theorem overview_push (h : (conversation α L).Reachable s) (g : γ) {f : φ} {line : Line ι α}
    (hl : s.listener f = .acknowledged line) {q : GroupQueue ι α}
    (hq : q.pushed = (s.group (L.group line.sender)).pushed ++ [line]) :
    (broadcast Line.sender fun i => L.group i = g).Reaches (s.overview L g)
      ((s.setGroup (L.group line.sender) q).overview L g) := by
  by_cases hg : L.group line.sender = g
  · subst hg
    have hnext := push_next h hl
    refine .cons (l := .order line.sender) ?_ (.refl _)
    show Broadcast.step Line.sender (fun i => L.group i = L.group line.sender) _
      (.order line.sender) = some _
    simp only [Broadcast.step, overview, if_pos]
    rw [logged] at hnext
    simp only [hnext]
    congr 1
    show _ = Broadcast.mk _ (Function.update s.group _ q (L.group line.sender)).pushed _
    rw [Function.update_self, hq]
    rfl
  · have hsame : (s.setGroup (L.group line.sender) q).overview L g = s.overview L g := by
      refine overview_congr g (fun _ => rfl) ?_ rfl
      show (Function.update s.group (L.group line.sender) q g).pushed = _
      rw [Function.update_of_ne (Ne.symm hg)]
    rw [hsame]
    exact .refl _

/-- A line that is shown is the next one of the log. -/
theorem overview_shown (h : (conversation α L).Reachable s) (g : γ) {i : ι} {line : Line ι α}
    {rest : List (Reply ι α)} (hr : s.toClient i = .message line :: rest) :
    (broadcast Line.sender fun i => L.group i = g).Reaches (s.overview L g)
      (overview L g { s with
        toClient := Function.update s.toClient i rest
        shown := Function.update s.shown i (s.shown i ++ [line]) }) := by
  by_cases hg : L.group i = g
  · subst hg
    have hnext := show_next h hr
    refine .cons (l := .show i) ?_ (.refl _)
    show Broadcast.step Line.sender (fun j => L.group j = L.group i) _ (.show i) = some _
    simp only [Broadcast.step, overview, if_pos, hnext]
    congr 2
    funext j
    by_cases hj : j = i
    · subst hj
      simp
    · simp [hj]
  · have hsame : overview L g { s with
        toClient := Function.update s.toClient i rest
        shown := Function.update s.shown i (s.shown i ++ [line]) } = s.overview L g := by
      simp only [overview]
      congr 1
      funext j
      by_cases hj : j = i
      · simp [hj, hg]
      · simp [hj]
    rw [hsame]
    exact .refl _

/-! ## The result -/

/-- **A conversation refines a broadcast in one order**, for every layout of the clients and
every group: whatever the interleaving of all the threads, what can be seen of the group is a
run of the broadcast. -/
theorem refines_broadcast (L : Layout ι φ γ) (g : γ) :
    Transition.Refinement (conversation α L) (broadcast Line.sender fun i => L.group i = g)
      (overview L g) where
  init s hs := by
    show overview L g s = Broadcast.start
    rw [overview, Broadcast.start, Broadcast.mk.injEq]
    refine ⟨?_, ?_, ?_⟩
    · funext i
      rw [hs.client i]
      exact ite_self _
    · rw [hs.group g]
      rfl
    · funext j
      rw [hs.shown j]
      exact ite_self _
  step s l t hs hst := by
    have hup := (carried_of_reachable hs).upward.isUp
    have hm := moves_of_step hst
    have hstay : (∀ i text, l ≠ .type i text) → (t.group g).pushed = (s.group g).pushed →
        t.shown = s.shown →
        (broadcast Line.sender fun i => L.group i = g).Reaches (s.overview L g)
          (t.overview L g) := by
      intro hl hpushed hshown
      rw [overview_congr g ?_ hpushed hshown]
      · exact .refl _
      · intro i
        rcases inputs_of_moves hup hm i with hsame | ⟨text, htype, -⟩
        · exact hsame
        · exact absurd htype (hl i text)
    cases hm with
    | type i text c hc => exact overview_type g i text hc
    | push f line hl => exact overview_push hs g hl rfl
    | shown i line rest hr hc => exact overview_shown hs g hr
    | unlock f line hl => exact hstay (by simp) (pushed_setGroup (by rfl) g) rfl
    | lock k | drained k | popped k | append k | sent k | finished k =>
      exact hstay (by simp) (pushed_setGroup (by rfl) g) rfl
    | _ => exact hstay (by simp) rfl rfl

/-- **What the members of the groups see.** -/
structure OneOrder (L : Layout ι φ γ) (s : Conversation ι φ γ α) : Prop where
  broadcast : ∀ g, (broadcast Line.sender fun i => L.group i = g).Reachable (s.overview L g)
  agree : ∀ j k, L.group j = L.group k → s.shown j <+: s.shown k ∨ s.shown k <+: s.shown j
  fifo : ∀ i j, of Line.sender i (s.shown j) <+: (s.client i).inputs
  own : ∀ j, ∀ line ∈ s.shown j, L.group line.sender = L.group j

/-- Seen from outside, every group gives the guarantee of a broadcast. -/
theorem consistent_overview (h : (conversation α L).Reachable s) (g : γ) :
    Broadcast.Consistent Line.sender (fun i => L.group i = g) (s.overview L g) :=
  Broadcast.consistent_of_reachable ((refines_broadcast L g).reachable h)

omit [DecidableEq ι] [DecidableEq φ] in
theorem shown_of_group {j : ι} {g : γ} (hj : L.group j = g) :
    (s.overview L g).shown j = s.shown j := if_pos hj

omit [DecidableEq ι] [DecidableEq φ] in
theorem submitted_of_group {i : ι} {g : γ} (hi : L.group i = g) :
    (s.overview L g).submitted i = (s.client i).inputs := if_pos hi

/-- What is on the screen of a member was typed in its group. -/
theorem own_of_reachable (h : (conversation α L).Reachable s) {j : ι} {line : Line ι α}
    (hline : line ∈ s.shown j) : L.group line.sender = L.group j := by
  rw [← shown_of_group (L := L) (s := s) (j := j) rfl] at hline
  exact (consistent_overview h (L.group j)).member_of_shown hline

/-- **One order for everybody**, whatever the layout of the clients, and however the threads
of all programs are scheduled. -/
theorem one_order (h : (conversation α L).Reachable s) : OneOrder L s where
  broadcast g := (refines_broadcast L g).reachable h
  agree j k hjk := by
    have hagree := (consistent_overview h (L.group k)).agree j k
    rwa [shown_of_group hjk, shown_of_group rfl] at hagree
  own j line hline := own_of_reachable h hline
  fifo i j := by
    by_cases hij : L.group i = L.group j
    · have hfifo := (consistent_overview h (L.group j)).fifo i j
      rwa [shown_of_group rfl, submitted_of_group hij] at hfifo
    · -- nobody sees the lines of another group
      have hnone : of Line.sender i (s.shown j) = [] := by
        refine List.eq_nil_iff_forall_not_mem.2 fun line hline => ?_
        obtain ⟨hmem, rfl⟩ := mem_of.1 hline
        exact hij (own_of_reachable h hmem)
      rw [hnone]
      exact List.nil_prefix

/-- Two clients of one front end, in one group. -/
def twoMembers : Layout (Fin 2) Unit Unit where
  frontEnd _ := ()
  group _ := ()
  members _ := [0, 1]
  mem_members g i := by
    refine iff_of_true ?_ rfl
    revert i
    decide
  nodup _ := by decide

/-- They have joined, and nobody has said anything. -/
def silent : Conversation (Fin 2) Unit Unit Nat where
  client _ := StopAndWait.start
  shown _ := []
  fromClient _ := []
  toClient _ := []
  frontEnd _ := ⟨1, false, ⟨0, 0⟩, fun _ => .idle, .locking, [], [], []⟩
  forwarding _ := none
  toServer _ := []
  fromServer _ := []
  listener _ := .reading
  group _ := GroupQueue.start

theorem start_silent : Start silent :=
  ⟨fun _ => rfl, fun _ => rfl, fun _ => rfl, fun _ => rfl,
    fun _ => ⟨rfl, rfl, fun _ => rfl, rfl, rfl, rfl, rfl⟩, fun _ => rfl, fun _ => rfl,
    fun _ => rfl, fun _ => rfl, fun _ => rfl⟩

/-- A line of the first client goes all the way to the screen of the second one, which has
typed another line. -/
def oneLine : List (Step (Fin 2) Unit Unit Nat) :=
  [.type 0 7, .client 0 .unlockConsumer, .client 0 .lockConsumer, .client 0 .drain, .type 1 8,
    .send 0, .read 0, .frontEnd () (.wait 0), .frontEnd () (.write 0), .frontEnd () (.unlock 0),
    .frontEnd () .lock, .frontEnd () .call, .forward (), .listen (), .sendAck (), .push (),
    .unlock (), .lock (), .drain (), .append (), .broadcast (), .broadcast (), .readServer (),
    .reply (), .readServer (), .reply (), .readServer (), .reply (), .receive 1]

theorem one_order_oneLine :
    ∃ s, (conversation Nat twoMembers).exec silent oneLine = some s ∧ OneOrder twoMembers s ∧
      s.shown 0 = [] ∧ s.shown 1 = [⟨0, 7⟩] := by
  obtain ⟨s, hs⟩ : ∃ s, (conversation Nat twoMembers).exec silent oneLine = some s :=
    Option.isSome_iff_exists.1 (by decide)
  have horder := one_order (Transition.System.reachable_of_exec start_silent hs)
  refine ⟨s, hs, horder, ?_, ?_⟩
  · cases hs
    rfl
  · cases hs
    rfl

end Conversation
end InstantMessenger
