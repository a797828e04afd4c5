import InstantMessenger.Foundations.Slots
import InstantMessenger.Foundations.Transition
import InstantMessenger.Server.Sessions
import InstantMessenger.Util.FileSystemManager

/-!
# The threads of a group

The consumer thread of a group pops a message, appends it to the history and
broadcasts it; a joiner reads the history, sends it and registers its session.
Each of these is a step of its own, and the steps of the threads interleave.

* `GroupThreads`, `groupThreads` — the consumer and the joiners of a group as a
  transition system.  A message is known by its place in the queue.
* `GroupThreads.Registered.step` — **the users of the group are the open sessions**
  in every run, so a message is broadcast once to each of them.
-/

namespace InstantMessenger

open FileSystemManager Slots

/-- A message in the history or in the hands of the consumer.  `place` is its place
in the queue; what a file held before has negative places. -/
structure Stored where
  place : Int
  message : Message
  deriving DecidableEq, Repr

/-- Where the consumer thread is in `consumeMessageQueue`. -/
inductive Consumer where
  | waiting
  | popped (x : Stored)
  | appended (x : Stored)
  deriving DecidableEq, Repr

/-- Where a call of `registerNewSession` is, and what became of its session.
Sessions are dated by the number of messages broadcast before. -/
inductive JoinState where
  /-- The history is read. -/
  | read
  /-- The history is sent. -/
  | sent
  | opened (at_ : Int)
  /-- `registerSession` found no free slot. -/
  | refused
  | ended (at_ until_ : Int)
  deriving DecidableEq, Repr

/-- A call of `registerNewSession`, with the history it has read and what was
stored when it read it.  It began when the first `began` messages of the queue
were popped. -/
structure Join where
  session : Session
  userName : Str
  stored : List Stored
  history : List Stored
  began : Int
  state : JoinState
  deriving DecidableEq, Repr

namespace Join

/-- The session is not registered yet. -/
def unregistered (j : Join) : Bool := j.state == .read || j.state == .sent

/-- The session is open. -/
def isOpen (j : Join) : Bool :=
  match j.state with
  | .opened _ => true
  | _ => false

theorem isOpen_iff {j : Join} : j.isOpen = true ↔ ∃ a, j.state = .opened a := by
  unfold isOpen
  cases j.state <;> simp

/-- The history was sent. -/
def historySent (j : Join) : Bool := j.state != .read

theorem historySent_of_ne {j : Join} (h : j.state ≠ .read) : j.historySent = true :=
  bne_iff_ne.2 h

theorem historySent_of_eq {j : Join} (h : j.state = .read) : j.historySent = false := by
  rw [historySent, h]
  rfl

/-- The message at this place was read from the history. -/
def hasRead (j : Join) (place : Int) : Bool := j.history.any fun x => x.place == place

end Join

/-- A group with its history and its threads.  `popped` is the number of messages
popped so far, `delivered` the messages broadcast so far, and `sent` what was sent
to each session. -/
structure GroupThreads where
  group : Group
  rows : List Stored
  popped : Nat
  consumer : Consumer
  joins : List Join
  delivered : List Stored
  sent : List (Session × Int)
  deriving DecidableEq, Repr

/-- A step of one of the threads. -/
inductive GroupStep where
  /-- `processReceivedMessage`. -/
  | receive (userName text : Str) (time : Int)
  | pop
  | append
  | broadcast
  /-- A joiner reads the history. -/
  | begin (session : Session) (userName : Str)
  | sendHistory (join : Nat)
  | register (join : Nat) (o : Outside)
  /-- `handleDisconnectEvent`. -/
  | disconnect (session : Session) (time : Int) (counts : Counts)

namespace GroupThreads

/-- A disconnect event ends the sessions it is about. -/
def endSessions (s : GroupThreads) (c : Session) (j : Join) : Join :=
  match j.state with
  | .opened at_ =>
    if Replica.closedBy c ⟨s.group.groupName, j.userName, j.session⟩ then
      { j with state := .ended at_ s.delivered.length }
    else j
  | _ => j

/-- What a step does on a primary with these front ends.  Client ids are
generated: no two joins share one, and none is the address of a front end. -/
def step (limit : Nat) (feAddresses : List Str) (s : GroupThreads) : GroupStep → Option GroupThreads
  | .receive userName text time =>
    some { s with group := s.group.processReceivedMessage userName text time }
  | .pop =>
    match s.consumer, s.group.messages_queue[s.popped]? with
    | .waiting, some m =>
      some { s with consumer := .popped ⟨s.popped, m⟩, popped := s.popped + 1 }
    | _, _ => none
  | .append =>
    match s.consumer with
    | .popped x =>
      some { s with
        consumer := .appended x
        rows := appendGroupMessageToHistory limit x.message.isNotification x s.rows }
    | _ => none
  | .broadcast =>
    match s.consumer with
    | .appended x =>
      some { s with
        consumer := .waiting
        delivered := s.delivered ++ [x]
        sent := s.sent ++ s.group.getAllActiveConnectionIds.map fun c => (c, x.place) }
    | _ => none
  | .begin session userName =>
    if session.1 ≠ [] ∧ session.1 ∉ feAddresses ∧ session.2 ∈ feAddresses ∧
        session.1 ∉ s.joins.map fun j => j.session.1 then
      let rows := readGroupHistoryMessages limit s.rows
      some { s with
        rows
        joins := s.joins ++ [⟨session, userName, s.rows, rows, s.popped, .read⟩] }
    else none
  | .sendHistory i =>
    match s.joins[i]? with
    | some j =>
      if j.state = .read then
        some { s with
          joins := s.joins.set i { j with state := .sent }
          sent := s.sent ++ j.history.map fun x => (j.session, x.place) }
      else none
    | none => none
  | .register i o =>
    match s.joins[i]? with
    | some j =>
      if j.state = .sent then
        let r := s.group.registerNewSession true o j.session.1 j.session.2 j.userName
        some { s with
          group := r.1
          joins := s.joins.set i
            { j with state := if r.2.1 = 0 then .opened s.delivered.length else .refused } }
      else none
    | none => none
  | .disconnect c time counts =>
    if c.2 ∈ feAddresses then
      some { s with
        group := (Group.handleDisconnectEvent true time c.1 c.2 (s.group, counts)).1
        joins := s.joins.map (s.endSessions c) }
    else none

/-- A group with nobody in it, and any history from before. -/
structure Start (s : GroupThreads) : Prop where
  users : s.group.users = []
  rows : ∀ x ∈ s.rows, x.place < 0
  messages : ∀ x ∈ s.rows, x.message.isNotification = false
  distinct : (s.rows.map Stored.place).Nodup
  popped : s.popped = 0
  consumer : s.consumer = .waiting
  joins : s.joins = []
  delivered : s.delivered = []
  sent : s.sent = []

section Steps

variable {limit : Nat} {feAddresses : List Str} {s t : GroupThreads}

theorem step_pop (h : step limit feAddresses s .pop = some t) :
    ∃ m, s.consumer = .waiting ∧
      t = { s with consumer := .popped ⟨s.popped, m⟩, popped := s.popped + 1 } := by
  simp only [step] at h
  split at h
  · rename_i m hc _
    exact ⟨m, hc, (Option.some.inj h).symm⟩
  · cases h

theorem step_append (h : step limit feAddresses s .append = some t) :
    ∃ x, s.consumer = .popped x ∧
      t = { s with
        consumer := .appended x
        rows := appendGroupMessageToHistory limit x.message.isNotification x s.rows } := by
  simp only [step] at h
  split at h
  · rename_i x hc
    exact ⟨x, hc, (Option.some.inj h).symm⟩
  · cases h

theorem step_broadcast (h : step limit feAddresses s .broadcast = some t) :
    ∃ x, s.consumer = .appended x ∧
      t = { s with
        consumer := .waiting
        delivered := s.delivered ++ [x]
        sent := s.sent ++ s.group.getAllActiveConnectionIds.map fun c => (c, x.place) } := by
  simp only [step] at h
  split at h
  · rename_i x hc
    exact ⟨x, hc, (Option.some.inj h).symm⟩
  · cases h

theorem step_begin {c : Session} {user : Str}
    (h : step limit feAddresses s (.begin c user) = some t) :
    (c.1 ≠ [] ∧ c.1 ∉ feAddresses ∧ c.2 ∈ feAddresses ∧ c.1 ∉ s.joins.map fun j => j.session.1) ∧
      t = { s with
        rows := readGroupHistoryMessages limit s.rows
        joins := s.joins ++
          [⟨c, user, s.rows, readGroupHistoryMessages limit s.rows, s.popped, .read⟩] } := by
  simp only [step] at h
  split at h
  · rename_i hc
    exact ⟨hc, (Option.some.inj h).symm⟩
  · cases h

theorem step_sendHistory {i : Nat} (h : step limit feAddresses s (.sendHistory i) = some t) :
    ∃ j, s.joins[i]? = some j ∧ j.state = .read ∧
      t = { s with
        joins := s.joins.set i { j with state := .sent }
        sent := s.sent ++ j.history.map fun x => (j.session, x.place) } := by
  simp only [step] at h
  split at h
  · rename_i j hj
    split at h
    · rename_i hstate
      exact ⟨j, hj, hstate, (Option.some.inj h).symm⟩
    · cases h
  · cases h

theorem step_register {i : Nat} {o : Outside}
    (h : step limit feAddresses s (.register i o) = some t) :
    ∃ j, s.joins[i]? = some j ∧ j.state = .sent ∧
      let r := s.group.registerNewSession true o j.session.1 j.session.2 j.userName
      t = { s with
        group := r.1
        joins := s.joins.set i
          { j with state := if r.2.1 = 0 then .opened s.delivered.length else .refused } } := by
  simp only [step] at h
  split at h
  · rename_i j hj
    split at h
    · rename_i hstate
      exact ⟨j, hj, hstate, (Option.some.inj h).symm⟩
    · cases h
  · cases h

theorem step_disconnect {c : Session} {time : Int} {counts : Counts}
    (h : step limit feAddresses s (.disconnect c time counts) = some t) :
    c.2 ∈ feAddresses ∧
      t = { s with
        group := (Group.handleDisconnectEvent true time c.1 c.2 (s.group, counts)).1
        joins := s.joins.map (s.endSessions c) } := by
  simp only [step] at h
  split at h
  · rename_i hc
    exact ⟨hc, (Option.some.inj h).symm⟩
  · cases h

end Steps

/-! ## The open sessions -/

/-- The sessions in the group's users are the open ones. -/
structure Registered (feAddresses : List Str) (s : GroupThreads) : Prop where
  distinct : (s.joins.map fun j => j.session.1).Nodup
  generated : ∀ j ∈ s.joins,
    j.session.1 ≠ [] ∧ j.session.1 ∉ feAddresses ∧ j.session.2 ∈ feAddresses
  ids : (Replica.clientIds (Replica.entries s.group.groupName s.group.users)).Nodup
  isOpen : ∀ e, e ∈ Replica.entries s.group.groupName s.group.users ↔
    ∃ j ∈ s.joins, j.isOpen = true ∧ e = ⟨s.group.groupName, j.userName, j.session⟩

section Registered

variable {feAddresses : List Str} {s t : GroupThreads}

/-- The sessions a message is broadcast to. -/
theorem getAllActiveConnectionIds_eq (g : Group) :
    g.getAllActiveConnectionIds = (Replica.entries g.groupName g.users).map Entry.session := by
  rw [Group.getAllActiveConnectionIds, Replica.entries, List.map_flatMap]
  congr 1
  funext u
  rw [List.map_map]
  exact (List.map_id _).symm

/-- **A message is broadcast once to an open session**, and to no other. -/
theorem Registered.count_connections (h : Registered feAddresses s) {j : Join}
    (hj : j ∈ s.joins) : s.group.getAllActiveConnectionIds.count j.session = j.isOpen.toNat := by
  have hsessions : (Replica.entries s.group.groupName s.group.users).map Entry.session |>.Nodup :=
    List.Nodup.of_map Prod.fst (by rw [List.map_map]; exact h.ids)
  rw [getAllActiveConnectionIds_eq, hsessions.count]
  have hmem : j.session ∈ (Replica.entries s.group.groupName s.group.users).map Entry.session ↔
      j.isOpen = true := by
    rw [List.mem_map]
    constructor
    · rintro ⟨e, he, hej⟩
      obtain ⟨k, hk, hopen, rfl⟩ := (h.isOpen e).1 he
      obtain rfl : k = j := List.inj_on_of_nodup_map h.distinct hk hj (congrArg Prod.fst hej)
      exact hopen
    · intro hopen
      exact ⟨_, (h.isOpen _).2 ⟨j, hj, hopen, rfl⟩, rfl⟩
  cases hopen : j.isOpen with
  | true => exact if_pos (hmem.2 hopen)
  | false => exact if_neg fun hin => by rw [hmem.1 hin] at hopen; cases hopen

/-- Nothing of it is touched by the consumer. -/
theorem Registered.frame (h : Registered feAddresses s) (hjoins : t.joins = s.joins)
    (hname : t.group.groupName = s.group.groupName) (husers : t.group.users = s.group.users) :
    Registered feAddresses t where
  distinct := by rw [hjoins]; exact h.distinct
  generated := by rw [hjoins]; exact h.generated
  ids := by rw [hname, husers]; exact h.ids
  isOpen := by rw [hjoins, hname, husers]; exact h.isOpen

theorem Registered.start (h : Start s) : Registered feAddresses s where
  distinct := by rw [h.joins]; exact List.nodup_nil
  generated := by rw [h.joins]; exact fun _ hj => absurd hj List.not_mem_nil
  ids := by rw [h.users]; exact List.nodup_nil
  isOpen := by
    intro e
    rw [h.users, h.joins]
    exact ⟨fun he => absurd he List.not_mem_nil, fun ⟨_, hj, _⟩ => absurd hj List.not_mem_nil⟩

/-- A new join has no session yet. -/
theorem Registered.begin (h : Registered feAddresses s) {j : Join} (hstate : j.state = .read)
    (hgen : j.session.1 ≠ [] ∧ j.session.1 ∉ feAddresses ∧ j.session.2 ∈ feAddresses)
    (hnew : j.session.1 ∉ s.joins.map fun k => k.session.1) (hjoins : t.joins = s.joins ++ [j])
    (hgroup : t.group = s.group) : Registered feAddresses t where
  distinct := by
    rw [hjoins, List.map_append]
    exact h.distinct.append (List.nodup_singleton _) (List.disjoint_singleton.2 hnew)
  generated := by
    rw [hjoins, List.forall_mem_append, List.forall_mem_singleton]
    exact ⟨h.generated, hgen⟩
  ids := by rw [hgroup]; exact h.ids
  isOpen := by
    intro e
    rw [hgroup, h.isOpen e, hjoins]
    constructor
    · rintro ⟨k, hk, hopen⟩
      exact ⟨k, List.mem_append_left _ hk, hopen⟩
    · rintro ⟨k, hk, hopen, he⟩
      rcases List.mem_append.1 hk with hk | hk
      · exact ⟨k, hk, hopen, he⟩
      · rw [List.mem_singleton.1 hk, Join.isOpen, hstate] at hopen
        cases hopen

theorem mem_setState (h : (s.joins.map fun j => j.session.1).Nodup) {i : Nat} {j k : Join}
    {state : JoinState} (hi : s.joins[i]? = some j) :
    k ∈ s.joins.set i { j with state } ↔
      k = { j with state } ∨ (k ∈ s.joins ∧ k.session.1 ≠ j.session.1) :=
  @mem_set_iff_of_nodup _ _ i j { j with state } k _ _ h hi rfl

/-- A join without a session moves on, and opens it or not. -/
theorem Registered.move (h : Registered feAddresses s) {i : Nat} {j : Join} {state : JoinState}
    (hi : s.joins[i]? = some j) (hclosed : j.isOpen = false)
    (hjoins : t.joins = s.joins.set i { j with state })
    (hname : t.group.groupName = s.group.groupName)
    (hids : (Replica.clientIds (Replica.entries s.group.groupName t.group.users)).Nodup)
    (hentries : ∀ e, e ∈ Replica.entries s.group.groupName t.group.users ↔
      (({ j with state } : Join).isOpen = true ∧
        e = ⟨s.group.groupName, j.userName, j.session⟩) ∨
      e ∈ Replica.entries s.group.groupName s.group.users) : Registered feAddresses t where
  distinct := by
    rw [hjoins, @map_set_of_eq _ _ i j { j with state } _ _ hi rfl]
    exact h.distinct
  generated := by
    intro k hk
    rw [hjoins, mem_setState h.distinct hi] at hk
    rcases hk with rfl | ⟨hk, -⟩
    · exact h.generated j (List.mem_of_getElem? hi)
    · exact h.generated k hk
  ids := by rw [hname]; exact hids
  isOpen := by
    intro e
    simp only [hname, hentries, h.isOpen e, hjoins, mem_setState h.distinct hi]
    constructor
    · rintro (⟨hopen, he⟩ | ⟨k, hk, hopen, he⟩)
      · exact ⟨_, .inl rfl, hopen, he⟩
      · refine ⟨k, .inr ⟨hk, fun hkey => ?_⟩, hopen, he⟩
        rw [List.inj_on_of_nodup_map h.distinct hk (List.mem_of_getElem? hi) hkey, hclosed] at hopen
        cases hopen
    · rintro ⟨k, rfl | ⟨hk, -⟩, hopen, he⟩
      · exact .inl ⟨hopen, he⟩
      · exact .inr ⟨k, hk, hopen, he⟩

theorem registerNewSession_groupName (isPrimary : Bool) (o : Outside) (g : Group)
    (c : Session) (user : Str) :
    (g.registerNewSession isPrimary o c.1 c.2 user).1.groupName = g.groupName :=
  congrArg GroupReplica.groupName (g.replica_registerNewSession isPrimary o c user)

/-- `registerSession` opens the session of a join, or refuses it. -/
theorem Registered.register (h : Registered feAddresses s) {i : Nat} {j : Join} {a : Int}
    {o : Outside} (hi : s.joins[i]? = some j) (hsent : j.state = .sent)
    (hgroup : t.group =
      (s.group.registerNewSession true o j.session.1 j.session.2 j.userName).1)
    (hjoins : t.joins = s.joins.set i { j with
      state := if (s.group.registerNewSession true o j.session.1 j.session.2 j.userName).2.1 = 0
        then .opened a else .refused }) : Registered feAddresses t := by
  have hclosed : j.isOpen = false := by rw [Join.isOpen, hsent]
  have hname : t.group.groupName = s.group.groupName := by
    rw [hgroup]
    exact registerNewSession_groupName true o s.group j.session j.userName
  have husers : t.group.users =
      (Group.addSession j.session.1 j.session.2 j.userName s.group.users).1 := by
    rw [hgroup]
    rfl
  have hresult : (s.group.registerNewSession true o j.session.1 j.session.2 j.userName).2.1 =
      (Group.addSession j.session.1 j.session.2 j.userName s.group.users).2 := rfl
  rcases Replica.entries_addSession_cases s.group.groupName j.userName j.session s.group.users with
    ⟨hzero, hperm⟩ | ⟨hneg, heq⟩
  · rw [hresult, if_pos hzero] at hjoins
    refine h.move hi hclosed hjoins hname ?_ fun e => ?_
    · rw [husers]
      refine (List.Perm.nodup_iff (hperm.map _)).2 ?_
      rw [List.map_cons, List.nodup_cons]
      refine ⟨?_, h.ids⟩
      intro hin
      obtain ⟨e, he, hej⟩ := List.mem_map.1 hin
      obtain ⟨k, hk, hopen, rfl⟩ := (h.isOpen e).1 he
      rw [List.inj_on_of_nodup_map h.distinct hk (List.mem_of_getElem? hi) hej, hclosed] at hopen
      cases hopen
    · rw [husers, hperm.mem_iff, List.mem_cons]
      simp [Join.isOpen]
  · rw [hresult, hneg, if_neg (by decide)] at hjoins
    refine h.move hi hclosed hjoins hname ?_ fun e => ?_
    · rw [husers, heq]
      exact h.ids
    · rw [husers, heq]
      simp [Join.isOpen]

theorem endSessions_of_opened {c : Session} {j : Join} {a : Int} (h : j.state = .opened a) :
    s.endSessions c j =
      if Replica.closedBy c ⟨s.group.groupName, j.userName, j.session⟩ then
        { j with state := .ended a s.delivered.length }
      else j := by
  rw [endSessions, h]

theorem endSessions_of_closed {c : Session} {j : Join} (h : j.isOpen = false) :
    s.endSessions c j = j := by
  unfold endSessions
  split
  · rename_i a hstate
    rw [Join.isOpen, hstate] at h
    cases h
  · rfl

/-- A disconnect event ends the sessions it is about. -/
theorem endSessions_isOpen (c : Session) (j : Join) :
    (s.endSessions c j).isOpen =
      (j.isOpen && !Replica.closedBy c ⟨s.group.groupName, j.userName, j.session⟩) := by
  cases hopen : j.isOpen with
  | false => rw [endSessions_of_closed hopen, hopen, Bool.false_and]
  | true =>
    obtain ⟨a, hstate⟩ := Join.isOpen_iff.1 hopen
    rw [endSessions_of_opened hstate, Bool.true_and]
    split
    · rename_i hclosed
      rw [hclosed]
      rfl
    · rename_i hclosed
      rw [hopen, Bool.eq_false_of_not_eq_true hclosed]
      rfl

theorem endSessions_eq (c : Session) (j : Join) :
    ∃ state, s.endSessions c j = { j with state } := by
  unfold endSessions
  split
  · split
    · exact ⟨_, rfl⟩
    · exact ⟨j.state, rfl⟩
  · exact ⟨j.state, rfl⟩

@[simp] theorem endSessions_session (c : Session) (j : Join) :
    (s.endSessions c j).session = j.session := by
  obtain ⟨state, h⟩ := s.endSessions_eq c j
  rw [h]

@[simp] theorem endSessions_userName (c : Session) (j : Join) :
    (s.endSessions c j).userName = j.userName := by
  obtain ⟨state, h⟩ := s.endSessions_eq c j
  rw [h]

theorem Registered.disconnect (h : Registered feAddresses s) {c : Session} {time : Int}
    {counts : Counts} (hc : c.2 ∈ feAddresses)
    (hgroup : t.group = (Group.handleDisconnectEvent true time c.1 c.2 (s.group, counts)).1)
    (hjoins : t.joins = s.joins.map (s.endSessions c)) : Registered feAddresses t := by
  have hrep := (Group.handleDisconnectEvent_replica true time c s.group counts).1
  rw [← hgroup] at hrep
  have hname : t.group.groupName = s.group.groupName := congrArg GroupReplica.groupName hrep
  have husers : t.group.users = (Replica.dropEvent c (s.group.users, counts)).1 :=
    congrArg GroupReplica.users hrep
  have hno : Replica.NoClientIs c.2 (Replica.entries s.group.groupName s.group.users) := by
    intro e he
    obtain ⟨k, hk, -, rfl⟩ := (h.isOpen e).1 he
    obtain ⟨hpos, hfe, -⟩ := h.generated k hk
    exact ⟨fun heq => hfe (heq ▸ hc), hpos⟩
  have hentries := (Replica.dropEvent_closes (s := (s.group.users, counts)) h.ids hno).entries
  rw [← husers] at hentries
  refine ⟨?_, ?_, ?_, ?_⟩
  · rw [hjoins, List.map_map]
    simpa [Function.comp_def] using h.distinct
  · rw [hjoins, List.forall_mem_map]
    simpa using h.generated
  · rw [hname, hentries]
    exact Replica.clientIds_nodup_of_sublist h.ids List.filter_sublist
  · intro e
    rw [hname, hentries, List.mem_filter, h.isOpen e, hjoins]
    constructor
    · rintro ⟨⟨k, hk, hopen, rfl⟩, hnot⟩
      refine ⟨_, List.mem_map_of_mem hk, ?_, by simp⟩
      rw [endSessions_isOpen, hopen, Bool.true_and]
      exact hnot
    · rintro ⟨_, hk, hopen, he⟩
      obtain ⟨k, hk', rfl⟩ := List.mem_map.1 hk
      rw [endSessions_isOpen, Bool.and_eq_true] at hopen
      rw [endSessions_userName, endSessions_session] at he
      subst he
      exact ⟨⟨k, hk', hopen.1, rfl⟩, hopen.2⟩

/-- **The users of the group are the open sessions**, after every step. -/
theorem Registered.step {limit : Nat} {l : GroupStep} (h : Registered feAddresses s)
    (hst : step limit feAddresses s l = some t) : Registered feAddresses t := by
  cases l with
  | receive userName text time =>
    cases hst
    exact h.frame rfl rfl rfl
  | pop =>
    obtain ⟨m, -, rfl⟩ := step_pop hst
    exact h.frame rfl rfl rfl
  | append =>
    obtain ⟨x, -, rfl⟩ := step_append hst
    exact h.frame rfl rfl rfl
  | broadcast =>
    obtain ⟨x, -, rfl⟩ := step_broadcast hst
    exact h.frame rfl rfl rfl
  | begin c user =>
    obtain ⟨⟨hpos, hfe, hto, hnew⟩, rfl⟩ := step_begin hst
    exact h.begin rfl ⟨hpos, hfe, hto⟩ hnew rfl rfl
  | sendHistory i =>
    obtain ⟨j, hi, hstate, rfl⟩ := step_sendHistory hst
    refine h.move hi (by rw [Join.isOpen, hstate]) rfl rfl h.ids ?_
    intro e
    simp [Join.isOpen]
  | register i o =>
    obtain ⟨j, hi, hstate, rfl⟩ := step_register hst
    exact h.register hi hstate rfl rfl
  | disconnect c time counts =>
    obtain ⟨hc, rfl⟩ := step_disconnect hst
    exact h.disconnect hc rfl rfl

end Registered

end GroupThreads

end InstantMessenger
