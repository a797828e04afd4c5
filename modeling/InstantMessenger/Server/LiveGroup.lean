import InstantMessenger.Foundations.Slots
import InstantMessenger.Server.GroupThreads
import InstantMessenger.Server.NumberedSessions

/-!
# A group while messages are broadcast

The consumer of a group pops one message after another and broadcasts each, under
`usersSemaphore`, to the sessions that are open then.  Sessions come and go under the
same semaphore, and any number of threads put messages into the queue.

* `LiveGroup`, `liveGroup` — the sections of all these threads as a transition system.
  Client ids are arbitrary, and a pair may be registered more than once; a session is
  known by the number of its registration.
* `LiveGroup.Numbered` — **the numbers follow the code**: without them the tables are the
  users of the group, and the open sessions are those whose life has no end yet.
* `LiveGroup.Popped` — the pop sequence is the front of the queue, and everything popped
  is broadcast or in the hands of the consumer.
-/

namespace InstantMessenger

open Table

/-- What became of a registered session, dated by the number of broadcasts before. -/
structure Life where
  session : Session
  opened : Nat
  released : Option Nat
  deriving DecidableEq, Repr

/-- A group on the primary and its threads.  `pops` is the pop sequence, `delivered` the
messages broadcast so far, and `sent` the packets of the broadcasts.  The last three
fields number the sessions; the code has no such thing. -/
structure LiveGroup where
  group : Group
  consumer : Consumer
  pops : List Stored
  delivered : List Stored
  sent : List (Session × Stored)
  tables : List Table
  lives : List Life
  live : List (Nat × Stored)
  deriving DecidableEq, Repr

/-- A section of one of the threads. -/
inductive LiveStep where
  /-- `processReceivedMessage`. -/
  | receive (userName text : Str) (time : Int)
  | pop
  | append
  | broadcast
  /-- `registerNewSession`, from `usersSemaphore->wait()` on. -/
  | register (session : Session) (userName : Str) (o : Outside)
  /-- `handleDisconnectEvent`. -/
  | disconnect (session : Session) (time : Int) (counts : Counts)

namespace LiveGroup

/-- The sessions whose number is not there any more are released. -/
def release (delivered : Nat) (ts : List Table) (lives : List Life) : List Life :=
  lives.mapIdx fun n l =>
    if l.released = none ∧ n ∉ numbers ts then { l with released := some delivered } else l

/-- What a section does. -/
def step (s : LiveGroup) : LiveStep → Option LiveGroup
  | .receive userName text time =>
    some { s with group := s.group.processReceivedMessage userName text time }
  | .pop =>
    match s.consumer, s.group.messages_queue[s.pops.length]? with
    | .waiting, some m =>
      some { s with
        consumer := .popped ⟨s.pops.length, m⟩
        pops := s.pops ++ [⟨s.pops.length, m⟩] }
    | _, _ => none
  | .append =>
    match s.consumer with
    | .popped x => some { s with consumer := .appended x }
    | _ => none
  | .broadcast =>
    match s.consumer with
    | .appended x =>
      some { s with
        consumer := .waiting
        delivered := s.delivered ++ [x]
        sent := s.sent ++ s.group.getAllActiveConnectionIds.map fun c => (c, x)
        live := s.live ++ (seatsOf s.tables).map fun seat => (seat.number, x) }
    | _ => none
  | .register c userName o =>
    let r := s.group.registerNewSession true o c.1 c.2 userName
    some { s with
      group := r.1
      tables := addSeat ⟨c, s.lives.length⟩ userName s.tables
      lives := if r.2.1 = 0 then s.lives ++ [⟨c, s.delivered.length, none⟩] else s.lives }
  | .disconnect c time counts =>
    some { s with
      group := (Group.handleDisconnectEvent true time c.1 c.2 (s.group, counts)).1
      tables := handleDisconnectEvent c.1 c.2 s.tables
      lives := release s.delivered.length (handleDisconnectEvent c.1 c.2 s.tables) s.lives }

/-- A group with nobody in it. -/
structure Start (s : LiveGroup) : Prop where
  users : s.group.users = []
  consumer : s.consumer = .waiting
  pops : s.pops = []
  delivered : s.delivered = []
  sent : s.sent = []
  tables : s.tables = []
  lives : s.lives = []
  live : s.live = []

/-- The threads of a group on the primary. -/
def liveGroup : Transition.System LiveGroup LiveStep where
  init := Start
  step := step

/-- What was broadcast to the session with this number. -/
def liveTo (s : LiveGroup) (n : Nat) : List Stored :=
  (s.live.filter fun p => p.1 == n).map Prod.snd

/-- The number of broadcasts before the end of a life, or so far. -/
def closing (s : LiveGroup) (l : Life) : Nat := l.released.getD s.delivered.length

/-- The session that was given this number. -/
def sessionOf (lives : List Life) (n : Nat) : Session :=
  (lives[n]?.map Life.session).getD ([], [])

/-- The message in the hands of the consumer. -/
def inHand : Consumer → List Stored
  | .waiting => []
  | .popped x => [x]
  | .appended x => [x]

/-! ## The invariants -/

/-- The numbers are kept in order. -/
structure Numbered (s : LiveGroup) : Prop where
  users : Table.users s.tables = s.group.users
  distinct : (numbers s.tables).Nodup
  isOpen : ∀ n, n ∈ numbers s.tables ↔ ∃ l, s.lives[n]? = some l ∧ l.released = none
  session : ∀ seat ∈ seatsOf s.tables, sessionOf s.lives seat.number = seat.session

/-- The pop sequence is numbered, and everything popped is broadcast or in hand. -/
structure Popped (s : LiveGroup) : Prop where
  place : ∀ (k : Nat) (x : Stored), s.pops[k]? = some x → x.place = k
  fifo : ∀ (k : Nat) (x : Stored), s.pops[k]? = some x → s.group.messages_queue[k]? = some x.message
  split : s.delivered ++ inHand s.consumer = s.pops

/-! ## What a section does -/

section Steps

variable {s t : LiveGroup}

theorem step_pop (h : s.step .pop = some t) :
    ∃ m, s.consumer = .waiting ∧ s.group.messages_queue[s.pops.length]? = some m ∧
      t = { s with
        consumer := .popped ⟨s.pops.length, m⟩
        pops := s.pops ++ [⟨s.pops.length, m⟩] } := by
  simp only [step] at h
  split at h
  · rename_i m hc hm
    exact ⟨m, hc, hm, (Option.some.inj h).symm⟩
  · cases h

theorem step_append (h : s.step .append = some t) :
    ∃ x, s.consumer = .popped x ∧ t = { s with consumer := .appended x } := by
  simp only [step] at h
  split at h
  · rename_i x hc
    exact ⟨x, hc, (Option.some.inj h).symm⟩
  · cases h

theorem step_broadcast (h : s.step .broadcast = some t) :
    ∃ x, s.consumer = .appended x ∧
      t = { s with
        consumer := .waiting
        delivered := s.delivered ++ [x]
        sent := s.sent ++ s.group.getAllActiveConnectionIds.map fun c => (c, x)
        live := s.live ++ (seatsOf s.tables).map fun seat => (seat.number, x) } := by
  simp only [step] at h
  split at h
  · rename_i x hc
    exact ⟨x, hc, (Option.some.inj h).symm⟩
  · cases h

/-- A registration opens a session with the next number, or is refused. -/
theorem step_register {c : Session} {userName : Str} {o : Outside} (hn : s.Numbered)
    (h : s.step (.register c userName o) = some t) :
    t.group = (s.group.registerNewSession true o c.1 c.2 userName).1 ∧
      t.tables = addSeat ⟨c, s.lives.length⟩ userName s.tables ∧
      t.consumer = s.consumer ∧ t.pops = s.pops ∧ t.delivered = s.delivered ∧
      t.sent = s.sent ∧ t.live = s.live ∧
      ((t.lives = s.lives ++ [⟨c, s.delivered.length, none⟩] ∧
          (seatsOf t.tables).Perm (seatsOf s.tables ++ [⟨c, s.lives.length⟩])) ∨
        (t.lives = s.lives ∧ seatsOf t.tables = seatsOf s.tables)) := by
  cases h
  refine ⟨rfl, rfl, rfl, rfl, rfl, rfl, rfl, ?_⟩
  have hresult : (s.group.registerNewSession true o c.1 c.2 userName).2.1 =
      (Group.addSession c.1 c.2 userName (Table.users s.tables)).2 := by
    rw [hn.users]
    rfl
  dsimp only
  rw [hresult]
  rcases seatsOf_addSeat ⟨c, s.lives.length⟩ userName s.tables with ⟨hr, hseats⟩ | ⟨hr, hseats⟩
  · exact .inl ⟨if_pos hr, hseats⟩
  · refine .inr ⟨if_neg ?_, hseats⟩
    rw [hr]
    decide

end Steps

/-! ## The numbers -/

theorem getElem?_release {d n : Nat} {ts : List Table} {lives : List Life} {l : Life}
    (h : (release d ts lives)[n]? = some l) :
    ∃ k, lives[n]? = some k ∧
      ((k.released = none ∧ n ∉ numbers ts ∧ l = { k with released := some d }) ∨
        (l = k ∧ (k.released ≠ none ∨ n ∈ numbers ts))) := by
  rw [release, List.getElem?_mapIdx, Option.map_eq_some_iff] at h
  obtain ⟨k, hk, hl⟩ := h
  refine ⟨k, hk, ?_⟩
  split at hl
  · rename_i hc
    exact .inl ⟨hc.1, hc.2, hl.symm⟩
  · rename_i hc
    rw [not_and_or, not_not] at hc
    exact .inr ⟨hl.symm, hc⟩

theorem getElem?_release_of_some {d n : Nat} {ts : List Table} {lives : List Life} {k : Life}
    (h : lives[n]? = some k) : ∃ l, (release d ts lives)[n]? = some l := by
  refine Option.isSome_iff_exists.1 ?_
  rw [release, List.getElem?_mapIdx, h]
  rfl

theorem length_release (d : Nat) (ts : List Table) (lives : List Life) :
    (release d ts lives).length = lives.length := List.length_mapIdx

theorem sessionOf_release (d n : Nat) (ts : List Table) (lives : List Life) :
    sessionOf (release d ts lives) n = sessionOf lives n := by
  rw [sessionOf, sessionOf]
  congr 1
  cases h : lives[n]? with
  | none =>
    rw [release, List.getElem?_mapIdx, h]
    rfl
  | some k =>
    obtain ⟨l, hl⟩ := @getElem?_release_of_some d n ts lives k h
    obtain ⟨k', hk', hcase⟩ := getElem?_release hl
    rw [h] at hk'
    cases hk'
    rw [hl]
    rcases hcase with ⟨-, -, rfl⟩ | ⟨rfl, -⟩ <;> rfl

theorem sessionOf_concat {lives : List Life} {n : Nat} (l : Life) (h : n < lives.length) :
    sessionOf (lives ++ [l]) n = sessionOf lives n := by
  rw [sessionOf, sessionOf, List.getElem?_append_left h]

theorem number_lt_of_open {s : LiveGroup} (hn : s.Numbered) {n : Nat}
    (h : n ∈ numbers s.tables) : n < s.lives.length := by
  obtain ⟨l, hl, -⟩ := (hn.isOpen n).1 h
  exact (List.getElem?_eq_some_iff.1 hl).1

/-- A registration keeps the numbers in order. -/
theorem Numbered.register {s t : LiveGroup} {c : Session} {userName : Str} {o : Outside}
    (hn : s.Numbered) (h : s.step (.register c userName o) = some t) : t.Numbered := by
  obtain ⟨hgroup, htables, -, -, -, -, -, hcase⟩ := step_register hn h
  have husers : Table.users t.tables = t.group.users := by
    rw [hgroup, htables, users_addSeat, hn.users]
    rfl
  rcases hcase with ⟨hlives, hperm⟩ | ⟨hlives, hseats⟩
  · have hnumbers : (numbers t.tables).Perm (numbers s.tables ++ [s.lives.length]) := by
      rw [numbers, numbers]
      refine (hperm.map Seat.number).trans ?_
      rw [List.map_append]
      rfl
    refine ⟨husers, ?_, ?_, ?_⟩
    · rw [hnumbers.nodup_iff]
      refine hn.distinct.append (List.nodup_singleton _) (List.disjoint_singleton.2 fun hmem => ?_)
      exact Nat.lt_irrefl _ (number_lt_of_open hn hmem)
    · intro n
      rw [hnumbers.mem_iff, List.mem_append, List.mem_singleton, hn.isOpen n, hlives]
      constructor
      · rintro (⟨l, hl, hopen⟩ | rfl)
        · exact ⟨l, Slots.getElem?_concat_of_some hl, hopen⟩
        · exact ⟨_, List.getElem?_concat_length, rfl⟩
      · rintro ⟨l, hl, hopen⟩
        rcases Slots.getElem?_concat_cases hl with hl | ⟨rfl, -⟩
        · exact .inl ⟨l, hl, hopen⟩
        · exact .inr rfl
    · intro seat hseat
      rw [hlives]
      rcases List.mem_append.1 (hperm.mem_iff.1 hseat) with hold | hnew
      · have hnum : seat.number ∈ numbers s.tables := List.mem_map_of_mem hold
        rw [sessionOf_concat _ (number_lt_of_open hn hnum)]
        exact hn.session seat hold
      · rw [List.mem_singleton.1 hnew, sessionOf, List.getElem?_concat_length]
        rfl
  · have hnumbers : numbers t.tables = numbers s.tables := by
      rw [numbers, numbers, hseats]
    refine ⟨husers, hnumbers ▸ hn.distinct, ?_, ?_⟩
    · intro n
      rw [hnumbers, hlives]
      exact hn.isOpen n
    · intro seat hseat
      rw [hlives]
      rw [hseats] at hseat
      exact hn.session seat hseat

/-- A disconnect event keeps them in order. -/
theorem Numbered.disconnect {s : LiveGroup} {c : Session} {time : Int} {counts : Counts}
    (hn : s.Numbered) :
    Numbered { s with
      group := (Group.handleDisconnectEvent true time c.1 c.2 (s.group, counts)).1
      tables := handleDisconnectEvent c.1 c.2 s.tables
      lives := release s.delivered.length (handleDisconnectEvent c.1 c.2 s.tables) s.lives } := by
  have hseats := seatsOf_handleDisconnectEvent_sublist c.1 c.2 s.tables
  have hnumbers : (numbers (handleDisconnectEvent c.1 c.2 s.tables)).Sublist (numbers s.tables) :=
    hseats.map Seat.number
  refine ⟨users_handleDisconnectEvent true time c s.group counts hn.users,
    hn.distinct.sublist hnumbers, fun n => ?_, fun seat hseat => ?_⟩
  · constructor
    · intro hmem
      obtain ⟨k, hk, hopen⟩ := (hn.isOpen n).1 (hnumbers.subset hmem)
      obtain ⟨l, hl⟩ := @getElem?_release_of_some s.delivered.length n
        (handleDisconnectEvent c.1 c.2 s.tables) s.lives k hk
      obtain ⟨k', hk', hcase⟩ := getElem?_release hl
      rw [hk] at hk'
      cases hk'
      rcases hcase with ⟨-, hnot, -⟩ | ⟨rfl, -⟩
      · exact absurd hmem hnot
      · exact ⟨l, hl, hopen⟩
    · rintro ⟨l, hl, hopen⟩
      obtain ⟨k, hk, hcase⟩ := getElem?_release hl
      rcases hcase with ⟨-, -, rfl⟩ | ⟨rfl, hreleased | hmem⟩
      · cases hopen
      · exact absurd hopen hreleased
      · exact hmem
  · dsimp only
    rw [sessionOf_release]
    exact hn.session seat (hseats.subset hseat)

theorem Numbered.move {s t : LiveGroup} {l : LiveStep} (hn : s.Numbered)
    (h : s.step l = some t) : t.Numbered := by
  obtain ⟨husers, hdistinct, hopen, hsession⟩ := hn
  cases l with
  | receive userName text time =>
    cases h
    exact ⟨husers, hdistinct, hopen, hsession⟩
  | pop =>
    obtain ⟨m, -, -, rfl⟩ := step_pop h
    exact ⟨husers, hdistinct, hopen, hsession⟩
  | append =>
    obtain ⟨x, -, rfl⟩ := step_append h
    exact ⟨husers, hdistinct, hopen, hsession⟩
  | broadcast =>
    obtain ⟨x, -, rfl⟩ := step_broadcast h
    exact ⟨husers, hdistinct, hopen, hsession⟩
  | register c userName o => exact Numbered.register ⟨husers, hdistinct, hopen, hsession⟩ h
  | disconnect c time counts =>
    cases h
    exact Numbered.disconnect ⟨husers, hdistinct, hopen, hsession⟩

/-! ## The pop sequence -/

/-- Nothing is ever taken out of the record of the queue. -/
theorem queue_registerNewSession (o : Outside) (c : Session) (userName : Str) (g : Group) :
    g.messages_queue <+: (g.registerNewSession true o c.1 c.2 userName).1.messages_queue := by
  simp only [Group.registerNewSession]
  split
  · exact List.prefix_append _ _
  · exact List.prefix_refl _

theorem queue_disconnectSession (time : Int) (c : Session) (r : Group × Counts) :
    r.1.messages_queue <+: (Group.disconnectSession true time c.1 c.2 r).1.messages_queue := by
  rw [Group.disconnectSession]
  split
  · exact List.prefix_refl _
  · dsimp only
    split
    · exact List.prefix_append _ _
    · exact List.prefix_refl _

theorem queue_handleDisconnectEvent (time : Int) (c : Session) (r : Group × Counts) :
    r.1.messages_queue <+:
      (Group.handleDisconnectEvent true time c.1 c.2 r).1.messages_queue := by
  rw [Group.handleDisconnectEvent]
  split
  · generalize r.1.getAllActiveConnectionIds = snapshot
    induction snapshot generalizing r with
    | nil => exact List.prefix_refl _
    | cons d snapshot ih =>
      rw [List.foldl_cons]
      refine List.IsPrefix.trans ?_ (ih _)
      split
      · exact queue_disconnectSession time (d.1, c.2) r
      · exact List.prefix_refl _
  · exact queue_disconnectSession time c r

theorem getElem?_of_prefix {α : Type*} {l l' : List α} {k : Nat} {x : α} (h : l <+: l')
    (hx : l[k]? = some x) : l'[k]? = some x := by
  obtain ⟨more, rfl⟩ := h
  rw [List.getElem?_append_left (List.getElem?_eq_some_iff.1 hx).1, hx]

theorem Popped.move {s t : LiveGroup} {l : LiveStep} (hp : s.Popped)
    (h : s.step l = some t) : t.Popped := by
  obtain ⟨hplace, hfifo, hsplit⟩ := hp
  cases l with
  | receive userName text time =>
    cases h
    refine ⟨hplace, ?_, hsplit⟩
    intro k x hx
    exact getElem?_of_prefix (List.prefix_append _ _) (hfifo k x hx)
  | pop =>
    obtain ⟨m, hc, hm, rfl⟩ := step_pop h
    refine ⟨?_, ?_, ?_⟩
    · intro k x hx
      rcases Slots.getElem?_concat_cases hx with hx | ⟨rfl, rfl⟩
      · exact hplace k x hx
      · rfl
    · intro k x hx
      rcases Slots.getElem?_concat_cases hx with hx | ⟨rfl, rfl⟩
      · exact hfifo k x hx
      · exact hm
    · rw [hc] at hsplit
      rw [← hsplit]
      simp [inHand]
  | append =>
    obtain ⟨x, hc, rfl⟩ := step_append h
    rw [hc] at hsplit
    exact ⟨hplace, hfifo, hsplit⟩
  | broadcast =>
    obtain ⟨x, hc, rfl⟩ := step_broadcast h
    rw [hc] at hsplit
    refine ⟨hplace, hfifo, ?_⟩
    simpa [inHand] using hsplit
  | register c userName o =>
    cases h
    refine ⟨hplace, ?_, hsplit⟩
    intro k x hx
    exact getElem?_of_prefix (queue_registerNewSession o c userName s.group) (hfifo k x hx)
  | disconnect c time counts =>
    cases h
    refine ⟨hplace, ?_, hsplit⟩
    intro k x hx
    exact getElem?_of_prefix (queue_handleDisconnectEvent time c (s.group, counts)) (hfifo k x hx)

end LiveGroup

end InstantMessenger
