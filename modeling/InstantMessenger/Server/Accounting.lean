import InstantMessenger.Server.Sessions

/-!
# Session accounting

A primary that handles packets and losses of front ends one after another, each
JOIN with a client id of its own.  The client ids are generated, so none is
empty, none is the address of a front end, and none is the sentinel.

* `Server.run` — the events one after another; `Server.acceptedIds` — the clients
  that were answered with ACCEPT.
* `Server.Accounted` — **the invariant**: the counters balance the ledger of open
  sessions, nobody is above the limit, and each open session belongs to an
  accepted client and to no other session.
* `Server.session_accounting` — the counters are the sessions, a JOIN is answered
  by its user's number of sessions, and a client that was never accepted changes
  nothing when it leaves.
-/

namespace InstantMessenger

open Ledger

/-- The front end an event is about. -/
def Event.feAddress : Event → Str
  | .packet _ fe => fe
  | .frontEndLoss fe => fe

/-- The client id of a JOIN. -/
def Event.joinId : Event → Option Str
  | .packet p _ => if p.isJoinMessage then some p.user_id else none
  | .frontEndLoss _ => none

/-- What generated client ids have to do with a sequence of events: every JOIN
carries a fresh one, which is no address of a front end, and no client that
leaves is named like the sentinel. -/
structure GeneratedIds (feAddresses : List Str) (es : List Event) : Prop where
  fresh : (es.filterMap Event.joinId).Nodup
  generated : ∀ id ∈ es.filterMap Event.joinId,
    id ≠ [] ∧ id ∉ feAddresses ++ es.map Event.feAddress
  notSentinel : ∀ p fe, .packet p fe ∈ es → p.isDisconnect = true → p.user_id ≠ FE_DISCONNECT

namespace Server

/-! ## Runs of the primary -/

/-- One event: the server after it, and what it sent. -/
def handle (s : Server) (m : Moment) : Server × List Sent :=
  match m.event with
  | .packet p fe => s.applyLocally m.atPrimary p fe
  | .frontEndLoss fe => (s.closeFrontEndConnection m.atPrimary.time fe, [])

/-- The events one after another. -/
def run (s : Server) (ms : List Moment) : Server := ms.foldl (fun s m => (s.handle m).1) s

/-- The clients that these packets accept. -/
def acceptedBy (sent : List Sent) : List Str :=
  (sent.filter fun x => x.2.type == .ACCEPT_PACKET).map fun x => x.2.user_id

/-- The clients that were accepted in a run. -/
def acceptedIds (s : Server) : List Moment → List Str
  | [] => []
  | m :: ms => acceptedBy (s.handle m).2 ++ acceptedIds (s.handle m).1 ms

/-- The number of sessions of a user, summed over all groups. -/
def sessionsOf (s : Server) (user : Str) : Nat :=
  (s.groupMap.map fun g =>
    ((g.users.filter fun x => x.username == user).map fun x =>
      x.getActiveConnections.length).sum).sum

/-- All open sessions, with their users and groups. -/
def openSessions (s : Server) : List Entry :=
  s.groupMap.flatMap fun g => Replica.entries g.groupName g.users

theorem openSessions_eq_ledger (s : Server) : s.openSessions = Replica.ledger s.replica.groups := by
  rw [openSessions, Replica.ledger, replica, List.flatMap_map]
  rfl

theorem held_entries (n user : Str) (us : List User) :
    held Entry.user (Replica.entries n us) user =
      ((us.filter fun x => x.username == user).map fun x => x.getActiveConnections.length).sum := by
  induction us with
  | nil => rfl
  | cons x us ih =>
    rw [Replica.entries_cons, held_append, ih, held, List.countP_map]
    by_cases hx : x.username = user
    · rw [List.filter_cons_of_pos (by simpa using hx), List.map_cons, List.sum_cons,
        List.countP_eq_length.2 fun d _ => by simpa using hx]
      rfl
    · rw [List.filter_cons_of_neg (by simpa using hx),
        List.countP_eq_zero.2 fun d _ => by simpa using hx, Nat.zero_add]

theorem sessionsOf_eq_held (s : Server) (user : Str) :
    s.sessionsOf user = held Entry.user s.openSessions user := by
  unfold sessionsOf openSessions
  induction s.groupMap with
  | nil => rfl
  | cons g gs ih =>
    rw [List.map_cons, List.sum_cons, ih, List.flatMap_cons, held_append, held_entries]

/-! ## The invariant -/

/-- The accounts are in order.  `addresses` are the front ends there are, `ids`
the clients accepted so far. -/
structure Accounted (addresses ids : List Str) (s : Server) : Prop where
  isPrimary : s.isPrimaryServer = true
  names : (Replica.names s.replica.groups).Nodup
  distinct : (Replica.clientIds s.openSessions).Nodup
  accepted : ∀ e ∈ s.openSessions, e.session.1 ∈ ids
  generated : ∀ f ∈ addresses, Replica.NoClientIs f s.openSessions
  balanced : Balanced Entry.user s.openSessions s.connectionsCount.get
  limit : ∀ user, s.sessionsOf user ≤ MAX_NUMBER_OF_SIMULTANEOUS_CONNECTIONS

theorem accounted_new (addresses ids feAddresses : List Str) :
    Accounted addresses ids (Server.new true feAddresses) where
  isPrimary := rfl
  names := List.nodup_nil
  distinct := List.nodup_nil
  accepted _ he := absurd he List.not_mem_nil
  generated _ _ _ he := absurd he List.not_mem_nil
  balanced _ := rfl
  limit _ := Nat.zero_le _

/-- The counters and the sessions are the same numbers. -/
theorem Accounted.counter {addresses ids : List Str} {s : Server} (h : Accounted addresses ids s)
    (user : Str) : s.connectionsCount.get user = s.sessionsOf user := by
  rw [h.balanced user, sessionsOf_eq_held]

/-- Fewer sessions and fewer counted: what a disconnect does to the accounts. -/
theorem Accounted.closes {addresses ids : List Str} {s t : Server} {p : Entry → Bool}
    (h : Accounted addresses ids s) (hprim : t.isPrimaryServer = true)
    (hnames : Replica.names t.replica.groups = Replica.names s.replica.groups)
    (hc : Closes Entry.user p s.openSessions s.connectionsCount.get t.openSessions
      t.connectionsCount.get) : Accounted addresses ids t where
  isPrimary := hprim
  names := hnames ▸ h.names
  distinct := Replica.clientIds_nodup_of_sublist h.distinct hc.sublist
  accepted e he := h.accepted e (hc.sublist.subset he)
  generated f hf := (h.generated f hf).sublist hc.sublist
  balanced := h.balanced.closes hc
  limit user := by
    refine le_trans ?_ (h.limit user)
    rw [sessionsOf_eq_held, sessionsOf_eq_held]
    exact hc.sublist.countP_le

/-- One more session of an accepted client: what an accepted JOIN does. -/
theorem Accounted.opens {addresses ids : List Str} {s t : Server} {e : Entry}
    (h : Accounted addresses ids s) (hprim : t.isPrimaryServer = true)
    (hnames : (Replica.names t.replica.groups).Nodup)
    (hfresh : e.session.1 ∉ ids) (hpos : e.session.1 ≠ []) (haddr : e.session.1 ∉ addresses)
    (hlimit : s.sessionsOf e.user < MAX_NUMBER_OF_SIMULTANEOUS_CONNECTIONS)
    (ho : Opens Entry.user e s.openSessions s.connectionsCount.get t.openSessions
      t.connectionsCount.get) : Accounted addresses (ids ++ [e.session.1]) t where
  isPrimary := hprim
  names := hnames
  distinct := by
    have hperm := ho.entries.map fun e => e.session.1
    refine hperm.nodup_iff.2 (List.nodup_cons.2 ⟨fun hmem => ?_, h.distinct⟩)
    obtain ⟨x, hx, hxe⟩ := List.mem_map.1 hmem
    have hx' := h.accepted x hx
    rw [show x.session.1 = e.session.1 from hxe] at hx'
    exact hfresh hx'
  accepted x hx := by
    rcases List.mem_cons.1 (ho.entries.mem_iff.1 hx) with rfl | hx'
    · exact List.mem_append_right _ (List.mem_singleton.2 rfl)
    · exact List.mem_append_left _ (h.accepted x hx')
  generated f hf x hx := by
    rcases List.mem_cons.1 (ho.entries.mem_iff.1 hx) with rfl | hx'
    · exact ⟨fun heq => haddr (heq ▸ hf), hpos⟩
    · exact h.generated f hf x hx'
  balanced := h.balanced.opens ho
  limit user := by
    have hold := h.limit user
    rw [sessionsOf_eq_held] at hold hlimit ⊢
    rw [held, ho.entries.countP_eq, List.countP_cons]
    rw [held] at hold hlimit
    by_cases hu : e.user = user
    · subst hu
      simp
      omega
    · simpa [hu] using hold

/-- Nothing happened. -/
theorem Accounted.mono {addresses ids ids' : List Str} {s : Server}
    (h : Accounted addresses ids s) (hsub : ids ⊆ ids') : Accounted addresses ids' s :=
  { h with accepted := fun e he => hsub (h.accepted e he) }

/-! ## One event -/

theorem closeClientConnection_closes {addresses ids : List Str} {s : Server}
    (h : Accounted addresses ids s) (time : Int) {c : Session} (hc : c.2 ∈ addresses) :
    Accounted addresses ids (s.closeClientConnection time c) := by
  have hrep := s.closeClientConnection_replica time c
  refine h.closes (p := Replica.closedBy c) h.isPrimary ?_ ?_
  · rw [hrep, Replica.disconnect, Replica.names_dropEverywhere]
  · have hcloses := @Replica.disconnect_closes c s.replica
      (by rw [← openSessions_eq_ledger]; exact h.distinct)
      (by rw [← openSessions_eq_ledger]; exact h.generated c.2 hc)
    rw [← hrep] at hcloses
    rw [openSessions_eq_ledger, openSessions_eq_ledger]
    exact hcloses

/-- What a JOIN is answered. -/
theorem registerUserToServer_sent {s : Server} (hprim : s.isPrimaryServer = true) (o : Outside)
    (p : Packet) (fe : Str) :
    (s.registerUserToServer o p fe).2.2 =
      if MAX_NUMBER_OF_SIMULTANEOUS_CONNECTIONS ≤ s.connectionsCount.get p.username then
        [(fe, { type := .CONNECTION_REFUSED_PACKET, user_id := p.user_id })]
      else Group.sendAcceptToUser p.user_id fe ++
        Group.sendHistoryToUser o.history p.user_id fe := by
  unfold registerUserToServer
  rw [incrementNumberOfConnectionsFromUser_eq]
  by_cases hlimit : MAX_NUMBER_OF_SIMULTANEOUS_CONNECTIONS ≤ s.connectionsCount.get p.username
  · simp [hlimit, hprim]
  · have hne : ¬(0 : Int) = USER_SESSIONS_LIMIT_REACHED := by decide
    rw [if_neg hlimit, if_neg hlimit]
    simp only [if_neg hne, registerUserToGroup, hprim]
    obtain ⟨g, hg⟩ := findGroup_withGroup s.groupMap p.group
    rw [hg]
    rfl

theorem registerUserToServer_isPrimaryServer (s : Server) (o : Outside) (p : Packet) (fe : Str) :
    (s.registerUserToServer o p fe).1.isPrimaryServer = s.isPrimaryServer := by
  unfold registerUserToServer
  dsimp only
  split <;> rfl

/-- A refused JOIN changes nothing. -/
theorem registerUserToServer_of_limit {s : Server} (o : Outside) {p : Packet} (fe : Str)
    (h : MAX_NUMBER_OF_SIMULTANEOUS_CONNECTIONS ≤ s.connectionsCount.get p.username) :
    (s.registerUserToServer o p fe).1 = s := by
  unfold registerUserToServer
  rw [incrementNumberOfConnectionsFromUser_eq, if_pos h]
  rfl

/-- The packets of the history are no answer to a JOIN. -/
theorem acceptedBy_join (history : List Message) (id fe : Str) :
    acceptedBy (Group.sendAcceptToUser id fe ++ Group.sendHistoryToUser history id fe) = [id] := by
  have hhistory : (Group.sendHistoryToUser history id fe).filter
      (fun x => x.2.type == .ACCEPT_PACKET) = [] := by
    refine List.filter_eq_nil_iff.2 ?_
    intro x hx
    obtain ⟨m, -, rfl⟩ := List.mem_map.1 hx
    exact Bool.false_ne_true
  rw [acceptedBy, List.filter_append, hhistory]
  rfl

/-- An accepted JOIN below the limit. -/
theorem registerUserToServer_opens {addresses ids : List Str} {s : Server}
    (h : Accounted addresses ids s) (o : Outside) {p : Packet} {fe : Str}
    (hlimit : s.sessionsOf p.username < MAX_NUMBER_OF_SIMULTANEOUS_CONNECTIONS) :
    Opens Entry.user ⟨p.group, p.username, (p.user_id, fe)⟩ s.openSessions s.connectionsCount.get
      (s.registerUserToServer o p fe).1.openSessions
      (s.registerUserToServer o p fe).1.connectionsCount.get := by
  have hrep := s.registerUserToServer_replica o p fe
  have hopens := @Replica.join_opens s.replica p.username p.group (p.user_id, fe) h.names
    (by rw [← openSessions_eq_ledger]; exact h.balanced)
    (by
      show s.connectionsCount.get p.username < _
      rw [h.counter]
      exact_mod_cast hlimit)
  rw [← hrep, ← openSessions_eq_ledger, ← openSessions_eq_ledger] at hopens
  exact hopens

/-- A message moves no session. -/
theorem Accounted.message {addresses ids : List Str} {s : Server}
    (h : Accounted addresses ids s) (time : Int) (p : Packet) :
    Accounted addresses ids { s with groupMap := processReceivedPacket time s.groupMap p } := by
  have hrep : ({ s with groupMap := processReceivedPacket time s.groupMap p } : Server).replica =
      s.replica.message p.username p.message p.group :=
    Replica.ext rfl (processReceivedPacket_replica time s.groupMap p)
  have hledger : ∀ gs : List GroupReplica,
      Replica.ledger (Replica.updateGroup p.group (Replica.hand p.username p.message) gs) =
        Replica.ledger gs := by
    intro gs
    rw [Replica.ledger, Replica.updateGroup, List.flatMap_map]
    refine List.flatMap_congr ?_
    intro g _
    split <;> rfl
  refine h.closes (p := fun _ => false) h.isPrimary ?_ ?_
  · rw [hrep, Replica.message, Replica.names_updateGroup (Replica.hand_keepsName _ _)]
  · rw [openSessions_eq_ledger, openSessions_eq_ledger, hrep, Replica.message, hledger]
    exact Closes.nothing fun _ _ => rfl

/-- A JOIN of a fresh client, accepted or not. -/
theorem Accounted.join {addresses ids : List Str} {s : Server} (h : Accounted addresses ids s)
    (o : Outside) {p : Packet} (fe : Str) (hfresh : p.user_id ∉ ids) (hpos : p.user_id ≠ [])
    (haddr : p.user_id ∉ addresses) :
    Accounted addresses (ids ++ acceptedBy (s.registerUserToServer o p fe).2.2)
      (s.registerUserToServer o p fe).1 := by
  rw [registerUserToServer_sent h.isPrimary, h.counter]
  by_cases hlimit : s.sessionsOf p.username < MAX_NUMBER_OF_SIMULTANEOUS_CONNECTIONS
  · rw [if_neg (by omega), acceptedBy_join]
    refine h.opens (e := ⟨p.group, p.username, (p.user_id, fe)⟩) ?_ ?_ hfresh hpos haddr hlimit
      (registerUserToServer_opens h o hlimit)
    · rw [registerUserToServer_isPrimaryServer, h.isPrimary]
    · rw [registerUserToServer_replica]
      exact Replica.names_join_nodup h.names p.username p.group (p.user_id, fe)
  · have hge : MAX_NUMBER_OF_SIMULTANEOUS_CONNECTIONS ≤ s.connectionsCount.get p.username := by
      rw [h.counter]
      omega
    rw [if_pos (by omega), registerUserToServer_of_limit o fe hge]
    exact h.mono (List.subset_append_left ..)

/-- **One event keeps the accounts in order.** -/
theorem Accounted.handle {addresses ids : List Str} {s : Server} {m : Moment}
    (h : Accounted addresses ids s) (hfe : m.event.feAddress ∈ addresses)
    (hjoin : ∀ id, m.event.joinId = some id → id ∉ ids ∧ id ≠ [] ∧ id ∉ addresses) :
    Accounted addresses (ids ++ acceptedBy (s.handle m).2) (s.handle m).1 := by
  obtain ⟨event, o, _⟩ := m
  cases event with
  | frontEndLoss fe =>
    refine Accounted.mono ?_ (List.subset_append_left ..)
    show Accounted addresses ids (s.closeFrontEndConnection o.time fe)
    unfold closeFrontEndConnection
    split
    · have hclosed := closeClientConnection_closes h o.time (c := (FE_DISCONNECT, fe)) hfe
      exact { hclosed with }
    · exact h
  | packet p fe =>
    show Accounted addresses (ids ++ acceptedBy (s.applyLocally o p fe).2) (s.applyLocally o p fe).1
    unfold applyLocally
    split_ifs with hmsg halive hj hd
    · exact (h.message o.time p).mono (List.subset_append_left ..)
    · exact h.mono (List.subset_append_left ..)
    · obtain ⟨hfresh, hpos, haddr⟩ := hjoin p.user_id (if_pos hj)
      exact h.join o fe hfresh hpos haddr
    · exact (closeClientConnection_closes h o.time hfe).mono (List.subset_append_left ..)
    · exact h.mono (List.subset_append_left ..)

/-- Only a JOIN's client is accepted. -/
theorem acceptedBy_handle_subset {addresses ids : List Str} {s : Server} {m : Moment}
    (h : Accounted addresses ids s) :
    ∀ id ∈ acceptedBy (s.handle m).2, m.event.joinId = some id := by
  obtain ⟨event, o, _⟩ := m
  cases event with
  | frontEndLoss fe => exact fun id hid => absurd hid List.not_mem_nil
  | packet p fe =>
    show ∀ id ∈ acceptedBy (s.applyLocally o p fe).2, _
    unfold applyLocally
    split_ifs with hmsg halive hj hd
    · exact fun id hid => absurd hid List.not_mem_nil
    · exact fun id hid => absurd hid List.not_mem_nil
    · intro id hid
      dsimp only at hid
      rw [registerUserToServer_sent h.isPrimary] at hid
      split at hid
      · exact absurd hid List.not_mem_nil
      · rw [acceptedBy_join, List.mem_singleton] at hid
        rw [hid]
        exact if_pos hj
    · exact fun id hid => absurd hid List.not_mem_nil
    · exact fun id hid => absurd hid List.not_mem_nil

/-! ## Runs -/

/-- **A run keeps the accounts in order.** -/
theorem Accounted.run {addresses ids : List Str} {s : Server} {ms : List Moment}
    (h : Accounted addresses ids s) (hfe : ∀ m ∈ ms, m.event.feAddress ∈ addresses)
    (hfresh : ((ms.map Moment.event).filterMap Event.joinId).Nodup)
    (hjoin : ∀ id ∈ (ms.map Moment.event).filterMap Event.joinId,
      id ∉ ids ∧ id ≠ [] ∧ id ∉ addresses) :
    Accounted addresses (ids ++ s.acceptedIds ms) (s.run ms) := by
  induction ms generalizing s ids with
  | nil => simpa [acceptedIds, Server.run] using h
  | cons m ms ih =>
    have hstep := h.handle (hfe m (List.mem_cons_self ..)) fun id hid => hjoin id (by
      rw [List.map_cons, List.filterMap_cons, hid]
      exact List.mem_cons_self ..)
    -- the rest of the run joins none of the clients accepted so far
    have hsub : ((ms.map Moment.event).filterMap Event.joinId).Sublist
        (((m :: ms).map Moment.event).filterMap Event.joinId) :=
      ((List.sublist_cons_self m ms).map _).filterMap _
    have hnew : ∀ id ∈ (ms.map Moment.event).filterMap Event.joinId,
        id ∉ ids ++ acceptedBy (s.handle m).2 := by
      intro id hid hmem
      rcases List.mem_append.1 hmem with hold | hnow
      · exact (hjoin id (hsub.subset hid)).1 hold
      · rw [List.map_cons, List.filterMap_cons,
          acceptedBy_handle_subset h id hnow] at hfresh
        exact (List.nodup_cons.1 hfresh).1 hid
    have hrest := ih hstep (fun x hx => hfe x (List.mem_cons_of_mem _ hx)) (hfresh.sublist hsub)
      fun id hid => ⟨hnew id hid, (hjoin id (hsub.subset hid)).2⟩
    rwa [List.append_assoc] at hrest

/-- The counters are the sessions, and nobody is above the limit. -/
structure Counted (s : Server) : Prop where
  counter : ∀ user, s.connectionsCount.get user = s.sessionsOf user
  nonneg : ∀ user, 0 ≤ s.connectionsCount.get user
  limit : ∀ user, s.connectionsCount.get user ≤ MAX_NUMBER_OF_SIMULTANEOUS_CONNECTIONS

/-- What a JOIN brings about: below the limit an ACCEPT and one more session, at
the limit a refusal and nothing else. -/
structure JoinAnswered (s : Server) (p : Packet) (fe : Str) (r : Server × List Sent) : Prop where
  accept : (∃ x ∈ r.2, x.2.type = .ACCEPT_PACKET) ↔
    s.connectionsCount.get p.username < MAX_NUMBER_OF_SIMULTANEOUS_CONNECTIONS
  accepted : s.connectionsCount.get p.username < MAX_NUMBER_OF_SIMULTANEOUS_CONNECTIONS →
    r.2.head? = some (fe, { type := .ACCEPT_PACKET, user_id := p.user_id }) ∧
      r.1.openSessions.Perm (⟨p.group, p.username, (p.user_id, fe)⟩ :: s.openSessions)
  refused : ¬s.connectionsCount.get p.username < MAX_NUMBER_OF_SIMULTANEOUS_CONNECTIONS →
    r.2 = [(fe, { type := .CONNECTION_REFUSED_PACKET, user_id := p.user_id })] ∧
      r.1.connectionsCount = s.connectionsCount ∧ r.1.groupMap = s.groupMap

theorem Accounted.counted {addresses ids : List Str} {s : Server} (h : Accounted addresses ids s) :
    Counted s where
  counter := h.counter
  nonneg user := by
    rw [h.counter]
    omega
  limit user := by
    rw [h.counter]
    exact_mod_cast h.limit user

theorem Accounted.joinAnswered {addresses ids : List Str} {s : Server}
    (h : Accounted addresses ids s) (o : Outside) {p : Packet} (fe : Str)
    (hj : p.isJoinMessage = true) : JoinAnswered s p fe (s.applyLocally o p fe) := by
  have happly : s.applyLocally o p fe =
      ((s.registerUserToServer o p fe).1, (s.registerUserToServer o p fe).2.2) := by
    have htype : p.type = .JOIN_PACKET := by simpa [Packet.isJoinMessage] using hj
    simp [applyLocally, Packet.isMessage, Packet.isKeepAlive, Packet.isJoinMessage, htype]
  rw [happly, registerUserToServer_sent h.isPrimary]
  by_cases hlimit : s.connectionsCount.get p.username < MAX_NUMBER_OF_SIMULTANEOUS_CONNECTIONS
  · rw [if_neg (not_le.2 hlimit)]
    have hhead : (fe, { type := .ACCEPT_PACKET, user_id := p.user_id }) ∈
        Group.sendAcceptToUser p.user_id fe ++ Group.sendHistoryToUser o.history p.user_id fe :=
      List.mem_cons_self ..
    have hopens := @registerUserToServer_opens addresses ids s h o p fe (by
      rw [h.counter] at hlimit
      exact_mod_cast hlimit)
    exact ⟨iff_of_true ⟨_, hhead, rfl⟩ hlimit, fun _ => ⟨rfl, hopens.entries⟩,
      fun hn => absurd hlimit hn⟩
  · rw [if_pos (not_lt.1 hlimit), registerUserToServer_of_limit o fe (not_lt.1 hlimit)]
    refine ⟨iff_of_false ?_ hlimit, fun hn => absurd hn hlimit, fun _ => ⟨rfl, rfl, rfl⟩⟩
    rintro ⟨x, hx, hacc⟩
    rw [List.mem_singleton.1 hx] at hacc
    cases hacc

/-! ## A client that is not there -/

/-- A client without a session in any of the groups changes none of them. -/
theorem propagate_of_unknown (isPrimary : Bool) (time : Int) {c : Session}
    (hc : c.1 ≠ FE_DISCONNECT) {gs : List Group}
    (hno : ∀ g ∈ gs, ∀ x ∈ g.users, c ∉ x.getActiveConnections) (counts : Counts) :
    propagateSocketDisconnectionEvent isPrimary time c gs counts = (gs, counts) := by
  induction gs with
  | nil => rfl
  | cons g gs ih =>
    have hnone : Group.getUserFromConnectionId g.users c.1 c.2 = none :=
      List.find?_eq_none.2 fun x hx => by
        simpa using hno g (List.mem_cons_self ..) x hx
    have hevent : Group.handleDisconnectEvent isPrimary time c.1 c.2 (g, counts) = (g, counts) := by
      rw [Group.handleDisconnectEvent, if_neg hc, Group.disconnectSession, hnone]
    rw [propagateSocketDisconnectionEvent, hevent,
      ih fun x hx => hno x (List.mem_cons_of_mem _ hx)]

theorem Accounted.disconnect_unknown {addresses ids : List Str} {s : Server}
    (h : Accounted addresses ids s) (time : Int) {c : Session} (hc : c.1 ≠ FE_DISCONNECT)
    (hid : c.1 ∉ ids) : s.closeClientConnection time c = s := by
  have hno : ∀ g ∈ s.groupMap, ∀ x ∈ g.users, c ∉ x.getActiveConnections := by
    intro g hg x hx hmem
    refine hid (h.accepted ⟨g.groupName, x.username, c⟩ ?_)
    exact List.mem_flatMap.2
      ⟨g, hg, List.mem_flatMap.2 ⟨x, hx, List.mem_map_of_mem hmem⟩⟩
  rw [closeClientConnection, propagate_of_unknown s.isPrimaryServer time hc hno]

/-! ## The result -/

/-- **Session accounting.**  After every run of events with generated client ids
the counters are the sessions, between zero and the limit; the next JOIN is
accepted exactly below the limit, and then opens exactly one session; and the
next DISCONNECT of a client that was never accepted changes nothing. -/
theorem session_accounting {feAddresses : List Str} {ms : List Moment}
    (h : GeneratedIds feAddresses (ms.map Moment.event)) :
    Counted ((Server.new true feAddresses).run ms) ∧
      ∀ m : Moment, GeneratedIds feAddresses ((ms ++ [m]).map Moment.event) →
        ∀ p fe, m.event = .packet p fe →
          (p.isJoinMessage = true →
            JoinAnswered ((Server.new true feAddresses).run ms) p fe
              (((Server.new true feAddresses).run ms).handle m)) ∧
          (p.isDisconnect = true → p.user_id ∉ (Server.new true feAddresses).acceptedIds ms →
            (((Server.new true feAddresses).run ms).handle m).1 =
              (Server.new true feAddresses).run ms) := by
  have hrun : Accounted (feAddresses ++ (ms.map Moment.event).map Event.feAddress)
      ((Server.new true feAddresses).acceptedIds ms) ((Server.new true feAddresses).run ms) := by
    have hstart := accounted_new (feAddresses ++ (ms.map Moment.event).map Event.feAddress) []
      feAddresses
    refine hstart.run (fun m hm => ?_) h.fresh fun id hid => ?_
    · exact List.mem_append_right _ (List.mem_map_of_mem (List.mem_map_of_mem hm))
    · exact ⟨List.not_mem_nil, h.generated id hid⟩
  refine ⟨hrun.counted, fun m hm p fe hp => ⟨fun hj => ?_, fun hd hid => ?_⟩⟩
  · rw [Server.handle, hp]
    exact hrun.joinAnswered m.atPrimary fe hj
  · have hne : p.user_id ≠ FE_DISCONNECT := by
      refine hm.notSentinel p fe ?_ hd
      rw [← hp]
      exact List.mem_map_of_mem (List.mem_append_right _ (List.mem_singleton.2 rfl))
    have htype : p.type = .DISCONNECT_PACKET := by simpa [Packet.isDisconnect] using hd
    rw [Server.handle, hp]
    simp only [applyLocally, Packet.isMessage, Packet.isKeepAlive, Packet.isJoinMessage,
      Packet.isDisconnect, htype]
    exact hrun.disconnect_unknown m.atPrimary.time hne hid

/-- One user joins three times and leaves with a client that was refused. -/
def threeJoins : List Moment :=
  ["c1", "c2", "c3"].map fun id =>
    { event := .packet
        { type := .JOIN_PACKET, username := "u".toList, user_id := id.toList, group := "g".toList }
        "f".toList }

def refusedLeaves : Moment :=
  { event := .packet { type := .DISCONNECT_PACKET, user_id := "c3".toList } "f".toList }

theorem generatedIds_threeJoins :
    GeneratedIds ["f".toList] ((threeJoins ++ [refusedLeaves]).map Moment.event) where
  fresh := by decide
  generated := by decide
  notSentinel p fe hmem hd := by
    have hall : ∀ e ∈ (threeJoins ++ [refusedLeaves]).map Moment.event, ∀ p fe,
        e = .packet p fe → p.user_id ≠ FE_DISCONNECT := by
      intro e he
      simp only [threeJoins, refusedLeaves, List.map_cons, List.map_nil, List.cons_append,
        List.nil_append, List.mem_cons, List.not_mem_nil, or_false] at he
      rcases he with rfl | rfl | rfl | rfl <;> rintro p fe ⟨⟩ <;> decide
    exact hall _ hmem p fe rfl

/-- The third JOIN is refused; the two sessions are counted, and the refused client
leaves without a trace. -/
theorem session_accounting_threeJoins :
    Counted ((Server.new true ["f".toList]).run threeJoins) ∧
      ((Server.new true ["f".toList]).run threeJoins).sessionsOf "u".toList = 2 ∧
      (((Server.new true ["f".toList]).run threeJoins).handle refusedLeaves).1 =
        (Server.new true ["f".toList]).run threeJoins := by
  have hprefix : GeneratedIds ["f".toList] (threeJoins.map Moment.event) :=
    { fresh := by decide
      generated := by decide
      notSentinel := fun p fe hmem =>
        generatedIds_threeJoins.notSentinel p fe (by
          rw [List.map_append]
          exact List.mem_append_left _ hmem) }
  obtain ⟨hcounted, hnext⟩ := session_accounting hprefix
  exact ⟨hcounted, by decide,
    (hnext refusedLeaves generatedIds_threeJoins _ _ rfl).2 rfl (by decide)⟩

end Server

end InstantMessenger
