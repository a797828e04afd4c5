import InstantMessenger.Server.Accounting
import InstantMessenger.Server.DisconnectSweep

/-!
# Exact DISCONNECT

A DISCONNECT of the client `x` from the front end `f` is for the sessions `(x, f)`, in
every group.  `getUserFromConnectionId` looks for the pair, `disconnectSession` counts
one session, and `releaseSession` erases by another condition; so it depends on the
sessions that are open whether exactly these are closed.

* `Replica.Severable` — the sessions of a group under which they are.
* `Replica.dropEverywhere_exact_iff` — all groups at once: the counters are shared, and
  still **no group can make up for another**.
* `Server.disconnect_exact_iff` — after every run of packets and front-end losses, a
  DISCONNECT closes exactly what it names if and only if every group is severable.
* `Server.disconnect_counterexample` — one client id on two front ends.
-/

namespace InstantMessenger

namespace Replica

open Ledger User

/-! ## One group, all groups -/

/-- The sessions of a group under which a disconnect event of `c` closes `c` and nothing
else. -/
def Severable (c : Session) (us : List User) : Prop :=
  (if c.1 = FE_DISCONNECT then ∀ d ∈ sessionsOf us, d.2 = c.2 → d = c
    else (sessionsOf us).count c ≤ 1) ∧
    ∀ x ∈ us, c ∈ x.clientIdentifiers → Releasable c x.clientIdentifiers

instance (c : Session) (us : List User) : Decidable (Severable c us) :=
  inferInstanceAs (Decidable (_ ∧ _))

theorem dropEvent_closes_iff {n : Str} {c : Session} {us : List User} {counts : Counts}
    (hs : Seated us) :
    Closes Entry.user (fun e => e.session == c) (entries n us) counts.get
        (entries n (dropEvent c (us, counts)).1) (dropEvent c (us, counts)).2.get ↔
      Severable c us := by
  obtain ⟨id, f⟩ := c
  by_cases hid : id = FE_DISCONNECT
  · subst hid
    rw [dropEvent_sentinel_closes_iff hs, Severable, if_pos rfl]
  · have hevent : dropEvent (id, f) (us, counts) = dropSession (id, f) (us, counts) := if_neg hid
    rw [hevent, dropSession_closes_iff hs, Severable, if_neg hid]

/-- Under the sentinel no counter is lowered too little, under any other client id none
is lowered too much. -/
theorem dropEvent_lean {n : Str} {c : Session} {us : List User} {counts : Counts}
    (hs : Seated us) (hentries : entries n (dropEvent c (us, counts)).1 = others c (entries n us))
    (k : Str) :
    if c.1 = FE_DISCONNECT then
      (dropEvent c (us, counts)).2.get k ≤ counts.get k - countOf c k (entries n us)
    else counts.get k - countOf c k (entries n us) ≤ (dropEvent c (us, counts)).2.get k := by
  obtain ⟨id, f⟩ := c
  by_cases hid : id = FE_DISCONNECT
  · subst hid
    rw [if_pos rfl]
    exact (dropEvent_sentinel_calls hs hentries).1 k
  · have hevent : dropEvent (id, f) (us, counts) = dropSession (id, f) (us, counts) := if_neg hid
    rw [if_neg hid, hevent]
    obtain hnone | ⟨pre, x, post, rfl, hpre, hx⟩ := owner_cases (id, f) us
    · rw [dropSession_of_not_mem counts hnone]
      dsimp only
      omega
    · rw [dropSession_append counts hpre hx, Counts.get_set, entries_middle, countOf_append,
        countOf_append, countOf_map]
      have hone : 1 ≤ x.clientIdentifiers.count (id, f) := List.one_le_count_iff.2 hx
      by_cases hk : k = x.username
      · rw [if_pos hk, if_pos hk.symm, hk]
        omega
      · rw [if_neg hk, if_neg (Ne.symm hk)]
        omega

/-- Every user of every group has a session, and none has too many. -/
def AllSeated (gs : List GroupReplica) : Prop := ∀ g ∈ gs, Seated g.users

/-- The entries of each group for itself. -/
def entriesByGroup (gs : List GroupReplica) : List (List Entry) :=
  gs.map fun g => entries g.groupName g.users

theorem dropEverywhere_lean {c : Session} {gs : List GroupReplica} {counts : Counts}
    (hs : AllSeated gs)
    (hentries : entriesByGroup (dropEverywhere c gs counts).1 = (entriesByGroup gs).map (others c))
    (k : Str) :
    if c.1 = FE_DISCONNECT then
      (dropEverywhere c gs counts).2.get k ≤ counts.get k - countOf c k (ledger gs)
    else counts.get k - countOf c k (ledger gs) ≤ (dropEverywhere c gs counts).2.get k := by
  induction gs generalizing counts with
  | nil => split <;> simp [dropEverywhere, ledger, countOf]
  | cons g gs ih =>
    simp only [dropEverywhere, entriesByGroup, List.map_cons, List.cons.injEq] at hentries ⊢
    have hhead := dropEvent_lean (hs g (List.mem_cons_self ..)) hentries.1 k
    have htail := @ih (dropEvent c (g.users, counts)).2
      (fun x hx => hs x (List.mem_cons_of_mem _ hx)) hentries.2
    rw [ledger_cons, countOf_append]
    split
    · rename_i hid
      rw [if_pos hid] at hhead htail
      omega
    · rename_i hid
      rw [if_neg hid] at hhead htail
      omega

/-- **All groups**: the sessions and the counters are right together exactly when every
group is. -/
theorem dropEverywhere_exact_iff {c : Session} {gs : List GroupReplica} {counts : Counts}
    (hs : AllSeated gs) :
    (entriesByGroup (dropEverywhere c gs counts).1 = (entriesByGroup gs).map (others c) ∧
        ∀ k, (dropEverywhere c gs counts).2.get k =
          counts.get k - countOf c k (ledger gs)) ↔
      ∀ g ∈ gs, Severable c g.users := by
  induction gs generalizing counts with
  | nil => simp [dropEverywhere, entriesByGroup, ledger, countOf]
  | cons g gs ih =>
    have hg := hs g (List.mem_cons_self ..)
    have hgs : AllSeated gs := fun x hx => hs x (List.mem_cons_of_mem _ hx)
    have hhead := @dropEvent_closes_iff g.groupName c g.users counts hg
    have htail := @ih (dropEvent c (g.users, counts)).2 hgs
    rw [List.forall_mem_cons, ← hhead, ← htail]
    simp only [dropEverywhere, entriesByGroup, List.map_cons, List.cons.injEq]
    rw [ledger_cons]
    constructor
    · rintro ⟨⟨hfirst, hrest⟩, hcounter⟩
      have hlean := fun k => dropEvent_lean hg hfirst k
      have hleans := fun k =>
        @dropEverywhere_lean c gs (dropEvent c (g.users, counts)).2 hgs hrest k
      -- what the first group leaves and what the others leave lean to the same side
      have hsame : ∀ k, (dropEvent c (g.users, counts)).2.get k =
          counts.get k - countOf c k (entries g.groupName g.users) := by
        intro k
        have htotal := hcounter k
        have h1 := hlean k
        have h2 := hleans k
        rw [countOf_append] at htotal
        split at h1
        · rename_i hid
          rw [if_pos hid] at h2
          omega
        · rename_i hid
          rw [if_neg hid] at h2
          omega
      refine ⟨⟨hfirst, hsame⟩, hrest, ?_⟩
      intro k
      have htotal := hcounter k
      have h1 := hsame k
      rw [countOf_append] at htotal
      omega
    · rintro ⟨hcloses, hrest, hcounter⟩
      refine ⟨⟨hcloses.entries, hrest⟩, ?_⟩
      intro k
      have h1 := hcloses.counter k
      have h2 := hcounter k
      change _ = _ - (countOf c k _ : Int) at h1
      rw [countOf_append]
      omega

/-! ## Every run seats its users -/

theorem seated_addSession (c : Session) (user : Str) {us : List User} (h : Seated us) :
    Seated (Group.addSession c.1 c.2 user us).1 := by
  induction us with
  | nil =>
    intro x hx
    have hx' := List.mem_singleton.1 hx
    subst hx'
    exact ⟨List.cons_ne_nil _ _, show 1 ≤ MAX_NUMBER_OF_SIMULTANEOUS_CONNECTIONS by decide⟩
  | cons y us ih =>
    rw [Group.addSession]
    have hy := h y (List.mem_cons_self ..)
    have hus : Seated us := fun x hx => h x (List.mem_cons_of_mem _ hx)
    by_cases hname : user = y.username
    · rw [if_pos hname]
      by_cases hlen : y.clientIdentifiers.length < MAX_NUMBER_OF_SIMULTANEOUS_CONNECTIONS
      · intro x hx
        rw [User.registerSession_of_lt _ _ hlen] at hx
        rcases List.mem_cons.1 hx with rfl | hx
        · exact ⟨by simp, by simpa [Nat.succ_le_iff] using hlen⟩
        · exact hus x hx
      · intro x hx
        rw [User.registerSession, if_neg hlen] at hx
        exact h x hx
    · rw [if_neg hname]
      intro x hx
      rcases List.mem_cons.1 hx with rfl | hx
      · exact hy
      · exact ih hus x hx

theorem seated_dropEvent {c : Session} {us : List User} {counts : Counts} (h : Seated us) :
    Seated (dropEvent c (us, counts)).1 := by
  obtain ⟨id, f⟩ := c
  by_cases hid : id = FE_DISCONNECT
  · subst hid
    rw [dropEvent_sentinel, sweep_eq_dropAll]
    exact @seated_dropAll _ (us, counts) h
  · rw [dropEvent, if_neg hid]
    exact seated_dropSession h

theorem allSeated_dropEverywhere {c : Session} {gs : List GroupReplica} {counts : Counts}
    (h : AllSeated gs) : AllSeated (dropEverywhere c gs counts).1 := by
  induction gs generalizing counts with
  | nil => exact h
  | cons g gs ih =>
    intro x hx
    rw [dropEverywhere] at hx
    rcases List.mem_cons.1 hx with rfl | hx
    · exact seated_dropEvent (h g (List.mem_cons_self ..))
    · exact ih (fun y hy => h y (List.mem_cons_of_mem _ hy)) x hx

theorem allSeated_updateGroup {f : GroupReplica → GroupReplica} {n : Str}
    {gs : List GroupReplica} (hf : ∀ g, Seated g.users → Seated (f g).users) (h : AllSeated gs) :
    AllSeated (updateGroup n f gs) := by
  intro x hx
  obtain ⟨g, hg, rfl⟩ := List.mem_map.1 hx
  split
  · exact hf g (h g hg)
  · exact h g hg

theorem allSeated_withGroup {gs : List GroupReplica} (h : AllSeated gs) (n : Str) :
    AllSeated (withGroup gs n) := by
  by_cases hn : n ∈ names gs
  · rwa [withGroup_of_mem hn]
  · rw [withGroup_of_not_mem hn]
    intro g hg
    rcases List.mem_append.1 hg with hg | hg
    · exact h g hg
    · rw [List.mem_singleton.1 hg]
      exact fun x hx => absurd hx List.not_mem_nil

theorem allSeated_apply {r : Replica} (p : Packet) (fe : Str) (h : AllSeated r.groups) :
    AllSeated (r.apply p fe).groups := by
  unfold apply
  cases p.type
  case MESSAGE_PACKET => exact allSeated_updateGroup (fun g hg => hg) h
  case JOIN_PACKET =>
    show AllSeated (r.join p.username p.group (p.user_id, fe)).groups
    rw [join_groups]
    split
    · exact h
    · exact allSeated_updateGroup (fun g hg => seated_addSession _ _ hg) (allSeated_withGroup h _)
  case DISCONNECT_PACKET => exact allSeated_dropEverywhere h
  all_goals exact h

end Replica

namespace Server

open Ledger

theorem allSeated_handle {s : Server} (m : Moment) (h : Replica.AllSeated s.replica.groups) :
    Replica.AllSeated (s.handle m).1.replica.groups := by
  obtain ⟨event, o, _⟩ := m
  cases event with
  | packet p fe =>
    show Replica.AllSeated (s.applyLocally o p fe).1.replica.groups
    rw [applyLocally_replica]
    exact Replica.allSeated_apply p fe h
  | frontEndLoss fe =>
    show Replica.AllSeated (s.closeFrontEndConnection o.time fe).replica.groups
    rw [closeFrontEndConnection_replica]
    split
    · exact Replica.allSeated_dropEverywhere h
    · exact h

theorem allSeated_run {s : Server} (ms : List Moment) (h : Replica.AllSeated s.replica.groups) :
    Replica.AllSeated (s.run ms).replica.groups := by
  induction ms generalizing s with
  | nil => exact h
  | cons m ms ih => exact ih (allSeated_handle m h)

/-! ## What a disconnect changes, group by group -/

section Close

variable (s : Server) (time : Int) (c : Session)

theorem closeClientConnection_groups :
    (s.closeClientConnection time c).groupMap.map Group.replica =
      (Replica.dropEverywhere c s.replica.groups s.connectionsCount).1 :=
  congrArg Replica.groups (s.closeClientConnection_replica time c)

theorem closeClientConnection_counts :
    (s.closeClientConnection time c).connectionsCount =
      (Replica.dropEverywhere c s.replica.groups s.connectionsCount).2 :=
  congrArg Replica.connectionsCount (s.closeClientConnection_replica time c)

theorem closeClientConnection_names :
    (s.closeClientConnection time c).groupMap.map Group.groupName =
      s.groupMap.map Group.groupName := by
  have hnames := Replica.names_dropEverywhere c s.replica.groups s.connectionsCount
  rwa [← closeClientConnection_groups s time c, Replica.names, Replica.names, replica,
    List.map_map, List.map_map] at hnames

end Close

/-- Groups with the same names agree when what is said beside the names agrees. -/
theorem map_named_iff {β : Type} {F F' : Group → β} {gs gs' : List Group}
    (hnames : gs.map Group.groupName = gs'.map Group.groupName) :
    (gs.map fun g => (g.groupName, F g)) = (gs'.map fun g => (g.groupName, F' g)) ↔
      gs.map F = gs'.map F' := by
  constructor
  · intro h
    have hsnd := congrArg (List.map Prod.snd) h
    rwa [List.map_map, List.map_map] at hsnd
  · intro h
    rw [← List.zip_map', ← List.zip_map', h, hnames]

theorem applyLocally_of_isDisconnect (s : Server) (o : Outside) {p : Packet} (fe : Str)
    (hp : p.isDisconnect = true) :
    (s.applyLocally o p fe).1 = s.closeClientConnection o.time (p.user_id, fe) := by
  have htype : p.type = .DISCONNECT_PACKET := by simpa [Packet.isDisconnect] using hp
  simp [applyLocally, Packet.isMessage, Packet.isKeepAlive, Packet.isJoinMessage,
    Packet.isDisconnect, htype]

/-! ## The result -/

/-- What a DISCONNECT of the session `c` is for. -/
structure ClosesExactly (c : Session) (s t : Server) : Prop where
  /-- Every group loses the session, and keeps the others in place and in order. -/
  groups : t.groupMap.map (fun g => (g.groupName, Replica.entries g.groupName g.users)) =
    s.groupMap.map fun g =>
      (g.groupName, (Replica.entries g.groupName g.users).filter fun e => !(e.session == c))
  /-- Every counter is lowered by the number of sessions its user has lost. -/
  counter : ∀ user, t.connectionsCount.get user = s.connectionsCount.get user -
    s.openSessions.countP fun e => e.session == c && decide (e.user = user)
  /-- Nobody is left in a group without a session. -/
  seated : ∀ g ∈ t.groupMap, ∀ x ∈ g.users, x.getActiveConnections ≠ []

/-- **Exact DISCONNECT.**  After every run, a DISCONNECT of `x` from the front end `f`
closes exactly the sessions `(x, f)`, and counts them, if and only if in every group
their owners can release them and, for the sentinel, the front end has no other
session there, for any other `x`, the session is not repeated there. -/
theorem disconnect_exact_iff {isPrimary : Bool} {feAddresses : List Str} {ms : List Moment}
    {o : Outside} {p : Packet} {fe : Str} (hp : p.isDisconnect = true) :
    ClosesExactly (p.user_id, fe) ((Server.new isPrimary feAddresses).run ms)
        (((Server.new isPrimary feAddresses).run ms).applyLocally o p fe).1 ↔
      ∀ g ∈ ((Server.new isPrimary feAddresses).run ms).groupMap,
        Replica.Severable (p.user_id, fe) g.users := by
  have hstart : Replica.AllSeated (Server.new isPrimary feAddresses).replica.groups :=
    fun g hg => absurd hg List.not_mem_nil
  have hseated := allSeated_run ms hstart
  set s := (Server.new isPrimary feAddresses).run ms with hs
  have hiff := @Replica.dropEverywhere_exact_iff (p.user_id, fe) s.replica.groups
    s.connectionsCount hseated
  have hcond : (∀ g ∈ s.replica.groups, Replica.Severable (p.user_id, fe) g.users) ↔
      ∀ g ∈ s.groupMap, Replica.Severable (p.user_id, fe) g.users := by
    rw [replica, List.forall_mem_map]
    rfl
  have hentries : (s.closeClientConnection o.time (p.user_id, fe)).groupMap.map
      (fun g => Replica.entries g.groupName g.users) =
        Replica.entriesByGroup (Replica.dropEverywhere (p.user_id, fe) s.replica.groups
          s.connectionsCount).1 := by
    rw [← closeClientConnection_groups s o.time, Replica.entriesByGroup, List.map_map]
    rfl
  have hothers : s.groupMap.map (fun g => (Replica.entries g.groupName g.users).filter
      fun e => !(e.session == (p.user_id, fe))) =
        (Replica.entriesByGroup s.replica.groups).map (Replica.others (p.user_id, fe)) := by
    rw [Replica.entriesByGroup, replica, List.map_map, List.map_map]
    rfl
  rw [applyLocally_of_isDisconnect s o fe hp, ← hcond, ← hiff,
    ← closeClientConnection_counts s o.time, ← hentries, ← hothers,
    ← map_named_iff (closeClientConnection_names s o.time (p.user_id, fe))]
  constructor
  · intro h
    refine ⟨h.groups, ?_⟩
    intro k
    have hk := h.counter k
    rwa [openSessions_eq_ledger] at hk
  · rintro ⟨hsame, hcounter⟩
    refine ⟨hsame, ?_, ?_⟩
    · intro k
      rw [openSessions_eq_ledger]
      exact hcounter k
    · intro g hg x hx
      have hafter : Replica.AllSeated
          (s.closeClientConnection o.time (p.user_id, fe)).replica.groups := by
        rw [closeClientConnection_replica]
        exact Replica.allSeated_dropEverywhere hseated
      exact (hafter g.replica (List.mem_map_of_mem hg) x hx).1

/-- One user joins one group twice, with one client id on two front ends. -/
def twoDevices : List Moment :=
  ["f1", "f2"].map fun fe =>
    { event := .packet
        { type := .JOIN_PACKET, username := "u".toList, user_id := "x".toList, group := "g".toList }
        fe.toList }

/-- The client leaves the second front end. -/
def secondLeaves : Packet := { type := .DISCONNECT_PACKET, user_id := "x".toList }

/-- The first one leaves exactly: no session with its client id stands before it. -/
theorem disconnect_exact_twoDevices :
    ClosesExactly ("x".toList, "f1".toList) ((Server.new true ["f1".toList, "f2".toList]).run
        twoDevices)
      (((Server.new true ["f1".toList, "f2".toList]).run twoDevices).applyLocally {} secondLeaves
        "f1".toList).1 := by
  have hp : secondLeaves.isDisconnect = true := rfl
  exact (disconnect_exact_iff hp).2 (by decide)

/-- The session of the other front end is closed in its place. -/
theorem disconnect_counterexample :
    ¬ClosesExactly ("x".toList, "f2".toList) ((Server.new true ["f1".toList, "f2".toList]).run
        twoDevices)
      (((Server.new true ["f1".toList, "f2".toList]).run twoDevices).applyLocally {} secondLeaves
        "f2".toList).1 := by
  intro h
  exact absurd h.groups (by decide)

end Server

end InstantMessenger
