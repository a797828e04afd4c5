import Mathlib.Algebra.Order.Ring.Int
import InstantMessenger.Server.Replica

/-!
# Replication, one event after another

A primary, a backup that was connected from the start, and a sequence of events
at the primary: packets of front ends, and losses of front ends.  A packet that
is to be replicated is applied by the backup and confirmed before the primary
goes on; the loss of a front end is handled by `closeFrontEndConnection`, which
sends nothing.

* `Pair`, `Pair.handle` — the two servers and one event.
* `Agree` — the agreement replication is for: equal counters, and in each group
  the same users with the same sets of sessions.
* `agreesThroughout_iff` — **agreement holds at the end of every event exactly
  when no front end is lost while a session of it is still open**: every packet
  keeps the replica states equal, and a loss that closes a session lowers a
  counter on the primary only.
* `lostFrontEnd_counterexample` — one JOIN and the loss of its front end.
-/

namespace InstantMessenger

/-! ## Counters under a disconnect -/

namespace Replica

theorem dropSession_get_le (c : Session) (s : List User × Counts) (u : Str) :
    (dropSession c s).2.get u ≤ s.2.get u := by
  unfold dropSession
  cases Group.getUserFromConnectionId s.1 c.1 c.2 with
  | none => exact le_refl _
  | some user =>
    rw [Counts.get_set]
    split
    · rename_i hu
      rw [hu]
      omega
    · exact le_refl _

/-- Ending a session that is there lowers its owner's counter. -/
theorem dropSession_get_lt {c : Session} {s : List User × Counts}
    (hc : c ∈ s.1.flatMap User.getActiveConnections) :
    ∃ u, (dropSession c s).2.get u < s.2.get u := by
  obtain ⟨user, huser, hmem⟩ := List.mem_flatMap.1 hc
  have hsome : (Group.getUserFromConnectionId s.1 c.1 c.2).isSome = true := by
    rw [Group.getUserFromConnectionId, List.find?_isSome]
    exact ⟨user, huser, by simpa using hmem⟩
  obtain ⟨owner, howner⟩ := Option.isSome_iff_exists.1 hsome
  refine ⟨owner.username, ?_⟩
  unfold dropSession
  rw [howner]
  simp only [Counts.get_set_self]
  omega

/-- The sweep of `dropEvent` over a snapshot. -/
def sweep (f : Str) (snapshot : List Session) (s : List User × Counts) : List User × Counts :=
  snapshot.foldl (fun s d => if d.2 = f then dropSession (d.1, f) s else s) s

theorem dropEvent_sentinel (f : Str) (s : List User × Counts) :
    dropEvent (FE_DISCONNECT, f) s = sweep f (s.1.flatMap User.getActiveConnections) s :=
  if_pos rfl

theorem sweep_get_le (f : Str) (snapshot : List Session) (s : List User × Counts) (u : Str) :
    (sweep f snapshot s).2.get u ≤ s.2.get u := by
  induction snapshot generalizing s with
  | nil => exact le_refl _
  | cons d ds ih =>
    refine le_trans (ih _) ?_
    simp only
    split
    · exact dropSession_get_le _ s u
    · exact le_refl _

/-- A sweep that finds nothing of the front end changes nothing. -/
theorem sweep_of_forall_ne {f : Str} {snapshot : List Session} (h : ∀ d ∈ snapshot, d.2 ≠ f)
    (s : List User × Counts) : sweep f snapshot s = s := by
  induction snapshot generalizing s with
  | nil => rfl
  | cons d ds ih =>
    have hd : d.2 ≠ f := h d (List.mem_cons_self ..)
    rw [sweep, List.foldl_cons, if_neg hd]
    exact ih (fun x hx => h x (List.mem_cons_of_mem _ hx)) s

/-- A sweep that finds a session of the front end lowers some counter. -/
theorem sweep_get_lt {f : Str} {snapshot : List Session} {s : List User × Counts}
    (hsub : ∀ d ∈ snapshot, d ∈ s.1.flatMap User.getActiveConnections)
    (hf : ∃ d ∈ snapshot, d.2 = f) : ∃ u, (sweep f snapshot s).2.get u < s.2.get u := by
  induction snapshot generalizing s with
  | nil =>
    obtain ⟨d, hd, -⟩ := hf
    exact absurd hd List.not_mem_nil
  | cons d ds ih =>
    rw [sweep, List.foldl_cons]
    by_cases hd : d.2 = f
    · -- nothing was closed before, so `d` is still open when it is reached
      rw [if_pos hd]
      have hopen : (d.1, f) ∈ s.1.flatMap User.getActiveConnections := by
        rw [← hd]
        exact hsub d (List.mem_cons_self ..)
      obtain ⟨u, hu⟩ := dropSession_get_lt hopen
      exact ⟨u, lt_of_le_of_lt (sweep_get_le f ds _ u) hu⟩
    · rw [if_neg hd]
      refine ih (fun x hx => hsub x (List.mem_cons_of_mem _ hx)) ?_
      obtain ⟨x, hx, hxf⟩ := hf
      rcases List.mem_cons.1 hx with rfl | hx'
      · exact absurd hxf hd
      · exact ⟨x, hx', hxf⟩

/-- The sessions of all groups. -/
def sessions (r : Replica) : List Session :=
  r.groups.flatMap fun g => g.users.flatMap User.getActiveConnections

theorem dropEverywhere_get_le (f : Str) (gs : List GroupReplica) (counts : Counts) (u : Str) :
    (dropEverywhere (FE_DISCONNECT, f) gs counts).2.get u ≤ counts.get u := by
  induction gs generalizing counts with
  | nil => exact le_refl _
  | cons g gs ih =>
    refine le_trans (ih _) ?_
    rw [dropEvent_sentinel]
    exact sweep_get_le f _ _ u

theorem dropEverywhere_of_forall_ne {f : Str} {gs : List GroupReplica}
    (h : ∀ g ∈ gs, ∀ d ∈ g.users.flatMap User.getActiveConnections, d.2 ≠ f) (counts : Counts) :
    dropEverywhere (FE_DISCONNECT, f) gs counts = (gs, counts) := by
  induction gs with
  | nil => rfl
  | cons g gs ih =>
    simp only [dropEverywhere]
    rw [dropEvent_sentinel, sweep_of_forall_ne (h g (List.mem_cons_self ..)),
      ih fun x hx => h x (List.mem_cons_of_mem _ hx)]

theorem dropEverywhere_get_lt {f : Str} {gs : List GroupReplica} {counts : Counts}
    (h : ∃ g ∈ gs, ∃ d ∈ g.users.flatMap User.getActiveConnections, d.2 = f) :
    ∃ u, (dropEverywhere (FE_DISCONNECT, f) gs counts).2.get u < counts.get u := by
  induction gs generalizing counts with
  | nil =>
    obtain ⟨g, hg, -⟩ := h
    exact absurd hg List.not_mem_nil
  | cons g gs ih =>
    simp only [dropEverywhere]
    rw [dropEvent_sentinel]
    by_cases hg : ∃ d ∈ g.users.flatMap User.getActiveConnections, d.2 = f
    · obtain ⟨u, hu⟩ := sweep_get_lt (s := (g.users, counts)) (fun _ hd => hd) hg
      exact ⟨u, lt_of_le_of_lt (dropEverywhere_get_le f gs _ u) hu⟩
    · push Not at hg
      rw [sweep_of_forall_ne hg]
      refine ih ?_
      obtain ⟨x, hx, d, hd, hdf⟩ := h
      rcases List.mem_cons.1 hx with rfl | hx'
      · exact absurd hdf (hg d hd)
      · exact ⟨x, hx', d, hd, hdf⟩

/-- The loss of a front end without sessions changes nothing. -/
theorem disconnect_sentinel_of_no_session {f : Str} {r : Replica} (h : ∀ d ∈ r.sessions, d.2 ≠ f) :
    r.disconnect (FE_DISCONNECT, f) = r := by
  unfold disconnect
  rw [dropEverywhere_of_forall_ne fun g hg d hd => h d (List.mem_flatMap.2 ⟨g, hg, hd⟩)]

/-- The loss of a front end with a session changes the counters. -/
theorem disconnect_sentinel_counts_ne {f : Str} {r : Replica} (h : ∃ d ∈ r.sessions, d.2 = f) :
    (r.disconnect (FE_DISCONNECT, f)).connectionsCount ≠ r.connectionsCount := by
  obtain ⟨d, hd, hdf⟩ := h
  obtain ⟨g, hg, hdg⟩ := List.mem_flatMap.1 hd
  obtain ⟨u, hu⟩ :=
    @dropEverywhere_get_lt f r.groups r.connectionsCount ⟨g, hg, d, hdg, hdf⟩
  intro heq
  have hget := congrArg (fun m : Counts => m.get u) heq
  exact absurd hget (ne_of_lt hu)

end Replica

/-! ## The pair of servers -/

/-- A primary and its backup. -/
structure Pair where
  primary : Server
  backup : Server

/-- What can happen at the primary. -/
inductive Event where
  /-- A packet arrives from this front end. -/
  | packet (p : Packet) (feAddress : Str)
  /-- The connection to this front end is lost. -/
  | frontEndLoss (feAddress : Str)
  deriving DecidableEq, Repr

/-- An event, with what the two servers read from outside while they handle it. -/
structure Moment where
  event : Event
  atPrimary : Outside := {}
  atBackup : Outside := {}
  deriving Repr

namespace Pair

/-- Both servers right after they were connected. -/
def start (feAddresses : List Str) : Pair := ⟨Server.new true feAddresses, Server.new false []⟩

/-- One event, replicated and confirmed when the code replicates it. -/
def handle (r : Pair) (m : Moment) : Pair :=
  match m.event with
  | .packet p fe =>
    { backup :=
        if r.primary.isPrimaryServer && Server.isReplicated p then
          r.backup.handleRMCommunication m.atBackup (Server.replicationPacket p fe)
        else r.backup
      primary := (r.primary.applyLocally m.atPrimary p fe).1 }
  | .frontEndLoss fe =>
    { r with primary := r.primary.closeFrontEndConnection m.atPrimary.time fe }

end Pair

namespace Server

/-- The user `u` of group `g` is listed. -/
def HasUser (s : Server) (g u : Str) : Prop :=
  ∃ x ∈ s.groupMap, x.groupName = g ∧ ∃ y ∈ x.users, y.username = u

/-- The user `u` of group `g` has the session `c`. -/
def HasSession (s : Server) (g u : Str) (c : Session) : Prop :=
  ∃ x ∈ s.groupMap, x.groupName = g ∧
    ∃ y ∈ x.users, y.username = u ∧ c ∈ y.getActiveConnections

end Server

/-- **Agreement of two servers**: equal counters, and in every group the same
users with the same sets of sessions. -/
structure Agree (p b : Server) : Prop where
  counts : p.connectionsCount = b.connectionsCount
  users : ∀ g u, p.HasUser g u ↔ b.HasUser g u
  sessions : ∀ g u c, p.HasSession g u c ↔ b.HasSession g u c

theorem Server.hasUser_iff_replica (s : Server) (g u : Str) :
    s.HasUser g u ↔ ∃ x ∈ s.replica.groups, x.groupName = g ∧ ∃ y ∈ x.users, y.username = u := by
  simp only [HasUser, replica, List.mem_map, exists_exists_and_eq_and, Group.replica]

theorem Server.hasSession_iff_replica (s : Server) (g u : Str) (c : Session) :
    s.HasSession g u c ↔ ∃ x ∈ s.replica.groups, x.groupName = g ∧
      ∃ y ∈ x.users, y.username = u ∧ c ∈ y.getActiveConnections := by
  simp only [HasSession, replica, List.mem_map, exists_exists_and_eq_and, Group.replica]

/-- Equal replica states agree. -/
theorem agree_of_replica_eq {p b : Server} (h : p.replica = b.replica) : Agree p b where
  counts := congrArg Replica.connectionsCount h
  users g u := by rw [p.hasUser_iff_replica, b.hasUser_iff_replica, h]
  sessions g u c := by rw [p.hasSession_iff_replica, b.hasSession_iff_replica, h]

/-! ## Agreement over a run -/

/-- The servers agree at the end of each event. -/
def AgreesThroughout : Pair → List Moment → Prop
  | _, [] => True
  | r, m :: ms => Agree (r.handle m).primary (r.handle m).backup ∧ AgreesThroughout (r.handle m) ms

/-- The event is not the loss of a connected front end that has a session open. -/
def ClosesNoSession (s : Server) : Event → Prop
  | .packet _ _ => True
  | .frontEndLoss fe =>
    fe ∈ s.feAddresses → ∀ g ∈ s.groupMap, ∀ c ∈ g.getAllActiveConnectionIds, c.2 ≠ fe

/-- No event of the run is the loss of a front end with a session open. -/
def LossesCloseNoSession : Pair → List Moment → Prop
  | _, [] => True
  | r, m :: ms => ClosesNoSession r.primary m.event ∧ LossesCloseNoSession (r.handle m) ms

theorem Server.applyLocally_isPrimaryServer (s : Server) (o : Outside) (p : Packet) (fe : Str) :
    (s.applyLocally o p fe).1.isPrimaryServer = s.isPrimaryServer := by
  unfold applyLocally registerUserToServer closeClientConnection
  split_ifs <;> try rfl
  all_goals
    simp only
    split <;> rfl

theorem Server.handleRMCommunication_isPrimaryServer (s : Server) (o : Outside) (p : Packet) :
    (s.handleRMCommunication o p).isPrimaryServer = s.isPrimaryServer := by
  unfold handleRMCommunication registerUserToServer closeClientConnection
  dsimp only
  split_ifs <;> rfl

theorem Server.closeFrontEndConnection_isPrimaryServer (s : Server) (time : Int) (fe : Str) :
    (s.closeFrontEndConnection time fe).isPrimaryServer = s.isPrimaryServer := by
  unfold closeFrontEndConnection purgeFeConnection closeClientConnection
  split <;> rfl

theorem Pair.handle_isPrimaryServer (r : Pair) (m : Moment) :
    (r.handle m).primary.isPrimaryServer = r.primary.isPrimaryServer := by
  unfold Pair.handle
  cases m.event with
  | packet p fe => exact r.primary.applyLocally_isPrimaryServer _ _ _
  | frontEndLoss fe => exact r.primary.closeFrontEndConnection_isPrimaryServer _ _

theorem Server.mem_replica_sessions {s : Server} {c : Session} :
    c ∈ s.replica.sessions ↔ ∃ g ∈ s.groupMap, c ∈ g.getAllActiveConnectionIds := by
  simp only [Replica.sessions, replica, List.mem_flatMap, List.mem_map, exists_exists_and_eq_and,
    Group.getAllActiveConnectionIds, Group.replica]

/-- One event that closes no session keeps the replica states equal. -/
theorem Pair.handle_replica {r : Pair} {m : Moment} (hprim : r.primary.isPrimaryServer = true)
    (heq : r.primary.replica = r.backup.replica) (hok : ClosesNoSession r.primary m.event) :
    (r.handle m).primary.replica = (r.handle m).backup.replica := by
  unfold Pair.handle
  cases hm : m.event with
  | packet p fe =>
    simp only [hprim, Bool.true_and, Server.applyLocally_replica, heq]
    cases hrep : Server.isReplicated p with
    | true => simp [Server.handleRMCommunication_replica]
    | false => simp [Server.replica_apply_of_not_replicated hrep]
  | frontEndLoss fe =>
    rw [hm] at hok
    simp only [Server.closeFrontEndConnection_replica]
    split
    · rename_i hfe
      rw [Replica.disconnect_sentinel_of_no_session, heq]
      intro d hd
      obtain ⟨g, hg, hdg⟩ := Server.mem_replica_sessions.1 hd
      exact hok (by simpa using hfe) g hg d hdg
    · exact heq

/-- A loss that closes a session breaks the agreement. -/
theorem Pair.not_agree_of_closes {r : Pair} {m : Moment}
    (heq : r.primary.replica = r.backup.replica) (hbad : ¬ClosesNoSession r.primary m.event) :
    ¬Agree (r.handle m).primary (r.handle m).backup := by
  intro hagree
  cases hm : m.event with
  | packet p fe => exact hbad (by rw [hm]; trivial)
  | frontEndLoss fe =>
    rw [hm] at hbad
    simp only [ClosesNoSession] at hbad
    push Not at hbad
    obtain ⟨hfe, g, hg, c, hc, hcf⟩ := hbad
    have hcounts := hagree.counts
    unfold Pair.handle at hcounts
    rw [hm] at hcounts
    have hrep := r.primary.closeFrontEndConnection_replica m.atPrimary.time fe
    rw [if_pos (by simpa using hfe)] at hrep
    have hne := Replica.disconnect_sentinel_counts_ne
      ⟨c, Server.mem_replica_sessions.2 ⟨g, hg, hc⟩, hcf⟩
    rw [← hrep, heq] at hne
    exact hne hcounts

theorem agreesThroughout_iff_aux {r : Pair} (hprim : r.primary.isPrimaryServer = true)
    (heq : r.primary.replica = r.backup.replica) (ms : List Moment) :
    AgreesThroughout r ms ↔ LossesCloseNoSession r ms := by
  induction ms generalizing r with
  | nil => exact Iff.rfl
  | cons m ms ih =>
    by_cases hok : ClosesNoSession r.primary m.event
    · have hnext := Pair.handle_replica hprim heq hok
      have hprim' : (r.handle m).primary.isPrimaryServer = true := by
        rw [r.handle_isPrimaryServer m, hprim]
      constructor
      · rintro ⟨-, hrest⟩
        exact ⟨hok, (ih hprim' hnext).1 hrest⟩
      · rintro ⟨-, hrest⟩
        exact ⟨agree_of_replica_eq hnext, (ih hprim' hnext).2 hrest⟩
    · constructor
      · rintro ⟨hagree, -⟩
        exact absurd hagree (Pair.not_agree_of_closes heq hok)
      · rintro ⟨hok', -⟩
        exact absurd hok' hok

/-- **Agreement over a run.**  For every list of connected front ends and every
run from the start, primary and backup agree at the end of each event exactly
when no event of the run is the loss of a connected front end that still has a
session open. -/
theorem agreesThroughout_iff (feAddresses : List Str) (ms : List Moment) :
    AgreesThroughout (Pair.start feAddresses) ms ↔
      LossesCloseNoSession (Pair.start feAddresses) ms :=
  agreesThroughout_iff_aux rfl rfl ms

/-- **Agreement is lost with a front end.**  The client `c` joins as `u` through
the front end `f`, then `f` is lost: the primary has closed the session and
counts no connection of `u`, the backup still has both. -/
theorem lostFrontEnd_counterexample :
    ¬ ∀ (feAddresses : List Str) (ms : List Moment),
        AgreesThroughout (Pair.start feAddresses) ms := by
  intro h
  have hrun := h ["f".toList]
    [{ event := .packet
        { type := .JOIN_PACKET, username := "u".toList, user_id := "c".toList, group := "g".toList }
        "f".toList },
      { event := .frontEndLoss "f".toList }]
  have hcounts := congrArg (fun m : Counts => m "u".toList) hrun.2.1.counts
  revert hcounts
  decide

end InstantMessenger
