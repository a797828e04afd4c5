import InstantMessenger.Foundations.Transition
import InstantMessenger.Server.Independence
import InstantMessenger.Server.Replication

/-!
# Replication with concurrent listener threads

Every front end has its own listener thread on the primary.  The replication
section of `listenFrontEndCommunication` is inside `sockets_connections_semaphore`
and sends the packet to every backup; the thread applies the packet to the
primary's own memory only after the `post`, and other threads may do both in
between.

* `Primary`, `threads` — a primary with its backups as a transition system: the
  replication section is one step, the local step after it another.
* `Primary.ReplicaInvariant` — **the packets still waiting for their local step,
  applied in the order of the semaphore, lead from the primary to the backups**.
* `Primary.synced_of_overtaking_independent` — once all threads are idle the
  servers agree, if the packets that were overtaken were independent of the
  packet that overtook them.
* `Primary.overtaken_counterexample` — two messages of two front ends to one
  group.
-/

namespace InstantMessenger

/-- A primary, its backups, and the packets whose listener thread is between the
replication section and the local step, in the order of the semaphore. -/
structure Primary where
  server : Server
  backups : List Server
  waiting : List Received

/-- A step of the listener thread of the front end `feAddress`. -/
inductive ListenerStep where
  /-- A packet is read and replicated; each backup reads its own clock. -/
  | replicate (feAddress : Str) (p : Packet) (atBackup : Nat → Outside)
  /-- The packet is applied locally. -/
  | finish (feAddress : Str) (o : Outside)

namespace Primary

/-- The thread waits for its front end's next packet. -/
def idle (s : Primary) (feAddress : Str) : Bool :=
  s.waiting.all fun x => x.feAddress != feAddress

/-- The replication section: every backup runs `handleRMCommunication` on the
packet and confirms it. -/
def replicate (s : Primary) (feAddress : Str) (p : Packet) (atBackup : Nat → Outside) : Primary :=
  { s with
    backups :=
      if s.server.isPrimaryServer && Server.isReplicated p then
        s.backups.mapIdx fun i b =>
          b.handleRMCommunication (atBackup i) (Server.replicationPacket p feAddress)
      else s.backups
    waiting := s.waiting ++ [⟨feAddress, p⟩] }

/-- One step of one listener thread. -/
def listenFrontEndCommunication (s : Primary) : ListenerStep → Option Primary
  | .replicate feAddress p atBackup =>
    if s.server.feAddresses.contains feAddress && s.idle feAddress then
      some (s.replicate feAddress p atBackup)
    else none
  | .finish feAddress o =>
    (s.waiting.find? fun x => x.feAddress == feAddress).map fun x =>
      { s with
        server := (s.server.applyLocally o x.packet feAddress).1
        waiting := s.waiting.eraseP fun x => x.feAddress == feAddress }

/-- A primary connected to its front ends and to any number of backups. -/
def start (feAddresses : List Str) (numberOfBackups : Nat) : Primary :=
  ⟨Server.new true feAddresses, List.replicate numberOfBackups (Server.new false []), []⟩

/-- The listener threads of a primary. -/
def threads : Transition.System Primary ListenerStep where
  init s := ∃ feAddresses numberOfBackups, s = start feAddresses numberOfBackups
  step := listenFrontEndCommunication

end Primary

/-! ## Agreement -/

/-- The messages handed to the group with this name, when there is one. -/
def Server.handedTo (s : Server) (groupName : Str) : Option (List (Str × Str)) :=
  (Server.findGroup s.groupMap groupName).map Group.handed

/-- The servers agree, and each group was handed the same messages in the same
order. -/
structure Synced (p b : Server) : Prop where
  agree : Agree p b
  handed : ∀ groupName, p.handedTo groupName = b.handedTo groupName

theorem Server.handedTo_replica (s : Server) (groupName : Str) :
    s.handedTo groupName =
      (s.replica.groups.find? fun g => g.groupName == groupName).map GroupReplica.handed := by
  rw [replica, List.find?_map, Option.map_map]
  rfl

theorem synced_of_replica_eq {p b : Server} (h : p.replica = b.replica) : Synced p b where
  agree := agree_of_replica_eq h
  handed groupName := by rw [p.handedTo_replica, b.handedTo_replica, h]

namespace Primary

/-! ## What is waiting in front of a packet -/

/-- The packets that were replicated before the waiting packet of this front end
and are still waiting. -/
def overtaken (s : Primary) (feAddress : Str) : List Received :=
  s.waiting.takeWhile fun x => x.feAddress != feAddress

/-- The packet of this front end may be applied now: every packet it overtakes is
independent of it. -/
def mayFinish (s : Primary) (feAddress : Str) : Bool :=
  s.waiting.all fun x => x.feAddress != feAddress ||
    (s.overtaken feAddress).all fun y =>
      Replica.independentIn (Server.groupExists s.server.groupMap) y.packet x.packet

/-- The step applies no packet before one that it depends on. -/
def overtakesIndependent (s : Primary) : ListenerStep → Bool
  | .replicate .. => true
  | .finish feAddress _ => s.mayFinish feAddress

/-! ## The invariant -/

/-- The waiting packets lead from the primary's replica state to each backup's. -/
structure ReplicaInvariant (s : Primary) : Prop where
  isPrimary : s.server.isPrimaryServer = true
  behind : ∀ b ∈ s.backups,
    Overtaking.replay Replica.receive s.waiting s.server.replica = b.replica

theorem replicaInvariant_start (feAddresses : List Str) (n : Nat) :
    ReplicaInvariant (start feAddresses n) := by
  refine ⟨rfl, ?_⟩
  intro b hb
  rw [List.eq_of_mem_replicate hb]
  rfl

/-- The replication section applies at the backups what it adds to the waiting
packets. -/
theorem ReplicaInvariant.replicate {s : Primary} (h : ReplicaInvariant s) (feAddress : Str)
    (p : Packet) (atBackup : Nat → Outside) :
    ReplicaInvariant (s.replicate feAddress p atBackup) := by
  refine ⟨h.isPrimary, ?_⟩
  intro b hb
  show Overtaking.replay Replica.receive (s.waiting ++ [⟨feAddress, p⟩]) s.server.replica = _
  rw [Overtaking.replay_append]
  unfold Primary.replicate at hb
  simp only [h.isPrimary, Bool.true_and] at hb
  split at hb
  · obtain ⟨i, hi, rfl⟩ := List.mem_mapIdx.1 hb
    rw [Server.handleRMCommunication_replica, ← h.behind _ (List.getElem_mem hi)]
    rfl
  · rename_i hrep
    rw [← h.behind b hb]
    exact Server.replica_apply_of_not_replicated (by simpa using hrep) _ _

/-- The local step takes its packet out of the waiting ones. -/
theorem ReplicaInvariant.finish {s : Primary} (h : ReplicaInvariant s) {feAddress : Str}
    (hok : s.mayFinish feAddress = true) {x : Received} (o : Outside)
    (hx : s.waiting.find? (fun x => x.feAddress == feAddress) = some x) :
    ReplicaInvariant
      { s with
        server := (s.server.applyLocally o x.packet feAddress).1
        waiting := s.waiting.eraseP fun x => x.feAddress == feAddress } := by
  refine ⟨(s.server.applyLocally_isPrimaryServer o x.packet feAddress).trans h.isPrimary, ?_⟩
  intro b hb
  obtain ⟨after, hsplit, herase⟩ := Overtaking.split_at_first hx
  have hfe : x.feAddress = feAddress := by simpa using List.find?_some hx
  have hind : ∀ y ∈ s.overtaken feAddress, s.server.replica.Independent y x := by
    intro y hy
    have hyx := List.all_eq_true.1 hok x (List.mem_of_find?_eq_some hx)
    rw [Bool.or_eq_true] at hyx
    have hbefore := hyx.resolve_left (by simp [hfe])
    refine Replica.independentIn_mono ?_ (List.all_eq_true.1 hbefore y hy)
    intro g hg
    simpa [Replica.groupExists, Server.replica, Server.groupExists, Group.replica] using hg
  show Overtaking.replay Replica.receive (s.waiting.eraseP _)
    (s.server.applyLocally o x.packet feAddress).1.replica = b.replica
  rw [← h.behind b hb, herase, Server.applyLocally_replica]
  conv_rhs => rw [hsplit]
  have happly : s.server.replica.apply x.packet feAddress = Replica.receive x s.server.replica := by
    rw [Replica.receive, hfe]
  rw [happly]
  exact Overtaking.replay_overtake Replica.independence hind

theorem ReplicaInvariant.step {s t : Primary} {l : ListenerStep} (h : ReplicaInvariant s)
    (hok : s.overtakesIndependent l = true) (hst : s.listenFrontEndCommunication l = some t) :
    ReplicaInvariant t := by
  cases l with
  | replicate feAddress p atBackup =>
    simp only [listenFrontEndCommunication, Option.ite_none_right_eq_some, Option.some.injEq]
      at hst
    rw [← hst.2]
    exact h.replicate feAddress p atBackup
  | finish feAddress o =>
    simp only [listenFrontEndCommunication, Option.map_eq_some_iff] at hst
    obtain ⟨x, hx, rfl⟩ := hst
    exact h.finish hok o hx

/-- **Agreement under concurrency.**  In every run in which each local step
overtakes only packets that are independent of its own, the primary agrees with
every backup whenever all threads are idle. -/
theorem synced_of_overtaking_independent {s : Primary}
    (hrun : threads.ReachesWhen (fun s l => s.overtakesIndependent l = true) s)
    (hidle : s.waiting = []) :
    ∀ b ∈ s.backups, Synced s.server b := by
  have hinv : ReplicaInvariant s := by
    refine hrun.invariant ?_ fun _ _ _ h hok hst => h.step hok hst
    rintro t ⟨feAddresses, n, rfl⟩
    exact replicaInvariant_start feAddresses n
  intro b hb
  refine synced_of_replica_eq ?_
  have hbehind := hinv.behind b hb
  rwa [hidle] at hbehind

/-- A JOIN, a MESSAGE and a DISCONNECT of the user's client in the group `g`. -/
def join (user : Str) : Packet :=
  { type := .JOIN_PACKET, username := user, user_id := user, group := "g".toList }

def message (user : Str) : Packet :=
  { type := .MESSAGE_PACKET, username := user, user_id := user, group := "g".toList,
    message := "m".toList }

def leave (user : Str) : Packet := { type := .DISCONNECT_PACKET, user_id := user }

/-- Two clients join one group through different front ends. -/
def twoJoined : List ListenerStep :=
  [.replicate "f1".toList (join "a".toList) fun _ => {}, .finish "f1".toList {},
    .replicate "f2".toList (join "b".toList) fun _ => {}, .finish "f2".toList {}]

/-- Their next packets are replicated in one order and applied in the other. -/
def overtaking (first second : Packet) : List ListenerStep :=
  [.replicate "f1".toList first fun _ => {}, .replicate "f2".toList second fun _ => {},
    .finish "f2".toList {}, .finish "f1".toList {}]

/-- The agreement is reached in a run in which a message overtakes a disconnect. -/
theorem synced_of_overtaking_disconnect :
    ∃ s : Primary, s.backups.length = 1 ∧ (∀ b ∈ s.backups, Synced s.server b) ∧
      s.server.handedTo "g".toList = some [("b".toList, "m".toList)] := by
  obtain ⟨s, hs⟩ : ∃ s, threads.execWhen overtakesIndependent
      (start ["f1".toList, "f2".toList] 1)
      (twoJoined ++ overtaking (leave "a".toList) (message "b".toList)) = some s :=
    Option.isSome_iff_exists.1 (by decide)
  have hrun : threads.ReachesWhen (fun s l => s.overtakesIndependent l = true) s :=
    Transition.System.reachesWhen_of_execWhen (fun _ _ h => h)
      (.start ⟨["f1".toList, "f2".toList], 1, rfl⟩) hs
  have hsynced := synced_of_overtaking_independent hrun
  cases hs
  exact ⟨_, rfl, hsynced rfl, by decide⟩

/-- **Two messages of different front ends to one group.**  The second one
overtakes the first after the replication section: the primary hands them to the
group in one order, the backup in the other. -/
theorem overtaken_counterexample :
    ¬ ∀ s : Primary, threads.Reachable s → s.waiting = [] →
        ∀ b ∈ s.backups, Synced s.server b := by
  intro h
  obtain ⟨s, hs⟩ : ∃ s, threads.exec (start ["f1".toList, "f2".toList] 1)
      (twoJoined ++ overtaking (message "a".toList) (message "b".toList)) = some s :=
    Option.isSome_iff_exists.1 (by decide)
  have hreach : threads.Reachable s :=
    Transition.System.reachable_of_exec ⟨["f1".toList, "f2".toList], 1, rfl⟩ hs
  have hsynced := h s hreach
  cases hs
  have hhanded := (hsynced rfl _ (List.mem_singleton.2 rfl)).handed "g".toList
  revert hhanded
  decide

end Primary

end InstantMessenger
