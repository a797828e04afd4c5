import InstantMessenger.Server.AtomicSections

/-!
# Agreement of the backups, whatever the threads do

What follows from atomic replication sections about the copies of the groups: of the
backups among themselves at any moment, in particular at one where the primary crashes, and
of the primary with its backups once the listeners have nothing to do.

* `Primary.alike_of_reaches` — replication in one step keeps the backups alike.
* `Replicating.one_packet_apart` — **a crash of the primary at any moment leaves the backups
  at most one packet apart**.
* `Replicating.independentSteps` — the condition on a run: no packet is applied while one is
  waiting that it depends on.
* `Replicating.synced_at_rest` — **then the primary agrees with every backup** when the
  listeners are back in front of their sockets.
-/

namespace InstantMessenger

theorem exists_of_forall₂ {α β : Type*} {R : α → β → Prop} {xs : List α} {ys : List β}
    (h : List.Forall₂ R xs ys) {x : α} (hx : x ∈ xs) : ∃ y ∈ ys, R x y := by
  induction h with
  | nil => cases hx
  | @cons x' y' _ _ hxy _ ih =>
    rcases List.mem_cons.1 hx with rfl | hx
    · exact ⟨y', List.mem_cons_self, hxy⟩
    · obtain ⟨y, hy, hR⟩ := ih hx
      exact ⟨y, List.mem_cons_of_mem _ hy, hR⟩

namespace Primary

variable {a b : Primary} {l : ListenerStep} {r : Replica}

/-- A replication in one step leaves backups alike that were alike. -/
theorem alike_step (h : ∀ x ∈ a.backups, x.replica = r)
    (hst : a.listenFrontEndCommunication l = some b) :
    ∃ r', ∀ x ∈ b.backups, x.replica = r' := by
  cases l with
  | replicate fe p atBackup =>
    obtain ⟨-, heq⟩ := Option.ite_none_right_eq_some.1 hst
    rw [← Option.some.inj heq, replicate]
    dsimp only
    split
    · refine ⟨r.apply p fe, ?_⟩
      intro x hx
      obtain ⟨i, hi, rfl⟩ := List.mem_mapIdx.1 hx
      rw [Server.handleRMCommunication_replica, h _ (List.getElem_mem hi)]
    · exact ⟨r, h⟩
  | finish fe o =>
    obtain ⟨x, -, rfl⟩ := Option.map_eq_some_iff.1 hst
    exact ⟨r, h⟩

theorem alike_of_reaches (hreach : atomicThreads.Reaches a b)
    (h : ∃ r, ∀ x ∈ a.backups, x.replica = r) : ∃ r, ∀ x ∈ b.backups, x.replica = r := by
  obtain ⟨ls, hls⟩ := hreach
  induction ls generalizing a with
  | nil =>
    cases hls
    exact h
  | cons l ls ih =>
    rw [Transition.System.exec_cons, Option.bind_eq_some_iff] at hls
    obtain ⟨c, hc, hrest⟩ := hls
    obtain ⟨r, hr⟩ := h
    exact ih (alike_step hr hc) hrest

end Primary

/-- The front end whose listener takes the step. -/
def ThreadStep.feAddress : ThreadStep → Option Str
  | .read fe _ => some fe
  | .wait fe => some fe
  | .send fe => some fe
  | .readConfirmation fe => some fe
  | .post fe => some fe
  | .sendAck fe => some fe
  | .finish fe _ => some fe
  | .backupThread _ _ => none
  | .primaryThread _ _ => none

namespace Replicating

variable {s t : Replicating} {a : Primary} {fe : Str}

/-! ## What a crash of the primary leaves -/

/-- Once a backup has a packet its replica state has it, if the packet is one to be
replicated. -/
theorem After.replica {x : Tagged} {b b' : Server} (h : After fe x b b') :
    b'.replica = b.replica.apply x.packet fe := by
  obtain ⟨o, rfl⟩ := h
  split
  · exact Server.handleRMCommunication_replica _ _ _ _
  · rename_i hrep
    exact (Server.replica_apply_of_not_replicated (by simpa using hrep) _ _).symm

/-- While the replication is on the link the backup has the packet or not. -/
theorem progress_replica {x : Tagged} {k : Link}
    (h : k.Progress b { x with packet := Server.replicationPacket x.packet fe }) :
    k.backup.replica = b.replica ∨ k.backup.replica = b.replica.apply x.packet fe := by
  cases h with
  | sent hb | received hb => exact .inl (by rw [hb])
  | handled o hb => exact .inr (by rw [hb, Server.handleRMCommunication_replica])

/-- **A crash of the primary at any moment leaves the backups one packet apart.**  If they
were alike, then in every later state they are alike while nobody is in the section; and
while a listener is, there is one state that each of them is in, or one packet after it: the
packet of that listener, which those have that it has read the confirmation of. -/
theorem one_packet_apart (hs : connectedThreads.init s) (hrun : connectedThreads.Reaches s t)
    (halike : ∃ r, ∀ b ∈ s.backups, b.replica = r) :
    ∃ r : Replica, (t.semaphore = none → ∀ b ∈ t.backups, b.replica = r) ∧
      ∀ fe x todo, t.semaphore = some fe → (t.listener fe).unconfirmed = some (x, todo) →
        ∀ socket ∈ t.rm_connect_sockets_fd,
          ((t.link socket).backup.replica = r ∨
            (t.link socket).backup.replica = r.apply x.packet fe) ∧
          (socket ∉ todo → (t.link socket).backup.replica = r.apply x.packet fe) := by
  obtain ⟨ls, hls⟩ := hrun
  obtain ⟨ks, a, hexec, -, hatomic⟩ := simulation.exec (.start hs) hls (atomic_memory hs)
  obtain ⟨r, hr⟩ := Primary.alike_of_reaches ⟨ks, hexec⟩ halike
  refine ⟨r, fun hsem => hatomic.backups_of_free hsem ▸ hr, ?_⟩
  intro fe x todo hsem hx socket hsocket
  obtain ⟨b, hb, hstage⟩ := exists_of_forall₂ hatomic.backups hsocket
  have hsec := (stage_of_holder hsem).1 hstage
  have hafter : ∀ {b'}, After fe x b b' → b'.replica = r.apply x.packet fe := fun h => by
    rw [h.replica, hr b hb]
  cases hfe : t.listener fe with
  | sending y todo' =>
    rw [hfe] at hx hsec
    cases hx
    rw [Section] at hsec
    split at hsec
    · rename_i hmem
      rw [hsec]
      exact ⟨.inl (hr b hb), fun hnot => absurd hmem hnot⟩
    · exact ⟨.inr (hafter hsec), fun _ => hafter hsec⟩
  | confirming y current todo' =>
    rw [hfe] at hx hsec
    cases hx
    rw [Section] at hsec
    split at hsec
    · rename_i hcur
      have hprog := progress_replica hsec
      rw [hr b hb] at hprog
      exact ⟨hprog, fun hnot => absurd (hcur ▸ List.mem_cons_self) hnot⟩
    · split at hsec
      · rename_i hmem
        rw [hsec]
        exact ⟨.inl (hr b hb), fun hnot => absurd (List.mem_cons_of_mem _ hmem) hnot⟩
      · exact ⟨.inr (hafter hsec), fun _ => hafter hsec⟩
  | reading | received | replicated | acknowledged =>
    -- the holder of the semaphore is in the section
    have hin := ((ordered_connected (.exec (.start hs) hls)).1.holder fe).2 hsem
    rw [hfe] at hin
    cases hin

/-- A primary with two backups, on the sockets 4 and 5. -/
def twoBackups : Replicating where
  server := Server.new true ["f".toList]
  rm_connect_sockets_fd := [4, 5]
  link _ := ⟨[], [], Server.new false [], .reading, none, []⟩
  listener _ := .reading
  semaphore := none
  serial := 0

/-- A JOIN is handled by the backup on socket 4 and not yet sent to the other one. -/
def midway : List ThreadStep :=
  [.read "f".toList (Primary.join "u".toList), .wait "f".toList, .send "f".toList,
    .backupThread 4 {}, .backupThread 4 {}]

theorem one_packet_apart_midway :
    ∃ t r, connectedThreads.exec twoBackups midway = some t ∧ t.semaphore = some "f".toList ∧
      ∀ socket ∈ t.rm_connect_sockets_fd, (t.link socket).backup.replica = r ∨
        (t.link socket).backup.replica = r.apply (Primary.join "u".toList) "f".toList := by
  obtain ⟨t, ht⟩ : ∃ t, connectedThreads.exec twoBackups midway = some t :=
    Option.isSome_iff_exists.1 (by decide)
  have hstart : Start twoBackups :=
    ⟨rfl, fun _ => ⟨rfl, rfl, rfl, fun t ht => by cases ht⟩, fun _ => rfl, rfl⟩
  obtain ⟨r, -, hr⟩ := one_packet_apart ⟨hstart, by decide⟩ ⟨midway, ht⟩
    ⟨(Server.new false []).replica, by
      intro b hb
      obtain ⟨socket, -, rfl⟩ := List.mem_map.1 hb
      rfl⟩
  have hsem : t.semaphore = some "f".toList := by
    cases ht
    rfl
  refine ⟨t, r, ht, hsem, fun socket hsocket => ?_⟩
  exact (hr "f".toList ⟨0, Primary.join "u".toList⟩ [4, 5] hsem (by cases ht; rfl) socket
    hsocket).1

/-! ## The primary and its backups -/

/-- The packet that a step applies to the primary is independent of all the others that are
past the section and not applied. -/
def independentSteps (s : Replicating) : ThreadStep → Prop
  | .finish fe _ => ∀ x, (s.listener fe).afterSection = some x →
      ∀ fe' y, fe' ≠ fe → (s.listener fe').afterSection = some y →
        Replica.independentIn (Server.groupExists s.server.groupMap) y.packet x.packet = true
  | _ => True

/-- The threads, started with backups that have what the primary has. -/
def syncedThreads : Transition.System Replicating ThreadStep where
  init s := connectedThreads.init s ∧ ∀ b ∈ s.backups, b.replica = s.server.replica
  step := connectedStep

/-- The packets that wait for their local step are those of the listeners past the section. -/
theorem Atomic.afterSection_of_mem (h : Atomic s a) {x : Received} (hx : x ∈ a.waiting) :
    ∃ y, (s.listener x.feAddress).afterSection = some y ∧ y.packet = x.packet := by
  have hfind := h.waiting x.feAddress
  rw [Overtaking.find?_owner_of_mem Received.feAddress h.nodup hx] at hfind
  obtain ⟨y, hy, heq⟩ := Option.map_eq_some_iff.1 hfind.symm
  exact ⟨y, hy, congrArg Received.packet heq⟩

/-- Only a local step is seen as one. -/
theorem finish_of_seen {l : ThreadStep} {fe : Str} {o : Outside}
    (h : s.seen l = some (.finished fe o)) : l = .finish fe o := by
  unfold seen at h
  split at h
  · split at h <;> cases h
  · cases h
    rfl
  · cases h

/-- A step that is seen overtakes only what it is independent of. -/
theorem Atomic.overtakesIndependent {l : ThreadStep} {k : ListenerStep} (h : Atomic s a)
    (hok : s.independentSteps l) (hseen : s.seen l = some k.seen) :
    a.overtakesIndependent k = true := by
  cases k with
  | replicate fe p atBackup => rfl
  | finish fe o =>
    obtain rfl : l = .finish fe o := finish_of_seen hseen
    refine List.all_eq_true.2 fun x hx => ?_
    rw [Bool.or_eq_true]
    by_cases hfe : x.feAddress = fe
    · refine .inr (List.all_eq_true.2 fun y hy => ?_)
      have hne : y.feAddress ≠ fe := by simpa using List.all_eq_true.1 List.all_takeWhile y hy
      obtain ⟨x', hx', hpx⟩ := h.afterSection_of_mem hx
      obtain ⟨y', hy', hpy⟩ := h.afterSection_of_mem ((List.takeWhile_sublist _).subset hy)
      rw [← hpx, ← hpy, h.server]
      exact hok x' (hfe ▸ hx') y.feAddress y' hne hy'
    · exact .inl (by simpa using hfe)

/-- What such runs keep. -/
theorem replicaInvariant_of_independent (h : syncedThreads.ReachesWhen independentSteps s) :
    Ordered s ∧ Connected s ∧ ∃ a, Atomic s a ∧ Primary.ReplicaInvariant a := by
  refine h.invariant (I := fun s => Ordered s ∧ Connected s ∧
    ∃ a, Atomic s a ∧ Primary.ReplicaInvariant a) ?_ ?_
  · rintro s ⟨hinit, hsync⟩
    refine ⟨ordered_of_start hinit.1, connected_of_start hinit, _, atomic_memory hinit, ?_⟩
    exact ⟨hinit.1.isPrimary, fun b hb => (hsync b hb).symm⟩
  · rintro s l t ⟨hord, hconn, a, hatomic, hinv⟩ hok hst
    have hmoves := moves_of_step hst
    refine ⟨hord.step (step_of_connectedStep hst), hconn.step hmoves, ?_⟩
    rcases hatomic.step hord hconn hmoves with ⟨-, hsame⟩ | ⟨k, b, hseen, hk, hb⟩
    · exact ⟨a, hsame, hinv⟩
    · exact ⟨b, hb, hinv.step (hatomic.overtakesIndependent hok hseen) hk⟩

/-- **At rest the primary agrees with every backup.**  In every run of all the threads, step
by step, in which no packet is applied while another one that depends on it is waiting, the
servers agree whenever all listeners are in front of their sockets. -/
theorem synced_at_rest (h : syncedThreads.ReachesWhen independentSteps s)
    (hrest : ∀ fe, s.listener fe = .reading) : ∀ b ∈ s.backups, Synced s.server b := by
  obtain ⟨hord, -, a, hatomic, hinv⟩ := replicaInvariant_of_independent h
  have hfree : s.semaphore = none := by
    refine Option.eq_none_iff_forall_ne_some.2 fun fe hsem => ?_
    have hin := (hord.holder fe).2 hsem
    rw [hrest fe] at hin
    cases hin
  have hwaiting : a.waiting = [] := by
    refine List.eq_nil_iff_forall_not_mem.2 fun x hx => ?_
    obtain ⟨y, hy, -⟩ := hatomic.afterSection_of_mem hx
    rw [hrest] at hy
    cases hy
  intro b hb
  refine synced_of_replica_eq ?_
  have hbehind := hinv.behind b (hatomic.backups_of_free hfree ▸ hb)
  rwa [hwaiting, hatomic.server] at hbehind

/-- A step of one listener leaves the others where they are. -/
theorem Moves.listener {l : ThreadStep} (hm : Moves s l t) (hfe : l.feAddress ≠ some fe) :
    t.listener fe = s.listener fe := by
  have hne : ∀ {fe' : Str}, some fe' ≠ some fe → fe ≠ fe' := by
    rintro fe' hne rfl
    exact hne rfl
  cases hm with
  | backupThread | primaryThread => rfl
  | read | wait | send | readConfirmation | post | sendAck | finish => exact move_of_ne _ (hne hfe)

theorem listener_exec {ls : List ThreadStep} (he : syncedThreads.exec s ls = some t)
    (hfe : ∀ l ∈ ls, l.feAddress ≠ some fe) : t.listener fe = s.listener fe := by
  induction ls generalizing s with
  | nil =>
    cases he
    rfl
  | cons l ls ih =>
    rw [Transition.System.exec_cons, Option.bind_eq_some_iff] at he
    obtain ⟨u, hu, hrest⟩ := he
    rw [ih hrest fun m hm => hfe m (List.mem_cons_of_mem _ hm)]
    exact (moves_of_step hu).listener (hfe l List.mem_cons_self)

/-- A JOIN is replicated to two backups. -/
def oneJoin : List ThreadStep :=
  midway ++ [.backupThread 4 {}, .readConfirmation "f".toList, .send "f".toList,
    .backupThread 5 {}, .backupThread 5 {}, .backupThread 5 {}, .readConfirmation "f".toList,
    .post "f".toList]

theorem synced_at_rest_oneJoin :
    ∃ s t, syncedThreads.exec twoBackups oneJoin = some s ∧
      syncedThreads.step s (.finish "f".toList {}) = some t ∧
      ∀ b ∈ t.backups, Synced t.server b := by
  obtain ⟨s, hs⟩ : ∃ s, syncedThreads.exec twoBackups oneJoin = some s :=
    Option.isSome_iff_exists.1 (by decide)
  obtain ⟨t, ht⟩ : ∃ t, syncedThreads.step s (.finish "f".toList {}) = some t := by
    cases hs
    exact Option.isSome_iff_exists.1 (by decide)
  have hstart : Start twoBackups :=
    ⟨rfl, fun _ => ⟨rfl, rfl, rfl, fun t ht => by cases ht⟩, fun _ => rfl, rfl⟩
  have hinit : syncedThreads.init twoBackups := by
    refine ⟨⟨hstart, by decide⟩, ?_⟩
    intro b hb
    obtain ⟨socket, -, rfl⟩ := List.mem_map.1 hb
    rfl
  have hlabels : ∀ l ∈ oneJoin, l.feAddress = some "f".toList ∨ l.feAddress = none := by decide
  have hothers : ∀ fe, fe ≠ "f".toList → s.listener fe = .reading := by
    intro fe hne
    refine listener_exec hs fun l hl hfe => ?_
    rcases hlabels l hl with h | h
    · exact hne (Option.some.inj (hfe.symm.trans h))
    · rw [h] at hfe
      cases hfe
  have hrun : syncedThreads.ReachesWhen independentSteps s := by
    refine .exec (.start hinit) (fun l hl u => ?_) hs
    cases l with
    | finish => simp [oneJoin, midway] at hl
    | _ => trivial
  have hmoves : Moves s (.finish "f".toList {}) t := moves_of_step ht
  refine ⟨s, t, hs, ht, synced_at_rest (hrun.next ?_ ht) fun fe => ?_⟩
  · intro x _ fe y hne hy
    rw [hothers fe hne] at hy
    cases hy
  · by_cases hne : fe = "f".toList
    · subst hne
      cases hmoves with
      | finish =>
        show (s.move "f".toList .reading).listener "f".toList = .reading
        exact move_self s "f".toList .reading
    · rw [hmoves.listener fun h => hne (Option.some.inj h).symm, hothers fe hne]

end Replicating

end InstantMessenger
