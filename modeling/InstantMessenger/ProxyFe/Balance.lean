import InstantMessenger.ProxyFe.FrontEnd
import InstantMessenger.Server.Sessions

/-!
# The balance of a server

A message that a front end has read from a client is in its hands, on its way to
the primary, in the hands of the primary, or handed to its group.

* `tally` — how often a message is among the packets somewhere.
* `Failover.Balanced` — **the invariant of a server**: every message that was read
  is in one of these places, and in no two of them.
* `Failover.Moves` — **the front end loses and doubles nothing** in a step, as long
  as it writes messages to a socket that a server reads.
-/

namespace InstantMessenger

open Slots

/-! ## Where a message is -/

/-- How often the message with this serial number is among these packets. -/
def tally (n : Nat) (xs : List Tagged) : Nat :=
  xs.countP fun x => x.packet.isMessage && x.serial == n

@[simp] theorem tally_nil (n : Nat) : tally n [] = 0 := rfl

@[simp] theorem tally_append (n : Nat) (xs ys : List Tagged) :
    tally n (xs ++ ys) = tally n xs + tally n ys := List.countP_append

theorem tally_cons (n : Nat) (x : Tagged) (xs : List Tagged) :
    tally n (x :: xs) = tally n [x] + tally n xs := tally_append n [x] xs

/-- A packet that is no message counts for nothing. -/
theorem tally_of_not_isMessage {x : Tagged} (h : x.packet.isMessage = false) (n : Nat) :
    tally n [x] = 0 := by
  rw [tally, List.countP_singleton, h]
  rfl

theorem tally_of_isMessage {x : Tagged} (h : x.packet.isMessage = true) (n : Nat) :
    tally n [x] = [x.serial].count n := by
  rw [tally, List.countP_singleton, h, Bool.true_and, List.count_singleton]

theorem tally_eq_zero {n : Nat} {xs : List Tagged}
    (h : ∀ x ∈ xs, x.packet.isMessage = false) : tally n xs = 0 := by
  refine List.countP_eq_zero.2 ?_
  intro x hx
  rw [h x hx]
  exact Bool.false_ne_true

/-- The packet in the hands of a client's thread. -/
def ClientThread.holds : ClientThread → List Tagged
  | .reading => []
  | .waiting x => [x]
  | .sending x => [x]

/-- The packet in the hands of the primary. -/
def PrimaryThread.holds : PrimaryThread → List Tagged
  | .reading => []
  | .replicating x _ => [x]
  | .confirming x _ => [x]
  | .replicated x => [x]

/-- A message whose group exists is handed to it. -/
theorem count_handedTo {groups : List Group} {x : Tagged}
    (h : x.packet.isMessage = true → Server.groupExists groups x.packet.group = true) (n : Nat) :
    (handedTo groups x).count n = tally n [x] := by
  cases hm : x.packet.isMessage with
  | false =>
    rw [tally_of_not_isMessage hm, handedTo, hm]
    rfl
  | true =>
    rw [tally_of_isMessage hm, handedTo, hm, h hm]
    rfl

/-! ## The groups of a server -/

theorem Server.groupExists_iff_replica {s : Server} {g : Str} :
    groupExists s.groupMap g = true ↔ g ∈ Replica.names s.replica.groups := by
  rw [← Replica.groupExists_iff, Replica.groupExists, Server.replica, any_groupName_replica]

/-- Servers with equal replica states hand the same messages to their groups. -/
theorem handedTo_congr {a b : Server} (h : a.replica = b.replica) (x : Tagged) :
    handedTo a.groupMap x = handedTo b.groupMap x := by
  have hgroups : Server.groupExists a.groupMap x.packet.group =
      Server.groupExists b.groupMap x.packet.group := by
    rw [Bool.eq_iff_iff, Server.groupExists_iff_replica, Server.groupExists_iff_replica, h]
  rw [handedTo, handedTo, hgroups]

/-- A group stays a group. -/
theorem Server.groupExists_of_apply {s t : Server} {p : Packet} {fe : Str}
    (h : t.replica = s.replica.apply p fe) {g : Str} (hg : groupExists s.groupMap g = true) :
    groupExists t.groupMap g = true := by
  rw [groupExists_iff_replica] at hg ⊢
  rw [h]
  exact Replica.names_subset_receive ⟨fe, p⟩ s.replica hg

/-- A client is accepted in a group that exists from then on. -/
theorem Server.groupExists_of_accepted {s : Server} {o : Outside} {p : Packet} {fe g : Str}
    (hg : g ∈ Failover.acceptedIn p (s.applyLocally o p fe).2) :
    groupExists (s.applyLocally o p fe).1.groupMap g = true := by
  rw [Failover.acceptedIn] at hg
  split at hg
  · rename_i hsent
    obtain rfl := List.mem_singleton.1 hg
    rw [groupExists_iff_replica, applyLocally_replica]
    unfold applyLocally at hsent
    unfold Replica.apply
    cases h : p.type <;>
      simp only [Packet.isMessage, Packet.isKeepAlive, Packet.isJoinMessage, Packet.isDisconnect, h,
        beq_self_eq_true, reduceCtorEq, beq_iff_eq, if_true, if_false, List.any_cons, List.any_nil,
        Bool.or_false, Bool.false_eq_true] at hsent
    case JOIN_PACKET =>
      rw [Replica.join_groups]
      unfold registerUserToServer at hsent
      by_cases hlimit : (incrementNumberOfConnectionsFromUser s.connectionsCount p.username).2 =
          USER_SESSIONS_LIMIT_REACHED
      · rw [if_pos hlimit] at hsent
        split at hsent <;> simp at hsent
      · have hlimit' : ¬(incrementNumberOfConnectionsFromUser s.replica.connectionsCount
            p.username).2 = USER_SESSIONS_LIMIT_REACHED := hlimit
        rw [if_neg hlimit', Replica.names_updateGroup (Replica.addSession_keepsName _ _)]
        exact Replica.mem_names_withGroup _ _
  · exact absurd hg List.not_mem_nil

namespace Failover

/-! ## The balance of a server -/

/-- The packets in the hands of the front end, or on their way to the primary. -/
def atFrontEnd (s : Failover) : List Tagged :=
  s.threads.flatMap ClientThread.holds ++ (s.processing_message.toList ++ s.buffer)

/-- **Every message that was read** was handed to its group by this server, or is
still to come: in a replication packet, among `ys`, or from the front end. -/
structure Balanced (s : Failover) (b : Node) (ys : List Tagged) : Prop where
  count : ∀ n, b.handed.count n + tally n (b.incoming ++ (ys ++ s.atFrontEnd)) = s.read.count n
  accepted : ∀ x ∈ b.incoming ++ (ys ++ s.atFrontEnd), x.packet.isMessage = true →
    x.packet.group ∈ s.accepted
  groups : ∀ g ∈ s.accepted, Server.groupExists b.server.groupMap g = true

section Balance

variable {s t : Failover} {b c : Node} {xs ys zs : List Tagged}

/-- What the front end does to its packets.  It takes one from a client, or moves
it on; what it loses is no message. -/
structure Forwards (s t : Failover) : Prop where
  count : ∀ n, tally n t.atFrontEnd + s.read.count n = tally n s.atFrontEnd + t.read.count n
  carried : ∀ x ∈ t.atFrontEnd, x.packet.isMessage = true →
    x ∈ s.atFrontEnd ∨ x.packet.group ∈ s.accepted
  accepted : t.accepted = s.accepted

theorem Balanced.forward (h : Balanced s b ys) (hst : Forwards s t) : Balanced t b ys where
  count := by
    intro n
    have hcount := h.count n
    have hmoved := hst.count n
    simp only [tally_append] at hcount ⊢
    omega
  accepted := by
    intro x hx hm
    rw [hst.accepted]
    rcases List.mem_append.1 hx with hx | hx
    · exact h.accepted x (List.mem_append_left _ hx) hm
    · rcases List.mem_append.1 hx with hx | hx
      · exact h.accepted x (List.mem_append_right _ (List.mem_append_left _ hx)) hm
      · rcases hst.carried x hx hm with hx | hg
        · exact h.accepted x (List.mem_append_right _ (List.mem_append_right _ hx)) hm
        · exact hg
  groups := by rw [hst.accepted]; exact h.groups

/-- A server handles a packet that was still to come, and may accept a client. -/
theorem Balanced.apply {x : Tagged} {more : List Str} {fe : Str} (h : Balanced s b ys)
    (hperm : (b.incoming ++ (ys ++ s.atFrontEnd)).Perm (x :: (c.incoming ++ (zs ++ t.atFrontEnd))))
    (hhanded : c.handed = b.handed ++ handedTo b.server.groupMap x)
    (hreplica : c.server.replica = b.server.replica.apply x.packet fe)
    (hread : t.read = s.read) (haccepted : t.accepted = s.accepted ++ more)
    (hmore : ∀ g ∈ more, Server.groupExists c.server.groupMap g = true) : Balanced t c zs where
  count := by
    intro n
    have hcount := h.count n
    have hx : (handedTo b.server.groupMap x).count n = tally n [x] :=
      count_handedTo
        (fun hm => h.groups _ (h.accepted x (hperm.mem_iff.2 (List.mem_cons_self ..)) hm)) n
    have htally : tally n (b.incoming ++ (ys ++ s.atFrontEnd)) =
        tally n (x :: (c.incoming ++ (zs ++ t.atFrontEnd))) := hperm.countP_eq _
    rw [htally, tally_cons] at hcount
    rw [hhanded, hread, List.count_append, hx]
    omega
  accepted := by
    intro y hy hm
    rw [haccepted]
    exact List.mem_append_left _
      (h.accepted y (hperm.mem_iff.2 (List.mem_cons_of_mem _ hy)) hm)
  groups := by
    rw [haccepted, List.forall_mem_append]
    exact ⟨fun g hg => Server.groupExists_of_apply hreplica (h.groups g hg), hmore⟩

/-- The same packets, in other hands. -/
theorem Balanced.perm (h : Balanced s b ys)
    (hperm : (b.incoming ++ (ys ++ s.atFrontEnd)).Perm (c.incoming ++ (zs ++ t.atFrontEnd)))
    (hhanded : c.handed = b.handed) (hgroups : c.server.groupMap = b.server.groupMap)
    (hread : t.read = s.read) (haccepted : t.accepted = s.accepted) : Balanced t c zs where
  count := by
    intro n
    have hcount := h.count n
    have htally : tally n (b.incoming ++ (ys ++ s.atFrontEnd)) =
        tally n (c.incoming ++ (zs ++ t.atFrontEnd)) := hperm.countP_eq _
    rw [hhanded, hread, ← htally]
    exact hcount
  accepted := by
    intro y hy hm
    rw [haccepted]
    exact h.accepted y (hperm.mem_iff.2 hy) hm
  groups := by rw [haccepted, hgroups]; exact h.groups

end Balance

/-! ## The threads of the front end -/

section FrontEnd

variable {s t : Failover} {fe : Str}

/-- A step of the front end: no server moves. -/
structure Moves (s t : Failover) : Prop extends Forwards s t where
  primary : t.primary = s.primary
  heir : t.heir = s.heir
  listener : t.listener = s.listener
  backups : t.backups = s.backups

/-- A message is written to `serverRM_socket` when a live server reads it, or else
the write fails. -/
def writesToServer (s : Failover) (succeeds : Bool) : Bool :=
  match s.serverRM_socket with
  | .connected => true
  | .unseen => !succeeds
  | .closed => true
  | .reused => false

/-- A thread sends by itself what is no message; serial numbers are not used
twice. -/
structure Orderly (s : Failover) : Prop where
  sending : ∀ x, ClientThread.sending x ∈ s.threads → x.packet.isMessage = false
  fresh : ∀ n ∈ s.read, n < s.serial
  distinct : s.read.Nodup

theorem Forwards.same (hat : t.atFrontEnd = s.atFrontEnd) (hread : t.read = s.read)
    (haccepted : t.accepted = s.accepted) : Forwards s t where
  count := by rw [hat, hread]; exact fun _ => rfl
  carried := by rw [hat]; exact fun _ hx _ => .inl hx
  accepted := haccepted

theorem moves_connect {takesNumber : Bool} (hst : step fe s (.connect takesNumber) = some t) :
    Moves s t := by
  have hat : (s.threads ++ [ClientThread.reading]).flatMap ClientThread.holds =
      s.threads.flatMap ClientThread.holds := by
    rw [List.flatMap_append]
    exact List.append_nil _
  have hsame : ∀ r : ServerSocket,
      Moves s { s with threads := s.threads ++ [.reading], serverRM_socket := r } := fun r =>
    ⟨.same (congrArg (· ++ (s.processing_message.toList ++ s.buffer)) hat) rfl rfl,
      rfl, rfl, rfl, rfl⟩
  simp only [step] at hst
  split at hst
  · split at hst
    · cases hst
      exact hsame _
    · cases hst
  · cases hst
    exact hsame _

theorem moves_readClient {i : Nat} {p : Packet} (hst : step fe s (.readClient i p) = some t) :
    Moves s t := by
  simp only [step] at hst
  split at hst
  · rename_i hc
    obtain ⟨hi, -, haccepted⟩ := hc
    cases hst
    have hholds : (if p.isMessage then ClientThread.waiting ⟨s.serial, p⟩
        else .sending ⟨s.serial, p⟩).holds = [⟨s.serial, p⟩] := by split <;> rfl
    refine ⟨⟨fun n => ?_, fun x hx hm => ?_, rfl⟩, rfl, rfl, rfl, rfl⟩
    · have hset := countP_flatMap_set ClientThread.holds
        (fun x : Tagged => x.packet.isMessage && x.serial == n) hi
        (if p.isMessage then .waiting ⟨s.serial, p⟩ else .sending ⟨s.serial, p⟩)
      have hnew : tally n [⟨s.serial, p⟩] = (if p.isMessage then [s.serial] else []).count n := by
        cases hm : p.isMessage with
        | true => exact tally_of_isMessage hm n
        | false => exact tally_of_not_isMessage hm n
      rw [hholds] at hset
      simp only [atFrontEnd, tally_append, List.count_append] at hset ⊢
      simp only [tally, ClientThread.holds, List.countP_nil] at hset hnew ⊢
      omega
    · rcases List.mem_append.1 hx with hx | hx
      · rcases mem_flatMap_set hx with hx | hx
        · rw [hholds] at hx
          obtain rfl := List.mem_singleton.1 hx
          exact .inr (haccepted hm)
        · exact .inl (List.mem_append_left _ hx)
      · exact .inl (List.mem_append_right _ hx)
  · cases hst

theorem moves_handOver {i : Nat} (hst : step fe s (.handOver i) = some t) : Moves s t := by
  simp only [step] at hst
  split at hst
  · rename_i x hi hslot
    cases hst
    refine ⟨⟨fun n => ?_, fun y hy _ => .inl ?_, rfl⟩, rfl, rfl, rfl, rfl⟩
    · have hset := countP_flatMap_set ClientThread.holds
        (fun x : Tagged => x.packet.isMessage && x.serial == n) hi .reading
      simp only [atFrontEnd, tally_append, hslot, Option.toList] at hset ⊢
      simp only [tally, ClientThread.holds, List.countP_nil] at hset ⊢
      omega
    · simp only [atFrontEnd, hslot, Option.toList] at hy ⊢
      rcases List.mem_append.1 hy with hy | hy
      · rcases mem_flatMap_set hy with hy | hy
        · exact absurd hy List.not_mem_nil
        · exact List.mem_append_left _ hy
      · rcases List.mem_append.1 hy with hy | hy
        · exact List.mem_append_left _
            (List.mem_flatMap.2 ⟨_, List.mem_of_getElem? hi, hy⟩)
        · exact List.mem_append_right _ hy
  · cases hst

/-- A turn of the sender's loop moves the message on, or leaves it. -/
theorem moves_send {succeeds : Bool} (hok : s.writesToServer succeeds = true)
    (hst : step fe s (.send succeeds) = some t) : Moves s t := by
  obtain ⟨x, hslot, rfl⟩ := Option.map_eq_some_iff.1 hst
  have hstays : Moves s s := ⟨.same rfl rfl rfl, rfl, rfl, rfl, rfl⟩
  unfold sendToServer sendPacket
  unfold writesToServer at hok
  cases hsocket : s.serverRM_socket with
  | connected =>
    have hat : ({ s with buffer := s.buffer ++ [x], processing_message := none } :
        Failover).atFrontEnd.Perm s.atFrontEnd := by
      rw [atFrontEnd, atFrontEnd, hslot]
      exact (List.perm_append_singleton x s.buffer).append_left _
    exact ⟨⟨fun n => congrArg (· + s.read.count n) (hat.countP_eq _),
      fun y hy _ => .inl (hat.mem_iff.1 hy), rfl⟩, rfl, rfl, rfl, rfl⟩
  | unseen =>
    rw [hsocket] at hok
    cases succeeds with
    | true => cases hok
    | false => exact hstays
  | closed => exact hstays
  | reused => rw [hsocket] at hok; cases hok

/-- A turn of the loop of a client's thread: what may be lost is no message. -/
theorem moves_sendOwn (hs : Orderly s) {i : Nat} {succeeds : Bool}
    (hst : step fe s (.sendOwn i succeeds) = some t) : Moves s t := by
  simp only [step] at hst
  split at hst
  · rename_i x hi
    cases hst
    have hx := hs.sending x (List.mem_of_getElem? hi)
    have hstays : Moves s s := ⟨.same rfl rfl rfl, rfl, rfl, rfl, rfl⟩
    have hgoes : ∀ buffer : List Tagged, (buffer = s.buffer ∨ buffer = s.buffer ++ [x]) →
        Moves s { s with buffer, threads := s.threads.set i .reading } := by
      intro buffer hbuffer
      have htally : ∀ n, tally n buffer = tally n s.buffer := by
        rcases hbuffer with rfl | rfl
        · exact fun _ => rfl
        · intro n
          rw [tally_append, tally_of_not_isMessage hx, Nat.add_zero]
      refine ⟨⟨fun n => ?_, fun y hy hm => .inl ?_, rfl⟩, rfl, rfl, rfl, rfl⟩
      · have hset := countP_flatMap_set ClientThread.holds
          (fun x : Tagged => x.packet.isMessage && x.serial == n) hi .reading
        have hzero := tally_of_not_isMessage hx n
        simp only [atFrontEnd, tally_append, htally] at hset ⊢
        simp only [tally, ClientThread.holds, List.countP_nil] at hset hzero ⊢
        omega
      · rcases List.mem_append.1 hy with hy | hy
        · rcases mem_flatMap_set hy with hy | hy
          · exact absurd hy List.not_mem_nil
          · exact List.mem_append_left _ hy
        · rcases List.mem_append.1 hy with hy | hy
          · exact List.mem_append_right _ (List.mem_append_left _ hy)
          · rcases hbuffer with rfl | rfl
            · exact List.mem_append_right _ (List.mem_append_right _ hy)
            · rcases List.mem_append.1 hy with hy | hy
              · exact List.mem_append_right _ (List.mem_append_right _ hy)
              · rw [List.mem_singleton.1 hy, hx] at hm
                cases hm
    unfold sendToServer sendPacket
    cases hsocket : s.serverRM_socket with
    | connected =>
      have hgo := hgoes (s.buffer ++ [x]) (.inr rfl)
      rw [hsocket] at hgo
      exact hgo
    | unseen =>
      cases succeeds with
      | true => exact hgoes _ (.inl rfl)
      | false => exact hstays
    | closed => exact hstays
    | reused => exact hgoes _ (.inl rfl)
  · cases hst

end FrontEnd

end Failover

end InstantMessenger
