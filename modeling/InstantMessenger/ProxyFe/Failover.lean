import InstantMessenger.ProxyFe.Balance

/-!
# Messages across a failover

A primary is balanced until it crashes, and its backups follow it; after the crash
it is the heir that has to be balanced.

* `Failover.Serving`, `Failover.Orphaned`, `Failover.Succeeded` — before the crash,
  between the crash and the promotion, and after it.
* `Failover.Serving.crash` — **the heir takes over the balance** when no message was
  on its way to the primary that the heir was not sent.
* `Failover.crashes_between_messages` — the condition on a run: the primary crashes
  only so, and no message is written to a socket behind which no server reads.
* `Failover.failover_exactly_once` — **then the new primary has handed every message
  to its group once**.
* `Failover.lostMessage_counterexample` — a message in the buffer of the primary.
-/

namespace InstantMessenger

open Slots

namespace Failover

/-! ## The steps of the servers -/

section Servers

variable {s t : Failover} {fe : Str} {p b : Node}

/-- The front end has a primary, and it is balanced. -/
structure Attended (s : Failover) (p : Node) : Prop where
  primary : s.primary = some p
  balanced : Balanced s p s.listener.holds

theorem Attended.moves (h : Attended s p) (hst : Moves s t) : Attended t p where
  primary := hst.primary.trans h.primary
  balanced := by
    rw [hst.listener]
    exact h.balanced.forward hst.toForwards

theorem step_readFrontEnd (hst : step fe s .readFrontEnd = some t) :
    ∃ x rest, s.listener = .reading ∧ s.buffer = x :: rest ∧
      t = { s with listener := .replicating x 0, buffer := rest } := by
  simp only [step] at hst
  split at hst
  · rename_i x rest _ hl hb
    exact ⟨x, rest, hl, hb, (Option.some.inj hst).symm⟩
  · cases hst

theorem Attended.readFrontEnd {x : Tagged} {rest : List Tagged} (h : Attended s p)
    (hl : s.listener = .reading) (hb : s.buffer = x :: rest) :
    Attended { s with listener := .replicating x 0, buffer := rest } p where
  primary := h.primary
  balanced := by
    refine h.balanced.perm ?_ rfl rfl rfl rfl
    rw [hl, atFrontEnd, atFrontEnd, hb]
    refine List.Perm.append_left _ ?_
    change (s.threads.flatMap ClientThread.holds ++
      (s.processing_message.toList ++ x :: rest)).Perm
      (x :: (s.threads.flatMap ClientThread.holds ++ (s.processing_message.toList ++ rest)))
    exact (List.perm_middle.append_left _).trans List.perm_middle

/-- The primary goes on with the packet it has. -/
theorem Attended.goesOn {listener : PrimaryThread} {backups : List Node} (h : Attended s p)
    (hholds : listener.holds = s.listener.holds) : Attended { s with listener, backups } p where
  primary := h.primary
  balanced := by
    have hsame := h.balanced
    rw [← hholds] at hsame
    exact hsame.forward (.same rfl rfl rfl)

theorem step_replicate (hst : step fe s .replicate = some t) :
    ∃ x i b, s.listener = .replicating x i ∧ s.backups[i]? = some b ∧
      t = { s with
        backups := s.backups.set i { b with
          incoming := b.incoming ++
            [{ x with packet := Server.replicationPacket x.packet fe }] }
        listener := .confirming x i } := by
  simp only [step] at hst
  split at hst
  · rename_i x i hl
    obtain ⟨b, hb, rfl⟩ := Option.map_eq_some_iff.1 hst
    exact ⟨x, i, b, hl, hb, rfl⟩
  · cases hst

theorem step_handle {i : Nat} {o : Outside} (hst : step fe s (.handle i o) = some t) :
    ∃ b b', s.backups[i]? = some b ∧ b.handle o = some b' ∧
      t = { s with backups := s.backups.set i b' } := by
  obtain ⟨b, hb, hmap⟩ := Option.bind_eq_some_iff.1 hst
  obtain ⟨b', hb', rfl⟩ := Option.map_eq_some_iff.1 hmap
  exact ⟨b, b', hb, hb', rfl⟩

theorem step_readConfirmation (hst : step fe s .readConfirmation = some t) :
    ∃ x i b, s.listener = .confirming x i ∧ s.backups[i]? = some b ∧ b.incoming = [] ∧
      t = { s with listener := .replicating x (i + 1) } := by
  simp only [step] at hst
  split at hst
  · rename_i x i hl
    obtain ⟨b, hb, hif⟩ := Option.bind_eq_some_iff.1 hst
    split at hif
    · rename_i hin
      exact ⟨x, i, b, hl, hb, hin, (Option.some.inj hif).symm⟩
    · cases hif
  · cases hst

theorem step_post (hst : step fe s .post = some t) :
    ∃ x i, s.listener = .replicating x i ∧ s.backups.length ≤ i ∧
      t = { s with listener := .replicated x } := by
  simp only [step] at hst
  split at hst
  · rename_i x i hl
    split at hst
    · rename_i hi
      exact ⟨x, i, hl, hi, (Option.some.inj hst).symm⟩
    · cases hst
  · cases hst

theorem step_finish {o : Outside} (hst : step fe s (.finish o) = some t) :
    ∃ p x, s.primary = some p ∧ s.listener = .replicated x ∧
      t = { s with
        primary := some (p.finish fe o x)
        listener := .reading
        accepted := s.accepted ++
          acceptedIn x.packet (p.server.applyLocally o x.packet fe).2 } := by
  simp only [step] at hst
  split at hst
  · rename_i p x hp hl
    exact ⟨p, x, hp, hl, (Option.some.inj hst).symm⟩
  · cases hst

theorem Attended.finish {o : Outside} {x : Tagged} (h : Attended s p)
    (hl : s.listener = .replicated x) :
    Attended { s with
      primary := some (p.finish fe o x)
      listener := .reading
      accepted := s.accepted ++ acceptedIn x.packet (p.server.applyLocally o x.packet fe).2 }
      (p.finish fe o x) where
  primary := rfl
  balanced := by
    refine h.balanced.apply ?_ rfl (Server.applyLocally_replica _ _ _ _) rfl rfl fun g hg =>
      Server.groupExists_of_accepted hg
    rw [hl]
    exact List.perm_middle

/-- A server handles the first packet that was replicated to it. -/
theorem handle_eq_some {o : Outside} {b' : Node} (h : b.handle o = some b') :
    ∃ x, b.incoming = x :: b'.incoming ∧
      b'.handed = b.handed ++ handedTo b.server.groupMap x ∧
      b'.server = b.server.handleRMCommunication o x.packet := by
  unfold Node.handle at h
  split at h
  · cases h
  · rename_i x rest hin
    cases h
    exact ⟨x, hin, rfl, rfl⟩

theorem step_crash {k : Nat} (hst : step fe s (.crash k) = some t) :
    s.heir = none ∧ k < s.backups.length ∧
      t = { s with
        primary := none
        listener := .reading
        buffer := []
        serverRM_socket := .unseen
        heir := some k } := by
  simp only [step] at hst
  split at hst
  · rename_i hc
    exact ⟨hc.2.1, hc.2.2, (Option.some.inj hst).symm⟩
  · cases hst

theorem step_promote (hst : step fe s .promote = some t) :
    ∃ k b, s.primary = none ∧ s.heir = some k ∧ s.backups[k]? = some b ∧
      t = { s with
        primary := some { b with
          server := { b.server with isPrimaryServer := true, feAddresses := [fe] } }
        backups := s.backups.eraseIdx k } := by
  simp only [step] at hst
  split at hst
  · rename_i k hp hk
    obtain ⟨b, hb, rfl⟩ := Option.map_eq_some_iff.1 hst
    exact ⟨k, b, hp, hk, hb, rfl⟩
  · cases hst

theorem step_handlePromoted {o : Outside} (hst : step fe s (.handlePromoted o) = some t) :
    ∃ p p', s.primary = some p ∧ p.handle o = some p' ∧ t = { s with primary := some p' } := by
  obtain ⟨p, hp, hmap⟩ := Option.bind_eq_some_iff.1 hst
  obtain ⟨p', hp', rfl⟩ := Option.map_eq_some_iff.1 hmap
  exact ⟨p, p', hp, hp', rfl⟩

end Servers

/-! ## Before the crash -/

section Serving

variable {s t : Failover} {fe : Str} {p b : Node} {x : Tagged}

/-- The packet as the backups get it. -/
def replicated (fe : Str) (x : Tagged) : Tagged :=
  { x with packet := Server.replicationPacket x.packet fe }

/-- The backup has what the primary has. -/
structure Agrees (p b : Node) : Prop where
  incoming : b.incoming = []
  replica : b.server.replica = p.server.replica
  handed : b.handed = p.handed

/-- The backup was sent a packet and has not handled it. -/
structure Sent (fe : Str) (x : Tagged) (p b : Node) : Prop where
  incoming : b.incoming = [replicated fe x]
  replica : b.server.replica = p.server.replica
  handed : b.handed = p.handed

/-- The backup has handled a packet that the primary has not applied. -/
structure Ahead (fe : Str) (x : Tagged) (p b : Node) : Prop where
  incoming : b.incoming = []
  replica : b.server.replica = p.server.replica.apply x.packet fe
  handed : b.handed = p.handed ++ handedTo p.server.groupMap x

/-- What the backup with this number has, by what the primary is doing. -/
def AtBackup (fe : Str) (p b : Node) (i : Nat) : PrimaryThread → Prop
  | .reading => Agrees p b
  | .replicating x k => if i < k then Ahead fe x p b else Agrees p b
  | .confirming x k =>
    if i < k then Ahead fe x p b else if i = k then Sent fe x p b ∨ Ahead fe x p b else Agrees p b
  | .replicated x => Ahead fe x p b

/-- Before the crash. -/
structure Serving (fe : Str) (s : Failover) (p : Node) : Prop extends Attended s p where
  heir : s.heir = none
  incoming : p.incoming = []
  backups : ∀ i b, s.backups[i]? = some b → AtBackup fe p b i s.listener

/-- A backup handles the packet it was sent. -/
theorem Sent.handle {o : Outside} {b' : Node} (h : Sent fe x p b) (hb : b.handle o = some b') :
    Ahead fe x p b' := by
  obtain ⟨y, hin, hhanded, hserver⟩ := handle_eq_some hb
  rw [h.incoming, List.cons.injEq] at hin
  obtain ⟨rfl, hrest⟩ := hin
  refine ⟨hrest.symm, ?_, ?_⟩
  · rw [hserver, ← h.replica]
    exact Server.handleRMCommunication_replica b.server o x.packet fe
  · rw [hhanded, h.handed, handedTo_congr h.replica]
    rfl

/-- Only a backup that was sent a packet has one to handle. -/
theorem AtBackup.handle {i : Nat} {o : Outside} {b' : Node} {l : PrimaryThread}
    (h : AtBackup fe p b i l) (hb : b.handle o = some b') : AtBackup fe p b' i l := by
  have hne : b.incoming ≠ [] := by
    obtain ⟨y, hin, -⟩ := handle_eq_some hb
    rw [hin]
    exact List.cons_ne_nil _ _
  cases l with
  | reading => exact absurd h.incoming hne
  | replicating y k =>
    rw [AtBackup] at h
    split at h
    · exact absurd h.incoming hne
    · exact absurd h.incoming hne
  | confirming y k =>
    rw [AtBackup] at h ⊢
    split at h
    · exact absurd h.incoming hne
    · rename_i hik
      rw [if_neg hik]
      split at h
      · rename_i heq
        rw [if_pos heq]
        rcases h with h | h
        · exact .inr (h.handle hb)
        · exact absurd h.incoming hne
      · exact absurd h.incoming hne
  | replicated y => exact absurd h.incoming hne

/-- The primary applies the packet that its backups have handled. -/
theorem Ahead.finish {o : Outside} (h : Ahead fe x p b) : Agrees (p.finish fe o x) b where
  incoming := h.incoming
  replica := h.replica.trans (Server.applyLocally_replica _ _ _ _).symm
  handed := h.handed

theorem Serving.moves (h : Serving fe s p) (hst : Moves s t) : Serving fe t p where
  toAttended := h.toAttended.moves hst
  heir := hst.heir.trans h.heir
  incoming := h.incoming
  backups := by rw [hst.backups, hst.listener]; exact h.backups

theorem Serving.readFrontEnd (h : Serving fe s p) (hst : step fe s .readFrontEnd = some t) :
    Serving fe t p := by
  obtain ⟨x, rest, hl, hb, rfl⟩ := step_readFrontEnd hst
  refine ⟨h.toAttended.readFrontEnd hl hb, h.heir, h.incoming, ?_⟩
  intro i b hi
  have hold := h.backups i b hi
  rw [hl] at hold
  rw [AtBackup, if_neg (Nat.not_lt_zero i)]
  exact hold

theorem Serving.replicate (h : Serving fe s p) (hst : step fe s .replicate = some t) :
    Serving fe t p := by
  obtain ⟨x, k, b, hl, hb, rfl⟩ := step_replicate hst
  refine ⟨h.toAttended.goesOn (by rw [hl]; rfl), h.heir, h.incoming, ?_⟩
  intro i c hi
  rw [AtBackup]
  rcases getElem?_set_cases hb hi with ⟨rfl, rfl⟩ | ⟨hik, hi⟩
  · -- the backup that was next had what the primary has
    have hold := h.backups i b hb
    rw [hl, AtBackup, if_neg (lt_irrefl i)] at hold
    rw [if_neg (lt_irrefl i), if_pos rfl]
    exact .inl ⟨by rw [hold.incoming]; rfl, hold.replica, hold.handed⟩
  · have hold := h.backups i c hi
    rw [hl, AtBackup] at hold
    rw [if_neg hik]
    exact hold

theorem Serving.handle (h : Serving fe s p) {k : Nat} {o : Outside}
    (hst : step fe s (.handle k o) = some t) : Serving fe t p := by
  obtain ⟨b, b', hb, hb', rfl⟩ := step_handle hst
  refine ⟨h.toAttended.goesOn rfl, h.heir, h.incoming, ?_⟩
  intro i c hi
  rcases getElem?_set_cases hb hi with ⟨rfl, rfl⟩ | ⟨-, hi⟩
  · exact (h.backups i b hb).handle hb'
  · exact h.backups i c hi

theorem Serving.readConfirmation (h : Serving fe s p)
    (hst : step fe s .readConfirmation = some t) : Serving fe t p := by
  obtain ⟨x, k, b, hl, hb, hin, rfl⟩ := step_readConfirmation hst
  refine ⟨h.toAttended.goesOn (by rw [hl]; rfl), h.heir, h.incoming, ?_⟩
  intro i c hi
  have hold := h.backups i c hi
  rw [hl, AtBackup] at hold
  rw [AtBackup]
  rcases lt_trichotomy i k with hlt | rfl | hgt
  · rw [if_pos hlt] at hold
    rwa [if_pos (Nat.lt_succ_of_lt hlt)]
  · rw [if_neg (lt_irrefl i), if_pos rfl] at hold
    rw [if_pos (Nat.lt_succ_self i)]
    refine hold.resolve_left ?_
    intro hsent
    obtain rfl : b = c := Option.some.inj (hb.symm.trans hi)
    rw [hsent.incoming] at hin
    cases hin
  · rw [if_neg (by omega), if_neg (by omega)] at hold
    rwa [if_neg (by omega)]

theorem Serving.post (h : Serving fe s p) (hst : step fe s .post = some t) : Serving fe t p := by
  obtain ⟨x, k, hl, hk, rfl⟩ := step_post hst
  refine ⟨h.toAttended.goesOn (by rw [hl]; rfl), h.heir, h.incoming, ?_⟩
  intro i c hi
  have hold := h.backups i c hi
  have hlt : i < s.backups.length := (List.getElem?_eq_some_iff.1 hi).1
  rw [hl, AtBackup, if_pos (by omega)] at hold
  exact hold

theorem Serving.finish (h : Serving fe s p) {o : Outside} (hst : step fe s (.finish o) = some t) :
    ∃ q, Serving fe t q := by
  obtain ⟨p', x, hp', hl, rfl⟩ := step_finish hst
  obtain rfl : p = p' := Option.some.inj (h.primary.symm.trans hp')
  refine ⟨_, h.toAttended.finish hl, h.heir, h.incoming, ?_⟩
  intro i c hi
  have hold := h.backups i c hi
  rw [hl] at hold
  exact Ahead.finish hold

end Serving

/-! ## The crash -/

section Crash

variable {s t : Failover} {fe : Str} {p b : Node}

/-- Between the crash and the promotion. -/
structure Orphaned (s : Failover) (k : Nat) (b : Node) : Prop where
  primary : s.primary = none
  heir : s.heir = some k
  backup : s.backups[k]? = some b
  listener : s.listener = .reading
  balanced : Balanced s b []

/-- After the promotion. -/
structure Succeeded (s : Failover) (p : Node) : Prop extends Attended s p where
  heir : s.heir.isSome = true

/-- The heir was sent the message that is replicated, if there is one. -/
def sentTo (heir : Nat) : PrimaryThread → Bool
  | .replicating x i => !x.packet.isMessage || decide (heir < i)
  | .confirming x i => !x.packet.isMessage || decide (heir ≤ i)
  | _ => true

/-- The backup is behind the packet in the hands of the primary, which is no message
if the backup was to be sent one; or it was sent it. -/
theorem AtBackup.cases {k : Nat} {l : PrimaryThread} (h : AtBackup fe p b k l) :
    (Agrees p b ∧ (sentTo k l = true → ∀ x ∈ l.holds, x.packet.isMessage = false)) ∨
      ∃ x, l.holds = [x] ∧ (Sent fe x p b ∨ Ahead fe x p b) := by
  have hnot : ∀ (x : Tagged) (q : Bool), q = false → (!x.packet.isMessage || q) = true →
      ∀ y ∈ [x], y.packet.isMessage = false := by
    intro x q hq hor y hy
    rw [List.mem_singleton.1 hy]
    rw [hq, Bool.or_false] at hor
    simpa using hor
  cases l with
  | reading => exact .inl ⟨h, fun _ x hx => absurd hx List.not_mem_nil⟩
  | replicating x i =>
    rw [AtBackup] at h
    split at h
    · exact .inr ⟨x, rfl, .inr h⟩
    · rename_i hki
      exact .inl ⟨h, hnot x _ (decide_eq_false hki)⟩
  | confirming x i =>
    rw [AtBackup] at h
    split at h
    · exact .inr ⟨x, rfl, .inr h⟩
    · split at h
      · exact .inr ⟨x, rfl, h⟩
      · exact .inl ⟨h, hnot x _ (decide_eq_false (by omega))⟩
  | replicated x => exact .inr ⟨x, rfl, .inr h⟩

/-- What a backup has handled and was sent is what the primary has applied and has
in its hands. -/
theorem AtBackup.count {k : Nat} {l : PrimaryThread} (h : AtBackup fe p b k l)
    (hsent : sentTo k l = true)
    (hgroup : ∀ x ∈ l.holds, x.packet.isMessage = true →
      Server.groupExists p.server.groupMap x.packet.group = true) (n : Nat) :
    b.handed.count n + tally n b.incoming = p.handed.count n + tally n l.holds := by
  rcases h.cases with ⟨h, hnot⟩ | ⟨x, hl, h | h⟩
  · rw [h.incoming, h.handed, tally_nil, tally_eq_zero (hnot hsent)]
  · rw [h.incoming, h.handed, hl]
    rfl
  · have hx : x ∈ l.holds := by rw [hl]; exact List.mem_singleton.2 rfl
    rw [h.incoming, h.handed, hl, tally_nil, List.count_append, count_handedTo (hgroup x hx)]
    rfl

theorem AtBackup.groups {k : Nat} {l : PrimaryThread} (h : AtBackup fe p b k l) {g : Str}
    (hg : Server.groupExists p.server.groupMap g = true) :
    Server.groupExists b.server.groupMap g = true := by
  have hsame : b.server.replica = p.server.replica →
      Server.groupExists b.server.groupMap g = true := fun heq => by
    rwa [Server.groupExists_iff_replica, heq, ← Server.groupExists_iff_replica]
  rcases h.cases with ⟨h, -⟩ | ⟨x, -, h | h⟩
  · exact hsame h.replica
  · exact hsame h.replica
  · exact Server.groupExists_of_apply h.replica hg

/-- What was sent to a backup is in the hands of the primary. -/
theorem AtBackup.sent {k : Nat} {l : PrimaryThread} (h : AtBackup fe p b k l) :
    ∀ y ∈ b.incoming, ∃ x ∈ l.holds, y = replicated fe x := by
  intro y hy
  rcases h.cases with ⟨h, -⟩ | ⟨x, hl, h | h⟩
  · rw [h.incoming] at hy
    exact absurd hy List.not_mem_nil
  · rw [h.incoming] at hy
    refine ⟨x, ?_, List.mem_singleton.1 hy⟩
    rw [hl]
    exact List.mem_singleton.2 rfl
  · rw [h.incoming] at hy
    exact absurd hy List.not_mem_nil

/-- **The heir of a primary that crashes is balanced** when nothing was on its way
that the heir was not sent. -/
theorem Serving.crash (h : Serving fe s p) {k : Nat}
    (hbuffer : ∀ x ∈ s.buffer, x.packet.isMessage = false) (hsent : sentTo k s.listener = true)
    (hst : step fe s (.crash k) = some t) : ∃ b, Orphaned t k b := by
  obtain ⟨-, hk, rfl⟩ := step_crash hst
  obtain ⟨b, hb⟩ : ∃ b, s.backups[k]? = some b := ⟨_, List.getElem?_eq_getElem hk⟩
  have hat := h.backups k b hb
  have hbal := h.balanced
  have hcarried : ∀ x ∈ s.listener.holds, x.packet.isMessage = true →
      x.packet.group ∈ s.accepted := fun x hx =>
    hbal.accepted x (List.mem_append_right _ (List.mem_append_left _ hx))
  refine ⟨b, rfl, rfl, hb, rfl, ⟨fun n => ?_, fun x hx hm => ?_, fun g hg => ?_⟩⟩
  · have hcount := hbal.count n
    have hheir := hat.count hsent (fun x hx hm => hbal.groups _ (hcarried x hx hm)) n
    have hzero := @tally_eq_zero n s.buffer hbuffer
    rw [h.incoming] at hcount
    simp only [atFrontEnd, tally_append, tally_nil] at hcount ⊢
    omega
  · rcases List.mem_append.1 hx with hx | hx
    · obtain ⟨y, hy, rfl⟩ := hat.sent x hx
      exact hcarried y hy hm
    · refine hbal.accepted x (List.mem_append_right _ (List.mem_append_right _ ?_)) hm
      rw [List.nil_append, atFrontEnd, List.append_nil] at hx
      rw [atFrontEnd, ← List.append_assoc]
      exact List.mem_append_left _ hx
  · exact hat.groups (hbal.groups g hg)

end Crash

/-! ## After the crash -/

section AfterCrash

variable {s t : Failover} {fe : Str} {p b : Node} {k : Nat}

/-- A server handles what was replicated to it. -/
theorem Balanced.handle {o : Outside} {b' : Node} {ys : List Tagged} (h : Balanced s b ys)
    (hb : b.handle o = some b') (hat : t.atFrontEnd = s.atFrontEnd) (hread : t.read = s.read)
    (haccepted : t.accepted = s.accepted) : Balanced t b' ys := by
  obtain ⟨x, hin, hhanded, hserver⟩ := handle_eq_some hb
  have hreplica : b'.server.replica =
      b.server.replica.apply x.packet x.packet.frontEndAddress := by
    rw [hserver]
    exact Server.handleRMCommunication_replica b.server o x.packet x.packet.frontEndAddress
  refine h.apply ?_ hhanded hreplica hread (haccepted.trans (List.append_nil _).symm)
    fun g hg => absurd hg List.not_mem_nil
  rw [hin, hat]
  exact List.Perm.refl _

theorem Orphaned.moves (h : Orphaned s k b) (hst : Moves s t) : Orphaned t k b where
  primary := hst.primary.trans h.primary
  heir := hst.heir.trans h.heir
  backup := by rw [hst.backups]; exact h.backup
  listener := hst.listener.trans h.listener
  balanced := h.balanced.forward hst.toForwards

theorem Orphaned.handle (h : Orphaned s k b) {i : Nat} {o : Outside}
    (hst : step fe s (.handle i o) = some t) : ∃ b', Orphaned t k b' := by
  obtain ⟨c, c', hc, hc', rfl⟩ := step_handle hst
  by_cases hik : k = i
  · subst hik
    obtain rfl : b = c := Option.some.inj (h.backup.symm.trans hc)
    exact ⟨c', h.primary, h.heir, getElem?_set_self_of_some hc, h.listener,
      h.balanced.handle hc' rfl rfl rfl⟩
  · exact ⟨b, h.primary, h.heir, getElem?_set_of_ne hik h.backup, h.listener,
      h.balanced.forward (.same rfl rfl rfl)⟩

theorem Orphaned.promote (h : Orphaned s k b) (hst : step fe s .promote = some t) :
    ∃ p, Succeeded t p := by
  obtain ⟨k', b', -, hk', hb', rfl⟩ := step_promote hst
  obtain rfl : k = k' := Option.some.inj (h.heir.symm.trans hk')
  obtain rfl : b = b' := Option.some.inj (h.backup.symm.trans hb')
  refine ⟨_, ⟨rfl, ?_⟩, Option.isSome_iff_exists.2 ⟨k, hk'⟩⟩
  refine h.balanced.perm ?_ rfl rfl rfl rfl
  rw [h.listener]
  exact List.Perm.refl _

theorem Succeeded.moves (h : Succeeded s p) (hst : Moves s t) : Succeeded t p where
  toAttended := h.toAttended.moves hst
  heir := by rw [hst.heir]; exact h.heir

theorem Succeeded.handlePromoted (h : Succeeded s p) {o : Outside}
    (hst : step fe s (.handlePromoted o) = some t) : ∃ q, Succeeded t q := by
  obtain ⟨p', q, hp', hq, rfl⟩ := step_handlePromoted hst
  obtain rfl : p = p' := Option.some.inj (h.primary.symm.trans hp')
  exact ⟨q, ⟨rfl, h.balanced.handle hq rfl rfl rfl⟩, h.heir⟩

end AfterCrash

/-! ## Runs -/

section Runs

variable {s t : Failover} {fe : Str} {p b : Node} {l : FailoverStep}

/-- The condition on a step: the primary crashes while no message is on its way to
it and the heir has been sent the message it replicates, and a message is written
only to a socket that a server reads. -/
def crashes_between_messages (s : Failover) : FailoverStep → Bool
  | .crash k => s.buffer.all (fun x => !x.packet.isMessage) && sentTo k s.listener
  | .send succeeds => s.writesToServer succeeds
  | _ => true

/-- Where the run is. -/
inductive Phase (fe : Str) (s : Failover) : Prop
  | serving (p : Node) (h : Serving fe s p)
  | orphaned (k : Nat) (b : Node) (h : Orphaned s k b)
  | succeeded (p : Node) (h : Succeeded s p)

theorem Phase.moves (h : Phase fe s) (hst : Moves s t) : Phase fe t := by
  cases h with
  | serving p h => exact .serving p (h.moves hst)
  | orphaned k b h => exact .orphaned k b (h.moves hst)
  | succeeded p h => exact .succeeded p (h.moves hst)

/-- **A step keeps the phase, or goes on to the next.** -/
theorem Phase.step (h : Phase fe s) (hs : Orderly s) (hok : s.crashes_between_messages l = true)
    (hst : step fe s l = some t) : Phase fe t := by
  have hsame : ∀ r : ServerSocket, Moves s { s with serverRM_socket := r } := fun r =>
    ⟨.same rfl rfl rfl, rfl, rfl, rfl, rfl⟩
  cases l with
  | connect takesNumber => exact h.moves (moves_connect hst)
  | leave =>
    obtain ⟨-, ht⟩ := Option.ite_none_right_eq_some.1 hst
    cases ht
    exact h.moves (hsame _)
  | readClient i p => exact h.moves (moves_readClient hst)
  | handOver i => exact h.moves (moves_handOver hst)
  | send succeeds => exact h.moves (moves_send hok hst)
  | sendOwn i succeeds => exact h.moves (moves_sendOwn hs hst)
  | see =>
    obtain ⟨-, ht⟩ := Option.ite_none_right_eq_some.1 hst
    cases ht
    exact h.moves (hsame _)
  | accept =>
    obtain ⟨-, ht⟩ := Option.ite_none_right_eq_some.1 hst
    cases ht
    exact h.moves (hsame _)
  | readFrontEnd =>
    cases h with
    | serving p h => exact .serving p (h.readFrontEnd hst)
    | orphaned k b h =>
      simp only [step, h.primary] at hst
      cases hst
    | succeeded p h =>
      obtain ⟨x, rest, hl, hb, rfl⟩ := step_readFrontEnd hst
      exact .succeeded p ⟨h.toAttended.readFrontEnd hl hb, h.heir⟩
  | replicate =>
    cases h with
    | serving p h => exact .serving p (h.replicate hst)
    | orphaned k b h =>
      simp only [step, h.listener] at hst
      cases hst
    | succeeded p h =>
      obtain ⟨x, i, b, hl, -, rfl⟩ := step_replicate hst
      exact .succeeded p ⟨h.toAttended.goesOn (by rw [hl]; rfl), h.heir⟩
  | handle i o =>
    cases h with
    | serving p h => exact .serving p (h.handle hst)
    | orphaned k b h =>
      obtain ⟨b', h'⟩ := h.handle hst
      exact .orphaned k b' h'
    | succeeded p h =>
      obtain ⟨b, b', -, -, rfl⟩ := step_handle hst
      exact .succeeded p ⟨h.toAttended.goesOn rfl, h.heir⟩
  | readConfirmation =>
    cases h with
    | serving p h => exact .serving p (h.readConfirmation hst)
    | orphaned k b h =>
      simp only [step, h.listener] at hst
      cases hst
    | succeeded p h =>
      obtain ⟨x, i, b, hl, -, -, rfl⟩ := step_readConfirmation hst
      exact .succeeded p ⟨h.toAttended.goesOn (by rw [hl]; rfl), h.heir⟩
  | post =>
    cases h with
    | serving p h => exact .serving p (h.post hst)
    | orphaned k b h =>
      simp only [step, h.listener] at hst
      cases hst
    | succeeded p h =>
      obtain ⟨x, i, hl, -, rfl⟩ := step_post hst
      exact .succeeded p ⟨h.toAttended.goesOn (by rw [hl]; rfl), h.heir⟩
  | finish o =>
    cases h with
    | serving p h =>
      obtain ⟨q, h'⟩ := h.finish hst
      exact .serving q h'
    | orphaned k b h =>
      simp only [step, h.primary] at hst
      cases hst
    | succeeded p h =>
      obtain ⟨p', x, hp', hl, rfl⟩ := step_finish hst
      obtain rfl : p = p' := Option.some.inj (h.primary.symm.trans hp')
      exact .succeeded _ ⟨h.toAttended.finish hl, h.heir⟩
  | crash k =>
    cases h with
    | serving p h =>
      rw [crashes_between_messages, Bool.and_eq_true, List.all_eq_true] at hok
      obtain ⟨b, h'⟩ := h.crash (fun x hx => by simpa using hok.1 x hx) hok.2 hst
      exact .orphaned k b h'
    | orphaned k' b h =>
      obtain ⟨hheir, -⟩ := step_crash hst
      rw [h.heir] at hheir
      cases hheir
    | succeeded p h =>
      obtain ⟨hheir, -⟩ := step_crash hst
      have hsome := h.heir
      rw [hheir] at hsome
      cases hsome
  | promote =>
    cases h with
    | serving p h =>
      simp only [step, h.primary] at hst
      cases hst
    | orphaned k b h =>
      obtain ⟨p, h'⟩ := h.promote hst
      exact .succeeded p h'
    | succeeded p h =>
      simp only [step, h.primary] at hst
      cases hst
  | handlePromoted o =>
    cases h with
    | serving p h =>
      obtain ⟨p', q, hp', hq, -⟩ := step_handlePromoted hst
      obtain rfl : p = p' := Option.some.inj (h.primary.symm.trans hp')
      rw [Node.handle, h.incoming] at hq
      cases hq
    | orphaned k b h =>
      obtain ⟨p', q, hp', -, -⟩ := step_handlePromoted hst
      rw [h.primary] at hp'
      cases hp'
    | succeeded p h =>
      obtain ⟨q, h'⟩ := h.handlePromoted hst
      exact .succeeded q h'

/-- Threads that only finish what they were doing. -/
theorem Orderly.frame (h : Orderly s) (hthreads : ∀ c ∈ t.threads, c ∈ s.threads ∨ c = .reading)
    (hread : t.read = s.read) (hserial : t.serial = s.serial) : Orderly t where
  sending := by
    intro x hx
    rcases hthreads _ hx with hx | hx
    · exact h.sending x hx
    · cases hx
  fresh := by rw [hread, hserial]; exact h.fresh
  distinct := by rw [hread]; exact h.distinct

theorem Orderly.readClient (h : Orderly s) {i : Nat} {q : Packet}
    (hst : step fe s (.readClient i q) = some t) : Orderly t := by
  simp only [Failover.step] at hst
  split at hst
  · cases hst
    have hnew : ∀ n ∈ if q.isMessage then [s.serial] else [], n = s.serial := by
      intro n hn
      split at hn
      · exact List.mem_singleton.1 hn
      · exact absurd hn List.not_mem_nil
    refine ⟨?_, ?_, ?_⟩
    · intro x hx
      rcases List.mem_or_eq_of_mem_set hx with hx | hx
      · exact h.sending x hx
      · split at hx
        · cases hx
        · rename_i hm
          cases hx
          exact Bool.eq_false_of_not_eq_true hm
    · rw [List.forall_mem_append]
      exact ⟨fun n hn => Nat.lt_succ_of_lt (h.fresh n hn), fun n hn => by
        rw [hnew n hn]
        exact Nat.lt_succ_self _⟩
    · refine List.Nodup.append h.distinct ?_ fun n hn hn' => ?_
      · split
        · exact List.nodup_singleton _
        · exact List.nodup_nil
      · have hlt := h.fresh n hn
        rw [hnew n hn'] at hlt
        exact lt_irrefl _ hlt
  · cases hst

/-- A turn of the loop fails and changes nothing, or the call returns. -/
theorem sendToServer_cases (s : Failover) (succeeds : Bool) (x : Tagged)
    (returns : Failover → Failover) :
    s.sendToServer succeeds x returns = s ∨
      ∃ buffer, s.sendToServer succeeds x returns = returns { s with buffer } := by
  unfold sendToServer sendPacket
  split
  · exact .inr ⟨s.buffer ++ [x], rfl⟩
  · cases succeeds with
    | true => exact .inr ⟨s.buffer, rfl⟩
    | false => exact .inl rfl
  · exact .inl rfl
  · exact .inr ⟨s.buffer, rfl⟩

theorem Orderly.step (h : Orderly s) (hst : step fe s l = some t) : Orderly t := by
  have hkeep : ∀ c ∈ s.threads, c ∈ s.threads ∨ c = .reading := fun _ hc => .inl hc
  have hset : ∀ i, ∀ c ∈ s.threads.set i .reading, c ∈ s.threads ∨ c = .reading := fun _ _ hc =>
    List.mem_or_eq_of_mem_set hc
  have hconcat : ∀ c ∈ s.threads ++ [.reading], c ∈ s.threads ∨ c = .reading := fun c hc =>
    (List.mem_append.1 hc).imp_right List.mem_singleton.1
  cases l with
  | connect takesNumber =>
    simp only [Failover.step] at hst
    split at hst
    · split at hst
      · cases hst
        exact h.frame hconcat rfl rfl
      · cases hst
    · cases hst
      exact h.frame hconcat rfl rfl
  | leave =>
    obtain ⟨-, ht⟩ := Option.ite_none_right_eq_some.1 hst
    cases ht
    exact h.frame hkeep rfl rfl
  | readClient i p => exact h.readClient hst
  | handOver i =>
    simp only [Failover.step] at hst
    split at hst
    · cases hst
      exact h.frame (hset i) rfl rfl
    · cases hst
  | send succeeds =>
    obtain ⟨x, -, rfl⟩ := Option.map_eq_some_iff.1 hst
    rcases sendToServer_cases s succeeds x _ with heq | ⟨buffer, heq⟩
    · rwa [heq]
    · rw [heq]
      exact h.frame hkeep rfl rfl
  | sendOwn i succeeds =>
    simp only [Failover.step] at hst
    split at hst
    · rename_i x _
      cases hst
      rcases sendToServer_cases s succeeds x _ with heq | ⟨buffer, heq⟩
      · rwa [heq]
      · rw [heq]
        exact h.frame (hset i) rfl rfl
    · cases hst
  | see =>
    obtain ⟨-, ht⟩ := Option.ite_none_right_eq_some.1 hst
    cases ht
    exact h.frame hkeep rfl rfl
  | accept =>
    obtain ⟨-, ht⟩ := Option.ite_none_right_eq_some.1 hst
    cases ht
    exact h.frame hkeep rfl rfl
  | readFrontEnd =>
    obtain ⟨x, rest, -, -, rfl⟩ := step_readFrontEnd hst
    exact h.frame hkeep rfl rfl
  | replicate =>
    obtain ⟨x, i, b, -, -, rfl⟩ := step_replicate hst
    exact h.frame hkeep rfl rfl
  | handle i o =>
    obtain ⟨b, b', -, -, rfl⟩ := step_handle hst
    exact h.frame hkeep rfl rfl
  | readConfirmation =>
    obtain ⟨x, i, b, -, -, -, rfl⟩ := step_readConfirmation hst
    exact h.frame hkeep rfl rfl
  | post =>
    obtain ⟨x, i, -, -, rfl⟩ := step_post hst
    exact h.frame hkeep rfl rfl
  | finish o =>
    obtain ⟨p, x, -, -, rfl⟩ := step_finish hst
    exact h.frame hkeep rfl rfl
  | crash k =>
    obtain ⟨-, -, rfl⟩ := step_crash hst
    exact h.frame hkeep rfl rfl
  | promote =>
    obtain ⟨k, b, -, -, -, rfl⟩ := step_promote hst
    exact h.frame hkeep rfl rfl
  | handlePromoted o =>
    obtain ⟨p, p', -, -, rfl⟩ := step_handlePromoted hst
    exact h.frame hkeep rfl rfl

theorem phase_start (fe : Str) (n : Nat) : Phase fe (start fe n) := by
  refine .serving ⟨Server.new true [fe], [], []⟩ ⟨⟨rfl, ?_⟩, rfl, rfl, fun i b hi => ?_⟩
  · exact ⟨fun _ => rfl, fun _ hx => absurd hx List.not_mem_nil,
      fun _ hg => absurd hg List.not_mem_nil⟩
  · obtain rfl := List.eq_of_mem_replicate (List.mem_of_getElem? hi)
    exact ⟨rfl, rfl, rfl⟩

end Runs

/-! ## A message in the buffer -/

/-- A JOIN and a MESSAGE of a client. -/
def join : Packet :=
  { type := .JOIN_PACKET, username := "u".toList, user_id := "c".toList, group := "g".toList }

def message : Packet :=
  { type := .MESSAGE_PACKET, username := "u".toList, user_id := "c".toList, group := "g".toList,
    message := "m".toList }

/-- The client joins a group and is accepted; there is one backup. -/
def joined : List FailoverStep :=
  [.connect false, .readClient 0 join, .sendOwn 0 true, .readFrontEnd, .replicate, .handle 0 {},
    .readConfirmation, .post, .finish {}]

/-- The client sends a message, and it is written to the primary. -/
def written : List FailoverStep := [.readClient 0 message, .handOver 0, .send true]

end Failover

end InstantMessenger
