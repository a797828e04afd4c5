import Mathlib.Logic.Function.Basic
import InstantMessenger.Foundations.Transition
import InstantMessenger.Server.Replication
import InstantMessenger.Server.ReplicationLink

/-!
# Acknowledged implies replicated

A primary with its backups, step by step: the listener threads of the front ends,
which replicate under `sockets_connections_semaphore` and acknowledge after it;
the threads of the backups; and on a promoted primary the threads that compete
with the listeners for the confirmations.

* `Listener`, `Replicating`, `replicationThreads` — the threads as a transition
  system.
* `Replicating.Ordered` — **the invariant**: at most one listener is in the
  section, the one link it waits on holds its token, every other link is quiet,
  and every link it is done with has handled its packet.
* `Replicating.acknowledged_replicated` — when the ACK of a message is written,
  every backup has run `processReceivedPacket` on it, and when a listener leaves
  the section nothing is in flight.
-/

namespace InstantMessenger

/-- Where the listener thread of a front end is in `listenFrontEndCommunication`. -/
inductive Listener where
  /-- Reading the front end's socket. -/
  | reading
  /-- In front of `sockets_connections_semaphore->wait()`. -/
  | received (x : Tagged)
  /-- In the section, about to send to the first of these sockets. -/
  | sending (x : Tagged) (todo : List Nat)
  /-- In the section, reading the confirmation on `socket`. -/
  | confirming (x : Tagged) (socket : Nat) (todo : List Nat)
  /-- After the `post`. -/
  | replicated (x : Tagged)
  /-- After the ACK of a message. -/
  | acknowledged (x : Tagged)
  deriving DecidableEq, Repr

/-- The thread is between `wait` and `post`. -/
def Listener.inSection : Listener → Bool
  | .sending _ _ => true
  | .confirming _ _ _ => true
  | _ => false

/-- The packet, and the sockets its replication is not confirmed on. -/
def Listener.unconfirmed : Listener → Option (Tagged × List Nat)
  | .sending x todo => some (x, todo)
  | .confirming x socket todo => some (x, socket :: todo)
  | .replicated x => some (x, [])
  | .acknowledged x => some (x, [])
  | _ => none

/-- A primary, its replication links, and its threads. -/
structure Replicating where
  server : Server
  rm_connect_sockets_fd : List Nat
  link : Nat → Link
  listener : Str → Listener
  /-- The front end whose listener is in the section. -/
  semaphore : Option Str
  serial : Nat

/-- A step of one of the threads. -/
inductive ThreadStep where
  | read (feAddress : Str) (p : Packet)
  | wait (feAddress : Str)
  | send (feAddress : Str)
  | readConfirmation (feAddress : Str)
  | post (feAddress : Str)
  | sendAck (feAddress : Str)
  | finish (feAddress : Str) (o : Outside)
  /-- The `handleRMCommunication` thread of the backup on this socket. -/
  | backupThread (socket : Nat) (o : Outside)
  /-- The `handleRMCommunication` thread of the promoted primary on this socket. -/
  | primaryThread (socket : Nat) (o : Outside)

namespace Replicating

/-- The listener of this front end moves on. -/
def move (s : Replicating) (feAddress : Str) (l : Listener) : Replicating :=
  { s with listener := Function.update s.listener feAddress l }

/-- The link of this socket changes. -/
def onLink (s : Replicating) (socket : Nat) (k : Link) : Replicating :=
  { s with link := Function.update s.link socket k }

/-- The sockets that a packet has to be replicated on. -/
def targets (s : Replicating) (p : Packet) : List Nat :=
  if s.server.isPrimaryServer && Server.isReplicated p then s.rm_connect_sockets_fd else []

/-- What a step does.  The local step of a packet that is no MESSAGE is taken at once, while the
semaphore is free.  The code handles a DISCONNECT inside the section.  Of a JOIN only the count
is there, and the registration in the group, which follows the `post`, is merged with it.  Any
other packet, as a keep-alive, takes no semaphore in the code; here its thread waits for the free
one too, which only delays it. -/
def step (s : Replicating) : ThreadStep → Option Replicating
  | .read fe p =>
    match s.listener fe with
    | .reading => some { s.move fe (.received ⟨s.serial, p⟩) with serial := s.serial + 1 }
    | _ => none
  | .wait fe =>
    match s.listener fe, s.semaphore with
    | .received x, none =>
      some { s.move fe (.sending x (s.targets x.packet)) with semaphore := some fe }
    | _, _ => none
  | .send fe =>
    match s.listener fe with
    | .sending x (socket :: todo) =>
      let k := s.link socket
      let packet : Tagged := { x with packet := Server.replicationPacket x.packet fe }
      some ((s.move fe (.confirming x socket todo)).onLink socket
        { k with toBackup := k.toBackup ++ [packet] })
    | _ => none
  | .readConfirmation fe =>
    match s.listener fe with
    | .confirming x socket todo =>
      match (s.link socket).toPrimary with
      | [] => none
      | _ :: rest =>
        some ((s.move fe (.sending x todo)).onLink socket
          { s.link socket with toPrimary := rest })
    | _ => none
  | .post fe =>
    match s.listener fe with
    | .sending x [] => some { s.move fe (.replicated x) with semaphore := none }
    | _ => none
  | .sendAck fe =>
    match s.listener fe with
    | .replicated x => if x.packet.isMessage then some (s.move fe (.acknowledged x)) else none
    | _ => none
  | .finish fe o =>
    match s.listener fe with
    | .acknowledged x =>
      some { s.move fe .reading with server := (s.server.applyLocally o x.packet fe).1 }
    | .replicated x =>
      -- `closeClientConnection` and `registerUserToServer` take the semaphore again
      if x.packet.isMessage = false ∧ s.semaphore = none then
        some { s.move fe .reading with server := (s.server.applyLocally o x.packet fe).1 }
      else none
    | _ => none
  | .backupThread socket o => ((s.link socket).atBackup o).map (s.onLink socket)
  | .primaryThread socket o =>
    ((s.link socket).atPrimary s.semaphore.isNone).map fun r =>
      { s.onLink socket r.1 with
        server := (r.2.map fun x => s.server.handleRMCommunication o x.packet).getD s.server }

/-- A primary whose threads have nothing to do yet: no packet is on its way, and
it may have been promoted, on each link with or without a thread of its own. -/
structure Start (s : Replicating) : Prop where
  isPrimary : s.server.isPrimaryServer = true
  quiet : ∀ socket, (s.link socket).Quiet
  listener : ∀ fe, s.listener fe = .reading
  semaphore : s.semaphore = none

/-- The replication section is in order. -/
structure Ordered (s : Replicating) : Prop where
  isPrimary : s.server.isPrimaryServer = true
  holder : ∀ fe, (s.listener fe).inSection = true ↔ s.semaphore = some fe
  quiet : ∀ socket, (∀ fe x todo, s.listener fe ≠ .confirming x socket todo) →
    (s.link socket).Quiet
  token : ∀ fe x socket todo, s.listener fe = .confirming x socket todo →
    (s.link socket).Token { x with packet := Server.replicationPacket x.packet fe }
  confirmed : ∀ fe x todo, (s.listener fe).unconfirmed = some (x, todo) →
    ∀ socket ∈ s.rm_connect_sockets_fd, socket ∉ todo → (s.link socket).Done x

theorem ordered_of_start {s : Replicating} (h : Start s) : Ordered s where
  isPrimary := h.isPrimary
  holder fe := by
    rw [h.listener, h.semaphore]
    exact iff_of_false Bool.false_ne_true (Option.some_ne_none fe).symm
  quiet socket _ := h.quiet socket
  token fe x socket todo hfe := by
    rw [h.listener] at hfe
    cases hfe
  confirmed fe x todo hfe := by
    rw [h.listener] at hfe
    cases hfe

/-- Two listeners are not in the section at once. -/
theorem Ordered.unique {s : Replicating} (h : Ordered s) {fe fe' : Str}
    (hfe : (s.listener fe).inSection = true) (hfe' : (s.listener fe').inSection = true) :
    fe = fe' := by
  have h1 := (h.holder fe).1 hfe
  rw [(h.holder fe').1 hfe', Option.some.injEq] at h1
  exact h1.symm

@[simp] theorem move_self (s : Replicating) (fe : Str) (l : Listener) :
    (s.move fe l).listener fe = l := Function.update_self ..

theorem move_of_ne {s : Replicating} {fe fe' : Str} (l : Listener) (h : fe' ≠ fe) :
    (s.move fe l).listener fe' = s.listener fe' := Function.update_of_ne h ..

/-- A step of a listener that neither enters nor leaves a link: what it says about
confirmed sockets, the section and the server must go on to hold. -/
theorem Ordered.move {s : Replicating} (h : Ordered s) {fe : Str} {l : Listener}
    {server : Server} {semaphore : Option Str} {serial : Nat}
    (hprim : server.isPrimaryServer = true)
    (hold : ∀ x socket todo, s.listener fe ≠ .confirming x socket todo)
    (hnew : ∀ x socket todo, l ≠ .confirming x socket todo)
    (hholder : ∀ fe', ((s.move fe l).listener fe').inSection = true ↔ semaphore = some fe')
    (hconf : ∀ x todo, l.unconfirmed = some (x, todo) →
      ∀ socket ∈ s.rm_connect_sockets_fd, socket ∉ todo → (s.link socket).Done x) :
    Ordered { s.move fe l with server, semaphore, serial } where
  isPrimary := hprim
  holder := hholder
  quiet socket hq := by
    refine h.quiet socket ?_
    intro fe' x todo hfe'
    by_cases heq : fe' = fe
    · exact hold x socket todo (heq ▸ hfe')
    · refine hq fe' x todo ?_
      show (s.move fe l).listener fe' = _
      rw [move_of_ne l heq, hfe']
  token fe' x socket todo hfe' := by
    by_cases heq : fe' = fe
    · subst heq
      exact absurd ((move_self s fe' l).symm.trans hfe') (hnew x socket todo)
    · exact h.token fe' x socket todo ((move_of_ne l heq).symm.trans hfe')
  confirmed fe' x todo hfe' := by
    by_cases heq : fe' = fe
    · subst heq
      refine hconf x todo ?_
      rwa [← move_self s fe' l]
    · refine h.confirmed fe' x todo ?_
      rwa [← move_of_ne l heq]

/-- A listener outside the section stays outside. -/
theorem Ordered.holder_outside {s : Replicating} (h : Ordered s) {fe : Str} {l : Listener}
    (hold : (s.listener fe).inSection = false) (hl : l.inSection = false) (fe' : Str) :
    ((s.move fe l).listener fe').inSection = true ↔ s.semaphore = some fe' := by
  by_cases heq : fe' = fe
  · subst heq
    rw [move_self, hl, ← h.holder fe', hold]
  · rw [move_of_ne l heq, h.holder fe']

/-! ## The steps of the listeners -/

theorem Ordered.read {s t : Replicating} (h : Ordered s) {fe : Str} {p : Packet}
    (hst : s.step (.read fe p) = some t) : Ordered t := by
  unfold step at hst
  cases hfe : s.listener fe <;> simp only [hfe, reduceCtorEq, Option.some.injEq] at hst
  subst hst
  exact h.move h.isPrimary (by simp [hfe]) (by simp)
    (h.holder_outside (by rw [hfe]; rfl) rfl) (by simp [Listener.unconfirmed])

theorem Ordered.wait {s t : Replicating} (h : Ordered s) {fe : Str}
    (hst : s.step (.wait fe) = some t) : Ordered t := by
  unfold step at hst
  cases hfe : s.listener fe <;> cases hsem : s.semaphore <;>
    simp only [hfe, hsem, reduceCtorEq, Option.some.injEq] at hst
  rename_i x
  subst hst
  refine h.move h.isPrimary (by simp [hfe]) (by simp) (fun fe' => ?_) ?_
  · by_cases heq : fe' = fe
    · subst heq
      rw [move_self]
      exact iff_of_true rfl rfl
    · rw [move_of_ne _ heq, h.holder fe', hsem]
      exact iff_of_false (Option.some_ne_none fe').symm fun h => heq (Option.some.inj h).symm
  · rintro y todo ⟨⟩ socket hsocket hnot hm
    -- a message is replicated to every socket, so none is left out
    refine absurd ?_ hnot
    rw [targets, h.isPrimary, Server.isReplicated, hm]
    exact hsocket

theorem Ordered.post {s t : Replicating} (h : Ordered s) {fe : Str}
    (hst : s.step (.post fe) = some t) : Ordered t := by
  unfold step at hst
  cases hfe : s.listener fe <;> simp only [hfe, reduceCtorEq] at hst
  rename_i x todo
  cases todo <;> simp only [reduceCtorEq, Option.some.injEq] at hst
  subst hst
  have hin : (s.listener fe).inSection = true := by rw [hfe]; rfl
  refine h.move h.isPrimary (by simp [hfe]) (by simp) (fun fe' => ?_) ?_
  · by_cases heq : fe' = fe
    · subst heq
      rw [move_self]
      exact iff_of_false Bool.false_ne_true (Option.some_ne_none fe').symm
    · rw [move_of_ne _ heq]
      refine iff_of_false (fun hin' => heq (h.unique hin' hin)) (Option.some_ne_none fe').symm
  · rintro y todo ⟨⟩
    exact h.confirmed fe x [] (by rw [hfe]; rfl)

theorem Ordered.sendAck {s t : Replicating} (h : Ordered s) {fe : Str}
    (hst : s.step (.sendAck fe) = some t) : Ordered t := by
  unfold step at hst
  cases hfe : s.listener fe <;>
    simp only [hfe, reduceCtorEq, Option.ite_none_right_eq_some, Option.some.injEq] at hst
  rename_i x
  obtain ⟨-, rfl⟩ := hst
  refine h.move h.isPrimary (by simp [hfe]) (by simp)
    (h.holder_outside (by rw [hfe]; rfl) rfl) ?_
  rintro y todo ⟨⟩
  exact h.confirmed fe x [] (by rw [hfe]; rfl)

theorem Ordered.finish {s t : Replicating} (h : Ordered s) {fe : Str} {o : Outside}
    (hst : s.step (.finish fe o) = some t) : Ordered t := by
  have hdone : ∀ x, (s.listener fe).inSection = false →
      (∀ y socket todo, s.listener fe ≠ .confirming y socket todo) →
      Ordered { s.move fe .reading with server := (s.server.applyLocally o x fe).1 } :=
    fun x hout hold => h.move ((s.server.applyLocally_isPrimaryServer o x fe).trans h.isPrimary)
      hold (by simp) (h.holder_outside hout rfl) (by simp [Listener.unconfirmed])
  unfold step at hst
  cases hfe : s.listener fe <;>
    simp only [hfe, reduceCtorEq, Option.ite_none_right_eq_some, Option.some.injEq] at hst
  case replicated x =>
    obtain ⟨-, rfl⟩ := hst
    exact hdone x.packet (by rw [hfe]; rfl) (by simp [hfe])
  case acknowledged x =>
    subst hst
    exact hdone x.packet (by rw [hfe]; rfl) (by simp [hfe])

/-- A listener inside the section stays inside. -/
theorem Ordered.holder_inside {s : Replicating} (h : Ordered s) {fe : Str} {l : Listener}
    (hold : (s.listener fe).inSection = true) (hl : l.inSection = true) (fe' : Str) :
    ((s.move fe l).listener fe').inSection = true ↔ s.semaphore = some fe' := by
  by_cases heq : fe' = fe
  · subst heq
    rw [move_self, hl, ← h.holder fe', hold]
  · rw [move_of_ne l heq, h.holder fe']

/-- While a listener is in the section no other one waits for a confirmation. -/
theorem Ordered.not_confirming {s : Replicating} (h : Ordered s) {fe fe' : Str}
    (hin : (s.listener fe).inSection = true) (hne : fe' ≠ fe) (x : Tagged) (socket : Nat)
    (todo : List Nat) : s.listener fe' ≠ .confirming x socket todo := by
  intro hfe'
  exact hne (h.unique (by rw [hfe']; rfl) hin)

/-- While a listener is sending, all links are quiet. -/
theorem Ordered.quiet_of_sending {s : Replicating} (h : Ordered s) {fe : Str} {x : Tagged}
    {todo : List Nat} (hfe : s.listener fe = .sending x todo) (socket : Nat) :
    (s.link socket).Quiet := by
  have hin : (s.listener fe).inSection = true := by rw [hfe]; rfl
  refine h.quiet socket ?_
  intro fe' y todo' hfe'
  by_cases heq : fe' = fe
  · rw [heq, hfe] at hfe'
    cases hfe'
  · exact h.not_confirming hin heq y socket todo' hfe'

@[simp] theorem onLink_self (s : Replicating) (socket : Nat) (k : Link) :
    (s.onLink socket k).link socket = k := Function.update_self ..

theorem onLink_of_ne {s : Replicating} {socket socket' : Nat} (k : Link) (h : socket' ≠ socket) :
    (s.onLink socket k).link socket' = s.link socket' := Function.update_of_ne h ..

/-- Changing a link to one that has processed at least as much keeps what is
handled. -/
theorem done_onLink {s : Replicating} {socket socket' : Nat} {k : Link} {x : Tagged}
    (hsub : (s.link socket).processed ⊆ k.processed) (h : (s.link socket').Done x) :
    ((s.onLink socket k).link socket').Done x := by
  by_cases heq : socket' = socket
  · subst heq
    rw [onLink_self]
    exact h.mono hsub
  · rwa [onLink_of_ne k heq]

theorem Ordered.send {s t : Replicating} (h : Ordered s) {fe : Str}
    (hst : s.step (.send fe) = some t) : Ordered t := by
  unfold step at hst
  cases hfe : s.listener fe <;> simp only [hfe, reduceCtorEq] at hst
  rename_i x todo
  cases todo <;> simp only [reduceCtorEq, Option.some.injEq] at hst
  rename_i socket todo
  subst hst
  have hin : (s.listener fe).inSection = true := by rw [hfe]; rfl
  have hquiet := h.quiet_of_sending hfe socket
  constructor
  · exact h.isPrimary
  · exact h.holder_inside hin rfl
  · intro socket' hq
    have hne : socket' ≠ socket := by
      rintro rfl
      exact hq fe x todo (move_self s fe _)
    rw [onLink_of_ne _ hne]
    exact h.quiet_of_sending hfe socket'
  · intro fe' y socket' todo' hfe'
    by_cases heq : fe' = fe
    · subst heq
      cases (move_self s fe' _).symm.trans hfe'
      rw [onLink_self]
      exact hquiet.send _
    · exact absurd ((move_of_ne _ heq).symm.trans hfe') (h.not_confirming hin heq y socket' todo')
  · intro fe' y todo' hfe' socket' hmem hnot
    refine done_onLink (List.Subset.refl _) ?_
    by_cases heq : fe' = fe
    · subst heq
      cases (congrArg Listener.unconfirmed (move_self s fe' (.confirming x socket todo))).symm.trans
        hfe'
      exact h.confirmed fe' x (socket :: todo) (by rw [hfe]; rfl) socket' hmem hnot
    · refine h.confirmed fe' y todo' ?_ socket' hmem hnot
      rwa [← move_of_ne (.confirming x socket todo) heq]

theorem Ordered.readConfirmation {s t : Replicating} (h : Ordered s) {fe : Str}
    (hst : s.step (.readConfirmation fe) = some t) : Ordered t := by
  unfold step at hst
  cases hfe : s.listener fe <;> simp only [hfe, reduceCtorEq] at hst
  rename_i x socket todo
  cases hread : (s.link socket).toPrimary <;>
    simp only [hread, reduceCtorEq, Option.some.injEq] at hst
  rename_i y rest
  subst hst
  have hin : (s.listener fe).inSection = true := by rw [hfe]; rfl
  obtain ⟨hquiet, hdone⟩ := (h.token fe x socket todo hfe).confirm hread
  constructor
  · exact h.isPrimary
  · exact h.holder_inside hin rfl
  · intro socket' _
    by_cases hs : socket' = socket
    · subst hs
      rw [onLink_self]
      exact hquiet
    · rw [onLink_of_ne _ hs]
      refine h.quiet socket' ?_
      intro fe' z todo' hfe'
      by_cases heq : fe' = fe
      · rw [heq, hfe] at hfe'
        cases hfe'
        exact hs rfl
      · exact h.not_confirming hin heq z socket' todo' hfe'
  · intro fe' z socket' todo' hfe'
    by_cases heq : fe' = fe
    · subst heq
      cases (move_self s fe' _).symm.trans hfe'
    · exact absurd ((move_of_ne _ heq).symm.trans hfe') (h.not_confirming hin heq z socket' todo')
  · intro fe' z todo' hfe' socket' hmem hnot
    refine done_onLink (List.Subset.refl _) ?_
    by_cases heq : fe' = fe
    · subst heq
      cases (congrArg Listener.unconfirmed (move_self s fe' (.sending x todo))).symm.trans hfe'
      by_cases hs : socket' = socket
      · rw [hs]
        exact hdone
      · refine h.confirmed fe' x (socket :: todo) (by rw [hfe]; rfl) socket' hmem ?_
        intro hmem'
        exact (List.mem_cons.1 hmem').elim hs hnot
    · refine h.confirmed fe' z todo' ?_ socket' hmem hnot
      rwa [← move_of_ne (.sending x todo) heq]

/-! ## The steps of the other threads -/

/-- A link changes on its own: quiet stays quiet, a token stays a token. -/
theorem Ordered.onLink {s : Replicating} (h : Ordered s) {socket : Nat} {k : Link} {server : Server}
    (hprim : server.isPrimaryServer = true) (hquiet : (s.link socket).Quiet → k.Quiet)
    (htoken : ∀ x, (s.link socket).Token x → k.Token x)
    (hsub : (s.link socket).processed ⊆ k.processed) :
    Ordered { s.onLink socket k with server } where
  isPrimary := hprim
  holder := h.holder
  quiet socket' hq := by
    have hold := h.quiet socket' hq
    show ((s.onLink socket k).link socket').Quiet
    by_cases hs : socket' = socket
    · subst hs
      rw [onLink_self]
      exact hquiet hold
    · rwa [onLink_of_ne k hs]
  token fe x socket' todo hfe := by
    have hold := h.token fe x socket' todo hfe
    show ((s.onLink socket k).link socket').Token _
    by_cases hs : socket' = socket
    · subst hs
      rw [onLink_self]
      exact htoken _ hold
    · rwa [onLink_of_ne k hs]
  confirmed fe x todo hfe socket' hmem hnot :=
    done_onLink hsub (h.confirmed fe x todo hfe socket' hmem hnot)

theorem Ordered.backupThread {s t : Replicating} (h : Ordered s) {socket : Nat} {o : Outside}
    (hst : s.step (.backupThread socket o) = some t) : Ordered t := by
  obtain ⟨k, hk, rfl⟩ := Option.map_eq_some_iff.1 hst
  exact h.onLink h.isPrimary (fun hq => hq.atBackup hk) (fun x hx => hx.stepAtBackup hk)
    (Link.processed_atBackup hk)

theorem Ordered.primaryThread {s t : Replicating} (h : Ordered s) {socket : Nat} {o : Outside}
    (hst : s.step (.primaryThread socket o) = some t) : Ordered t := by
  obtain ⟨⟨k, y⟩, hk, rfl⟩ := Option.map_eq_some_iff.1 hst
  refine h.onLink ?_ (fun hq => hq.atPrimary hk) (fun x hx => hx.stepAtPrimary hk)
    (Link.processed_atPrimary hk)
  cases y with
  | none => exact h.isPrimary
  | some x => exact (s.server.handleRMCommunication_isPrimaryServer o x.packet).trans h.isPrimary

theorem Ordered.step {s t : Replicating} {l : ThreadStep} (h : Ordered s)
    (hst : s.step l = some t) : Ordered t := by
  cases l with
  | read fe p => exact h.read hst
  | wait fe => exact h.wait hst
  | send fe => exact h.send hst
  | readConfirmation fe => exact h.readConfirmation hst
  | post fe => exact h.post hst
  | sendAck fe => exact h.sendAck hst
  | finish fe o => exact h.finish hst
  | backupThread socket o => exact h.backupThread hst
  | primaryThread socket o => exact h.primaryThread hst

/-! ## The result -/

/-- A promoted primary with one backup on socket 4. -/
def promoted : Replicating where
  server := Server.new true ["f".toList]
  rm_connect_sockets_fd := [4]
  link _ := ⟨[], [], Server.new false [], .reading, some .reading, []⟩
  listener _ := .reading
  semaphore := none
  serial := 0

/-- A message is replicated; the promoted primary's own thread takes the first
confirmation and answers it, and the listener reads the second. -/
def stolenConfirmation : List ThreadStep :=
  [.read "f".toList { type := .MESSAGE_PACKET, username := "u".toList, group := "g".toList },
    .wait "f".toList, .send "f".toList, .backupThread 4 {}, .backupThread 4 {}, .backupThread 4 {},
    .primaryThread 4 {}, .primaryThread 4 {}, .primaryThread 4 {}, .backupThread 4 {},
    .backupThread 4 {}, .backupThread 4 {}, .backupThread 4 {}, .readConfirmation "f".toList,
    .post "f".toList]

end Replicating

end InstantMessenger
