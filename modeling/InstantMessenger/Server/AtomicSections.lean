import Mathlib.Data.List.Forall2
import InstantMessenger.Foundations.Refinement
import InstantMessenger.Server.Confirmation
import InstantMessenger.Server.Interleaving

/-!
# The replication section is atomic

The replication section of `listenFrontEndCommunication` takes many steps: a packet goes out
to each backup, the backup handles it and confirms, and a promoted primary's own thread may
take the confirmation and send it back.  All of it is inside
`sockets_connections_semaphore`, and what can be seen from outside is one step, at its end.

* `Link.Progress` — **how far a replication is on one link**: the backup is what it was, or
  has handled the packet once, while a confirmation travels.
* `Replicating.connectedThreads` — the threads of `replicationThreads`, where a listener reads
  for a front end that is connected, in the cases of `Replicating.Moves`.
* `Primary.atomicThreads`, `Replicating.Atomic` — the primary on which a replication is one
  step, and how the threads with all their steps stand to it: a backup may be on its way.
* `Seen`, `Replicating.seen` — what is seen of a run: which packet leaves the section, and
  which has its local step.
* `Replicating.sections_atomic` — **every run of the threads is a run with atomic sections, and
  the same is seen of both**.
-/

namespace InstantMessenger

/-! ## One replication on one link -/

namespace Link

/-- How far the replication of `x` is on a link, whose backup was `b` before. -/
inductive Progress (b : Server) (x : Tagged) (k : Link) : Prop
  | sent (hb : k.backup = b) (hto : k.toBackup = [x]) (hfrom : k.toPrimary = [])
      (ht : k.backupThread.idle = true) (hp : k.primaryIdle)
  | received (hb : k.backup = b) (hto : k.toBackup = []) (hfrom : k.toPrimary = [])
      (ht : k.backupThread = .received x) (hp : k.primaryIdle)
  | handled (o : Outside) (hb : k.backup = b.handleRMCommunication o x.packet)
      (ht : k.Token confirmationPacket)

variable {b : Server} {x y : Tagged} {k k' : Link} {o : Outside} {free : Bool}

/-- The backup of a quiet link does not change. -/
theorem Quiet.backup_atBackup (h : k.Quiet) (hst : k.atBackup o = some k') :
    k'.backup = k.backup := by
  obtain ⟨r, hr, rfl⟩ := Option.map_eq_some_iff.1 hst
  rw [h.toBackup] at hr
  rw [rmStep_idle h.backup hr]
  rfl

/-- Nor does it while a confirmation travels. -/
theorem Token.backup_atBackup (h : k.Token confirmationPacket) (hst : k.atBackup o = some k') :
    k'.backup = k.backup := by
  obtain ⟨r, hr, rfl⟩ := Option.map_eq_some_iff.1 hst
  have hdue : ∀ {y : Tagged}, k.Due confirmationPacket y → y = confirmationPacket := by
    rintro y (hy | ⟨hy, -⟩) <;> exact hy
  cases h with
  | sent y hy hto hfrom hb hp =>
    rw [hto] at hr
    rcases rmStep_idle_cons hb hr with rfl | rfl <;> rfl
  | atBackup y hy hto hfrom hb hp =>
    rw [hto, hb, rmStep, Option.some.injEq] at hr
    subst hr
    rw [hdue hy]
    rfl
  | handled hx hto hfrom hb hp =>
    rw [hto, hb, rmStep, Option.some.injEq] at hr
    subst hr
    rfl
  | confirmed hx hto hfrom hb hp | atPrimary hx hto hfrom hb hp | returned hx hto hfrom hb hp =>
    rw [hto] at hr
    rw [rmStep_idle hb hr]
    rfl

theorem backup_atPrimary {z : Option Tagged} (h : k.atPrimary free = some (k', z)) :
    k'.backup = k.backup := by
  obtain ⟨t, -, ht⟩ := Option.bind_eq_some_iff.1 h
  obtain ⟨r, -, hr⟩ := Option.map_eq_some_iff.1 ht
  rw [Prod.mk.injEq] at hr
  rw [← hr.1]

/-- A replication starts on a quiet link. -/
theorem Quiet.progress (h : k.Quiet) (x : Tagged) :
    Progress k.backup x { k with toBackup := k.toBackup ++ [x] } :=
  .sent rfl (by rw [h.toBackup]; rfl) h.toPrimary h.backup h.primary

/-- **The backup's thread brings the replication on.** -/
theorem Progress.atBackup (h : Progress b x k) (hst : k.atBackup o = some k') :
    Progress b x k' := by
  cases h with
  | sent hb hto hfrom ht hp =>
    obtain ⟨r, hr, rfl⟩ := Option.map_eq_some_iff.1 hst
    rw [hto] at hr
    rcases rmStep_idle_cons ht hr with rfl | rfl
    · exact .sent hb rfl (by simp [hfrom]) rfl hp
    · exact .received hb rfl (by simp [hfrom]) rfl hp
  | received hb hto hfrom ht hp =>
    obtain ⟨r, hr, rfl⟩ := Option.map_eq_some_iff.1 hst
    rw [hto, ht, rmStep, Option.some.injEq] at hr
    subst hr
    refine .handled o ?_ (.handled (fun hm => absurd hm (by decide)) rfl (by simp [hfrom]) rfl hp)
    rw [← hb]
    rfl
  | handled o' hb ht =>
    exact .handled o' ((ht.backup_atBackup hst).trans hb) (ht.stepAtBackup hst)

/-- The thread of a promoted primary does not turn it back. -/
theorem Progress.atPrimary {z : Option Tagged} (h : Progress b x k)
    (hst : k.atPrimary free = some (k', z)) : Progress b x k' := by
  have hsame := backup_atPrimary hst
  have hidle : k.toPrimary = [] → k.primaryIdle →
      k'.toBackup = k.toBackup ∧ k'.toPrimary = [] ∧ k'.backupThread = k.backupThread ∧
        k'.primaryIdle := by
    intro hfrom hp
    obtain ⟨t, ht, hmap⟩ := Option.bind_eq_some_iff.1 hst
    obtain ⟨r, hr, heq⟩ := Option.map_eq_some_iff.1 hmap
    rw [hfrom] at hr
    rw [rmStep_idle (hp t ht) hr, Prod.mk.injEq] at heq
    rw [← heq.1]
    refine ⟨by simp, rfl, rfl, ?_⟩
    rintro t ⟨⟩
    rfl
  cases h with
  | sent hb hto hfrom ht hp =>
    obtain ⟨h1, h2, h3, h4⟩ := hidle hfrom hp
    exact .sent (hsame.trans hb) (h1.trans hto) h2 (h3 ▸ ht) h4
  | received hb hto hfrom ht hp =>
    obtain ⟨h1, h2, h3, h4⟩ := hidle hfrom hp
    exact .received (hsame.trans hb) (h1.trans hto) h2 (h3.trans ht) h4
  | handled o hb ht => exact .handled o (hsame.trans hb) (ht.stepAtPrimary hst)

/-- **Whoever reads a confirmation finds the packet handled, once.** -/
theorem Progress.confirm {rest : List Tagged} (h : Progress b x k)
    (hread : k.toPrimary = y :: rest) :
    ∃ o, k.backup = b.handleRMCommunication o x.packet := by
  cases h with
  | sent _ _ hfrom | received _ _ hfrom =>
    rw [hfrom] at hread
    cases hread
  | handled o hb => exact ⟨o, hb⟩

/-! ## What the primary's thread handles -/

/-- On a quiet link it finds nothing to handle. -/
theorem Quiet.handles_atPrimary {z : Option Tagged} (h : k.Quiet)
    (hst : k.atPrimary free = some (k', z)) : z = none := by
  obtain ⟨t, ht, hmap⟩ := Option.bind_eq_some_iff.1 hst
  obtain ⟨r, hr, heq⟩ := Option.map_eq_some_iff.1 hmap
  rw [h.toPrimary] at hr
  rw [rmStep_idle (h.primary t ht) hr, Prod.mk.injEq] at heq
  exact heq.2.symm

/-- During a replication it may find the confirmation. -/
theorem Token.handles_atPrimary {z : Option Tagged} (h : k.Token x)
    (hst : k.atPrimary free = some (k', z)) : z = none ∨ z = some confirmationPacket := by
  obtain ⟨t, ht, hmap⟩ := Option.bind_eq_some_iff.1 hst
  obtain ⟨r, hr, heq⟩ := Option.map_eq_some_iff.1 hmap
  obtain ⟨-, rfl⟩ := Prod.mk.inj heq
  cases h with
  | sent _ _ _ hfrom _ hp | atBackup _ _ _ hfrom _ hp | handled _ _ hfrom _ hp =>
    rw [hfrom] at hr
    rw [rmStep_idle (hp t ht) hr]
    exact .inl rfl
  | confirmed _ _ hfrom _ hp =>
    rw [hfrom] at hr
    rcases rmStep_idle_cons (hp t ht) hr with rfl | rfl <;> exact .inl rfl
  | atPrimary _ _ _ _ hp =>
    rw [hp, Option.some.injEq] at ht
    rw [← ht, rmStep, Option.some.injEq] at hr
    rw [← hr]
    exact .inr rfl
  | returned _ _ _ _ hp =>
    rw [hp, Option.some.injEq] at ht
    rw [← ht, rmStep, Option.some.injEq] at hr
    rw [← hr]
    exact .inl rfl

end Link

/-! ## One step at all backups -/

/-- What was answered at each place is answered by one function of the places. -/
theorem exists_mapIdx_eq_map {α β γ ι : Type*} (d : ι) {g : α → γ} {f : ι → β → γ} {xs : List α}
    {ys : List β} (h : List.Forall₂ (fun x y => ∃ o, g x = f o y) xs ys) :
    ∃ answers : Nat → ι, ys.mapIdx (fun i y => f (answers i) y) = xs.map g := by
  induction h with
  | nil => exact ⟨fun _ => d, rfl⟩
  | cons hxy _ ih =>
    obtain ⟨o, ho⟩ := hxy
    obtain ⟨answers, hrest⟩ := ih
    refine ⟨fun i => i.casesOn o answers, ?_⟩
    rw [List.mapIdx_cons, List.map_cons, ho, ← hrest]
    rfl

/-- The listener threads of a primary that has been running, with no packet between the
section and its local step. -/
def Primary.atomicThreads : Transition.System Primary ListenerStep where
  init a := a.server.isPrimaryServer = true ∧ a.waiting = []
  step := Primary.listenFrontEndCommunication

/-! ## The memory that the packets leave alone -/

theorem Server.applyLocally_feAddresses (s : Server) (o : Outside) (p : Packet) (fe : Str) :
    (s.applyLocally o p fe).1.feAddresses = s.feAddresses := by
  unfold applyLocally registerUserToServer closeClientConnection
  split_ifs <;> try rfl
  all_goals
    simp only
    split <;> rfl

theorem Server.handleRMCommunication_feAddresses (s : Server) (o : Outside) (p : Packet) :
    (s.handleRMCommunication o p).feAddresses = s.feAddresses := by
  unfold handleRMCommunication registerUserToServer closeClientConnection
  dsimp only
  split_ifs <;> rfl

/-! ## The threads, step by step -/

/-- What is seen of the packets of a front end. -/
inductive Seen where
  /-- The packet has been through the section. -/
  | replicated (feAddress : Str) (p : Packet)
  /-- The packet that was there last has had its local step. -/
  | finished (feAddress : Str) (o : Outside)

/-- With atomic sections every step is seen. -/
def ListenerStep.seen : ListenerStep → Seen
  | .replicate fe p _ => .replicated fe p
  | .finish fe o => .finished fe o

/-- The packet of a listener that has left the section. -/
def Listener.afterSection : Listener → Option Tagged
  | .replicated x => some x
  | .acknowledged x => some x
  | _ => none

namespace Replicating

/-- A step of one of the threads; a listener reads for a front end that is connected. -/
def connectedStep (s : Replicating) : ThreadStep → Option Replicating
  | .read fe p => if s.server.feAddresses.contains fe then s.step (.read fe p) else none
  | l => s.step l

/-- Of the steps of the threads, the `post` at the end of a section is seen, with the packet
of the listener, and the local step. -/
def seen (s : Replicating) : ThreadStep → Option Seen
  | .post fe =>
    match s.listener fe with
    | .sending x _ => some (.replicated fe x.packet)
    | _ => none
  | .finish fe o => some (.finished fe o)
  | _ => none

/-- The threads of a primary, promoted or not, and of its backups. -/
def connectedThreads : Transition.System Replicating ThreadStep where
  init s := Start s ∧ s.rm_connect_sockets_fd.Nodup
  step := connectedStep

/-- What each step does, and when it can be taken. -/
inductive Moves (s : Replicating) : ThreadStep → Replicating → Prop
  | read {fe : Str} {p : Packet} (hfe : s.listener fe = .reading)
      (hconn : s.server.feAddresses.contains fe = true) :
      Moves s (.read fe p) { s.move fe (.received ⟨s.serial, p⟩) with serial := s.serial + 1 }
  | wait {fe : Str} {x : Tagged} (hfe : s.listener fe = .received x) (hsem : s.semaphore = none) :
      Moves s (.wait fe) { s.move fe (.sending x (s.targets x.packet)) with semaphore := some fe }
  | send {fe : Str} {x : Tagged} {socket : Nat} {todo : List Nat}
      (hfe : s.listener fe = .sending x (socket :: todo)) :
      Moves s (.send fe) ((s.move fe (.confirming x socket todo)).onLink socket
        { s.link socket with
          toBackup := (s.link socket).toBackup ++
            [{ x with packet := Server.replicationPacket x.packet fe }] })
  | readConfirmation {fe : Str} {x y : Tagged} {socket : Nat} {todo : List Nat} {rest : List Tagged}
      (hfe : s.listener fe = .confirming x socket todo)
      (hread : (s.link socket).toPrimary = y :: rest) :
      Moves s (.readConfirmation fe) ((s.move fe (.sending x todo)).onLink socket
        { s.link socket with toPrimary := rest })
  | post {fe : Str} {x : Tagged} (hfe : s.listener fe = .sending x []) :
      Moves s (.post fe) { s.move fe (.replicated x) with semaphore := none }
  | sendAck {fe : Str} {x : Tagged} (hfe : s.listener fe = .replicated x)
      (hm : x.packet.isMessage = true) : Moves s (.sendAck fe) (s.move fe (.acknowledged x))
  | finish {fe : Str} {o : Outside} {x : Tagged} (hfe : (s.listener fe).afterSection = some x)
      (hm : s.listener fe = .acknowledged x ∨ x.packet.isMessage = false ∧ s.semaphore = none) :
      Moves s (.finish fe o)
        { s.move fe .reading with server := (s.server.applyLocally o x.packet fe).1 }
  | backupThread {socket : Nat} {o : Outside} {k : Link}
      (hk : (s.link socket).atBackup o = some k) :
      Moves s (.backupThread socket o) (s.onLink socket k)
  | primaryThread {socket : Nat} {o : Outside} {k : Link} {y : Option Tagged}
      (hk : (s.link socket).atPrimary s.semaphore.isNone = some (k, y)) :
      Moves s (.primaryThread socket o) { s.onLink socket k with
        server := (y.map fun x => s.server.handleRMCommunication o x.packet).getD s.server }

theorem step_of_connectedStep {s t : Replicating} {l : ThreadStep}
    (h : s.connectedStep l = some t) : s.step l = some t := by
  cases l <;> simp only [connectedStep, Option.ite_none_right_eq_some] at h <;>
    first | exact h | exact h.2

theorem moves_of_step {s t : Replicating} {l : ThreadStep} (h : s.connectedStep l = some t) :
    Moves s l t := by
  have hst := step_of_connectedStep h
  unfold step at hst
  cases l with
  | read fe p =>
    have hconn := (Option.ite_none_right_eq_some.1 h).1
    cases hfe : s.listener fe <;> simp only [hfe, reduceCtorEq, Option.some.injEq] at hst
    subst hst
    exact .read hfe hconn
  | wait fe =>
    cases hfe : s.listener fe <;> cases hsem : s.semaphore <;>
      simp only [hfe, hsem, reduceCtorEq, Option.some.injEq] at hst
    subst hst
    exact .wait hfe hsem
  | send fe =>
    cases hfe : s.listener fe <;> simp only [hfe, reduceCtorEq] at hst
    rename_i x todo
    cases todo <;> simp only [reduceCtorEq, Option.some.injEq] at hst
    subst hst
    exact .send hfe
  | readConfirmation fe =>
    cases hfe : s.listener fe <;> simp only [hfe, reduceCtorEq] at hst
    rename_i x socket todo
    cases hread : (s.link socket).toPrimary <;>
      simp only [hread, reduceCtorEq, Option.some.injEq] at hst
    subst hst
    exact .readConfirmation hfe hread
  | post fe =>
    cases hfe : s.listener fe <;> simp only [hfe, reduceCtorEq] at hst
    rename_i x todo
    cases todo <;> simp only [reduceCtorEq, Option.some.injEq] at hst
    subst hst
    exact .post hfe
  | sendAck fe =>
    cases hfe : s.listener fe <;>
      simp only [hfe, reduceCtorEq, Option.ite_none_right_eq_some, Option.some.injEq] at hst
    obtain ⟨hm, rfl⟩ := hst
    exact .sendAck hfe hm
  | finish fe o =>
    cases hfe : s.listener fe <;>
      simp only [hfe, reduceCtorEq, Option.ite_none_right_eq_some, Option.some.injEq] at hst
    case replicated x =>
      obtain ⟨hm, rfl⟩ := hst
      exact .finish (by rw [hfe]; rfl) (.inr hm)
    case acknowledged x =>
      subst hst
      exact .finish (by rw [hfe]; rfl) (.inl hfe)
  | backupThread socket o =>
    obtain ⟨k, hk, rfl⟩ := Option.map_eq_some_iff.1 hst
    exact .backupThread hk
  | primaryThread socket o =>
    obtain ⟨⟨k, y⟩, hk, rfl⟩ := Option.map_eq_some_iff.1 hst
    exact .primaryThread hk

/-! ## What the threads keep -/

/-- Who may be on the way with a packet, and where it may still have to go. -/
structure Connected (s : Replicating) : Prop where
  sockets : s.rm_connect_sockets_fd.Nodup
  connected : ∀ fe, s.listener fe ≠ .reading → s.server.feAddresses.contains fe = true
  unconfirmed : ∀ fe x todo, (s.listener fe).unconfirmed = some (x, todo) →
    todo.Nodup ∧ (todo ≠ [] → Server.isReplicated x.packet = true)

theorem connected_of_start {s : Replicating} (h : connectedThreads.init s) : Connected s where
  sockets := h.2
  connected fe hfe := absurd (h.1.listener fe) hfe
  unconfirmed fe x todo hfe := by
    rw [h.1.listener fe] at hfe
    cases hfe

/-- A listener moves on, with a packet of a front end that is connected. -/
theorem Connected.move {s : Replicating} (h : Connected s) {fe : Str} {l : Listener}
    {server : Server} {semaphore : Option Str} {serial : Nat} {link : Nat → Link}
    (hfe : s.server.feAddresses.contains fe = true)
    (hserver : server.feAddresses = s.server.feAddresses)
    (hl : ∀ x todo, l.unconfirmed = some (x, todo) →
      todo.Nodup ∧ (todo ≠ [] → Server.isReplicated x.packet = true)) :
    Connected { s.move fe l with server, semaphore, serial, link } where
  sockets := h.sockets
  connected fe' hne := by
    show server.feAddresses.contains fe' = true
    rw [hserver]
    by_cases heq : fe' = fe
    · rwa [heq]
    · refine h.connected fe' ?_
      rwa [← move_of_ne l heq]
  unconfirmed fe' x todo hx := by
    by_cases heq : fe' = fe
    · subst heq
      refine hl x todo ?_
      rwa [← move_self s fe' l]
    · refine h.unconfirmed fe' x todo ?_
      rwa [← move_of_ne l heq]

/-- A packet has to go to each socket once, and only if it is one to be replicated. -/
theorem targets_spec {s : Replicating} (h : Connected s) (p : Packet) :
    (s.targets p).Nodup ∧ (s.targets p ≠ [] → Server.isReplicated p = true) := by
  unfold targets
  split
  · rename_i hp
    exact ⟨h.sockets, fun _ => (Bool.and_eq_true .. ▸ hp).2⟩
  · exact ⟨List.nodup_nil, fun hne => absurd rfl hne⟩

theorem Connected.step {s t : Replicating} {l : ThreadStep} (h : Connected s) (hm : Moves s l t) :
    Connected t := by
  have hnil : ∀ x : Tagged, ∀ y todo, some (x, ([] : List Nat)) = some (y, todo) →
      todo.Nodup ∧ (todo ≠ [] → Server.isReplicated y.packet = true) := by
    rintro x y todo ⟨⟩
    exact ⟨List.nodup_nil, fun hne => absurd rfl hne⟩
  cases hm with
  | read hfe hconn => exact h.move hconn rfl (by simp [Listener.unconfirmed])
  | wait hfe hsem =>
    refine h.move (h.connected _ (by simp [hfe])) rfl ?_
    rintro y todo ⟨⟩
    exact targets_spec h _
  | @send fe x socket todo hfe =>
    refine h.move (h.connected _ (by simp [hfe])) rfl ?_
    rintro y todo' ⟨⟩
    exact h.unconfirmed fe x (socket :: todo) (by rw [hfe]; rfl)
  | @readConfirmation fe x y socket todo rest hfe hread =>
    refine h.move (h.connected _ (by simp [hfe])) rfl ?_
    rintro y todo' ⟨⟩
    obtain ⟨hnodup, hrep⟩ := h.unconfirmed fe x (socket :: todo) (by rw [hfe]; rfl)
    exact ⟨hnodup.of_cons, fun _ => hrep (List.cons_ne_nil _ _)⟩
  | post hfe => exact h.move (h.connected _ (by simp [hfe])) rfl (hnil _)
  | sendAck hfe => exact h.move (h.connected _ (by simp [hfe])) rfl (hnil _)
  | @finish fe o x hfe _ =>
    refine h.move (h.connected fe ?_) (s.server.applyLocally_feAddresses o x.packet fe)
      (by simp [Listener.unconfirmed])
    intro hread
    rw [hread] at hfe
    cases hfe
  | backupThread hk => exact ⟨h.sockets, h.connected, h.unconfirmed⟩
  | @primaryThread socket o k y hk =>
    refine ⟨h.sockets, ?_, h.unconfirmed⟩
    intro fe hfe
    have hconn := h.connected fe hfe
    cases y with
    | none => exact hconn
    | some x => exact (s.server.handleRMCommunication_feAddresses o x.packet) ▸ hconn

/-! ## Before and after the section -/

/-- What a backup with the memory `b` can be once it has the packet `x` of the front end. -/
def After (fe : Str) (x : Tagged) (b b' : Server) : Prop :=
  ∃ o, b' = if Server.isReplicated x.packet then
    b.handleRMCommunication o (Server.replicationPacket x.packet fe) else b

/-- How a backup stands to its memory `b` from before the section of the listener of `fe`. -/
def Section (fe : Str) (socket : Nat) (k : Link) (b : Server) : Listener → Prop
  | .sending x todo => if socket ∈ todo then k.backup = b else After fe x b k.backup
  | .confirming x current todo =>
    if socket = current then
      k.Progress b { x with packet := Server.replicationPacket x.packet fe }
    else if socket ∈ todo then k.backup = b else After fe x b k.backup
  | _ => k.backup = b

/-- How the backup on a socket stands to its memory `b` from before the section that a
listener is in, if one is. -/
def Stage (s : Replicating) (socket : Nat) (b : Server) : Prop :=
  match s.semaphore with
  | none => (s.link socket).backup = b
  | some fe => Section fe socket (s.link socket) b (s.listener fe)

/-- The threads with all their steps, beside a primary on which a replication is one step,
taken at the end of the section. -/
structure Atomic (s : Replicating) (a : Primary) : Prop where
  server : a.server = s.server
  backups : List.Forall₂ s.Stage s.rm_connect_sockets_fd a.backups
  waiting : ∀ fe, a.waiting.find? (fun x => x.feAddress == fe) =
    (s.listener fe).afterSection.map fun x => ⟨fe, x.packet⟩
  nodup : (a.waiting.map Received.feAddress).Nodup

variable {s t : Replicating} {a : Primary} {fe : Str} {socket : Nat} {b : Server}

theorem stage_of_free (h : s.semaphore = none) :
    s.Stage socket b ↔ (s.link socket).backup = b := by
  unfold Stage
  rw [h]

theorem stage_of_holder (h : s.semaphore = some fe) :
    s.Stage socket b ↔ Section fe socket (s.link socket) b (s.listener fe) := by
  unfold Stage
  rw [h]

/-- The holder moves on, and with it one link. -/
theorem stage_move_onLink (h : s.semaphore = some fe) {l : Listener} {k : Link} {socket' : Nat}
    (hsec : Section fe socket' ((s.onLink socket k).link socket') b l) :
    ((s.move fe l).onLink socket k).Stage socket' b := by
  unfold Stage
  show match s.semaphore with
    | none => ((s.onLink socket k).link socket').backup = b
    | some fe' => Section fe' socket' ((s.onLink socket k).link socket') b
        ((s.move fe l).listener fe')
  rw [h]
  show Section fe socket' _ b ((s.move fe l).listener fe)
  rwa [move_self]

/-- What the listeners outside the section do is not seen at the backups. -/
theorem Stage.move (h : s.Stage socket b) (hfe : s.semaphore ≠ some fe) (l : Listener)
    (server : Server) (serial : Nat) : Stage { s.move fe l with server, serial } socket b := by
  unfold Stage at h ⊢
  show match s.semaphore with
    | none => (s.link socket).backup = b
    | some fe' => Section fe' socket (s.link socket) b ((s.move fe l).listener fe')
  cases hsem : s.semaphore with
  | none => simpa only [hsem] using h
  | some fe' =>
    have hne : fe' ≠ fe := by
      rintro rfl
      exact hfe hsem
    rw [hsem] at h
    simpa only [move_of_ne l hne] using h

/-- The backup on a link where nothing is under way keeps its memory, and a replication under
way goes on. -/
theorem Stage.onLink {k : Link} {socket' : Nat} (h : s.Stage socket' b) (hord : Ordered s)
    (hquiet : (s.link socket).Quiet → k.backup = (s.link socket).backup)
    (hprog : ∀ b x, (s.link socket).Progress b x → k.Progress b x) (server : Server) :
    Stage { s.onLink socket k with server } socket' b := by
  unfold Stage at h ⊢
  show match s.semaphore with
    | none => ((s.onLink socket k).link socket').backup = b
    | some fe => Section fe socket' ((s.onLink socket k).link socket') b (s.listener fe)
  by_cases heq : socket' = socket
  · subst heq
    rw [onLink_self]
    -- the link is quiet unless it is the one whose confirmation the holder waits for
    by_cases hcur : ∃ fe x todo, s.listener fe = .confirming x socket' todo
    · obtain ⟨fe, x, todo, hfe⟩ := hcur
      have hsem := (hord.holder fe).1 (by rw [hfe]; rfl)
      rw [hsem] at h
      simp only [hfe, Section, if_true] at h
      simp only [hsem, hfe, Section, if_true]
      exact hprog _ _ h
    · have hq : (s.link socket').Quiet :=
        hord.quiet socket' fun fe x todo hfe => hcur ⟨fe, x, todo, hfe⟩
      cases hsem : s.semaphore with
      | none =>
        rw [hsem] at h
        exact (hquiet hq).trans h
      | some fe =>
        rw [hsem] at h
        cases hfe : s.listener fe with
        | confirming x current todo =>
          have hne : socket' ≠ current := by
            rintro rfl
            exact hcur ⟨fe, x, todo, hfe⟩
          simpa only [hfe, Section, if_neg hne, hquiet hq] using h
        | _ => simpa only [hfe, Section, hquiet hq] using h
  · rwa [onLink_of_ne k heq]

/-- The thread of a promoted primary handles nothing but confirmations, which change
nothing. -/
theorem Ordered.server_primaryThread (h : Ordered s) {free : Bool} {k : Link} {y : Option Tagged}
    (hk : (s.link socket).atPrimary free = some (k, y)) (o : Outside) :
    (y.map fun x => s.server.handleRMCommunication o x.packet).getD s.server = s.server := by
  by_cases hcur : ∃ fe x todo, s.listener fe = .confirming x socket todo
  · obtain ⟨fe, x, todo, hfe⟩ := hcur
    rcases (h.token fe x socket todo hfe).handles_atPrimary hk with rfl | rfl <;> rfl
  · have hq : (s.link socket).Quiet :=
      h.quiet socket fun fe x todo hfe => hcur ⟨fe, x, todo, hfe⟩
    rw [hq.handles_atPrimary hk]
    rfl

/-! ## The simulation -/

/-- A step that is not seen: neither the server nor the packets waiting for their local step
change, and the backups are on their way to the same memory. -/
theorem Atomic.unseen (h : Atomic s a) (hserver : t.server = s.server)
    (hsockets : t.rm_connect_sockets_fd = s.rm_connect_sockets_fd)
    (hstage : ∀ socket ∈ s.rm_connect_sockets_fd, ∀ b, s.Stage socket b → t.Stage socket b)
    (hafter : ∀ fe, (t.listener fe).afterSection = (s.listener fe).afterSection) :
    Atomic t a where
  server := h.server.trans hserver.symm
  backups := by
    have hmem : List.Forall₂ (fun socket b => socket ∈ s.rm_connect_sockets_fd ∧ s.Stage socket b)
        s.rm_connect_sockets_fd a.backups :=
      (List.forall₂_and_left _ _).2 ⟨fun _ hsocket => hsocket, h.backups⟩
    rw [hsockets]
    exact hmem.imp fun socket b hb => hstage socket hb.1 b hb.2
  waiting fe := by rw [hafter, h.waiting]
  nodup := h.nodup

/-- A listener that moves on with its packet on the same side of the section. -/
theorem afterSection_move {l : Listener}
    (h : l.afterSection = (s.listener fe).afterSection) (fe' : Str) :
    ((s.move fe l).listener fe').afterSection = (s.listener fe').afterSection := by
  by_cases heq : fe' = fe
  · rw [heq, move_self, h]
  · rw [move_of_ne l heq]

/-- A listener outside the section does not hold the semaphore. -/
theorem Ordered.semaphore_ne (h : Ordered s) (hout : (s.listener fe).inSection = false) :
    s.semaphore ≠ some fe := by
  intro hsem
  rw [(h.holder fe).2 hsem] at hout
  cases hout

/-- Entering the section changes no backup. -/
theorem Atomic.wait {x : Tagged} (h : Atomic s a) (hord : Ordered s)
    (hfe : s.listener fe = .received x) (hsem : s.semaphore = none) :
    Atomic { s.move fe (.sending x (s.targets x.packet)) with semaphore := some fe } a := by
  refine h.unseen rfl rfl ?_ (afterSection_move (by rw [hfe]; rfl))
  intro socket hsocket b hb
  have hbackup := (stage_of_free hsem).1 hb
  show Section fe socket (s.link socket) b ((s.move fe _).listener fe)
  rw [move_self, Section]
  split
  · exact hbackup
  · rename_i hnot
    -- a packet that is not sent to the socket is sent to none
    refine ⟨{}, ?_⟩
    have hrep : Server.isReplicated x.packet = false := by
      by_contra hrep
      rw [Bool.not_eq_false] at hrep
      refine hnot ?_
      rw [targets, hord.isPrimary, hrep]
      exact hsocket
    rw [hrep]
    exact hbackup

/-- A packet on its way to a backup has not changed it. -/
theorem Atomic.send {x : Tagged} {todo : List Nat} (h : Atomic s a) (hord : Ordered s)
    (hfe : s.listener fe = .sending x (socket :: todo)) :
    Atomic ((s.move fe (.confirming x socket todo)).onLink socket
      { s.link socket with
        toBackup := (s.link socket).toBackup ++
          [{ x with packet := Server.replicationPacket x.packet fe }] }) a := by
  have hin : (s.listener fe).inSection = true := by rw [hfe]; rfl
  have hsem := (hord.holder fe).1 hin
  refine h.unseen rfl rfl ?_ (afterSection_move (by rw [hfe]; rfl))
  intro socket' _ b hb
  have hsec := (stage_of_holder hsem).1 hb
  rw [hfe, Section] at hsec
  have hquiet := hord.quiet_of_sending hfe socket
  refine stage_move_onLink hsem ?_
  rw [Section]
  by_cases heq : socket' = socket
  · subst heq
    rw [if_pos List.mem_cons_self] at hsec
    rw [if_pos rfl, onLink_self, ← hsec]
    exact hquiet.progress _
  · rw [if_neg heq, onLink_of_ne _ heq]
    simpa only [List.mem_cons, heq, false_or] using hsec

/-- A confirmation says that the backup has the packet. -/
theorem Atomic.readConfirmation {x y : Tagged} {todo : List Nat} {rest : List Tagged}
    (h : Atomic s a) (hord : Ordered s) (hconn : Connected s)
    (hfe : s.listener fe = .confirming x socket todo)
    (hread : (s.link socket).toPrimary = y :: rest) :
    Atomic ((s.move fe (.sending x todo)).onLink socket
      { s.link socket with toPrimary := rest }) a := by
  have hsem := (hord.holder fe).1 (by rw [hfe]; rfl)
  obtain ⟨hnodup, hrep⟩ := hconn.unconfirmed fe x (socket :: todo) (by rw [hfe]; rfl)
  refine h.unseen rfl rfl ?_ (afterSection_move (by rw [hfe]; rfl))
  intro socket' _ b hb
  have hsec := (stage_of_holder hsem).1 hb
  rw [hfe, Section] at hsec
  refine stage_move_onLink hsem ?_
  rw [Section]
  by_cases heq : socket' = socket
  · subst heq
    rw [if_pos rfl] at hsec
    obtain ⟨o, ho⟩ := hsec.confirm hread
    rw [if_neg (List.nodup_cons.1 hnodup).1, onLink_self]
    exact ⟨o, by rw [if_pos (hrep (List.cons_ne_nil _ _)), ← ho]⟩
  · rw [if_neg heq] at hsec
    rwa [onLink_of_ne _ heq]

/-- **The section ends where the replication in one step is taken.** -/
theorem Atomic.post {x : Tagged} (h : Atomic s a) (hord : Ordered s) (hconn : Connected s)
    (hfe : s.listener fe = .sending x []) :
    ∃ atBackup b, Primary.atomicThreads.step a (.replicate fe x.packet atBackup) = some b ∧
      Atomic { s.move fe (.replicated x) with semaphore := none } b := by
  have hsem := (hord.holder fe).1 (by rw [hfe]; rfl)
  have hnone : a.waiting.find? (fun z => z.feAddress == fe) = none := by
    rw [h.waiting fe, hfe]
    rfl
  have hidle : ∀ z ∈ a.waiting, z.feAddress ≠ fe := by
    intro z hz
    simpa using List.find?_eq_none.1 hnone z hz
  have hafter : List.Forall₂ (fun socket b => ∃ o, (s.link socket).backup =
      if Server.isReplicated x.packet then
        b.handleRMCommunication o (Server.replicationPacket x.packet fe) else b)
      s.rm_connect_sockets_fd a.backups := by
    refine h.backups.imp fun socket b hb => ?_
    have hsec := (stage_of_holder hsem).1 hb
    rw [hfe, Section, if_neg List.not_mem_nil] at hsec
    exact hsec
  obtain ⟨atBackup, hatBackup⟩ := exists_mapIdx_eq_map {} hafter
  have hstep : Primary.atomicThreads.step a (.replicate fe x.packet atBackup) =
      some (a.replicate fe x.packet atBackup) := by
    refine if_pos ?_
    rw [Bool.and_eq_true, h.server]
    refine ⟨hconn.connected fe (by rw [hfe]; exact Listener.noConfusion), ?_⟩
    exact List.all_eq_true.2 fun z hz => by simpa using hidle z hz
  have hbackups : (a.replicate fe x.packet atBackup).backups =
      s.rm_connect_sockets_fd.map fun socket => (s.link socket).backup := by
    rw [← hatBackup, Primary.replicate, h.server, hord.isPrimary, Bool.true_and]
    split
    · rfl
    · exact (List.ext_getElem (by simp) (by simp)).symm
  refine ⟨atBackup, _, hstep, h.server, ?_, ?_, ?_⟩
  · rw [hbackups]
    refine List.forall₂_map_right_iff.2 (List.forall₂_same.2 fun socket _ => ?_)
    exact (stage_of_free rfl).2 rfl
  · intro fe'
    show (a.waiting ++ [Received.mk fe x.packet]).find? _ =
      ((s.move fe (.replicated x)).listener fe').afterSection.map _
    rw [List.find?_append, h.waiting fe']
    by_cases heq : fe' = fe
    · subst heq
      rw [move_self, hfe]
      simp [Listener.afterSection]
    · rw [move_of_ne _ heq]
      have hne : (fe == fe') = false := by simpa using fun hc => heq hc.symm
      simp [hne]
  · show ((a.waiting ++ [Received.mk fe x.packet]).map Received.feAddress).Nodup
    rw [List.map_append, List.nodup_append]
    refine ⟨h.nodup, List.nodup_singleton _, ?_⟩
    rintro k hk k' hk' rfl
    obtain ⟨z, hz, rfl⟩ := List.mem_map.1 hk
    exact hidle z hz (by simpa using hk')

/-- The local step is the same in both. -/
theorem Atomic.finish {x : Tagged} (o : Outside) (h : Atomic s a) (hord : Ordered s)
    (hfe : (s.listener fe).afterSection = some x) :
    ∃ b, Primary.atomicThreads.step a (.finish fe o) = some b ∧
      Atomic { s.move fe .reading with
        server := (s.server.applyLocally o x.packet fe).1 } b := by
  have hfind : a.waiting.find? (fun z => z.feAddress == fe) = some ⟨fe, x.packet⟩ := by
    rw [h.waiting fe, hfe]
    rfl
  have hout : (s.listener fe).inSection = false := by
    cases hl : s.listener fe <;> simp_all [Listener.afterSection, Listener.inSection]
  have hstep : Primary.atomicThreads.step a (.finish fe o) =
      some { a with
        server := (a.server.applyLocally o x.packet fe).1
        waiting := a.waiting.eraseP fun z => z.feAddress == fe } := by
    show (a.waiting.find? fun z => z.feAddress == fe).map _ = _
    rw [hfind]
    rfl
  refine ⟨_, hstep, by rw [h.server], ?_, ?_, ?_⟩
  · exact h.backups.imp fun socket b hb => hb.move (hord.semaphore_ne hout) _ _ _
  · intro fe'
    show (a.waiting.eraseP fun z => z.feAddress == fe).find? (fun z => z.feAddress == fe') =
      ((s.move fe .reading).listener fe').afterSection.map _
    rw [Overtaking.find?_eraseP_owner Received.feAddress h.nodup]
    by_cases heq : fe' = fe
    · rw [if_pos (beq_iff_eq.2 heq), heq, move_self]
      rfl
    · rw [if_neg (mt beq_iff_eq.1 heq), move_of_ne _ heq, h.waiting fe']
  · exact h.nodup.sublist (List.eraseP_sublist.map _)

/-- **Each step of the threads is one step with atomic sections, of which the same is seen, or
nothing is seen of it.** -/
theorem Atomic.step {l : ThreadStep} (h : Atomic s a) (hord : Ordered s) (hconn : Connected s)
    (hm : Moves s l t) : (s.seen l = none ∧ Atomic t a) ∨
      ∃ k b, s.seen l = some k.seen ∧ Primary.atomicThreads.step a k = some b ∧ Atomic t b := by
  cases hm with
  | @read fe p hfe _ =>
    refine .inl ⟨rfl, h.unseen rfl rfl ?_ (afterSection_move (by rw [hfe]; rfl))⟩
    exact fun socket _ b hb => hb.move (hord.semaphore_ne (by rw [hfe]; rfl)) _ _ _
  | wait hfe hsem => exact .inl ⟨rfl, h.wait hord hfe hsem⟩
  | send hfe => exact .inl ⟨rfl, h.send hord hfe⟩
  | readConfirmation hfe hread => exact .inl ⟨rfl, h.readConfirmation hord hconn hfe hread⟩
  | @post fe x hfe =>
    obtain ⟨atBackup, b, hstep, hb⟩ := h.post hord hconn hfe
    refine .inr ⟨_, b, ?_, hstep, hb⟩
    rw [seen, hfe]
    rfl
  | @sendAck fe x hfe _ =>
    refine .inl ⟨rfl, h.unseen rfl rfl ?_ (afterSection_move (by rw [hfe]; rfl))⟩
    exact fun socket _ b hb => hb.move (hord.semaphore_ne (by rw [hfe]; rfl)) _ _ _
  | @finish fe o x hfe _ =>
    obtain ⟨b, hstep, hb⟩ := h.finish o hord hfe
    exact .inr ⟨_, b, rfl, hstep, hb⟩
  | @backupThread socket o k hk =>
    refine .inl ⟨rfl, h.unseen rfl rfl ?_ fun _ => rfl⟩
    intro socket' _ b hb
    exact hb.onLink hord (fun hq => hq.backup_atBackup hk) (fun _ _ hp => hp.atBackup hk) _
  | @primaryThread socket o k y hk =>
    refine .inl ⟨rfl, h.unseen (hord.server_primaryThread hk o) rfl ?_ fun _ => rfl⟩
    intro socket' _ b hb
    exact hb.onLink hord (fun _ => Link.backup_atPrimary hk) (fun _ _ hp => hp.atPrimary hk) _

/-- What the threads keep, whatever their order. -/
theorem ordered_connected (h : connectedThreads.Reachable s) : Ordered s ∧ Connected s :=
  h.invariant (I := fun s => Ordered s ∧ Connected s)
    (fun _ hs => ⟨ordered_of_start hs.1, connected_of_start hs⟩)
    fun _ _ _ hI hst => ⟨hI.1.step (step_of_connectedStep hst), hI.2.step (moves_of_step hst)⟩

/-- The memories of the backups, in the order of the sockets. -/
def backups (s : Replicating) : List Server :=
  s.rm_connect_sockets_fd.map fun socket => (s.link socket).backup

/-- The memories of the primary and its backups while no packet is under way. -/
def memory (s : Replicating) : Primary := ⟨s.server, s.backups, []⟩

theorem atomic_memory (h : connectedThreads.init s) : Atomic s s.memory where
  server := rfl
  backups := by
    refine List.forall₂_map_right_iff.2 (List.forall₂_same.2 fun socket _ => ?_)
    exact (stage_of_free h.1.semaphore).2 rfl
  waiting fe := by
    rw [h.1.listener fe]
    rfl
  nodup := List.nodup_nil

theorem simulation : Transition.Simulation connectedThreads seen Primary.atomicThreads
    (fun _ k => some k.seen) Atomic where
  init s h := ⟨s.memory, ⟨h.1.isPrimary, rfl⟩, atomic_memory h⟩
  step s l t a hs hatomic hst := by
    obtain ⟨hord, hconn⟩ := ordered_connected hs
    rcases hatomic.step hord hconn (moves_of_step hst) with ⟨hnone, hsame⟩ | ⟨k, b, hseen, hk, hb⟩
    · exact ⟨[], a, rfl, by rw [hnone]; rfl, hsame⟩
    · refine ⟨[k], b, ?_, ?_, hb⟩
      · rw [Transition.System.exec_cons, hk]
        rfl
      · rw [hseen, Transition.trace, hk]
        rfl

/-- While nobody is in the section the backups are what they are in the other system. -/
theorem Atomic.backups_of_free (h : Atomic s a) (hsem : s.semaphore = none) :
    a.backups = s.backups := by
  have heq : List.Forall₂ (fun socket b => (s.link socket).backup = b)
      s.rm_connect_sockets_fd a.backups :=
    h.backups.imp fun socket b hb => (stage_of_free hsem).1 hb
  rw [← List.forall₂_map_left_iff, List.forall₂_eq_eq_eq] at heq
  exact heq.symm

/-- **The replication section is atomic.**  However the listeners, the backups' threads and
those of a promoted primary take their steps: there is a run in which each replication is one
step, with the same packets through the section in the order of the semaphore and the same
local steps between them.  The primary's memory is the one of that run, and so are the
memories of the backups whenever the section is free. -/
theorem sections_atomic {ls : List ThreadStep} (hs : connectedThreads.init s)
    (hrun : connectedThreads.exec s ls = some t) :
    ∃ ks a, Primary.atomicThreads.exec s.memory ks = some a ∧
      ks.map ListenerStep.seen = Transition.trace connectedThreads seen s ls ∧
      a.server = t.server ∧ (t.semaphore = none → a.backups = t.backups) ∧ Atomic t a := by
  obtain ⟨ks, a, hexec, htrace, ha⟩ := simulation.exec (.start hs) hrun (atomic_memory hs)
  rw [Transition.trace_eq_map hexec] at htrace
  exact ⟨ks, a, hexec, htrace, ha.server, ha.backups_of_free, ha⟩

/-- The run in which a promoted primary's own thread takes a confirmation. -/
theorem sections_atomic_stolen :
    ∃ t ks a, connectedThreads.exec promoted stolenConfirmation = some t ∧
      Primary.atomicThreads.exec promoted.memory ks = some a ∧
      ks.map ListenerStep.seen =
        Transition.trace connectedThreads seen promoted stolenConfirmation ∧
      a.server = t.server ∧ (t.semaphore = none → a.backups = t.backups) := by
  obtain ⟨t, ht⟩ : ∃ t, connectedThreads.exec promoted stolenConfirmation = some t :=
    Option.isSome_iff_exists.1 (by decide)
  have hstart : Start promoted :=
    ⟨rfl, fun _ => ⟨rfl, rfl, rfl, fun t ht => by cases ht; rfl⟩, fun _ => rfl, rfl⟩
  obtain ⟨ks, a, hexec, htrace, hserver, hbackups, -⟩ := sections_atomic ⟨hstart, by decide⟩ ht
  exact ⟨t, ks, a, ht, hexec, htrace, hserver, hbackups⟩

end Replicating

end InstantMessenger
