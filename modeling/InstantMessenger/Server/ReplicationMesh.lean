import Mathlib.Data.List.Nodup
import Mathlib.Order.Basic
import InstantMessenger.Foundations.Transition
import InstantMessenger.Util.Definitions

/-!
# The links between the servers

`prepareReplicationManager` links a server to the others: it connects once to each server
with a higher number, and then listens for those with a lower one.  Nobody tries a second
time, so who is linked depends on the order in which the servers start, crash and start
again.

* `Mesh`, `mesh` — the servers in `prepareReplicationManager`, their listening sockets and
  their maps `rm_connect_sockets_fd`, with crashes and new starts at any moment.
* `Mesh.Consistent` — **the invariant**: a link has two ends, and no server has two links to
  another one.
* `Mesh.linked_iff_listening` — two servers are linked exactly when the higher one was
  listening as the lower one tried, and this never changes while both are alive.
* `Mesh.one_link_each` — **all servers are linked with each other** in every run in which a
  server is numbered at most `MAX_RM` and starts only below servers that have finished their
  start.
-/

namespace InstantMessenger

open Transition

/-- Where the main thread of a server is. -/
inductive MeshPlace where
  | down
  /-- In `connectToRmServers`, in front of the round of this `connectMachineNumber`. -/
  | connecting (connectMachineNumber : Nat)
  /-- Behind `prepareReplicationManager`. -/
  | prepared
  deriving DecidableEq, Repr

/-- A server by its number, in one of its lives. -/
structure Peer where
  server : Nat
  life : Nat
  deriving DecidableEq, Repr

/-- The servers of one host, by their `rmNumber`, which gives their port. -/
structure Mesh where
  place : Nat → MeshPlace
  /-- How often a server has been started. -/
  starts : Nat → Nat
  /-- The connections to its listening socket that it has not accepted yet. -/
  backlog : Nat → List Peer
  /-- Who is at the other end of the sockets in the map. -/
  rm_connect_sockets_fd : Nat → List Peer

inductive MeshStep where
  | start (r : Nat)
  /-- A round of the loop in `connectToRmServers`. -/
  | connect (r : Nat)
  /-- The end of the loop, and `createRMListenerSocket`. -/
  | listen (r : Nat)
  /-- A round of `acceptRMConnection`. -/
  | accept (r : Nat)
  /-- A socket whose other end is gone is taken from the map, by its
  `handleRMCommunication` or by the replication loop. -/
  | notice (r : Nat) (p : Peer)
  /-- The process ends; also where the source calls `exit`. -/
  | crash (r : Nat)
  deriving DecidableEq, Repr

namespace Mesh

variable (s : Mesh)

/-- The port of this server can be connected to: server 0 never listens. -/
def Listening (r : Nat) : Prop := 0 < r ∧ s.place r = .prepared

instance (r : Nat) : Decidable (s.Listening r) := inferInstanceAs (Decidable (_ ∧ _))

/-- The process of this server. -/
def peer (r : Nat) : Peer := ⟨r, s.starts r⟩

/-- This is a running process. -/
def Live (p : Peer) : Prop := s.place p.server ≠ .down ∧ s.peer p.server = p

instance (p : Peer) : Decidable (s.Live p) := inferInstanceAs (Decidable (_ ∧ _))

/-- The ends of links at this server. -/
def links (r : Nat) : List Peer := s.backlog r ++ s.rm_connect_sockets_fd r

/-- The main thread of `r` goes on. -/
def enter (r : Nat) (x : MeshPlace) : Mesh := { s with place := Function.update s.place r x }

/-- A connection from `r` to the listening socket of `q`. -/
def link (r q : Nat) : Mesh :=
  { s with
    backlog := Function.update s.backlog q (s.backlog q ++ [s.peer r])
    rm_connect_sockets_fd := Function.update s.rm_connect_sockets_fd r
      (s.rm_connect_sockets_fd r ++ [s.peer q]) }

/-- What a step does. -/
def step (s : Mesh) : MeshStep → Option Mesh
  | .start r =>
    if s.place r = .down then
      some { s.enter r (.connecting r) with
        starts := Function.update s.starts r (s.starts r + 1) }
    else none
  | .connect r =>
    match s.place r with
    | .connecting c =>
      if c < MAX_RM then
        let entered := s.enter r (.connecting (c + 1))
        some (if s.Listening (c + 1) then entered.link r (c + 1) else entered)
      else none
    | _ => none
  | .listen r =>
    match s.place r with
    | .connecting c =>
      if c < MAX_RM then none
      else some (s.enter r .prepared)
    | _ => none
  | .accept r =>
    match s.backlog r with
    | p :: rest =>
      some { s with
        backlog := Function.update s.backlog r rest
        rm_connect_sockets_fd := Function.update s.rm_connect_sockets_fd r
          (s.rm_connect_sockets_fd r ++ [p]) }
    | [] => none
  | .notice r p =>
    if p ∈ s.rm_connect_sockets_fd r ∧ ¬ s.Live p then
      some { s with
        rm_connect_sockets_fd := Function.update s.rm_connect_sockets_fd r
          ((s.rm_connect_sockets_fd r).erase p) }
    else none
  | .crash r =>
    if s.place r ≠ .down then
      some { s.enter r .down with
        backlog := Function.update s.backlog r []
        rm_connect_sockets_fd := Function.update s.rm_connect_sockets_fd r [] }
    else none

/-- Nothing has been started. -/
def allDown : Mesh where
  place _ := .down
  starts _ := 0
  backlog _ := []
  rm_connect_sockets_fd _ := []

end Mesh

/-- The servers of the messenger. -/
def mesh : System Mesh MeshStep where
  init s := s = Mesh.allDown
  step := Mesh.step

namespace Mesh

/-! ## What holds in every run -/

/-- **The invariant.** -/
structure Consistent (s : Mesh) : Prop where
  /-- A server that is down has no sockets. -/
  down : ∀ r, s.place r = .down → s.links r = []
  /-- Only a listening socket has a backlog. -/
  quiet : ∀ r, ¬ s.Listening r → s.backlog r = []
  /-- Nobody is linked to a life to come. -/
  known : ∀ r, ∀ p ∈ s.links r, p.life ≤ s.starts p.server
  /-- The rounds of `connectToRmServers` begin at the own number. -/
  round : ∀ r c, s.place r = .connecting c → r ≤ c
  /-- During `connectToRmServers` the links are those of the rounds before. -/
  tried : ∀ r c, s.place r = .connecting c → ∀ p ∈ s.links r, r < p.server ∧ p.server ≤ c
  /-- There are no two links to one process. -/
  once : ∀ r, (s.links r).Nodup
  /-- A link between running processes has two ends. -/
  paired : ∀ r q, s.place r ≠ .down → s.place q ≠ .down →
    (s.peer q ∈ s.links r ↔ s.peer r ∈ s.links q)

theorem consistent_allDown : Consistent allDown where
  down _ _ := rfl
  quiet _ _ := rfl
  known _ _ h := by cases h
  round _ _ h := by cases h
  tried _ _ h := by cases h
  once _ := List.nodup_nil
  paired _ _ h := absurd rfl h

variable {s t u v : Mesh} {r : Nat}

@[simp] theorem place_enter_self (x : MeshPlace) : (s.enter r x).place r = x :=
  Function.update_self ..

@[simp] theorem place_enter_of_ne {k : Nat} (hkr : k ≠ r) (x : MeshPlace) :
    (s.enter r x).place k = s.place k := Function.update_of_ne hkr ..

@[simp] theorem starts_enter (x : MeshPlace) : (s.enter r x).starts = s.starts := rfl

@[simp] theorem backlog_enter (x : MeshPlace) : (s.enter r x).backlog = s.backlog := rfl

@[simp] theorem rm_connect_sockets_fd_enter (x : MeshPlace) :
    (s.enter r x).rm_connect_sockets_fd = s.rm_connect_sockets_fd := rfl

theorem Consistent.start (h : Consistent s) (hst : s.step (.start r) = some t) :
    Consistent t := by
  simp only [step, Option.ite_none_right_eq_some, Option.some.injEq] at hst
  obtain ⟨hdown, rfl⟩ := hst
  have hnil : s.links r = [] := h.down r hdown
  have hnew : ∀ k, (⟨r, s.starts r + 1⟩ : Peer) ∉ s.links k := fun k hmem => by
    have hlife : s.starts r + 1 ≤ s.starts r := h.known k _ hmem
    omega
  refine ⟨fun k hk => ?_, fun k hk => ?_, fun k p hp => ?_, fun k c hk => ?_,
    fun k c hk p hp => ?_, h.once, fun k q hk hq => ?_⟩
  · by_cases hkr : k = r
    · exact hkr ▸ hnil
    · exact h.down k (by simpa [hkr] using hk)
  · by_cases hkr : k = r
    · rw [hkr]
      exact (List.append_eq_nil_iff.1 hnil).1
    · exact h.quiet k (by simpa [Listening, hkr] using hk)
  · have hlife := h.known k p hp
    by_cases hpr : p.server = r
    · simp only [hpr, Function.update_self] at hlife ⊢
      exact Nat.le_succ_of_le hlife
    · simpa [hpr] using hlife
  · by_cases hkr : k = r
    · subst hkr
      exact Nat.le_of_eq (MeshPlace.connecting.inj ((place_enter_self _).symm.trans hk))
    · exact h.round k c (by simpa [hkr] using hk)
  · by_cases hkr : k = r
    · subst hkr
      have hp : p ∈ s.links k := hp
      rw [hnil] at hp
      cases hp
    · exact h.tried k c (by simpa [hkr] using hk) p hp
  · by_cases hkr : k = r <;> by_cases hqr : q = r
    · rw [hkr, hqr]
    · subst hkr
      have hleft : s.peer q ∉ s.links k := by simp [hnil]
      simpa [peer, links, hqr] using iff_of_false hleft (hnew q)
    · subst hqr
      have hright : s.peer k ∉ s.links q := by simp [hnil]
      simpa [peer, links, hkr] using iff_of_false (hnew k) hright
    · have hpaired := h.paired k q (by simpa [hkr] using hk) (by simpa [hqr] using hq)
      simpa [peer, links, hkr, hqr] using hpaired

/-- A starting server goes on to its next round, or has finished. -/
theorem Consistent.enter (h : Consistent s) {c : Nat} {x : MeshPlace}
    (hr : s.place r = .connecting c) (hx : x = .connecting (c + 1) ∨ x = .prepared) :
    Consistent (s.enter r x) := by
  have hplace : ∀ k, (s.enter r x).place k = .down ↔ s.place k = .down := fun k => by
    by_cases hkr : k = r
    · subst hkr
      rcases hx with rfl | rfl <;> simp [hr]
    · simp [hkr]
  have hround : ∀ d, (s.enter r x).place r = .connecting d → d = c + 1 := fun d hd => by
    rw [place_enter_self] at hd
    rcases hx with rfl | rfl <;> cases hd
    rfl
  refine ⟨fun k hk => h.down k ((hplace k).1 hk), fun k hk => ?_, h.known, fun k d hk => ?_,
    fun k d hk p hp => ?_, h.once, fun k q hk hq => ?_⟩
  · refine h.quiet k fun hlistening => hk ?_
    by_cases hkr : k = r
    · subst hkr
      cases hr.symm.trans hlistening.2
    · simpa [Listening, hkr] using hlistening
  · by_cases hkr : k = r
    · subst hkr
      rw [hround d hk]
      exact Nat.le_succ_of_le (h.round k c hr)
    · exact h.round k d (by simpa [hkr] using hk)
  · by_cases hkr : k = r
    · subst hkr
      rw [hround d hk]
      exact (h.tried k c hr p hp).imp_right Nat.le_succ_of_le
    · exact h.tried k d (by simpa [hkr] using hk) p hp
  · exact h.paired k q (fun hk' => hk ((hplace k).2 hk')) fun hq' => hq ((hplace q).2 hq')

/-- The new connection has two ends. -/
theorem mem_links_link {q : Nat} (hrq : r ≠ q) (k : Nat) (p : Peer) :
    p ∈ (s.link r q).links k ↔
      p ∈ s.links k ∨ (k = r ∧ p = s.peer q) ∨ (k = q ∧ p = s.peer r) := by
  by_cases hkr : k = r
  · subst hkr
    simp [link, links, hrq, or_assoc]
  · by_cases hkq : k = q
    · subst hkq
      simp [link, links, hkr, or_comm, or_left_comm]
    · simp [link, links, hkr, hkq]

theorem Consistent.link {q : Nat} (h : Consistent s) (hr : s.place r = .connecting q)
    (hq : s.Listening q) (hnew : ∀ p ∈ s.links r, p.server < q) (hrq : r < q) :
    Consistent (s.link r q) := by
  have hne : r ≠ q := Nat.ne_of_lt hrq
  have hfrom : s.peer q ∉ s.links r := fun hmem => Nat.lt_irrefl q (hnew _ hmem)
  have hto : s.peer r ∉ s.links q := fun hmem =>
    hfrom ((h.paired r q (by simp [hr]) (by simp [hq.2])).2 hmem)
  refine ⟨fun k hk => ?_, fun k hk => ?_, fun k p hp => ?_, h.round, fun k d hk p hp => ?_,
    fun k => ?_, fun k j hk hj => ?_⟩
  · refine List.eq_nil_iff_forall_not_mem.2 fun p hp => ?_
    rw [mem_links_link hne, h.down k hk] at hp
    rcases hp with hp | ⟨rfl, -⟩ | ⟨rfl, -⟩
    · cases hp
    · cases hr.symm.trans hk
    · cases hq.2.symm.trans hk
  · have hkq : k ≠ q := fun hkq => hk (hkq ▸ hq)
    exact (Function.update_of_ne hkq _ _).trans (h.quiet k hk)
  · rw [mem_links_link hne] at hp
    rcases hp with hp | ⟨-, rfl⟩ | ⟨-, rfl⟩
    · exact h.known k p hp
    · exact Nat.le_refl _
    · exact Nat.le_refl _
  · rw [mem_links_link hne] at hp
    rcases hp with hp | ⟨rfl, rfl⟩ | ⟨rfl, -⟩
    · exact h.tried k d hk p hp
    · cases hr.symm.trans hk
      exact ⟨hrq, Nat.le_refl _⟩
    · cases hq.2.symm.trans hk
  · by_cases hkr : k = r
    · subst hkr
      have hlinks : (s.link k q).links k = s.links k ++ [s.peer q] := by
        simp [Mesh.link, links, hne]
      rw [hlinks, (List.perm_append_singleton _ _).nodup_iff]
      exact (h.once k).cons hfrom
    · by_cases hkq : k = q
      · subst hkq
        have hlinks : (s.link r k).links k =
            s.backlog k ++ s.peer r :: s.rm_connect_sockets_fd k := by
          simp [Mesh.link, links, hkr]
        rw [hlinks, List.perm_middle.nodup_iff]
        exact (h.once k).cons hto
      · have hlinks : (s.link r q).links k = s.links k := by simp [Mesh.link, links, hkr, hkq]
        rw [hlinks]
        exact h.once k
  · have hpeer : ∀ i, (s.link r q).peer i = s.peer i := fun i => rfl
    have hinj : ∀ i l, s.peer i = s.peer l ↔ i = l :=
      fun i l => ⟨fun heq => congrArg Peer.server heq, fun heq => heq ▸ rfl⟩
    simp only [mem_links_link hne, hpeer, hinj, h.paired k j hk hj]
    tauto

/-- An accepted connection goes from the backlog to the map. -/
theorem links_accept (hst : s.step (.accept r) = some t) (k : Nat) :
    (t.links k).Perm (s.links k) := by
  simp only [step] at hst
  split at hst
  case h_2 => cases hst
  case h_1 p rest hbacklog =>
    cases hst
    by_cases hkr : k = r
    · subst hkr
      simp only [links, Function.update_self, hbacklog, ← List.append_assoc, List.cons_append]
      exact List.perm_append_singleton p _
    · simp [links, hkr]

theorem Consistent.accept (h : Consistent s) (hst : s.step (.accept r) = some t) :
    Consistent t := by
  have hperm := links_accept hst
  simp only [step] at hst
  split at hst
  case h_2 => cases hst
  case h_1 p rest hbacklog =>
    cases hst
    refine ⟨fun k hk => ?_, fun k hk => ?_, fun k x hx => ?_, h.round, fun k c hk x hx => ?_,
      fun k => ?_, fun k q hk hq => ?_⟩
    · exact ((h.down k hk) ▸ hperm k).eq_nil
    · have hnil := h.quiet k hk
      by_cases hkr : k = r
      · subst hkr
        rw [hbacklog] at hnil
        cases hnil
      · simpa [hkr] using hnil
    · exact h.known k x ((hperm k).mem_iff.1 hx)
    · exact h.tried k c hk x ((hperm k).mem_iff.1 hx)
    · exact (hperm k).nodup_iff.2 (h.once k)
    · rw [(hperm k).mem_iff, (hperm q).mem_iff]
      exact h.paired k q hk hq

theorem links_notice {p : Peer} (hst : s.step (.notice r p) = some t) (k : Nat) :
    (t.links k).Sublist (s.links k) := by
  simp only [step, Option.ite_none_right_eq_some, Option.some.injEq] at hst
  obtain ⟨-, rfl⟩ := hst
  by_cases hkr : k = r
  · subst hkr
    simpa [links] using List.erase_sublist
  · simp [links, hkr]

/-- Only links to processes that are gone are taken away. -/
theorem mem_links_notice {p : Peer} {q : Nat} (hst : s.step (.notice r p) = some t)
    (hq : s.place q ≠ .down) (k : Nat) : s.peer q ∈ t.links k ↔ s.peer q ∈ s.links k := by
  refine ⟨fun hmem => (links_notice hst k).subset hmem, fun hmem => ?_⟩
  simp only [step, Option.ite_none_right_eq_some, Option.some.injEq] at hst
  obtain ⟨⟨-, hgone⟩, rfl⟩ := hst
  have hne : s.peer q ≠ p := fun heq => hgone (heq ▸ ⟨hq, rfl⟩)
  by_cases hkr : k = r
  · subst hkr
    simpa [links, List.mem_erase_of_ne hne] using hmem
  · simpa [links, hkr] using hmem

theorem Consistent.notice (h : Consistent s) {p : Peer} (hst : s.step (.notice r p) = some t) :
    Consistent t := by
  have hsub := links_notice hst
  have hmem := fun k q hq => @mem_links_notice s t r p q hst hq k
  simp only [step, Option.ite_none_right_eq_some, Option.some.injEq] at hst
  obtain ⟨-, rfl⟩ := hst
  refine ⟨fun k hk => List.eq_nil_of_sublist_nil (h.down k hk ▸ hsub k), h.quiet,
    fun k x hx => h.known k x ((hsub k).subset hx), h.round,
    fun k c hk x hx => h.tried k c hk x ((hsub k).subset hx),
    fun k => (h.once k).sublist (hsub k), fun k q hk hq => ?_⟩
  exact ((hmem k q hq).trans (h.paired k q hk hq)).trans (hmem q k hk).symm

theorem links_crash (hst : s.step (.crash r) = some t) (k : Nat) :
    t.links k = if k = r then [] else s.links k := by
  simp only [step, Option.ite_none_right_eq_some, Option.some.injEq] at hst
  obtain ⟨-, rfl⟩ := hst
  by_cases hkr : k = r <;> simp [links, hkr]

theorem Consistent.crash (h : Consistent s) (hst : s.step (.crash r) = some t) :
    Consistent t := by
  have hlinks := links_crash hst
  simp only [step, Option.ite_none_right_eq_some, Option.some.injEq] at hst
  obtain ⟨-, hst⟩ := hst
  have hempty : t.links r = [] := by rw [hlinks, if_pos rfl]
  have hother : ∀ k, k ≠ r → t.links k = s.links k := fun k hkr => by rw [hlinks, if_neg hkr]
  have hplace : ∀ k, k ≠ r → t.place k = s.place k := fun k hkr => by
    subst hst
    simp [hkr]
  have hdown : t.place r = .down := by
    subst hst
    simp
  have hstarts : t.starts = s.starts := by
    rw [← hst]
    rfl
  refine ⟨fun k hk => ?_, fun k hk => ?_, fun k p hp => ?_, fun k c hk => ?_,
    fun k c hk p hp => ?_, fun k => ?_, fun k q hk hq => ?_⟩
  · by_cases hkr : k = r
    · rw [hkr, hempty]
    · rw [hother k hkr]
      exact h.down k (hplace k hkr ▸ hk)
  · by_cases hkr : k = r
    · rw [hkr]
      exact (List.append_eq_nil_iff.1 hempty).1
    · have hbacklog : t.backlog k = s.backlog k := by
        subst hst
        simp [hkr]
      rw [hbacklog]
      exact h.quiet k (by rwa [Listening, hplace k hkr] at hk)
  · by_cases hkr : k = r
    · rw [hkr, hempty] at hp
      cases hp
    · rw [hstarts]
      exact h.known k p (hother k hkr ▸ hp)
  · have hkr : k ≠ r := fun hkr => by cases (hkr ▸ hk).symm.trans hdown
    exact h.round k c (hplace k hkr ▸ hk)
  · have hkr : k ≠ r := fun hkr => by cases (hkr ▸ hk).symm.trans hdown
    exact h.tried k c (hplace k hkr ▸ hk) p (hother k hkr ▸ hp)
  · by_cases hkr : k = r
    · rw [hkr, hempty]
      exact List.nodup_nil
    · rw [hother k hkr]
      exact h.once k
  · have hkr : k ≠ r := fun hkr => hk (hkr ▸ hdown)
    have hqr : q ≠ r := fun hqr => hq (hqr ▸ hdown)
    rw [hother k hkr, hother q hqr, peer, peer, hstarts]
    exact h.paired k q (hplace k hkr ▸ hk) (hplace q hqr ▸ hq)

/-- What a round of `connectToRmServers` does. -/
theorem step_connect (hst : s.step (.connect r) = some t) :
    ∃ c, s.place r = .connecting c ∧ c < MAX_RM ∧
      t = if s.Listening (c + 1) then (s.enter r (.connecting (c + 1))).link r (c + 1)
        else s.enter r (.connecting (c + 1)) := by
  simp only [step] at hst
  split at hst
  case h_2 => cases hst
  case h_1 c hplace =>
    obtain ⟨hc, hst⟩ := Option.ite_none_right_eq_some.1 hst
    exact ⟨c, hplace, hc, (Option.some.inj hst).symm⟩

theorem step_listen (hst : s.step (.listen r) = some t) :
    ∃ c, s.place r = .connecting c ∧ MAX_RM ≤ c ∧ t = s.enter r .prepared := by
  simp only [step] at hst
  split at hst
  case h_2 => cases hst
  case h_1 c hplace =>
    obtain ⟨hc, hst⟩ := Option.ite_none_left_eq_some.1 hst
    exact ⟨c, hplace, Nat.le_of_not_lt hc, (Option.some.inj hst).symm⟩

theorem Consistent.connect (h : Consistent s) (hst : s.step (.connect r) = some t) :
    Consistent t := by
  obtain ⟨c, hplace, -, rfl⟩ := step_connect hst
  have hentered := h.enter hplace (.inl rfl)
  split
  case isFalse => exact hentered
  case isTrue hlistening =>
    have hrc := h.round r c hplace
    have hne : c + 1 ≠ r := by omega
    refine hentered.link (place_enter_self _) ⟨hlistening.1, ?_⟩ (fun p hp => ?_) (by omega)
    · rw [place_enter_of_ne hne]
      exact hlistening.2
    · exact Nat.lt_succ_of_le (h.tried r c hplace p hp).2

theorem Consistent.step {l : MeshStep} (h : Consistent s) (hst : s.step l = some t) :
    Consistent t := by
  cases l with
  | start r => exact h.start hst
  | connect r => exact h.connect hst
  | listen r =>
    obtain ⟨c, hplace, -, rfl⟩ := step_listen hst
    exact h.enter hplace (.inr rfl)
  | accept r => exact h.accept hst
  | notice r p => exact h.notice hst
  | crash r => exact h.crash hst

theorem consistent_of_reachable (h : mesh.Reachable s) : Consistent s :=
  h.invariant (fun _ ht => ht ▸ consistent_allDown) fun _ _ _ hI hst => hI.step hst

/-! ## What becomes of a link -/

/-- `r` has made its one attempt to connect to `q`. -/
def Tried (s : Mesh) (r q : Nat) : Prop :=
  s.place r = .prepared ∨ ∃ c, s.place r = .connecting c ∧ q ≤ c

/-- The step is the attempt. -/
def Tries (s : Mesh) (l : MeshStep) (r q : Nat) : Prop :=
  l = .connect r ∧ ∃ c, s.place r = .connecting c ∧ c + 1 = q

/-- Lives are counted by the starts. -/
theorem starts_step {l : MeshStep} (hst : s.step l = some t) :
    t.starts = s.starts ∨
      ∃ r, l = .start r ∧ t.starts = Function.update s.starts r (s.starts r + 1) := by
  cases l with
  | start r =>
    simp only [step, Option.ite_none_right_eq_some, Option.some.injEq] at hst
    obtain ⟨-, rfl⟩ := hst
    exact .inr ⟨r, rfl, rfl⟩
  | connect r =>
    obtain ⟨c, -, -, rfl⟩ := step_connect hst
    split <;> exact .inl rfl
  | listen r =>
    obtain ⟨c, -, -, rfl⟩ := step_listen hst
    exact .inl rfl
  | accept r =>
    simp only [step] at hst
    split at hst <;> cases hst
    exact .inl rfl
  | notice r p =>
    simp only [step, Option.ite_none_right_eq_some, Option.some.injEq] at hst
    obtain ⟨-, rfl⟩ := hst
    exact .inl rfl
  | crash r =>
    simp only [step, Option.ite_none_right_eq_some, Option.some.injEq] at hst
    obtain ⟨-, rfl⟩ := hst
    exact .inl rfl

theorem starts_eq {l : MeshStep} (hst : s.step l = some t) (hl : ∀ r, l ≠ .start r) :
    t.starts = s.starts := by
  rcases starts_step hst with h | ⟨r, rfl, -⟩
  · exact h
  · exact absurd rfl (hl r)

theorem starts_le {l : MeshStep} (hst : s.step l = some t) (k : Nat) :
    s.starts k ≤ t.starts k := by
  rcases starts_step hst with h | ⟨r, -, h⟩
  · exact Nat.le_of_eq (congrFun h k).symm
  · rw [h]
    by_cases hkr : k = r
    · subst hkr
      simp
    · simp [hkr]

/-- The steps after which a server is in another place. -/
theorem place_step {l : MeshStep} (hst : s.step l = some t) (k : Nat) :
    t.place k = s.place k ∨
      (l = .start k ∧ t.starts k = s.starts k + 1) ∨
      (l = .connect k ∧ ∃ c, s.place k = .connecting c ∧ t.place k = .connecting (c + 1)) ∨
      (l = .listen k ∧ ∃ c, s.place k = .connecting c ∧ MAX_RM ≤ c ∧ t.place k = .prepared) ∨
      (l = .crash k ∧ t.place k = .down) := by
  cases l with
  | start r =>
    simp only [step, Option.ite_none_right_eq_some, Option.some.injEq] at hst
    obtain ⟨-, rfl⟩ := hst
    by_cases hkr : k = r
    · subst hkr
      simp
    · simp [hkr]
  | connect r =>
    obtain ⟨c, hplace, -, rfl⟩ := step_connect hst
    have hsame : ∀ x : Mesh, (if s.Listening (c + 1) then x.link r (c + 1) else x).place k =
        x.place k := fun x => by split <;> rfl
    rw [hsame]
    by_cases hkr : k = r
    · subst hkr
      exact .inr (.inr (.inl ⟨rfl, c, hplace, place_enter_self _⟩))
    · exact .inl (place_enter_of_ne hkr _)
  | listen r =>
    obtain ⟨c, hplace, hc, rfl⟩ := step_listen hst
    by_cases hkr : k = r
    · subst hkr
      exact .inr (.inr (.inr (.inl ⟨rfl, c, hplace, hc, place_enter_self _⟩)))
    · exact .inl (place_enter_of_ne hkr _)
  | accept r =>
    simp only [step] at hst
    split at hst <;> cases hst
    exact .inl rfl
  | notice r p =>
    simp only [step, Option.ite_none_right_eq_some, Option.some.injEq] at hst
    obtain ⟨-, rfl⟩ := hst
    exact .inl rfl
  | crash r =>
    simp only [step, Option.ite_none_right_eq_some, Option.some.injEq] at hst
    obtain ⟨-, rfl⟩ := hst
    by_cases hkr : k = r
    · subst hkr
      simp
    · simp [hkr]

/-- A process that runs after a step, and was there before it, ran before it. -/
theorem live_of_step {l : MeshStep} (hst : s.step l = some t) {k : Nat}
    (hk : t.Live (s.peer k)) : s.place k ≠ .down := by
  intro hdown
  rcases place_step hst k with h | ⟨-, h⟩ | ⟨-, c, h, -⟩ | ⟨-, c, h, -⟩ | ⟨-, h⟩
  · exact hk.1 (h.trans hdown)
  · have hlife : t.starts k = s.starts k := congrArg Peer.life hk.2
    omega
  · cases hdown.symm.trans h
  · cases hdown.symm.trans h
  · exact hk.1 h

theorem tried_of_step {l : MeshStep} (hst : s.step l = some t) {k q : Nat}
    (hk : t.Live (s.peer k)) (h : s.Tried k q) : t.Tried k q := by
  have hlife : t.starts k = s.starts k := congrArg Peer.life hk.2
  rcases place_step hst k with hsame | ⟨-, hstart⟩ | ⟨-, c, hc, ht⟩ | ⟨-, c, -, -, ht⟩ | ⟨-, ht⟩
  · rwa [Tried, hsame]
  · omega
  · refine .inr ⟨c + 1, ht, ?_⟩
    rcases h with h | ⟨d, hd, hq⟩
    · cases hc.symm.trans h
    · cases hc.symm.trans hd
      exact Nat.le_succ_of_le hq
  · exact .inl ht
  · exact absurd ht hk.1

/-- The attempt is made once. -/
theorem tried_step {l : MeshStep} (hst : s.step l = some t) {k q : Nat}
    (hk : t.Live (s.peer k)) (hq : q ≤ MAX_RM) (h : t.Tried k q) :
    s.Tried k q ∨ s.Tries l k q := by
  have hlife : t.starts k = s.starts k := congrArg Peer.life hk.2
  rcases place_step hst k with hsame | ⟨-, hstart⟩ | ⟨hl, c, hc, ht⟩ | ⟨-, c, hc, hmax, -⟩ |
    ⟨-, ht⟩
  · rw [Tried, hsame] at h
    exact .inl h
  · omega
  · rcases h with h | ⟨d, hd, hle⟩
    · cases ht.symm.trans h
    · cases ht.symm.trans hd
      rcases Nat.lt_or_ge c q with hlt | hge
      · exact .inr ⟨hl, c, hc, by omega⟩
      · exact .inl (.inr ⟨c, hc, hge⟩)
  · exact .inl (.inr ⟨c, hc, Nat.le_trans hq hmax⟩)
  · exact absurd ht hk.1

/-- **A link between running processes** is made by the attempt, and by nothing else. -/
theorem mem_links_step (h : Consistent s) {l : MeshStep} (hst : s.step l = some t) {r q : Nat}
    (hrq : r < q) (hr : t.Live (s.peer r)) (hq : t.Live (s.peer q)) :
    s.peer q ∈ t.links r ↔ s.peer q ∈ s.links r ∨ (s.Tries l r q ∧ s.Listening q) := by
  cases l with
  | start k =>
    simp only [step, Option.ite_none_right_eq_some, Option.some.injEq] at hst
    obtain ⟨-, rfl⟩ := hst
    simp [Tries, links]
  | connect k =>
    obtain ⟨c, hplace, -, rfl⟩ := step_connect hst
    have hk := h.round k c hplace
    have htries : s.Tries (.connect k) r q ↔ r = k ∧ q = c + 1 := by
      constructor
      · rintro ⟨hl, d, hd, rfl⟩
        cases hl
        cases hplace.symm.trans hd
        exact ⟨rfl, rfl⟩
      · rintro ⟨rfl, rfl⟩
        exact ⟨rfl, c, hplace, rfl⟩
    rw [htries]
    split
    case isTrue hlistening =>
      rw [mem_links_link (by omega)]
      have hends : ¬ (r = c + 1 ∧ s.peer q = (s.enter k (.connecting (c + 1))).peer k) := by
        rintro ⟨hrc, hqk⟩
        have hqk : q = k := congrArg Peer.server hqk
        omega
      have hnew : s.peer q = (s.enter k (.connecting (c + 1))).peer (c + 1) ↔ q = c + 1 :=
        ⟨fun heq => congrArg Peer.server heq, fun heq => heq ▸ rfl⟩
      rw [or_iff_left hends, hnew]
      refine or_congr Iff.rfl ⟨fun hrk => ⟨hrk, hrk.2 ▸ hlistening⟩, And.left⟩
    case isFalse hlistening =>
      refine ⟨Or.inl, ?_⟩
      rintro (hmem | ⟨⟨-, rfl⟩, hlistening'⟩)
      · exact hmem
      · exact absurd hlistening' hlistening
  | listen k =>
    obtain ⟨c, hplace, -, rfl⟩ := step_listen hst
    simp [Tries, links]
  | accept k =>
    rw [(links_accept hst r).mem_iff]
    simp [Tries]
  | notice k p =>
    rw [mem_links_notice hst (live_of_step hst hq)]
    simp [Tries]
  | crash k =>
    have hrk : r ≠ k := by
      rintro rfl
      simp only [step, Option.ite_none_right_eq_some, Option.some.injEq] at hst
      obtain ⟨-, rfl⟩ := hst
      exact hr.1 (place_enter_self _)
    rw [links_crash hst, if_neg hrk]
    simp [Tries]

theorem Tried.not_tries {l : MeshStep} {r q : Nat} (h : s.Tried r q) : ¬ s.Tries l r q := by
  rintro ⟨-, c, hc, hq⟩
  rcases h with h | ⟨d, hd, hle⟩
  · cases hc.symm.trans h
  · cases hc.symm.trans hd
    omega

theorem starts_le_of_reaches (h : mesh.Reaches t u) (k : Nat) : t.starts k ≤ u.starts k := by
  obtain ⟨ls, hls⟩ := h
  induction ls generalizing t with
  | nil =>
    cases hls
    exact Nat.le_refl _
  | cons l ls ih =>
    obtain ⟨v, hst, hvu⟩ := Option.bind_eq_some_iff.1 hls
    exact Nat.le_trans (starts_le hst k) (ih hvu)

theorem peer_of_reaches {l : MeshStep} (hst : t.step l = some v) (h : mesh.Reaches v u) {k : Nat}
    (hu : u.Live (t.peer k)) : v.peer k = t.peer k := by
  have hlife : u.starts k = t.starts k := congrArg Peer.life hu.2
  rw [peer, peer, Nat.le_antisymm ((starts_le_of_reaches h k).trans_eq hlife) (starts_le hst k)]

/-- A process that runs at the end of a run, and was there at its beginning, has run since. -/
theorem live_of_reaches (h : mesh.Reaches t u) {k : Nat} (hu : u.Live (t.peer k)) :
    t.Live (t.peer k) := by
  obtain ⟨ls, hls⟩ := h
  induction ls generalizing t with
  | nil =>
    cases hls
    exact hu
  | cons l ls ih =>
    obtain ⟨v, hst, hvu⟩ := Option.bind_eq_some_iff.1 hls
    have hpeer := peer_of_reaches hst ⟨ls, hvu⟩ hu
    exact ⟨live_of_step hst (hpeer ▸ ih (hpeer ▸ hu) hvu), rfl⟩

/-- **After the attempt nothing changes**, while both servers run. -/
theorem mem_links_of_reaches (h : Consistent t) (htu : mesh.Reaches t u) {r q : Nat} (hrq : r < q)
    (htried : t.Tried r q) (hr : u.Live (t.peer r)) (hq : u.Live (t.peer q)) :
    t.peer q ∈ u.links r ↔ t.peer q ∈ t.links r := by
  obtain ⟨ls, hls⟩ := htu
  induction ls generalizing t with
  | nil =>
    cases hls
    rfl
  | cons l ls ih =>
    obtain ⟨v, hst, hvu⟩ := Option.bind_eq_some_iff.1 hls
    have hpeer := peer_of_reaches hst ⟨ls, hvu⟩ hr
    have hpeer' := peer_of_reaches hst ⟨ls, hvu⟩ hq
    have hvr : v.Live (t.peer r) := hpeer ▸ live_of_reaches ⟨ls, hvu⟩ (hpeer ▸ hr)
    have hvq : v.Live (t.peer q) := hpeer' ▸ live_of_reaches ⟨ls, hvu⟩ (hpeer' ▸ hq)
    have hrest := ih (h.step hst) (tried_of_step hst hvr htried) (hpeer ▸ hr) (hpeer' ▸ hq) hvu
    rw [hpeer'] at hrest
    rw [hrest, mem_links_step h hst hrq hvr hvq]
    exact or_iff_left fun htries => htried.not_tries htries.1

/-- How many ends of links to another process a server has. -/
theorem Consistent.count_links (h : Consistent s) (r : Nat) (p : Peer) {P : Prop} [Decidable P]
    (hmem : p ∈ s.links r ↔ P) : (s.links r).count p = if P then 1 else 0 := by
  split
  case isTrue hp => exact List.count_eq_one_of_mem (h.once r) (hmem.2 hp)
  case isFalse hp => exact List.count_eq_zero.2 fun hp' => hp (hmem.1 hp')

/-- **Who is linked.**  A server connects to each higher number once.  As long as both then run,
each has one end of a link to the other if the higher one was listening, and none if not. -/
theorem linked_iff_listening {s t u : Mesh} {r c : Nat} (hs : mesh.Reachable s)
    (hr : s.place r = .connecting c) (hst : s.step (.connect r) = some t)
    (htu : mesh.Reaches t u) (hlower : u.Live (t.peer r)) (hhigher : u.Live (t.peer (c + 1))) :
    (u.links r).count (u.peer (c + 1)) = (if s.Listening (c + 1) then 1 else 0) ∧
      (u.links (c + 1)).count (u.peer r) = if s.Listening (c + 1) then 1 else 0 := by
  have hcons := consistent_of_reachable hs
  have hround := hcons.round r c hr
  have hrq : r < c + 1 := by omega
  have hplace : t.place r = .connecting (c + 1) := by
    obtain ⟨d, hd, -, rfl⟩ := step_connect hst
    cases hr.symm.trans hd
    split <;> exact place_enter_self _
  have hpeer : ∀ k, s.peer k = t.peer k := fun k => by
    obtain ⟨d, -, -, rfl⟩ := step_connect hst
    split <;> rfl
  have hmem : t.peer (c + 1) ∈ u.links r ↔ s.Listening (c + 1) := by
    rw [mem_links_of_reaches (hcons.step hst) htu hrq (.inr ⟨c + 1, hplace, Nat.le_refl _⟩) hlower
      hhigher, ← hpeer, mem_links_step hcons hst hrq (hpeer r ▸ live_of_reaches htu hlower)
      (hpeer (c + 1) ▸ live_of_reaches htu hhigher)]
    have hnew : s.peer (c + 1) ∉ s.links r := fun hmem => by
      have hle : c + 1 ≤ c := (hcons.tried r c hr _ hmem).2
      omega
    have htries : s.Tries (.connect r) r (c + 1) := ⟨rfl, c, hr, rfl⟩
    simp only [hnew, htries, true_and, false_or]
  obtain ⟨ls, hls⟩ := htu
  have hst' : mesh.step s (.connect r) = some t := hst
  have ht : mesh.Reachable t := hs.next hst'
  have hu := consistent_of_reachable (ht.exec hls)
  rw [← hhigher.2] at hmem
  have hpaired := hu.paired r (c + 1) hlower.1 hhigher.1
  exact ⟨hu.count_links r _ hmem, hu.count_links (c + 1) _ (hpaired.symm.trans hmem)⟩

/-- Server 2 tries to connect to server 3 before this one listens. -/
theorem linked_iff_listening_tooEarly :
    ∃ s t u, mesh.exec allDown [.start 3, .start 2] = some s ∧ s.step (.connect 2) = some t ∧
      mesh.exec t [.listen 3, .listen 2] = some u ∧ u.place 2 = .prepared ∧
      u.place 3 = .prepared ∧ (u.links 2).count (u.peer 3) = 0 := by
  obtain ⟨s, hs⟩ : ∃ s, mesh.exec allDown [.start 3, .start 2] = some s := ⟨_, rfl⟩
  obtain ⟨t, ht⟩ : ∃ t, s.step (.connect 2) = some t := by
    cases hs
    exact ⟨_, rfl⟩
  obtain ⟨u, hu⟩ : ∃ u, mesh.exec t [.listen 3, .listen 2] = some u := by
    cases hs
    cases ht
    exact ⟨_, rfl⟩
  have hstates : s.place 2 = .connecting 2 ∧ ¬ s.Listening 3 ∧ u.place 2 = .prepared ∧
      u.place 3 = .prepared ∧ u.Live (t.peer 2) ∧ u.Live (t.peer 3) := by
    cases hs
    cases ht
    cases hu
    decide
  obtain ⟨hr, hearly, h2, h3, hlower, hhigher⟩ := hstates
  have hcount := (linked_iff_listening (System.reachable_of_exec rfl hs) hr ht ⟨_, hu⟩ hlower
    hhigher).1
  rw [if_neg hearly] at hcount
  exact ⟨s, t, u, hs, ht, hu, h2, h3, hcount⟩

/-! ## Servers that start in order -/

/-- A server is numbered at most `MAX_RM`, where `connectToRmServers` stops, and is started below
all those that run and when they have finished their start. -/
def Orderly (s : Mesh) (l : MeshStep) : Prop :=
  ∀ r, l = .start r → r ≤ MAX_RM ∧ ∀ q, s.place q ≠ .down → r < q ∧ s.place q = .prepared

/-- Every server has found those above it listening. -/
structure Meshed (s : Mesh) : Prop where
  bounded : ∀ q, s.place q ≠ .down → q ≤ MAX_RM
  higher : ∀ r q, r < q → s.place r ≠ .down → s.place q ≠ .down → s.place q = .prepared
  linked : ∀ r q, r < q → s.place r ≠ .down → s.place q ≠ .down → s.Tried r q →
    s.peer q ∈ s.links r

theorem Meshed.start (h : Meshed s) (hok : Orderly s (.start r))
    (hst : s.step (.start r) = some t) : Meshed t := by
  obtain ⟨hmax, hrunning⟩ := hok r rfl
  simp only [step, Option.ite_none_right_eq_some, Option.some.injEq] at hst
  obtain ⟨-, rfl⟩ := hst
  have hother : ∀ k, k ≠ r → (s.enter r (.connecting r)).place k ≠ .down → s.place k ≠ .down :=
    fun k hkr hk => by rwa [place_enter_of_ne hkr] at hk
  have hlowest : ∀ k q, k < q → (s.enter r (.connecting r)).place k ≠ .down → q ≠ r := by
    rintro k q hkq hk rfl
    have hrk := (hrunning k (hother k (Nat.ne_of_lt hkq) hk)).1
    omega
  refine ⟨fun q hq => ?_, fun k q hkq hk hq => ?_, fun k q hkq hk hq htried => ?_⟩
  · by_cases hqr : q = r
    · exact hqr ▸ hmax
    · exact h.bounded q (hother q hqr hq)
  · have hqr := hlowest k q hkq hk
    exact (place_enter_of_ne hqr _).trans (hrunning q (hother q hqr hq)).2
  · have hqr := hlowest k q hkq hk
    have hq' := hother q hqr hq
    by_cases hkr : k = r
    · subst hkr
      rcases htried with htried | ⟨c, hc, hle⟩
      · cases (place_enter_self _).symm.trans htried
      · cases (place_enter_self _).symm.trans hc
        omega
    · have hlinked := h.linked k q hkq (hother k hkr hk) hq'
        (by simpa [Tried, hkr] using htried)
      simpa [peer, links, hqr] using hlinked

theorem Meshed.step (h : Meshed s) (hcons : Consistent s) {l : MeshStep} (hok : Orderly s l)
    (hst : s.step l = some t) : Meshed t := by
  by_cases hl : ∀ r, l ≠ .start r
  case neg =>
    push Not at hl
    obtain ⟨r, rfl⟩ := hl
    exact h.start hok hst
  case pos =>
    have hpeer : ∀ k, t.peer k = s.peer k := fun k => by rw [peer, peer, starts_eq hst hl]
    have hlive : ∀ k, t.place k ≠ .down → t.Live (s.peer k) := fun k hk => ⟨hk, hpeer k⟩
    have hup : ∀ k, t.place k ≠ .down → s.place k ≠ .down :=
      fun k hk => live_of_step hst (hlive k hk)
    refine ⟨fun q hq => h.bounded q (hup q hq), fun r q hrq hr hq => ?_,
      fun r q hrq hr hq htried => ?_⟩
    · have hprepared := h.higher r q hrq (hup r hr) (hup q hq)
      rcases place_step hst q with hsame | ⟨hstart, -⟩ | ⟨-, c, hc, -⟩ | ⟨-, c, hc, -⟩ | ⟨-, hdown⟩
      · exact hsame.trans hprepared
      · exact absurd hstart (hl q)
      · cases hprepared.symm.trans hc
      · cases hprepared.symm.trans hc
      · exact absurd hdown hq
    · rw [hpeer, mem_links_step hcons hst hrq (hlive r hr) (hlive q hq)]
      rcases tried_step hst (hlive r hr) (h.bounded q (hup q hq)) htried with htried | htries
      · exact .inl (h.linked r q hrq (hup r hr) (hup q hq) htried)
      · exact .inr ⟨htries, Nat.zero_lt_of_lt hrq, h.higher r q hrq (hup r hr) (hup q hq)⟩

theorem meshed_of_reachesWhen (h : mesh.ReachesWhen Orderly s) : Meshed s := by
  have hboth : Consistent s ∧ Meshed s := by
    refine h.invariant (I := fun s => Consistent s ∧ Meshed s) (fun t ht => ?_)
      fun t l u hI hok hst => ?_
    · subst ht
      exact ⟨consistent_allDown, fun _ h => absurd rfl h, fun _ _ _ h => absurd rfl h,
        fun _ _ _ h => absurd rfl h⟩
    · exact ⟨hI.1.step hst, hI.2.step hI.1 hok hst⟩
  exact hboth.2

/-- **All servers are linked with each other.**  When every server is numbered at most `MAX_RM`
and started below those that run and have finished their start, each one that has finished its
own has one link to every other one; it is in the map as soon as nothing waits to be
accepted. -/
theorem one_link_each (h : mesh.ReachesWhen Orderly s) {r q : Nat} (hrq : r ≠ q)
    (hr : s.place r = .prepared) (hq : s.place q = .prepared) :
    (s.links r).count (s.peer q) = 1 ∧
      (s.backlog r = [] → (s.rm_connect_sockets_fd r).count (s.peer q) = 1) := by
  have hcons := consistent_of_reachable h.reachable
  have hmeshed := meshed_of_reachesWhen h
  have hr' : s.place r ≠ .down := by simp [hr]
  have hq' : s.place q ≠ .down := by simp [hq]
  have hmem : s.peer q ∈ s.links r := by
    rcases Nat.lt_or_gt_of_ne hrq with hlt | hgt
    · exact hmeshed.linked r q hlt hr' hq' (.inl hr)
    · exact (hcons.paired r q hr' hq').2 (hmeshed.linked q r hgt hq' hr' (.inl hq))
  have hcount := List.count_eq_one_of_mem (hcons.once r) hmem
  refine ⟨hcount, fun hnil => ?_⟩
  rwa [links, hnil, List.nil_append] at hcount

theorem orderly_of_not_start {l : MeshStep} (hl : ∀ r, l ≠ .start r) (s : Mesh) : Orderly s l :=
  fun r hr => absurd hr (hl r)

/-- Server 3 is started, and when it listens, server 2. -/
theorem one_link_each_two :
    ∃ s t, mesh.exec allDown [.start 3, .listen 3] = some s ∧
      mesh.exec s [.start 2, .connect 2, .listen 2, .accept 3] = some t ∧
      (t.rm_connect_sockets_fd 3).count (t.peer 2) = 1 := by
  obtain ⟨s₁, hs₁⟩ : ∃ s, mesh.step allDown (.start 3) = some s := ⟨_, rfl⟩
  obtain ⟨s, hs⟩ : ∃ s, mesh.step s₁ (.listen 3) = some s := by
    cases hs₁
    exact ⟨_, rfl⟩
  obtain ⟨s₂, hs₂⟩ : ∃ t, mesh.step s (.start 2) = some t := by
    cases hs₁
    cases hs
    exact ⟨_, rfl⟩
  obtain ⟨t, ht⟩ : ∃ t, mesh.exec s₂ [.connect 2, .listen 2, .accept 3] = some t := by
    cases hs₁
    cases hs
    cases hs₂
    exact ⟨_, rfl⟩
  have hfirst : Orderly allDown (.start 3) := by
    rintro r hr
    cases hr
    exact ⟨by decide, fun q hq => absurd rfl hq⟩
  have hsecond : Orderly s (.start 2) := by
    rintro r hr
    cases hr
    refine ⟨by decide, fun q hq => ?_⟩
    cases hs₁
    cases hs
    by_cases hq3 : q = 3
    · subst hq3
      decide
    · simp [hq3, allDown] at hq
  have hrest : ∀ l ∈ [MeshStep.connect 2, .listen 2, .accept 3], ∀ r, l ≠ .start r := by
    simp
  have hrun : mesh.ReachesWhen Orderly t :=
    (((System.ReachesWhen.start rfl).next hfirst hs₁).next (orderly_of_not_start (by simp) s₁)
      hs |>.next hsecond hs₂).exec (fun l hl => orderly_of_not_start (hrest l hl)) ht
  have hprepared : t.place 3 = .prepared ∧ t.place 2 = .prepared ∧ t.backlog 3 = [] := by
    cases hs₁
    cases hs
    cases hs₂
    cases ht
    decide
  refine ⟨s, t, ?_, ?_, (one_link_each hrun (by decide) hprepared.1 hprepared.2.1).2 hprepared.2.2⟩
  · rw [System.exec_cons, hs₁, Option.bind_some, System.exec_cons, hs]
    rfl
  · rw [System.exec_cons, hs₂]
    exact ht

end Mesh

end InstantMessenger
