import Mathlib.Data.Finset.Erase
import Mathlib.Data.Finset.Insert
import InstantMessenger.Foundations.InverseMaps
import InstantMessenger.ProxyFe.Threads

/-!
# The routing tables of a front end

`usersMap` and `socketsMap` of `ProxyFE.cpp`, with the entries that `operator[]` inserts:
JOINs write to both, a packet of the server looks a user up, and the end of a connection
erases from both.  The calls are handled one after another.

* `RoutingTables`, `RoutingTables.routing` — the tables, the open connections, and the
  calls as a transition system.
* `RoutingTables.Reads` — what the threads of `InstantMessenger.ProxyFe.Threads` do to their
  maps when they are left alone is what the calls do to the tables.
* `RoutingTables.Agree` — **the tables are inverse to each other** on the open connections.
* `RoutingTables.agree_exactly` — they stay so as long as no JOIN names a user of another
  connection, or comes on the connection of another user; and after any such JOIN they
  disagree at once.
-/

namespace InstantMessenger

open InverseMaps

/-- The two maps and the open connections.  `lastJoin` is in no memory: it is the connection
of a user's last JOIN, as long as it is open. -/
structure RoutingTables where
  usersMap : Str → Option Nat
  socketsMap : Nat → Option Str
  connections : Finset Nat
  lastJoin : Str → Option Nat

namespace RoutingTables

/-! ## The calls -/

/-- `usersMap[userID]`, and the tables it leaves behind. -/
def lookUp (t : RoutingTables) (userID : Str) : Nat × RoutingTables :=
  let clientSocket := (t.usersMap userID).getD 0
  (clientSocket, { t with usersMap := Function.update t.usersMap userID (some clientSocket) })

/-- `ProxyFE::registerUserSocket`, up to the `sendToServer`. -/
def registerUserSocket (t : RoutingTables) (receivedPacket : Packet) (socket : Nat) :
    RoutingTables :=
  let userID := receivedPacket.user_id
  { t with
    usersMap := Function.update t.usersMap userID (some socket)
    socketsMap := Function.update t.socketsMap socket (some userID) }

/-- `ProxyFE::processServerPacket`, and the socket that a packet is sent to. -/
def processServerPacket (t : RoutingTables) (receivedPacket : Packet) :
    RoutingTables × Option Nat :=
  if ProxyFE.isForClient receivedPacket then
    let found := t.lookUp receivedPacket.user_id
    (found.2, if found.1 ≠ 0 then some found.1 else none)
  else (t, none)

/-- `ProxyFE::handleSocketDisconnection`. -/
def handleSocketDisconnection (t : RoutingTables) (socket : Nat) : RoutingTables :=
  let userID := (t.socketsMap socket).getD []
  { t with
    socketsMap := Function.update t.socketsMap socket none
    usersMap := Function.update t.usersMap userID none
    connections := t.connections.erase socket }

/-- What can happen to a front end. -/
inductive Event where
  /-- `accept` returns this number. -/
  | accept (socket : Nat)
  | client (socket : Nat) (p : Packet)
  | server (p : Packet)
  | hangUp (socket : Nat)
  deriving DecidableEq, Repr

/-- What an event does.  A connection is given a number that is free; 0 was taken before
the first client, by the standard input or a listening socket. -/
def step (t : RoutingTables) : Event → Option RoutingTables
  | .accept socket =>
    if socket = 0 ∨ socket ∈ t.connections then none
    else some { t with connections := insert socket t.connections }
  | .client socket p =>
    if socket ∈ t.connections then
      if p.isJoinMessage then
        if p.user_id = [] then none
        else some { t.registerUserSocket p socket with
          lastJoin := Function.update t.lastJoin p.user_id (some socket) }
      else some t
    else none
  | .server p => some (t.processServerPacket p).1
  | .hangUp socket =>
    if socket ∈ t.connections then
      some { t.handleSocketDisconnection socket with
        lastJoin := fun u => if t.lastJoin u = some socket then none else t.lastJoin u }
    else none

/-- No client has connected yet. -/
def empty : RoutingTables := ⟨fun _ => none, fun _ => none, ∅, fun _ => none⟩

/-- The calls of a front end, one after another. -/
def routing : Transition.System RoutingTables Event where
  init t := t = empty
  step := step

/-! ## The threads, left alone -/

/-- The maps of the threads, which have 0 and the empty string for what is missing. -/
structure Reads (t : RoutingTables) (s : ProxyFE) : Prop where
  users : ∀ u, (t.usersMap u).getD 0 = s.usersMap u
  sockets : ∀ d, (t.socketsMap d).getD [] = s.socketsMap d

/-- A thread that reads a JOIN and goes on to the second map has done what
`registerUserSocket` does. -/
theorem Reads.registerUserSocket {t : RoutingTables} {s r s' : ProxyFE} {i : Nat} {p : Packet}
    (h : t.Reads s) (hjoin : p.isJoinMessage = true)
    (hread : s.step (.readClient i p) = some r) (hregister : r.step (.registerSocket i) = some s') :
    (t.registerUserSocket p (s.clients i).socket).Reads s' := by
  have hjoinType : p.type = .JOIN_PACKET := eq_of_beq hjoin
  cases ProxyFE.step_cases hread with
  | readMessage _ _ _ hmessage =>
    rw [Packet.isMessage, hjoinType] at hmessage
    cases hmessage
  | readOther _ _ _ _ hother =>
    rw [hjoin] at hother
    cases hother
  | readJoin =>
    cases ProxyFE.step_cases hregister with
    | registerSocket _ x hthread =>
      simp only [Function.update_self, ProxyFE.ClientThread.registering.injEq] at hthread
      subst hthread
      constructor
      · intro u
        simp only [RoutingTables.registerUserSocket, ProxyFE.setThread, Function.update_apply]
        split
        · rfl
        · exact h.users u
      · intro d
        simp only [RoutingTables.registerUserSocket, Function.update_self,
          Function.update_apply]
        split
        · rfl
        · exact h.sockets d

/-- A thread that goes through the end of a connection has done what
`handleSocketDisconnection` does. -/
theorem Reads.handleSocketDisconnection {t : RoutingTables} {s r r' s' : ProxyFE} {i : Nat}
    (h : t.Reads s) (hsocket : s.step (.forgetSocket i) = some r)
    (huser : r.step (.forgetUser i) = some r') (hclose : r'.step (.close i) = some s') :
    (t.handleSocketDisconnection (s.clients i).socket).Reads s' := by
  cases ProxyFE.step_cases hsocket with
  | forgetSocket =>
    cases ProxyFE.step_cases huser with
    | forgetUser _ userID hthread =>
      rw [ProxyFE.setThread_thread, ProxyFE.ClientThread.forgetting.injEq] at hthread
      subst hthread
      cases ProxyFE.step_cases hclose with
      | close =>
        constructor
        · intro u
          simp only [RoutingTables.handleSocketDisconnection, ProxyFE.setThread,
            Function.update_apply, h.sockets]
          split
          · rfl
          · exact h.users u
        · intro d
          simp only [RoutingTables.handleSocketDisconnection, ProxyFE.setThread,
            Function.update_apply]
          split
          · rfl
          · exact h.sockets d

/-- What a lookup inserts is what a missing key reads as. -/
theorem Reads.processServerPacket {t : RoutingTables} {s s' : ProxyFE} {p : Packet}
    (h : t.Reads s) (hs : s.step (.readServer p) = some s') :
    (t.processServerPacket p).1.Reads s' := by
  have hsame : s'.usersMap = s.usersMap ∧ s'.socketsMap = s.socketsMap := by
    cases ProxyFE.step_cases hs with
    | found => exact ⟨rfl, rfl⟩
    | notFound => exact ⟨rfl, rfl⟩
  unfold RoutingTables.processServerPacket lookUp
  constructor
  · intro u
    rw [hsame.1, ← h.users u]
    split
    · simp only [Function.update_apply]
      split
      · rename_i hu
        rw [hu]
        rfl
      · rfl
    · rfl
  · intro d
    rw [hsame.2, ← h.sockets d]
    split <;> rfl

/-! ## Agreement -/

/-- The tables are inverse to each other on the open connections; nobody is mapped to a
closed one, and whoever joined last on an open one is mapped to it. -/
structure Agree (t : RoutingTables) : Prop where
  inverse : ∀ u s, s ≠ 0 → (t.usersMap u = some s ↔ t.socketsMap s = some u ∧ s ∈ t.connections)
  gone : ∀ u s, s ≠ 0 → s ∉ t.connections → t.usersMap u ≠ some s
  joined : ∀ u s, t.lastJoin u = some s → t.usersMap u = some s

/-- A JOIN names nobody who is mapped to another connection, and comes on a connection that
no other user is registered for. -/
def Apart (t : RoutingTables) : Event → Prop
  | .client socket p =>
    p.isJoinMessage = true →
      (∀ s, t.usersMap p.user_id = some s → s ≠ 0 → s = socket) ∧
        ∀ u, t.socketsMap socket = some u → u = p.user_id
  | _ => True

instance (t : RoutingTables) : ∀ e, Decidable (t.Apart e)
  | .client socket p => inferInstanceAs (Decidable (p.isJoinMessage = true →
      (∀ s ∈ t.usersMap p.user_id, s ≠ 0 → s = socket) ∧
        ∀ u ∈ t.socketsMap socket, u = p.user_id))
  | .accept _ | .server _ | .hangUp _ => .isTrue trivial

/-- The socket that the packets for a user go to. -/
def mapped (t : RoutingTables) (u : Str) : Option Nat := (t.usersMap u).filter (· ≠ 0)

theorem mapped_eq_some {t : RoutingTables} {u : Str} {s : Nat} :
    t.mapped u = some s ↔ t.usersMap u = some s ∧ s ≠ 0 := by
  simp [mapped, Option.filter_eq_some_iff]

/-- What holds in every run: only open connections have a user, and it is not the empty one
that a lookup can insert. -/
structure Sound (t : RoutingTables) : Prop where
  zero : 0 ∉ t.connections
  named : ∀ s u, t.socketsMap s = some u → s ∈ t.connections ∧ u ≠ []
  nobody : t.mapped [] = none
  lastJoin : ∀ u s, t.lastJoin u = some s → s ∈ t.connections

theorem Sound.ne_zero {t : RoutingTables} (h : t.Sound) {s : Nat} (hs : s ∈ t.connections) :
    s ≠ 0 := by
  rintro rfl
  exact h.zero hs

theorem agree_iff {t : RoutingTables} (h : t.Sound) :
    t.Agree ↔ Inverse t.mapped t.socketsMap ∧
      ∀ u s, t.lastJoin u = some s → t.usersMap u = some s := by
  constructor
  · intro hagree
    refine ⟨?_, hagree.joined⟩
    intro u s
    rw [mapped_eq_some]
    constructor
    · rintro ⟨hu, hs⟩
      exact ((hagree.inverse u s hs).1 hu).1
    · intro hs
      have hopen := (h.named s u hs).1
      exact ⟨(hagree.inverse u s (h.ne_zero hopen)).2 ⟨hs, hopen⟩, h.ne_zero hopen⟩
  · rintro ⟨hinverse, hjoined⟩
    refine ⟨?_, ?_, hjoined⟩
    · intro u s hs
      rw [← and_iff_left (a := t.usersMap u = some s) hs, ← mapped_eq_some, hinverse u s]
      exact ⟨fun hu => ⟨hu, (h.named s u hu).1⟩, And.left⟩
    · intro u s hs hclosed hu
      exact hclosed (h.named s u ((hinverse u s).1 (mapped_eq_some.2 ⟨hu, hs⟩))).1

/-! ## What an event does -/

/-- The events, branch by branch. -/
inductive Moves (t : RoutingTables) : Event → RoutingTables → Prop
  | accept (socket : Nat) (hne : socket ≠ 0) :
      Moves t (.accept socket) { t with connections := insert socket t.connections }
  | join (socket : Nat) (p : Packet) (hopen : socket ∈ t.connections)
      (hjoin : p.isJoinMessage = true) (hname : p.user_id ≠ []) :
      Moves t (.client socket p) { t.registerUserSocket p socket with
        lastJoin := Function.update t.lastJoin p.user_id (some socket) }
  | other (socket : Nat) (p : Packet) (hjoin : ¬ p.isJoinMessage = true) :
      Moves t (.client socket p) t
  | server (p : Packet) : Moves t (.server p) (t.processServerPacket p).1
  | hangUp (socket : Nat) (hopen : socket ∈ t.connections) :
      Moves t (.hangUp socket) { t.handleSocketDisconnection socket with
        lastJoin := fun u => if t.lastJoin u = some socket then none else t.lastJoin u }

theorem moves_of_step {t t' : RoutingTables} {e : Event} (h : t.step e = some t') :
    t.Moves e t' := by
  cases e with
  | accept socket =>
    simp only [step] at h
    split at h
    · cases h
    · rename_i hfree
      cases h
      exact .accept socket (not_or.1 hfree).1
  | client socket p =>
    simp only [step] at h
    split at h
    · rename_i hopen
      split at h
      · rename_i hjoin
        split at h
        · cases h
        · rename_i hname
          cases h
          exact .join socket p hopen hjoin hname
      · rename_i hjoin
        cases h
        exact .other socket p hjoin
    · cases h
  | server p =>
    cases h
    exact .server p
  | hangUp socket =>
    simp only [step] at h
    split at h
    · rename_i hopen
      cases h
      exact .hangUp socket hopen
    · cases h

/-- A lookup changes nothing else. -/
theorem processServerPacket_frame (t : RoutingTables) (p : Packet) :
    (t.processServerPacket p).1.socketsMap = t.socketsMap ∧
      (t.processServerPacket p).1.connections = t.connections ∧
      (t.processServerPacket p).1.lastJoin = t.lastJoin := by
  unfold processServerPacket
  split <;> exact ⟨rfl, rfl, rfl⟩

/-- An entry that a lookup inserts maps nobody. -/
theorem mapped_processServerPacket (t : RoutingTables) (p : Packet) :
    (t.processServerPacket p).1.mapped = t.mapped := by
  funext u
  unfold processServerPacket
  split
  · simp only [lookUp, mapped, Function.update_apply]
    split
    · rename_i hu
      rw [hu]
      cases t.usersMap p.user_id <;> simp
    · rfl
  · rfl

theorem mapped_registerUserSocket (t : RoutingTables) (p : Packet) {socket : Nat}
    (hs : socket ≠ 0) :
    (t.registerUserSocket p socket).mapped =
      Function.update t.mapped p.user_id (some socket) := by
  funext u
  simp only [registerUserSocket, mapped, Function.update_apply]
  split
  · simp [hs]
  · rfl

theorem mapped_handleSocketDisconnection (t : RoutingTables) (socket : Nat) :
    (t.handleSocketDisconnection socket).mapped =
      Function.update t.mapped ((t.socketsMap socket).getD []) none := by
  funext u
  simp only [handleSocketDisconnection, mapped, Function.update_apply]
  split <;> rfl

theorem Sound.step {t t' : RoutingTables} {e : Event} (h : t.Sound) (hm : t.Moves e t') :
    t'.Sound := by
  cases hm with
  | accept socket hne =>
    refine ⟨?_, ?_, h.nobody, ?_⟩
    · intro hzero
      rcases Finset.mem_insert.1 hzero with heq | hopen
      · exact hne heq.symm
      · exact h.zero hopen
    · intro s u hs
      exact ⟨Finset.mem_insert_of_mem (h.named s u hs).1, (h.named s u hs).2⟩
    · intro u s hs
      exact Finset.mem_insert_of_mem (h.lastJoin u s hs)
  | join socket p hopen hjoin hname =>
    refine ⟨h.zero, ?_, ?_, ?_⟩
    · intro s u hs
      simp only [registerUserSocket, Function.update_apply] at hs
      split at hs
      · rename_i heq
        cases hs
        exact ⟨heq ▸ hopen, hname⟩
      · exact h.named s u hs
    · have hmapped := congrFun (mapped_registerUserSocket t p (h.ne_zero hopen)) []
      rw [Function.update_of_ne (Ne.symm hname), h.nobody] at hmapped
      exact hmapped
    · intro u s hs
      simp only [Function.update_apply] at hs
      split at hs
      · cases hs
        exact hopen
      · exact h.lastJoin u s hs
  | other => exact h
  | server p =>
    obtain ⟨hsockets, hopen, hlast⟩ := processServerPacket_frame t p
    have hnobody := congrFun (mapped_processServerPacket t p) []
    rw [h.nobody] at hnobody
    refine ⟨?_, ?_, hnobody, ?_⟩
    · rw [hopen]
      exact h.zero
    · rw [hsockets, hopen]
      exact h.named
    · rw [hlast, hopen]
      exact h.lastJoin
  | hangUp socket hopen =>
    refine ⟨?_, ?_, ?_, ?_⟩
    · intro hzero
      exact h.zero (Finset.mem_of_mem_erase hzero)
    · intro s u hs
      simp only [handleSocketDisconnection, Function.update_apply] at hs
      split at hs
      · cases hs
      · rename_i hne
        exact ⟨Finset.mem_erase.2 ⟨hne, (h.named s u hs).1⟩, (h.named s u hs).2⟩
    · have hmapped := congrFun (mapped_handleSocketDisconnection t socket) []
      rw [Function.update_apply] at hmapped
      split at hmapped
      · exact hmapped
      · rw [h.nobody] at hmapped
        exact hmapped
    · intro u s hs
      simp only at hs
      split at hs
      · cases hs
      · rename_i hne
        refine Finset.mem_erase.2 ⟨?_, h.lastJoin u s hs⟩
        rintro rfl
        exact hne hs

/-! ## Runs -/

/-- What holds as long as every JOIN is apart. -/
structure Kept (t : RoutingTables) : Prop where
  sound : t.Sound
  inverse : Inverse t.mapped t.socketsMap
  joined : ∀ u s, t.lastJoin u = some s → t.socketsMap s = some u

theorem Kept.agree {t : RoutingTables} (h : t.Kept) : t.Agree := by
  refine (agree_iff h.sound).2 ⟨h.inverse, ?_⟩
  intro u s hs
  exact (mapped_eq_some.1 ((h.inverse u s).2 (h.joined u s hs))).1

theorem kept_empty : empty.Kept where
  sound :=
    { zero := Finset.notMem_empty 0
      named := by intro s u h; cases h
      nobody := rfl
      lastJoin := by intro u s h; cases h }
  inverse := inverse_none
  joined := by intro u s h; cases h

/-- The condition, in terms of the sockets that packets are sent to. -/
theorem apart_join_iff {t : RoutingTables} {socket : Nat} {p : Packet}
    (hjoin : p.isJoinMessage = true) :
    t.Apart (.client socket p) ↔
      (∀ s, t.mapped p.user_id = some s → s = socket) ∧
        ∀ u, t.socketsMap socket = some u → u = p.user_id := by
  simp only [Apart, hjoin, true_implies, mapped_eq_some, and_imp]

theorem Kept.step {t t' : RoutingTables} {e : Event} (h : t.Kept) (hapart : t.Apart e)
    (hm : t.Moves e t') : t'.Kept := by
  have hsound := h.sound.step hm
  cases hm with
  | accept => exact ⟨hsound, h.inverse, h.joined⟩
  | join socket p hopen hjoin hname =>
    obtain ⟨husers, hsockets⟩ := (apart_join_iff hjoin).1 hapart
    refine ⟨hsound, ?_, ?_⟩
    · have hinverse := h.inverse.enter husers hsockets
      rwa [← mapped_registerUserSocket t p (h.sound.ne_zero hopen)] at hinverse
    · intro u s hs
      simp only [Function.update_apply] at hs
      simp only [registerUserSocket, Function.update_apply]
      split at hs
      · rename_i hu
        cases hs
        rw [if_pos rfl, hu]
      · rename_i hu
        have hold := h.joined u s hs
        rw [if_neg, hold]
        rintro rfl
        exact hu (hsockets u hold)
  | other => exact h
  | server p =>
    obtain ⟨hsockets, -, hlast⟩ := processServerPacket_frame t p
    refine ⟨hsound, ?_, ?_⟩
    · rw [mapped_processServerPacket, hsockets]
      exact h.inverse
    · rw [hlast, hsockets]
      exact h.joined
  | hangUp socket hopen =>
    refine ⟨hsound, ?_, ?_⟩
    · have hmapped := mapped_handleSocketDisconnection t socket
      cases hname : t.socketsMap socket with
      | some u =>
        have hinverse := h.inverse.remove hname
        rw [hname, Option.getD_some] at hmapped
        rwa [← hmapped] at hinverse
      | none =>
        -- nobody has joined on the connection, and the maps lose nothing
        rw [hname, Option.getD_none, ← h.sound.nobody, Function.update_eq_self] at hmapped
        have hsockets : Function.update t.socketsMap socket none = t.socketsMap := by
          rw [← hname, Function.update_eq_self]
        have hinverse := h.inverse
        rwa [← hmapped, ← hsockets] at hinverse
    · intro u s hs
      simp only at hs
      split at hs
      · cases hs
      · rename_i hne
        have hold := h.joined u s hs
        have hs' : s ≠ socket := by
          rintro rfl
          exact hne hs
        simp only [handleSocketDisconnection, Function.update_of_ne hs', hold]

theorem kept_of_apart {t : RoutingTables} (h : routing.ReachesWhen Apart t) : t.Kept := by
  refine h.invariant ?_ ?_
  · rintro _ rfl
    exact kept_empty
  · intro t e t' ht hapart hst
    exact ht.step hapart (moves_of_step hst)

/-- A JOIN that is not apart leaves half a pair in one of the tables. -/
theorem Kept.not_agree {t t' : RoutingTables} {e : Event} (h : t.Kept) (hapart : ¬ t.Apart e)
    (hm : t.Moves e t') : ¬ t'.Agree := by
  have hsound := h.sound.step hm
  intro hagree
  have hinverse := ((agree_iff hsound).1 hagree).1
  cases hm with
  | accept => exact hapart trivial
  | join socket p hopen hjoin hname =>
    have hmapped := mapped_registerUserSocket t p (h.sound.ne_zero hopen)
    refine hapart ((apart_join_iff hjoin).2 (h.inverse.enter_iff.1 ?_))
    rw [← hmapped]
    exact hinverse
  | other socket p hother => exact hapart fun hjoin => absurd hjoin hother
  | server => exact hapart trivial
  | hangUp => exact hapart trivial

/-- **When the routing tables agree.**  In every run whose JOINs are all apart they agree in
every state; and a JOIN that is not leaves them in disagreement. -/
theorem agree_exactly {t : RoutingTables} (h : routing.ReachesWhen Apart t) :
    t.Agree ∧ ∀ e t', ¬ t.Apart e → t.step e = some t' → ¬ t'.Agree := by
  refine ⟨(kept_of_apart h).agree, ?_⟩
  intro e t' hapart hst
  exact (kept_of_apart h).not_agree hapart (moves_of_step hst)

/-- Two clients join as `u` and `v`, and the first one leaves. -/
def twoClients : List Event :=
  let join (userID : String) : Packet := { type := .JOIN_PACKET, user_id := userID.toList }
  [.accept 7, .client 7 (join "u"), .accept 8, .client 8 (join "v"), .hangUp 7]

theorem agree_exactly_twoClients : ∃ t, routing.exec empty twoClients = some t ∧
    t.usersMap "u".toList = none ∧ t.usersMap "v".toList = some 8 ∧ t.Agree := by
  obtain ⟨t, ht⟩ : ∃ t, routing.execWhen (fun t e => decide (t.Apart e)) empty twoClients =
      some t := Option.isSome_iff_exists.1 (by decide)
  have hreach : routing.ReachesWhen Apart t :=
    Transition.System.reachesWhen_of_execWhen (fun _ _ h => of_decide_eq_true h) (.start rfl) ht
  have hagree := (agree_exactly hreach).1
  cases ht
  exact ⟨_, rfl, by decide, by decide, hagree⟩

/-- One client joins as `u` and then as `v`, on one connection, and leaves. -/
def twoUsers : List Event :=
  let join (userID : String) : Packet := { type := .JOIN_PACKET, user_id := userID.toList }
  [.accept 7, .client 7 (join "u"), .client 7 (join "v"), .hangUp 7]

/-- **Two users on one connection.**  When it has ended, the first one is still mapped to
the number that was closed. -/
theorem agree_counterexample : ¬ ∀ t, routing.Reachable t → t.Agree := by
  intro h
  obtain ⟨t, ht⟩ : ∃ t, routing.exec empty twoUsers = some t :=
    Option.isSome_iff_exists.1 (by decide)
  have hreach : routing.Reachable t := Transition.System.reachable_of_exec rfl ht
  have hagree := h t hreach
  cases ht
  exact hagree.gone "u".toList 7 (by decide) (by decide) (by decide)

end RoutingTables
end InstantMessenger
