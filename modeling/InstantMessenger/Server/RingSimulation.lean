import InstantMessenger.Server.RingOutline
import InstantMessenger.Server.RingShape

/-!
# The ring follows its outline

Every step of the threads of a ring is a move of its outline, or does not show in it.

* `Note.text` — the message that is written on the ring.
* `ServersRing.aims`, `ServersRing.calls` — the server that is linked to or lost, and
  whether an election will be called, by where the connecting thread is.
* `RingServers.Outlined` — **the simulation relation**.
* `Outlined.connector`, `Outlined.acceptor`, `Outlined.crash`, `Outlined.start` — **each
  step is simulated**.
-/

namespace InstantMessenger

open Cyclic Election Slots

variable {n : Nat}

/-- The message, as it is written. -/
def Note.text (port : Fin n → Int) : Note n → Str
  | .election T => buildPacket (port T) ELECTION
  | .elected T => buildPacket (port T) ELECTED

/-- Distinct ports in the range of `int`, none of them zero. -/
structure Ports (port : Fin n → Int) : Prop where
  distinct : Function.Injective port
  positive : ∀ i, 0 < port i
  isInt : ∀ i, port i ≤ Text.INT_MAX

namespace ConnectThread

/-- The port of the server that is linked to, or lost and not replaced. -/
def aims (client_port : Option (Fin n)) : ConnectThread → Option (Fin n)
  | .trying _ => none
  | .failed _ => none
  | _ => client_port

/-- An election is called as soon as the server is linked. -/
def calls : ConnectThread → Bool
  | .trying b => b
  | .failed b => b
  | .connected b => b
  | _ => false

end ConnectThread

namespace ServersRing

def aims (r : ServersRing n) : Option (Fin n) :=
  match r.connecting with
  | [t] => t.aims r.client_port
  | _ => none

def calls (r : ServersRing n) : Bool :=
  match r.connecting with
  | [t] => t.calls
  | _ => false

theorem aims_eq {r : ServersRing n} {t : ConnectThread} (h : r.connecting = [t]) :
    r.aims = t.aims r.client_port := by rw [aims, h]

theorem calls_eq {r : ServersRing n} {t : ConnectThread} (h : r.connecting = [t]) :
    r.calls = t.calls := by rw [calls, h]

end ServersRing

/-- The messages in a connection, with their receiver. -/
def RingConn.flying (conn : RingConn n) : List (Fin n × Str) := conn.queue.map (conn.dst, ·)

namespace RingServers

/-- All messages on their way. -/
def inFlight (s : RingServers n) : Multiset (Fin n × Str) :=
  (s.conns.flatMap RingConn.flying : List _)

/-- A server, and what is seen of it in the outline. -/
structure Shows (port : Fin n → Int) (r : ServersRing n) (m : Member n) : Prop where
  target : m.target = r.aims
  calling : m.calling = r.calls
  primary : r.primary = port m.primary
  isPrimary : m.isPrimary = r.isPrimary
  isParticipating : m.isParticipating = r.isParticipating

/-- The ring and its outline. -/
structure Outlined (port : Fin n → Int) (s : RingServers n) (v : Outline n) : Prop where
  shown : ∀ k r, s.server k = some r → ∃ m, v.member k = some m ∧ Shows port r m
  only : ∀ k, s.server k = none → v.member k = none
  flying : s.inFlight = v.flying.map fun x => (x.1, x.2.text port)
  crashed : v.crashed = s.crashed

section Simulation

variable {port : Fin n → Int} {s s' : RingServers n} {v : Outline n} {i j : Fin n}
  {r r' : ServersRing n} {m m' : Member n}

theorem Outlined.member (h : Outlined port s v) {k : Fin n} (hk : v.member k = some m) :
    ∃ r, s.server k = some r ∧ Shows port r m := by
  cases hs : s.server k with
  | none =>
    rw [h.only k hs] at hk
    cases hk
  | some r =>
    obtain ⟨m', hm', hshows⟩ := h.shown k r hs
    obtain rfl : m' = m := Option.some.inj (hm'.symm.trans hk)
    exact ⟨r, rfl, hshows⟩

theorem Outlined.live (h : Outlined port s v) : v.live = s.live := by
  funext k
  refine propext ⟨?_, ?_⟩
  · rintro ⟨m, hm⟩
    obtain ⟨r, hr, -⟩ := h.member hm
    exact ⟨r, hr⟩
  · rintro ⟨r, hr⟩
    obtain ⟨m, hm, -⟩ := h.shown k r hr
    exact ⟨m, hm⟩

/-- One server changes, and what is seen of it. -/
theorem Outlined.put (h : Outlined port s v) (i : Fin n) (hs : Shows port r' m') :
    Outlined port (s.put i r') (v.put i m') where
  shown k x hk := by
    by_cases hki : k = i
    · subst hki
      rw [put_self, Option.some.injEq] at hk
      subst hk
      exact ⟨m', Outline.put_self .., hs⟩
    · rw [put_of_ne s r' hki] at hk
      obtain ⟨y, hy, hshows⟩ := h.shown k x hk
      exact ⟨y, (Outline.put_of_ne v m' hki).trans hy, hshows⟩
  only k hk := by
    by_cases hki : k = i
    · subst hki
      rw [put_self] at hk
      cases hk
    · rw [put_of_ne s r' hki] at hk
      exact (Outline.put_of_ne v m' hki).trans (h.only k hk)
  flying := h.flying
  crashed := h.crashed

/-- A change that is not seen. -/
theorem Outlined.put_same (h : Outlined port s v) (hm : v.member i = some m)
    (hs : Shows port r' m) : Outlined port (s.put i r') v := by
  have hput := h.put i hs
  have hsame : v.put i m = v := by
    obtain ⟨member, _, _⟩ := v
    have hm' : member i = some m := hm
    refine congrArg (fun f => Outline.mk f _ _) ?_
    rw [← hm', Function.update_eq_self]
  rwa [hsame] at hput

/-- Other messages are on their way. -/
theorem Outlined.carry (h : Outlined port s v) {flying : Multiset (Fin n × Note n)}
    (hserver : s'.server = s.server) (hcrashed : s'.crashed = s.crashed)
    (hfly : s'.inFlight = flying.map fun x => (x.1, x.2.text port)) :
    Outlined port s' (v.carry flying) where
  shown := by rw [hserver]; exact h.shown
  only := by rw [hserver]; exact h.only
  flying := hfly
  crashed := h.crashed.trans hcrashed.symm

/-! ### Messages -/

/-- A message is read. -/
theorem inFlight_read {c : Nat} {conn : RingConn n} {message : Str} {queue : List Str}
    (hc : s.conns[c]? = some conn) (hq : conn.queue = message :: queue) :
    s.inFlight = (conn.dst, message) ::ₘ
      inFlight { s with conns := s.conns.set c { conn with queue } } := by
  have hperm := flatMap_set_perm RingConn.flying hc { conn with queue }
  have hold : conn.flying = (conn.dst, message) :: RingConn.flying { conn with queue } := by
    show conn.queue.map _ = _
    rw [hq]
    rfl
  rw [hold] at hperm
  refine Multiset.coe_eq_coe.2 (List.Perm.symm ?_)
  exact (List.perm_append_right_iff _).1 (List.perm_middle.symm.trans hperm)

/-- A message is written to a connection that is up. -/
theorem inFlight_receive {c : Nat} {conn : RingConn n} (hc : s.conns[c]? = some conn)
    (hup : conn.dstUp = true) (messages : List Str) :
    (s.write (some c) messages).inFlight =
      s.inFlight + Multiset.ofList (messages.map (conn.dst, ·)) := by
  have hperm := flatMap_set_perm RingConn.flying hc (conn.receive messages)
  have hnew : (conn.receive messages).flying = conn.flying ++ messages.map (conn.dst, ·) := by
    rw [RingConn.receive, if_pos hup]
    exact List.map_append
  rw [hnew] at hperm
  have hwrite : (s.write (some c) messages).conns = s.conns.set c (conn.receive messages) := by
    simp only [write, hc]
  rw [inFlight, hwrite, inFlight, Multiset.coe_add]
  refine Multiset.coe_eq_coe.2 ((List.perm_append_right_iff conn.flying).1 (hperm.trans ?_))
  rw [List.append_assoc]
  exact List.perm_append_comm.append_left _

/-- A message is written to a connection that is down. -/
theorem inFlight_lost {c : Nat} {conn : RingConn n} (hc : s.conns[c]? = some conn)
    (hup : conn.dstUp = false) (messages : List Str) :
    (s.write (some c) messages).inFlight = s.inFlight := by
  have hwrite : (s.write (some c) messages).conns = s.conns := by
    have hsame : conn.receive messages = conn := by
      rw [RingConn.receive, if_neg (by rw [hup]; exact Bool.false_ne_true)]
    simp only [write, hc, hsame]
    obtain ⟨hlt, rfl⟩ := List.getElem?_eq_some_iff.1 hc
    exact List.set_getElem_self _
  rw [inFlight, hwrite, inFlight]

/-- What is written to a socket that reaches `j`. -/
theorem inFlight_reaches {socket : Option Nat} (hr : Reaches s socket j) (hlive : v.live = s.live)
    (x : Note n) : (s.write socket [x.text port]).inFlight =
      s.inFlight + (v.send (some j) x).map fun y => (y.1, y.2.text port) := by
  obtain ⟨c, conn, rfl, hc, hdst, hup, -⟩ := hr
  by_cases hl : s.live j
  · rw [inFlight_receive hc (hup.2 hl), Outline.send_live (by rw [hlive]; exact hl), hdst]
    rfl
  · rw [inFlight_lost hc (Bool.eq_false_of_not_eq_true fun h => hl (hup.1 h)),
      Outline.send_lost (by rw [hlive]; exact hl), Multiset.map_zero, Multiset.add_zero]

/-- **What a server writes arrives where it arrives in the outline.** -/
theorem inFlight_write (hs : Shaped s i r) (hlive : v.live = s.live) (x : Note n) :
    (s.write r.socket_client [x.text port]).inFlight =
      s.inFlight + (v.send r.aims x).map fun y => (y.1, y.2.text port) := by
  have hnone : ∀ {r : ServersRing n}, r.socket_client = none → r.aims = none →
      (s.write r.socket_client [x.text port]).inFlight =
        s.inFlight + (v.send r.aims x).map fun y => (y.1, y.2.text port) := by
    intro r hsocket haims
    rw [hsocket, haims]
    exact (Multiset.add_zero _).symm
  cases hs with
  | unborn h1 h2 _ _ _ => exact hnone h2 (by rw [ServersRing.aims, h1])
  | running ht hp =>
    cases hp with
    | fresh h1 h2 _ => exact hnone h1 ((ServersRing.aims_eq ht).trans h2)
    | lost ha hr _ _ =>
      rw [(ServersRing.aims_eq ht).trans ha.client_port]
      exact inFlight_reaches hr hlive x
    | trying h1 _ _ => exact hnone h1 (ServersRing.aims_eq ht)
    | failed h1 _ _ _ => exact hnone h1 (ServersRing.aims_eq ht)
    | connected _ ha hr =>
      rw [(ServersRing.aims_eq ht).trans ha.client_port]
      exact inFlight_reaches hr hlive x
    | watching _ ha hr =>
      rw [(ServersRing.aims_eq ht).trans ha.client_port]
      exact inFlight_reaches hr hlive x

/-! ### The connecting thread -/

/-- What is seen of a server whose connecting thread moves on. -/
theorem shows_moves {th t : ConnectThread} (hconn : r'.connecting = [th])
    (htarget : m'.target = t.aims r'.client_port) (hcalling : m'.calling = t.calls)
    (hprimary : r'.primary = port m'.primary) (hpr : m'.isPrimary = r'.isPrimary)
    (hpart : m'.isParticipating = r'.isParticipating) : Shows port (r'.moves 0 t) m' where
  target := by rw [ServersRing.aims_eq (moves_connecting hconn), htarget]; rfl
  calling := by rw [ServersRing.calls_eq (moves_connecting hconn), hcalling]
  primary := hprimary
  isPrimary := hpr
  isParticipating := hpart

/-- The same, when nothing but the thread and what it looks at changes. -/
theorem Shows.moves (h : Shows port r m) {th t : ConnectThread} (hconn : r'.connecting = [th])
    (htarget : m'.target = t.aims r'.client_port) (hcalling : m'.calling = t.calls)
    (hprimary : r'.primary = r.primary) (hpr : r'.isPrimary = r.isPrimary)
    (hpart : r'.isParticipating = r.isParticipating) (hmprimary : m'.primary = m.primary)
    (hmpr : m'.isPrimary = m.isPrimary) (hmpart : m'.isParticipating = m.isParticipating) :
    Shows port (r'.moves 0 t) m' :=
  shows_moves hconn htarget hcalling (by rw [hmprimary, ← h.primary, hprimary])
    (by rw [hmpr, h.isPrimary, hpr]) (by rw [hmpart, h.isParticipating, hpart])

theorem inFlight_connect (s : RingServers n) (i j : Fin n) :
    (s.connect i j).inFlight = s.inFlight := by
  show Multiset.ofList ((s.conns ++ [_]).flatMap RingConn.flying) = _
  rw [List.flatMap_append]
  exact congrArg _ (List.append_nil _)

/-- **A step of the connecting thread is a move.** -/
theorem Outlined.connector (hports : Ports port) (h : Outlined port s v) (hshape : Shape s)
    (hi : s.server i = some r) {t : Nat} {th : ConnectThread} (ht : r.connecting[t]? = some th)
    (hst : s.connectToServer port i r t th = some s') :
    ∃ v', Move v v' ∧ Outlined port s' v' := by
  have hshaped := hshape.server i r hi
  obtain ⟨rfl, hone, hp⟩ := hshaped.thread ht
  obtain ⟨m, hm, hshows⟩ := h.shown i r hi
  have hflag := hshape.disconnected i r hi
  have htarget := hshows.target
  have hcalling := hshows.calling
  rw [ServersRing.aims_eq hone] at htarget
  rw [ServersRing.calls_eq hone] at hcalling
  cases hp with
  | fresh _ hport hfile =>
    cases hst
    refine ⟨v, .rest, h.put_same hm (hshows.moves hone ?_ ?_ rfl rfl rfl rfl rfl rfl)⟩
    · exact htarget.trans hport
    · rw [hport]
      exact hcalling
  | @lost j ha _ hdead hd =>
    cases hst
    have hlost : m.target = some j := htarget.trans ha.client_port
    refine ⟨_, .leave hm hlost (by rwa [h.live]), h.put i (hshows.moves hone rfl ?_ rfl rfl rfl
      rfl rfl rfl)⟩
    show decide (j = m.primary) = Option.any _ _
    rw [ha.client_port, hshows.primary]
    by_cases hj : j = m.primary
    · simp [hj]
    · have hne : port j ≠ port m.primary := fun heq => hj (hports.distinct heq)
      simp [hj, hne]
  | @trying b j hsocket hcalls ha =>
    by_cases hl : s.live j
    · rw [connectToServer_of_live ha.client_port hsocket hl] at hst
      cases hst
      have hconnect : Outlined port (s.connect i j) v :=
        h.carry rfl rfl ((inFlight_connect s i j).trans h.flying)
      refine ⟨_, .link hm htarget (by rwa [h.live]) (by rw [h.live]; exact ha.between)
        (by rw [h.crashed]; exact ha.next), hconnect.put i
          (hshows.moves hone ?_ hcalling rfl rfl rfl rfl rfl rfl)⟩
      exact ha.client_port.symm
    · rw [connectToServer_of_not_live ha.client_port hl] at hst
      cases hst
      exact ⟨v, .rest, h.put_same hm
        (hshows.moves hone htarget hcalling rfl rfl rfl rfl rfl rfl)⟩
  | @failed b j hsocket hcalls ha hdead =>
    cases hst
    by_cases hd : r.disconnected = true
    · rw [if_pos hd]
      unfold ServersRing.checkForNewPort
      dsimp only
      by_cases hown : r.getNewPort.client_port = some i
      · rw [if_pos hown]
        have hnext := ha.getNewPort (hdead (hflag hd)) (hflag hd)
        have hbetween : NoneBetween v.live i i := by
          have hself : Cyclic.next j = i := Option.some.inj (hnext.client_port.symm.trans hown)
          rw [h.live]
          have := hnext.between
          rwa [hself] at this
        exact ⟨_, .promote hm (h.crashed.trans (hflag hd)) hbetween,
          h.put i (shows_moves hone htarget hcalling rfl rfl hshows.isParticipating)⟩
      · rw [if_neg hown]
        exact ⟨v, .rest, h.put_same hm
          (hshows.moves hone htarget hcalling rfl rfl rfl rfl rfl rfl)⟩
    · rw [if_neg hd]
      exact ⟨v, .rest, h.put_same hm
        (hshows.moves hone htarget hcalling rfl rfl rfl rfl rfl rfl)⟩
  | @connected b j hcalls ha hreaches =>
    cases hst
    have hlinked : m.target = some j := htarget.trans ha.client_port
    cases b with
    | false =>
      rw [if_neg (by rw [Bool.and_false]; exact Bool.false_ne_true)]
      exact ⟨v, .rest, h.put_same hm
        (hshows.moves hone htarget hcalling rfl rfl rfl rfl rfl rfl)⟩
    | true =>
      by_cases hd : r.disconnected = true
      · rw [if_pos (by rw [hd]; rfl)]
        refine ⟨_, .call hm hlinked hcalling, ?_⟩
        have hfly := @inFlight_write n port s v i r hshaped h.live (.election i)
        rw [(ServersRing.aims_eq hone).trans ha.client_port] at hfly
        have hwritten := h.carry (write_server s r.socket_client _).1
          (frame_write s r.socket_client _).crashed (hfly.trans (by
            rw [h.flying, ← Multiset.map_add]))
        exact hwritten.put i (hshows.moves hone htarget rfl rfl rfl rfl rfl rfl rfl)
      · have hpr := (hcalls rfl).resolve_left hd
        rw [if_neg (by rw [Bool.eq_false_of_not_eq_true hd]; exact Bool.false_ne_true)]
        exact ⟨_, .quit hm hcalling (hshows.isPrimary.trans hpr),
          h.put i (hshows.moves hone htarget rfl rfl rfl rfl rfl rfl rfl)⟩
  | @watching socket j hsocket ha hreaches =>
    simp only [connectToServer] at hst
    split at hst
    · cases hst
    · cases hst
      exact ⟨v, .rest, h.put_same hm
        (hshows.moves hone htarget hcalling rfl rfl rfl rfl rfl rfl)⟩

/-! ### The accepting thread -/

/-- What handling a message does to a server is what hearing it does in the outline. -/
theorem hears_processElectionInfo (hports : Ports port) (h : Shows port r m) (i : Fin n)
    (x : Note n) : ∃ p m' out,
      processElectionInfo r.isParticipating (x.text port) (port i) = some p ∧ Hears i m x m' out ∧
        Shows port (r.told port i p) m' ∧ p.sent = (out.map (Note.text port)).toList := by
  have hread : ∀ {status : Str} (T : Fin n), IsStatus status →
      processElectionInfo r.isParticipating (buildPacket (port T) status) (port i) =
        some (process r.isParticipating status (port T) (port i)) := fun T hs =>
    processElectionInfo_buildPacket hs (le_of_lt (hports.positive T)) (hports.isInt T) _ _
  have hkeep : ∀ (sent : List Str) (participating : Bool) {m' : Member n}, m'.target = m.target →
      m'.calling = m.calling → m'.primary = m.primary → m'.isPrimary = m.isPrimary →
      m'.isParticipating = participating →
      Shows port (r.told port i ⟨participating, sent, 0⟩) m' := by
    intro sent participating m' h1 h2 h3 h4 h5
    refine ⟨h1.trans h.target, h2.trans h.calling, ?_, ?_, h5⟩
    · rw [h3]
      exact h.primary
    · rw [h4, h.isPrimary]
      exact (Bool.or_false _).symm
  cases hpart : r.isParticipating with
  | false =>
    have hm : m.isParticipating = false := h.isParticipating.trans hpart
    have hwake : ∀ (status : Str) (T : Fin n), IsStatus status →
        (x = .election T ∨ x = .elected T) → x.text port = buildPacket (port T) status →
        ∃ p m' out, processElectionInfo false (x.text port) (port i) = some p ∧
          Hears i m x m' out ∧ Shows port (r.told port i p) m' ∧
          p.sent = (out.map (Note.text port)).toList := by
      intro status T hs hx htext
      rw [htext, ← hpart, hread T hs, hpart, process, if_pos (show (!false) = true from rfl)]
      by_cases hgt : port T > port i
      · rw [if_pos hgt]
        exact ⟨_, _, _, rfl, .wake x T T hx hm (.inl rfl), hkeep _ _ rfl rfl rfl rfl rfl, rfl⟩
      · rw [if_neg hgt]
        exact ⟨_, _, _, rfl, .wake x T i hx hm (.inr rfl), hkeep _ _ rfl rfl rfl rfl rfl, rfl⟩
    cases x with
    | election T => exact hwake ELECTION T (.inl rfl) (.inl rfl) rfl
    | elected T => exact hwake ELECTED T (.inr rfl) (.inr rfl) rfl
  | true =>
    have hm : m.isParticipating = true := h.isParticipating.trans hpart
    have hne : ∀ {T : Fin n}, port T ≠ port i ↔ T ≠ i := hports.distinct.ne_iff
    cases x with
    | election T =>
      rw [Note.text, ← hpart, hread T (.inl rfl), hpart, process,
        if_neg (show ¬(!true) = true by decide), if_pos (beq_self_eq_true ELECTION)]
      by_cases hT : T = i
      · subst hT
        rw [if_neg (not_not.2 rfl)]
        exact ⟨_, _, _, rfl, .elect hm, hkeep _ _ rfl rfl rfl rfl hm, rfl⟩
      · rw [if_pos (hne.2 hT)]
        exact ⟨_, _, _, rfl, .pass T hm hT, hkeep _ _ rfl rfl rfl rfl hm, rfl⟩
    | elected T =>
      rw [Note.text, ← hpart, hread T (.inr rfl), hpart, process,
        if_neg (show ¬(!true) = true by decide),
        if_neg (show ¬(ELECTED == ELECTION) = true by decide)]
      have hpos : port T ≠ 0 := ne_of_gt (hports.positive T)
      by_cases hT : T = i
      · subst hT
        rw [if_neg (not_not.2 rfl)]
        refine ⟨_, _, _, rfl, .win hm, ⟨h.target, h.calling, ?_, ?_, rfl⟩, rfl⟩
        · exact if_pos hpos
        · simp [ServersRing.told, hpos]
      · rw [if_pos (hne.2 hT)]
        refine ⟨_, _, _, rfl, .tell T hm hT, ⟨h.target, h.calling, ?_, ?_, rfl⟩, rfl⟩
        · exact if_pos hpos
        · have hbeq : (port T == port i) = false := beq_eq_false_iff_ne.2 (hne.2 hT)
          simp [ServersRing.told, hbeq, h.isPrimary]

/-- The message at the head of a connection is one of the outline. -/
theorem Outlined.read (h : Outlined port s v) {c : Nat} {conn : RingConn n} {message : Str}
    {queue : List Str} (hc : s.conns[c]? = some conn) (hq : conn.queue = message :: queue) :
    ∃ x flying, message = x.text port ∧ v.flying = (conn.dst, x) ::ₘ flying ∧
      inFlight { s with conns := s.conns.set c { conn with queue } } =
        flying.map fun y => (y.1, y.2.text port) := by
  have hread := inFlight_read hc hq
  rw [h.flying] at hread
  obtain ⟨⟨d, x⟩, hx, heq⟩ := Multiset.mem_map.1 (hread ▸ Multiset.mem_cons_self _ _)
  obtain ⟨flying, hfly⟩ := Multiset.exists_cons_of_mem hx
  cases heq
  refine ⟨x, flying, rfl, hfly, ?_⟩
  rw [hfly, Multiset.map_cons] at hread
  exact ((Multiset.cons_inj_right _).1 hread).symm

/-- What is in a connection can be handled. -/
theorem Outlined.processes (hports : Ports port) (h : Outlined port s v)
    (hi : s.server i = some r) (c : Nat) (conn : RingConn n) (message : Str) (queue : List Str)
    (hc : s.conns[c]? = some conn) (hq : conn.queue = message :: queue) :
    (processElectionInfo r.isParticipating message (port i)).isSome := by
  obtain ⟨x, _, rfl, -, -⟩ := h.read hc hq
  obtain ⟨m, -, hshows⟩ := h.shown i r hi
  obtain ⟨p, _, _, hp, -⟩ := hears_processElectionInfo hports hshows i x
  rw [hp]
  rfl

theorem Outlined.setListener (h : Outlined port s v) (i : Fin n) (l : RingListener) :
    Outlined port (s.setListener i l) v := ⟨h.shown, h.only, h.flying, h.crashed⟩

/-- **A step of the accepting thread is a move.** -/
theorem Outlined.acceptor (hports : Ports port) (h : Outlined port s v) (hshape : Shape s)
    (hi : s.server i = some r) (hok : s.undisturbed (.acceptor i) = true)
    (hst : s.acceptServerConnection port i r (s.listener i).thread = some s') :
    ∃ v', Move v v' ∧ Outlined port s' v' := by
  have hshaped := hshape.server i r hi
  obtain ⟨m, hm, hshows⟩ := h.shown i r hi
  cases hth : (s.listener i).thread with
  | starting =>
    rw [hth] at hst
    cases hst
    by_cases hd : r.disconnected = true
    · rw [if_pos hd]
      exact ⟨v, .rest, (h.put_same hm hshows).setListener _ _⟩
    · have hnil : r.connecting = [] :=
        of_decide_eq_true hok r hi hth (Bool.eq_false_of_not_eq_true hd)
      rw [if_neg hd]
      refine ⟨v, .rest, Outlined.setListener (h.put_same hm ?_) _ _⟩
      refine ⟨?_, ?_, hshows.primary, hshows.isPrimary, hshows.isParticipating⟩
      · rcases hshaped with ⟨_, _, hport, _, _⟩ | ⟨ht, _⟩
        · rw [hshows.target, ServersRing.aims, ServersRing.aims, hnil]
          exact hport.symm
        · rw [hnil] at ht
          cases ht
      · rw [hshows.calling, ServersRing.calls, ServersRing.calls, hnil]
        rfl
  | accepting =>
    rw [hth] at hst
    simp only [acceptServerConnection] at hst
    split at hst
    · cases hst
    · cases hst
      exact ⟨v, .rest, h.setListener _ _⟩
  | listening c =>
    rw [hth] at hst
    simp only [acceptServerConnection] at hst
    obtain ⟨conn, hconn, hst⟩ := Option.bind_eq_some_iff.1 hst
    have hdst : conn.dst = i := by
      have hmem : c ∈ (s.listener i).sockets := by
        unfold RingListener.sockets
        rw [hth]
        exact List.mem_cons_self
      obtain ⟨conn', hconn', hdst, -⟩ := hshape.inbox i ⟨r, hi⟩ c hmem
      cases hconn.symm.trans hconn'
      exact hdst
    split at hst
    · rename_i message queue hq
      obtain ⟨x, flying, rfl, hfly, hrest⟩ := h.read hconn hq
      obtain ⟨p, m', out, hp, hhears, htold, hsent⟩ := hears_processElectionInfo hports hshows i x
      rw [hp] at hst
      cases hst
      rw [hdst] at hfly
      refine ⟨_, .hear hm hfly hhears, ?_⟩
      -- the state after the read, and what is written in it
      have hread : Frame s { s with conns := s.conns.set c { conn with queue } } :=
        frame_set hconn rfl rfl rfl
      have hwrite : (write { s with conns := s.conns.set c { conn with queue } } r.socket_client
          p.sent).inFlight =
            (flying + out.elim 0 (v.send m.target)).map fun y => (y.1, y.2.text port) := by
        rw [Multiset.map_add, ← hrest, hsent]
        cases out with
        | none =>
          have hnil : ∀ (s₁ : RingServers n) (socket : Option Nat),
              (s₁.write socket []).inFlight = s₁.inFlight := by
            intro s₁ socket
            cases socket with
            | none => rfl
            | some c =>
              cases hc : s₁.conns[c]? with
              | none => simp only [write, hc]
              | some conn =>
                cases hup : conn.dstUp with
                | true =>
                  rw [inFlight_receive hc hup]
                  exact Multiset.add_zero _
                | false => exact inFlight_lost hc hup []
          rw [Option.map_none, Option.toList_none, hnil]
          exact (Multiset.add_zero _).symm
        | some y =>
          rw [hshows.target]
          exact inFlight_write (hread.shaped hshaped) (h.live.trans hread.live.symm) y
      have hsame := write_server { s with conns := s.conns.set c { conn with queue } }
        r.socket_client p.sent
      have hcrashed := (hread.trans (frame_write _ r.socket_client p.sent)).crashed
      exact (h.carry hsame.1 hcrashed hwrite).put i htold
    · split at hst
      · cases hst
      · cases hst
        refine ⟨v, .rest, Outlined.setListener (h.put_same hm ?_) _ _⟩
        exact ⟨hshows.target, hshows.calling, hshows.primary, hshows.isPrimary,
          hshows.isParticipating⟩

/-! ### Crashes and starts -/

theorem inFlight_crash (s : RingServers n) (i : Fin n) :
    (s.crash i).inFlight = s.inFlight.filter fun x => x.1 ≠ i := by
  have hone : ∀ conn : RingConn n,
      (conn.hangUp i).flying = conn.flying.filter fun x => decide (x.1 ≠ i) := by
    intro conn
    unfold RingConn.flying RingConn.hangUp
    by_cases hd : conn.dst = i
    · rw [if_pos hd, List.map_nil]
      refine (List.filter_eq_nil_iff.2 fun x hx => ?_).symm
      obtain ⟨_, _, rfl⟩ := List.mem_map.1 hx
      simpa using hd
    · rw [if_neg hd]
      refine (List.filter_eq_self.2 fun x hx => ?_).symm
      obtain ⟨_, _, rfl⟩ := List.mem_map.1 hx
      simpa using hd
  rw [inFlight, inFlight, Multiset.filter_coe, List.filter_flatMap]
  refine congrArg _ ?_
  show (s.conns.map (RingConn.hangUp i)).flatMap RingConn.flying = _
  rw [List.flatMap_map]
  exact List.flatMap_congr fun conn _ => hone conn

/-- **A crash.** -/
theorem Outlined.crash (h : Outlined port s v) (i : Fin n) :
    Outlined port (s.crash i) (v.crash i) where
  shown k x hk := by
    obtain ⟨hki, hk⟩ := crash_cases hk
    obtain ⟨m, hm, hs⟩ := h.shown k x hk
    exact ⟨m, (Outline.crash_of_ne v hki).trans hm, hs⟩
  only k hk := by
    by_cases hki : k = i
    · rw [hki]
      exact Outline.crash_self v i
    · rw [crash_of_ne s hki] at hk
      exact (Outline.crash_of_ne v hki).trans (h.only k hk)
  flying := by
    rw [inFlight_crash, h.flying, Multiset.filter_map]
    rfl
  crashed := rfl

/-- **A start.** -/
theorem Outlined.start (hports : Ports port) (h : Outlined port s v) (i : Fin n)
    (hok : s.undisturbed (.start i) = true) : Outlined port (s.start port i) (v.start i) where
  shown k x hk := by
    by_cases hki : k = i
    · subst hki
      rw [start_self, Option.some.injEq] at hk
      subst hk
      refine ⟨_, Outline.put_self .., ⟨rfl, rfl, rfl, ?_, rfl⟩⟩
      show decide (k = first k) = (port k == port (first k))
      rw [Bool.eq_iff_iff, decide_eq_true_iff, beq_iff_eq, hports.distinct.eq_iff]
    · rw [start_of_ne s hki] at hk
      obtain ⟨m, hm, hs⟩ := h.shown k x hk
      exact ⟨m, (Outline.put_of_ne v _ hki).trans hm, hs⟩
  only k hk := by
    by_cases hki : k = i
    · subst hki
      rw [start_self] at hk
      cases hk
    · rw [start_of_ne s hki] at hk
      exact (Outline.put_of_ne v _ hki).trans (h.only k hk)
  flying := h.flying
  crashed := (start_crashed hok).symm

/-! ### Steps -/

/-- A thread takes a step. -/
theorem Outlined.thread (hports : Ports port) (h : Outlined port s v) (hshape : Shape s)
    {l : RingLabel n} (hthread : (∃ i t, l = .connector i t) ∨ ∃ i, l = .acceptor i)
    (hok : s.undisturbed l = true) (hst : s.step port l = some s') :
    Shape s' ∧ ∃ v', Move v v' ∧ Outlined port s' v' := by
  rcases hthread with ⟨i, t, rfl⟩ | ⟨i, rfl⟩
  · obtain ⟨r, hi, hst⟩ := Option.bind_eq_some_iff.1 hst
    obtain ⟨th, ht, hst⟩ := Option.bind_eq_some_iff.1 hst
    exact ⟨hshape.connector hi ht hst, h.connector hports hshape hi ht hst⟩
  · obtain ⟨r, hi, hst⟩ := Option.bind_eq_some_iff.1 hst
    exact ⟨hshape.acceptor hi hok (h.processes hports hi) hst, h.acceptor hports hshape hi hok hst⟩

theorem step_crash (hst : s.step port (.crash i) = some s') : s.live i ∧ s' = s.crash i := by
  obtain ⟨r, hr, rfl⟩ := Option.map_eq_some_iff.1 hst
  exact ⟨⟨r, hr⟩, rfl⟩

theorem step_start (hst : s.step port (.start i) = some s') :
    s.server i = none ∧ (∀ k < i, s.live k) ∧ s' = s.start port i := by
  simp only [step] at hst
  split at hst
  · rename_i hc
    exact ⟨hc.1, fun k hk => Option.isSome_iff_exists.1 (hc.2 k hk), (Option.some.inj hst).symm⟩
  · cases hst

/-- The ring nobody has been started on. -/
def nobody : Outline n := ⟨fun _ => none, 0, false⟩

theorem outlined_none_started : Outlined port none_started (nobody : Outline n) where
  shown _ _ h := by cases h
  only _ _ := rfl
  flying := rfl
  crashed := rfl

end Simulation

end RingServers
end InstantMessenger
