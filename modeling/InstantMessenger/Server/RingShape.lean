import InstantMessenger.Foundations.Between
import InstantMessenger.Foundations.Slots
import InstantMessenger.Server.ServersRing

/-!
# What a ring of servers looks like

Between their steps the threads of a server agree on which server they are linked to
or looking for, and no live server is between.

* `Aimed`, `Reaches` — the port a server is looking at, and the connection it has.
* `Placed`, `Shaped` — what holds of a server by where its connecting thread is.
* `Shape` — **the invariant**; `Shape.change` is its frame rule: a step of one server
  leaves the others as they are.
* `undisturbed` — the condition on a run: no server passes over one that was started
  while it was looking, none connects twice, and none is started after a crash.
-/

namespace InstantMessenger

open Cyclic Slots

variable {n : Nat}

namespace ConnectThread

/-- `connect` has failed. -/
def isFailed : ConnectThread → Bool
  | .failed _ => true
  | _ => false

end ConnectThread

namespace RingListener

/-- The connections that are read or wait to be accepted. -/
def sockets (l : RingListener) : List Nat :=
  match l.thread with
  | .listening c => c :: l.backlog
  | _ => l.backlog

theorem mem_sockets_push {l : RingListener} {c d : Nat} :
    c ∈ ({ l with backlog := l.backlog ++ [d] } : RingListener).sockets ↔
      c ∈ l.sockets ∨ c = d := by
  obtain ⟨thread, backlog⟩ := l
  cases thread <;> simp [sockets, or_assoc]

end RingListener

namespace RingServers

/-- There is a live server on the port. -/
def live (s : RingServers n) (k : Fin n) : Prop := ∃ r, s.server k = some r

/-- Servers are started before the first crash, or when none is left.  When a server
crashes, no other one is about to pass over a live port, which was closed when it
tried it.  And nobody who is connecting starts to connect again. -/
def undisturbed (s : RingServers n) : RingLabel n → Bool
  | .start _ => !s.crashed || decide (∀ k, s.server k = none)
  | .crash i => decide (∀ k, ∀ r ∈ s.server k, k ≠ i → ∀ t ∈ r.connecting, t.isFailed = true →
      ∀ j ∈ r.client_port, j ≠ i → s.server j = none)
  | .connector _ _ => true
  | .acceptor i => decide (∀ r ∈ s.server i, (s.listener i).thread = .starting →
      r.disconnected = false → r.connecting = [])

/-! ## The shape of a server -/

/-- The port in `client_addr`, and the line after it. -/
structure Aimed (s : RingServers n) (i : Fin n) (r : ServersRing n) (j : Fin n) : Prop where
  client_port : r.client_port = some j
  myfile : r.myfile = next j
  between : NoneBetween s.live i j
  next : s.crashed = false → j = next i

/-- The socket is connected to `j`, and up as long as `j` is live. -/
def Reaches (s : RingServers n) (socket : Option Nat) (j : Fin n) : Prop :=
  ∃ c conn, socket = some c ∧ s.conns[c]? = some conn ∧ conn.dst = j ∧
    (conn.dstUp = true ↔ s.live j) ∧ (s.crashed = false → s.live j)

/-- A server that will start an election knows of the disconnection, unless it was
promoted meanwhile. -/
def Calls (r : ServersRing n) (canStartElection : Bool) : Prop :=
  canStartElection = true → r.disconnected = true ∨ r.isPrimary = true

/-- What holds of a server by where its connecting thread is. -/
inductive Placed (s : RingServers n) (i : Fin n) (r : ServersRing n) : ConnectThread → Prop
  | fresh : r.socket_client = none → r.client_port = none → r.myfile = next i →
      Placed s i r .starting
  | lost {j : Fin n} : Aimed s i r j → Reaches s r.socket_client j → ¬s.live j →
      r.disconnected = true → Placed s i r .starting
  | trying {b : Bool} {j : Fin n} : r.socket_client = none → Calls r b → Aimed s i r j →
      Placed s i r (.trying b)
  | failed {b : Bool} {j : Fin n} : r.socket_client = none → Calls r b → Aimed s i r j →
      (s.crashed = true → ¬s.live j) → Placed s i r (.failed b)
  | connected {b : Bool} {j : Fin n} : Calls r b → Aimed s i r j → Reaches s r.socket_client j →
      Placed s i r (.connected b)
  | watching {socket : Option Nat} {j : Fin n} : socket = r.socket_client → Aimed s i r j →
      Reaches s r.socket_client j → Placed s i r (.watching socket)

/-- A server connects with one thread, or has not begun to connect. -/
inductive Shaped (s : RingServers n) (i : Fin n) (r : ServersRing n) : Prop
  | unborn : r.connecting = [] → r.socket_client = none → r.client_port = none →
      r.myfile = next i → r.disconnected = false → Shaped s i r
  | running {t : ConnectThread} : r.connecting = [t] → Placed s i r t → Shaped s i r

/-- The invariant. -/
structure Shape (s : RingServers n) : Prop where
  server : ∀ i r, s.server i = some r → Shaped s i r
  disconnected : ∀ i r, s.server i = some r → r.disconnected = true → s.crashed = true
  unborn : ∀ i r, s.server i = some r → r.connecting = [] → (s.listener i).thread = .starting
  again : ∀ i r, s.server i = some r → (s.listener i).thread = .starting → r.connecting ≠ [] →
    s.crashed = true
  inbox : ∀ i, s.live i → ∀ c ∈ (s.listener i).sockets, ∃ conn, s.conns[c]? = some conn ∧
    conn.dst = i ∧ (conn.srcUp = false → s.crashed = true)

/-! ## The frame rule -/

section Frame

variable {s s' : RingServers n} {i j k : Fin n} {r r' : ServersRing n}

/-- The same servers are live, and the same connections are up. -/
structure Frame (s s' : RingServers n) : Prop where
  live : s'.live = s.live
  crashed : s'.crashed = s.crashed
  conns : ∀ (c : Nat) (conn : RingConn n), s.conns[c]? = some conn →
    ∃ conn' : RingConn n, s'.conns[c]? = some conn' ∧
    conn'.dst = conn.dst ∧ conn'.srcUp = conn.srcUp ∧ conn'.dstUp = conn.dstUp

theorem Frame.aimed (h : Frame s s') (ha : Aimed s i r j) : Aimed s' i r j where
  client_port := ha.client_port
  myfile := ha.myfile
  between := by rw [h.live]; exact ha.between
  next := by rw [h.crashed]; exact ha.next

theorem Frame.reaches (h : Frame s s') {socket : Option Nat} (hr : Reaches s socket j) :
    Reaches s' socket j := by
  obtain ⟨c, conn, hs, hc, hdst, hup, hlive⟩ := hr
  obtain ⟨conn', hc', hdst', -, hup'⟩ := h.conns c conn hc
  rw [Reaches, h.live, h.crashed]
  exact ⟨c, conn', hs, hc', hdst'.trans hdst, by rw [hup']; exact hup, hlive⟩

/-- A server stays well shaped when the others change, if what it aims at and reaches is
still there, and if no port it gave up or is about to pass over comes to life. -/
theorem Shaped.carry (h : Shaped s i r) (haimed : ∀ {j}, Aimed s i r j → Aimed s' i r j)
    (hreaches : ∀ {socket j}, Reaches s socket j → Reaches s' socket j)
    (hlost : ∀ {j}, r.disconnected = true → ¬s.live j → ¬s'.live j)
    (hfailed : ∀ {b j}, r.connecting = [.failed b] → Aimed s i r j →
      (s.crashed = true → ¬s.live j) → s'.crashed = true → ¬s'.live j) : Shaped s' i r := by
  cases h with
  | unborn h1 h2 h3 h4 h5 => exact .unborn h1 h2 h3 h4 h5
  | running ht hp =>
    refine .running ht ?_
    cases hp with
    | fresh h1 h2 h3 => exact .fresh h1 h2 h3
    | lost ha hr hl hd => exact .lost (haimed ha) (hreaches hr) (hlost hd hl) hd
    | trying h1 h2 ha => exact .trying h1 h2 (haimed ha)
    | failed h1 h2 ha hl => exact .failed h1 h2 (haimed ha) (hfailed ht ha hl)
    | connected h1 ha hr => exact .connected h1 (haimed ha) (hreaches hr)
    | watching h1 ha hr => exact .watching h1 (haimed ha) (hreaches hr)

theorem Frame.shaped (h : Frame s s') (hs : Shaped s i r) : Shaped s' i r := by
  refine hs.carry h.aimed h.reaches ?_ ?_
  · intro j _ hl
    rwa [h.live]
  · intro b j _ _ hl
    rwa [h.live, h.crashed]

/-- **The frame rule.**  A step of the server `i` leaves it well shaped, and the others
only get connections that are up. -/
theorem Shape.change (h : Shape s) (hf : Frame s s')
    (hother : ∀ k, k ≠ i → s'.server k = s.server k)
    (hthread : ∀ k, k ≠ i → (s'.listener k).thread = (s.listener k).thread)
    (hinbox : ∀ k, ∀ c ∈ (s'.listener k).sockets, c ∈ (s.listener k).sockets ∨
      ∃ conn, s'.conns[c]? = some conn ∧ conn.dst = k ∧ conn.srcUp = true)
    (hself : ∀ r', s'.server i = some r' → Shaped s' i r' ∧
      (r'.disconnected = true → s.crashed = true) ∧
      (r'.connecting = [] → (s'.listener i).thread = .starting) ∧
      ((s'.listener i).thread = .starting → r'.connecting ≠ [] → s.crashed = true)) : Shape s' where
  server k x hk := by
    by_cases hki : k = i
    · subst hki
      exact (hself x hk).1
    · rw [hother k hki] at hk
      exact hf.shaped (h.server k x hk)
  disconnected k x hk := by
    rw [hf.crashed]
    by_cases hki : k = i
    · subst hki
      exact (hself x hk).2.1
    · rw [hother k hki] at hk
      exact h.disconnected k x hk
  unborn k x hk := by
    by_cases hki : k = i
    · subst hki
      exact (hself x hk).2.2.1
    · rw [hother k hki] at hk
      rw [hthread k hki]
      exact h.unborn k x hk
  again k x hk := by
    rw [hf.crashed]
    by_cases hki : k = i
    · subst hki
      exact (hself x hk).2.2.2
    · rw [hother k hki] at hk
      rw [hthread k hki]
      exact h.again k x hk
  inbox k hk c hc := by
    rw [hf.live] at hk
    rw [hf.crashed]
    rcases hinbox k c hc with hc | ⟨conn, hconn, hdst, hup⟩
    · obtain ⟨conn, hconn, hdst, hup⟩ := h.inbox k hk c hc
      obtain ⟨conn', hconn', hdst', hsrc', -⟩ := hf.conns c conn hconn
      exact ⟨conn', hconn', hdst'.trans hdst, by rw [hsrc']; exact hup⟩
    · exact ⟨conn, hconn, hdst, fun hdown => by rw [hup] at hdown; cases hdown⟩

/-! ### What a step leaves alone -/

theorem put_self (s : RingServers n) (i : Fin n) (r : ServersRing n) :
    (s.put i r).server i = some r := Function.update_self ..

theorem put_of_ne (s : RingServers n) (r : ServersRing n) (h : k ≠ i) :
    (s.put i r).server k = s.server k := Function.update_of_ne h ..

theorem put_live (hi : s.server i = some r) : (s.put i r').live = s.live := by
  funext k
  refine propext ?_
  by_cases hk : k = i
  · subst hk
    exact ⟨fun _ => ⟨r, hi⟩, fun _ => ⟨r', put_self ..⟩⟩
  · unfold live
    rw [put_of_ne _ _ hk]

theorem frame_put (hi : s.server i = some r) : Frame s (s.put i r') :=
  ⟨put_live hi, rfl, fun _ conn hc => ⟨conn, hc, rfl, rfl, rfl⟩⟩

theorem Frame.trans {s'' : RingServers n} (h : Frame s s') (h' : Frame s' s'') : Frame s s'' where
  live := h'.live.trans h.live
  crashed := h'.crashed.trans h.crashed
  conns c conn hc := by
    obtain ⟨conn', hc', h1, h2, h3⟩ := h.conns c conn hc
    obtain ⟨conn'', hc'', h1', h2', h3'⟩ := h'.conns c conn' hc'
    exact ⟨conn'', hc'', h1'.trans h1, h2'.trans h2, h3'.trans h3⟩

theorem frame_set {c : Nat} {conn conn' : RingConn n} (hc : s.conns[c]? = some conn)
    (hdst : conn'.dst = conn.dst) (hsrc : conn'.srcUp = conn.srcUp)
    (hup : conn'.dstUp = conn.dstUp) : Frame s { s with conns := s.conns.set c conn' } where
  live := rfl
  crashed := rfl
  conns d x hd := by
    by_cases hdc : d = c
    · subst hdc
      rw [hc, Option.some.injEq] at hd
      subst hd
      exact ⟨conn', getElem?_set_self_of_some hc, hdst, hsrc, hup⟩
    · exact ⟨x, getElem?_set_of_ne hdc hd, rfl, rfl, rfl⟩

theorem receive_dst (conn : RingConn n) (messages : List Str) :
    (conn.receive messages).dst = conn.dst ∧ (conn.receive messages).srcUp = conn.srcUp ∧
      (conn.receive messages).dstUp = conn.dstUp := by
  unfold RingConn.receive
  split <;> exact ⟨rfl, rfl, rfl⟩

theorem frame_write (s : RingServers n) (socket : Option Nat) (messages : List Str) :
    Frame s (s.write socket messages) := by
  have hsame : Frame s s := ⟨rfl, rfl, fun _ conn hc => ⟨conn, hc, rfl, rfl, rfl⟩⟩
  unfold write
  split
  · exact hsame
  · split
    · exact hsame
    · rename_i conn hc
      obtain ⟨h1, h2, h3⟩ := receive_dst conn messages
      exact frame_set hc h1 h2 h3

theorem write_server (s : RingServers n) (socket : Option Nat) (messages : List Str) :
    (s.write socket messages).server = s.server ∧
      (s.write socket messages).listener = s.listener := by
  unfold write
  split
  · exact ⟨rfl, rfl⟩
  · split <;> exact ⟨rfl, rfl⟩

theorem connect_self (s : RingServers n) (i j : Fin n) :
    (s.connect i j).listener j =
      { s.listener j with backlog := (s.listener j).backlog ++ [s.conns.length] } :=
  Function.update_self ..

theorem connect_of_ne (s : RingServers n) (i : Fin n) (h : k ≠ j) :
    (s.connect i j).listener k = s.listener k := Function.update_of_ne h ..

theorem frame_connect (s : RingServers n) (i j : Fin n) : Frame s (s.connect i j) :=
  ⟨rfl, rfl, fun _ conn hc => ⟨conn, getElem?_concat_of_some hc, rfl, rfl, rfl⟩⟩

end Frame

/-! ## The connecting thread -/

section Connecting

variable {port : Fin n → Int} {s : RingServers n} {i j : Fin n} {r : ServersRing n}

/-- The connecting thread of a server is its only one. -/
theorem Shaped.thread (h : Shaped s i r) {t : Nat} {th : ConnectThread}
    (ht : r.connecting[t]? = some th) : t = 0 ∧ r.connecting = [th] ∧ Placed s i r th := by
  cases h with
  | unborn hnil _ _ _ _ =>
    rw [hnil] at ht
    cases ht
  | running hone hp =>
    rw [hone] at ht
    cases t with
    | zero =>
      cases ht
      exact ⟨rfl, hone, hp⟩
    | succ t => cases ht

/-- The connecting thread moves on, and nothing else does. -/
theorem Shape.moves (h : Shape s) {s₁ : RingServers n} {r' : ServersRing n} {t : ConnectThread}
    (hi : s.server i = some r) (hne : r.connecting ≠ []) (hf : Frame s s₁)
    (hserver : s₁.server = s.server) (hthread : ∀ k, (s₁.listener k).thread = (s.listener k).thread)
    (hinbox : ∀ k, ∀ c ∈ (s₁.listener k).sockets, c ∈ (s.listener k).sockets ∨
      ∃ conn, s₁.conns[c]? = some conn ∧ conn.dst = k ∧ conn.srcUp = true)
    (ht : r'.connecting = [t]) (hp : Placed s₁ i r' t)
    (hd : r'.disconnected = true → s.crashed = true) : Shape (s₁.put i r') := by
  have hi₁ : s₁.server i = some r := by rw [hserver]; exact hi
  have hput : Frame s₁ (s₁.put i r') := frame_put hi₁
  refine h.change (i := i) (hf.trans hput) (fun k hk => ?_) (fun k _ => hthread k) hinbox
    fun x hx => ?_
  · rw [put_of_ne s₁ r' hk, hserver]
  · rw [put_self, Option.some.injEq] at hx
    subst hx
    refine ⟨hput.shaped (.running ht hp), hd, ?_, ?_⟩
    · intro h0
      rw [ht] at h0
      cases h0
    · intro hstart _
      exact h.again i r hi ((hthread i).symm.trans hstart) hne

theorem frame_refl (s : RingServers n) : Frame s s :=
  ⟨rfl, rfl, fun _ conn hc => ⟨conn, hc, rfl, rfl, rfl⟩⟩

/-- The same, when nothing was written or connected. -/
theorem Shape.moves_alone (h : Shape s) {r' : ServersRing n} {t : ConnectThread}
    (hi : s.server i = some r) (hne : r.connecting ≠ []) (ht : r'.connecting = [t])
    (hp : Placed s i r' t) (hd : r'.disconnected = true → s.crashed = true) :
    Shape (s.put i r') :=
  h.moves hi hne (frame_refl s) rfl (fun _ => rfl) (fun _ _ hc => .inl hc) ht hp hd

theorem moves_connecting {r : ServersRing n} {th th' : ConnectThread}
    (h : r.connecting = [th]) : (r.moves 0 th').connecting = [th'] := by
  rw [ServersRing.moves, h]
  rfl

/-- The next line after a port that is not live. -/
theorem Aimed.getNewPort (h : Aimed s i r j) (hdead : ¬s.live j) (hcrashed : s.crashed = true) :
    Aimed s i r.getNewPort (Cyclic.next j) where
  client_port := congrArg some h.myfile
  myfile := congrArg Cyclic.next h.myfile
  between := h.between.pass hdead
  next := fun hc => by rw [hcrashed] at hc; cases hc

/-- A server that has read the line of its own port. -/
theorem aimed_next (s : RingServers n) (h : r.myfile = Cyclic.next i) :
    Aimed s i r.getNewPort (Cyclic.next i) where
  client_port := congrArg some h
  myfile := congrArg Cyclic.next h
  between := noneBetween_next _ _
  next := fun _ => rfl

/-- What is looked at does not depend on the rest of the server. -/
theorem Aimed.same {r' : ServersRing n} (h : Aimed s i r j)
    (hport : r'.client_port = r.client_port) (hfile : r'.myfile = r.myfile) : Aimed s i r' j :=
  ⟨hport.trans h.client_port, hfile.trans h.myfile, h.between, h.next⟩

theorem Reaches.isUp {socket : Option Nat} (h : Reaches s socket j) :
    s.isUp socket = true ↔ s.live j := by
  obtain ⟨c, conn, rfl, hc, -, hup, -⟩ := h
  show (s.conns[c]?).any RingConn.dstUp = true ↔ _
  rw [hc]
  exact hup

/-- After a disconnection a server looks at the next port, or finds itself alone. -/
theorem placed_checkForNewPort {b : Bool} {th : ConnectThread} (ha : Aimed s i r j)
    (hdead : ¬s.live j) (hcrashed : s.crashed = true) (hsocket : r.socket_client = none)
    (hcalls : Calls r b) :
    Placed s i ((r.checkForNewPort port i).moves 0 th) (.trying b) := by
  have hnext := ha.getNewPort hdead hcrashed
  unfold ServersRing.checkForNewPort
  dsimp only
  by_cases hown : r.getNewPort.client_port = some i
  · have hj : Cyclic.next j = i := Option.some.inj (hnext.client_port.symm.trans hown)
    have hfile : r.getNewPort.myfile = Cyclic.next i := by rw [hnext.myfile, hj]
    rw [if_pos hown]
    exact .trying hsocket (fun _ => .inr rfl)
      ((aimed_next (r := { r.getNewPort with
        primary := port i, isPrimary := true, disconnected := false }) s hfile).same rfl rfl)
  · rw [if_neg hown]
    exact .trying hsocket hcalls (hnext.same rfl rfl)

/-- A turn of `connect` to a live server succeeds. -/
theorem connectToServer_of_live {t : Nat} {b : Bool} (hport : r.client_port = some j)
    (hsocket : r.socket_client = none) (hl : s.live j) :
    s.connectToServer port i r t (.trying b) = some ((s.connect i j).put i
      ({ r with socket_client := some s.conns.length }.moves t (.connected b))) := by
  have hsome : (s.server j).isSome = true := Option.isSome_iff_exists.2 hl
  rw [connectToServer, hport, Option.map_some, if_pos (by rw [hsocket, hsome]; rfl)]

/-- And to a port that no server listens on it fails. -/
theorem connectToServer_of_not_live {t : Nat} {b : Bool} (hport : r.client_port = some j)
    (hl : ¬s.live j) :
    s.connectToServer port i r t (.trying b) = some (s.put i (r.moves t (.failed b))) := by
  have hnone : (s.server j).isSome = false := by
    rw [← Bool.not_eq_true]
    exact fun hs => hl (Option.isSome_iff_exists.1 hs)
  rw [connectToServer, hport, Option.map_some,
    if_neg (by rw [hnone, Bool.and_false]; exact Bool.false_ne_true)]

/-- **A step of the connecting thread keeps the shape.** -/
theorem Shape.connector (h : Shape s) (hi : s.server i = some r) {t : Nat} {th : ConnectThread}
    (ht : r.connecting[t]? = some th) {s' : RingServers n}
    (hst : s.connectToServer port i r t th = some s') : Shape s' := by
  obtain ⟨rfl, hone, hp⟩ := (h.server i r hi).thread ht
  have hne : r.connecting ≠ [] := by rw [hone]; exact List.cons_ne_nil _ _
  have hflag := h.disconnected i r hi
  cases hp with
  | fresh _ hport hfile =>
    cases hst
    refine h.moves_alone hi hne (moves_connecting hone) (.trying rfl (fun hb => ?_)
      ((aimed_next s hfile).same rfl rfl)) hflag
    rw [hport] at hb
    cases hb
  | lost ha _ hdead hd =>
    cases hst
    exact h.moves_alone hi hne (moves_connecting hone) (.trying rfl (fun _ => .inl hd)
      ((ha.getNewPort hdead (hflag hd)).same rfl rfl)) hflag
  | @trying b j hsocket hcalls ha =>
    by_cases hl : s.live j
    · rw [connectToServer_of_live ha.client_port hsocket hl] at hst
      cases hst
      have hnew : (s.connect i j).conns[s.conns.length]? = some { src := i, dst := j } :=
        List.getElem?_concat_length
      refine h.moves hi hne (frame_connect s i j) rfl (fun k => ?_) (fun k c hc => ?_)
        (moves_connecting hone) ?_ hflag
      · by_cases hk : k = j
        · rw [hk, connect_self]
        · rw [connect_of_ne s i hk]
      · by_cases hk : k = j
        · subst hk
          rw [connect_self, RingListener.mem_sockets_push] at hc
          refine hc.imp id ?_
          intro hc
          rw [hc]
          exact ⟨_, hnew, rfl, rfl⟩
        · rw [connect_of_ne s i hk] at hc
          exact .inl hc
      · refine .connected hcalls (((frame_connect s i j).aimed ha).same rfl rfl)
          ⟨_, _, rfl, hnew, rfl, ?_, fun _ => hl⟩
        exact ⟨fun _ => hl, fun _ => rfl⟩
    · rw [connectToServer_of_not_live ha.client_port hl] at hst
      cases hst
      exact h.moves_alone hi hne (moves_connecting hone)
        (.failed hsocket hcalls (ha.same rfl rfl) fun _ => hl) hflag
  | @failed b j hsocket hcalls ha hdead =>
    cases hst
    by_cases hd : r.disconnected = true
    · rw [if_pos hd]
      have hconn : (r.checkForNewPort port i).connecting = r.connecting := by
        unfold ServersRing.checkForNewPort
        dsimp only
        split <;> rfl
      exact h.moves_alone hi hne (moves_connecting (hconn.trans hone))
        (placed_checkForNewPort ha (hdead (hflag hd)) (hflag hd) hsocket hcalls)
        fun _ => hflag hd
    · rw [if_neg hd]
      exact h.moves_alone hi hne (moves_connecting hone)
        (.trying hsocket hcalls (ha.same rfl rfl)) hflag
  | @connected b j hcalls ha hreaches =>
    cases hst
    have hwatch : ∀ {s₁ : RingServers n}, Frame s s₁ →
        Placed s₁ i (({ r with disconnected := false } : ServersRing n).moves 0
          (.watching r.socket_client)) (.watching r.socket_client) := fun hf =>
      .watching rfl ((hf.aimed ha).same rfl rfl) (hf.reaches hreaches)
    have hfalse : ∀ {P : Prop}, (false = true) → P := fun h => by cases h
    split
    · have hsame := write_server s r.socket_client (Election.startElection (port i))
      refine h.moves hi hne (frame_write s _ _) hsame.1 (fun k => by rw [hsame.2])
        (fun k c hc => .inl (by rwa [hsame.2] at hc)) (moves_connecting hone)
        (hwatch (frame_write s _ _)) hfalse
    · exact h.moves_alone hi hne (moves_connecting hone) (hwatch (frame_refl s)) hfalse
  | @watching socket j hsocket ha hreaches =>
    simp only [connectToServer] at hst
    split at hst
    · cases hst
    · rename_i hdown
      cases hst
      have hdead : ¬s.live j := fun hl => hdown (hsocket ▸ hreaches.isUp.2 hl)
      have hcrashed : s.crashed = true := by
        obtain ⟨_, _, _, _, _, _, hl⟩ := id hreaches
        by_contra hc
        exact hdead (hl (Bool.eq_false_of_not_eq_true hc))
      exact h.moves_alone hi hne (moves_connecting hone)
        (.lost (ha.same rfl rfl) hreaches hdead rfl) fun _ => hcrashed

end Connecting

/-! ## The accepting thread -/

section Accepting

variable {port : Fin n → Int} {s : RingServers n} {i : Fin n} {r r' : ServersRing n}

theorem setListener_self (s : RingServers n) (i : Fin n) (l : RingListener) :
    (s.setListener i l).listener i = l := Function.update_self ..

theorem setListener_of_ne (s : RingServers n) (l : RingListener) {k : Fin n} (h : k ≠ i) :
    (s.setListener i l).listener k = s.listener k := Function.update_of_ne h ..

theorem setListener_eq_self {l : RingListener} (h : l = s.listener i) : s.setListener i l = s := by
  obtain ⟨_, listener, _, _⟩ := s
  subst h
  exact congrArg (fun f => RingServers.mk _ f _ _) (Function.update_eq_self i listener)

theorem put_eq_self (hi : s.server i = some r) : s.put i r = s := by
  obtain ⟨server, _, _, _⟩ := s
  have hi' : server i = some r := hi
  refine congrArg (fun f => RingServers.mk f _ _ _) ?_
  rw [← hi', Function.update_eq_self]

/-- What is `disconnected` may become so for the other reason. -/
theorem Shaped.disconnect (h : Shaped s i r) (hne : r.connecting ≠ []) :
    Shaped s i { r with disconnected := true } := by
  cases h with
  | unborn hnil _ _ _ _ => exact absurd hnil hne
  | running ht hp =>
    refine .running ht ?_
    cases hp with
    | fresh h1 h2 h3 => exact .fresh h1 h2 h3
    | lost ha hr hl _ => exact .lost (ha.same rfl rfl) hr hl rfl
    | trying h1 _ ha => exact .trying h1 (fun _ => .inl rfl) (ha.same rfl rfl)
    | failed h1 _ ha hl => exact .failed h1 (fun _ => .inl rfl) (ha.same rfl rfl) hl
    | connected _ ha hr => exact .connected (fun _ => .inl rfl) (ha.same rfl rfl) hr
    | watching h1 ha hr => exact .watching h1 (ha.same rfl rfl) hr

/-- What a server is told by a message does not change where it connects. -/
theorem Shaped.told (h : Shaped s i r) (p : Election.Processed) :
    Shaped s i (r.told port i p) := by
  have hcalls : ∀ {b : Bool}, Calls r b → Calls (r.told port i p) b := fun hc hb =>
    (hc hb).imp id fun hpr => by simp [ServersRing.told, hpr]
  cases h with
  | unborn h1 h2 h3 h4 h5 => exact .unborn h1 h2 h3 h4 h5
  | running ht hp =>
    refine .running ht ?_
    cases hp with
    | fresh h1 h2 h3 => exact .fresh h1 h2 h3
    | lost ha hr hl hd => exact .lost (ha.same rfl rfl) hr hl hd
    | trying h1 h2 ha => exact .trying h1 (hcalls h2) (ha.same rfl rfl)
    | failed h1 h2 ha hl => exact .failed h1 (hcalls h2) (ha.same rfl rfl) hl
    | connected h1 ha hr => exact .connected (hcalls h1) (ha.same rfl rfl) hr
    | watching h1 ha hr => exact .watching h1 (ha.same rfl rfl) hr

/-- The server `i` changes while its accepting thread moves on. -/
theorem Shape.listens (h : Shape s) {s₁ : RingServers n} {l : RingListener}
    (hi : s.server i = some r) (hf : Frame s s₁) (hserver : s₁.server = s.server)
    (hlistener : s₁.listener = s.listener) (hs : Shaped s₁ i r')
    (hd : r'.disconnected = true → s.crashed = true)
    (hsockets : ∀ c ∈ l.sockets, c ∈ (s.listener i).sockets)
    (hunborn : r'.connecting = [] → l.thread = .starting)
    (hagain : l.thread = .starting → r'.connecting ≠ [] → s.crashed = true) :
    Shape ((s₁.put i r').setListener i l) := by
  have hi₁ : s₁.server i = some r := by rw [hserver]; exact hi
  have hput : Frame s₁ (s₁.put i r') := frame_put hi₁
  have hset : Frame (s₁.put i r') ((s₁.put i r').setListener i l) :=
    ⟨rfl, rfl, fun _ conn hc => ⟨conn, hc, rfl, rfl, rfl⟩⟩
  refine h.change (i := i) ((hf.trans hput).trans hset) (fun k hk => ?_) (fun k hk => ?_)
    (fun k c hc => .inl ?_) fun x hx => ?_
  · show (s₁.put i r').server k = _
    rw [put_of_ne s₁ r' hk, hserver]
  · rw [setListener_of_ne _ l hk]
    show (s₁.listener k).thread = _
    rw [hlistener]
  · by_cases hk : k = i
    · subst hk
      rw [setListener_self] at hc
      exact hsockets c hc
    · rw [setListener_of_ne _ l hk] at hc
      rw [← hlistener]
      exact hc
  · have hx' : (s₁.put i r').server i = some x := hx
    rw [put_self, Option.some.injEq] at hx'
    subst hx'
    rw [setListener_self]
    exact ⟨(hput.trans hset).shaped hs, hd, hunborn, hagain⟩

/-- **A step of the accepting thread keeps the shape.** -/
theorem Shape.acceptor (h : Shape s) (hi : s.server i = some r)
    (hok : s.undisturbed (.acceptor i) = true) {s' : RingServers n}
    (hmessages : ∀ (c : Nat) (conn : RingConn n) (m : Str) (queue : List Str),
      s.conns[c]? = some conn → conn.queue = m :: queue →
      (Election.processElectionInfo r.isParticipating m (port i)).isSome)
    (hst : s.acceptServerConnection port i r (s.listener i).thread = some s') : Shape s' := by
  have hflag := h.disconnected i r hi
  have hlive : s.live i := ⟨r, hi⟩
  have hthread_sockets : ∀ {th : AcceptThread} {backlog : List Nat},
      (∀ c, th ≠ .listening c) → backlog = (s.listener i).backlog →
      ∀ c ∈ (⟨th, backlog⟩ : RingListener).sockets, c ∈ (s.listener i).sockets := by
    intro th backlog hth hb c hc
    have hc' : c ∈ backlog := by
      cases th with
      | listening d => exact absurd rfl (hth d)
      | _ => exact hc
    rw [hb] at hc'
    unfold RingListener.sockets
    split
    · exact List.mem_cons_of_mem _ hc'
    · exact hc'
  cases hth : (s.listener i).thread with
  | starting =>
    rw [hth] at hst
    cases hst
    by_cases hd : r.disconnected = true
    · rw [if_pos hd]
      refine h.listens hi (frame_refl s) rfl rfl (h.server i r hi) hflag
        (hthread_sockets (fun c hc => by cases hc) rfl) (fun hnil => ?_) (fun hc => by cases hc)
      -- a server that has not begun to connect knows of no disconnection
      rcases h.server i r hi with ⟨_, _, _, _, hd'⟩ | ⟨ht, _⟩
      · rw [hd] at hd'
        cases hd'
      · rw [hnil] at ht
        cases ht
    · have hnil : r.connecting = [] :=
        of_decide_eq_true hok r hi hth (Bool.eq_false_of_not_eq_true hd)
      rw [if_neg hd]
      rcases h.server i r hi with ⟨_, hsocket, hport, hfile, _⟩ | ⟨ht, _⟩
      · refine h.listens hi (frame_refl s) rfl rfl
          (.running (by rw [hnil]; rfl) (.fresh hsocket hport hfile)) hflag
          (hthread_sockets (fun c hc => by cases hc) rfl) (fun h0 => ?_) (fun hc => by cases hc)
        rw [hnil] at h0
        cases h0
      · rw [hnil] at ht
        cases ht
  | accepting =>
    rw [hth] at hst
    simp only [acceptServerConnection] at hst
    split at hst
    · cases hst
    · rename_i c backlog hb
      cases hst
      have hne : r.connecting ≠ [] := fun h0 => by
        have hstart := h.unborn i r hi h0
        rw [hth] at hstart
        cases hstart
      have hshape := h.listens (l := ⟨.listening c, backlog⟩) hi (frame_refl s) rfl rfl
        (h.server i r hi) hflag (fun d hd => ?_) (fun h0 => absurd h0 hne) (fun hc => by cases hc)
      · rwa [put_eq_self hi] at hshape
      · unfold RingListener.sockets
        rw [hth, hb]
        exact hd
  | listening c =>
    rw [hth] at hst
    have hne : r.connecting ≠ [] := fun h0 => by
      have hstart := h.unborn i r hi h0
      rw [hth] at hstart
      cases hstart
    simp only [acceptServerConnection] at hst
    obtain ⟨conn, hconn, hst⟩ := Option.bind_eq_some_iff.1 hst
    split at hst
    · rename_i message queue hq
      have hsome := hmessages c conn message queue hconn hq
      split at hst
      · rename_i hnone
        rw [hnone] at hsome
        cases hsome
      · rename_i p hp
        cases hst
        have hread : Frame s { s with conns := s.conns.set c { conn with queue } } :=
          frame_set hconn rfl rfl rfl
        have hf := hread.trans (frame_write _ r.socket_client p.sent)
        have hsame := write_server { s with conns := s.conns.set c { conn with queue } }
          r.socket_client p.sent
        have hshape : Shape (((write { s with conns := s.conns.set c { conn with queue } }
            r.socket_client p.sent).put i (r.told port i p)).setListener i (s.listener i)) :=
          h.listens hi hf hsame.1 hsame.2
          (hf.shaped ((h.server i r hi).told p)) hflag (fun d hd => hd)
          (fun h0 => absurd h0 hne) (fun hs => by rw [hth] at hs; cases hs)
        rwa [setListener_eq_self (s := put _ i _) (congrFun hsame.2 i).symm] at hshape
    · split at hst
      · cases hst
      · rename_i hdown
        cases hst
        have hcrashed : s.crashed = true := by
          have hmem : c ∈ (s.listener i).sockets := by
            unfold RingListener.sockets
            rw [hth]
            exact List.mem_cons_self
          obtain ⟨conn', hconn', -, hup⟩ := h.inbox i hlive c hmem
          cases hconn.symm.trans hconn'
          exact hup (Bool.eq_false_of_not_eq_true hdown)
        exact h.listens hi (frame_refl s) rfl rfl ((h.server i r hi).disconnect hne)
          (fun _ => hcrashed) (hthread_sockets (fun c hc => by cases hc) rfl)
          (fun _ => rfl) (fun _ _ => hcrashed)

end Accepting

/-! ## Crashes and starts -/

section Crashes

variable {port : Fin n → Int} {s : RingServers n} {i j k : Fin n} {r : ServersRing n}

theorem crash_self (s : RingServers n) (i : Fin n) : (s.crash i).server i = none :=
  Function.update_self ..

theorem crash_of_ne (s : RingServers n) (h : k ≠ i) : (s.crash i).server k = s.server k :=
  Function.update_of_ne h ..

theorem crash_cases (h : (s.crash i).server k = some r) : k ≠ i ∧ s.server k = some r := by
  by_cases hk : k = i
  · rw [hk, crash_self] at h
    cases h
  · rw [crash_of_ne _ hk] at h
    exact ⟨hk, h⟩

theorem crash_live : (s.crash i).live k ↔ k ≠ i ∧ s.live k := by
  constructor
  · rintro ⟨r, hr⟩
    obtain ⟨hk, hr⟩ := crash_cases hr
    exact ⟨hk, r, hr⟩
  · rintro ⟨hk, r, hr⟩
    exact ⟨r, (crash_of_ne _ hk).trans hr⟩

theorem crash_sub : ∀ k, (s.crash i).live k → s.live k := fun _ h => (crash_live.1 h).2

theorem Aimed.crash (h : Aimed s k r j) (i : Fin n) : Aimed (s.crash i) k r j :=
  ⟨h.client_port, h.myfile, h.between.mono crash_sub, fun hc => by cases hc⟩

theorem Reaches.crash {socket : Option Nat} (h : Reaches s socket j) (i : Fin n) :
    Reaches (s.crash i) socket j := by
  obtain ⟨c, conn, hs, hc, hdst, hup, -⟩ := h
  refine ⟨c, conn.hangUp i, hs, ?_, hdst, ?_, fun hcr => by cases hcr⟩
  · show (s.conns.map (RingConn.hangUp i))[c]? = _
    rw [List.getElem?_map, hc]
    rfl
  · show (conn.dstUp && conn.dst != i) = true ↔ _
    rw [Bool.and_eq_true, bne_iff_ne, hup, hdst, crash_live, and_comm]

/-- **A crash keeps the shape**, when no other server is about to pass over a live
port. -/
theorem Shape.crash (h : Shape s) (hok : s.undisturbed (.crash i) = true) :
    Shape (s.crash i) where
  server k r hk := by
    obtain ⟨hki, hk⟩ := crash_cases hk
    refine (h.server k r hk).carry (fun ha => ha.crash i) (fun hr => hr.crash i) ?_ ?_
    · exact fun _ hl h => hl (crash_sub _ h)
    · intro b j ht ha _ _ hl
      obtain ⟨hji, x, hx⟩ := crash_live.1 hl
      have hnone := of_decide_eq_true hok k r hk hki _ (by rw [ht]; exact List.mem_singleton_self _)
        rfl _ ha.client_port hji
      rw [hnone] at hx
      cases hx
  disconnected _ _ _ _ := rfl
  unborn k r hk := by
    obtain ⟨hki, hk⟩ := crash_cases hk
    have hl : (s.crash i).listener k = s.listener k := Function.update_of_ne hki ..
    rw [hl]
    exact h.unborn k r hk
  again _ _ _ _ _ := rfl
  inbox k hk c hc := by
    obtain ⟨hki, hk⟩ := crash_live.1 hk
    have hl : (s.crash i).listener k = s.listener k := Function.update_of_ne hki ..
    rw [hl] at hc
    obtain ⟨conn, hconn, hdst, -⟩ := h.inbox k hk c hc
    refine ⟨conn.hangUp i, ?_, hdst, fun _ => rfl⟩
    show (s.conns.map (RingConn.hangUp i))[c]? = _
    rw [List.getElem?_map, hconn]
    rfl

theorem start_self (s : RingServers n) (i : Fin n) : (s.start port i).server i =
    some (ServersRing.prepareServerConnection port i) := Function.update_self ..

theorem start_of_ne (s : RingServers n) (h : k ≠ i) :
    (s.start port i).server k = s.server k := Function.update_of_ne h ..

theorem start_listener_of_ne (s : RingServers n) (h : k ≠ i) :
    (s.start port i).listener k = s.listener k := Function.update_of_ne h ..

theorem start_crashed (hok : s.undisturbed (.start i) = true) :
    (s.start port i).crashed = false := by
  show (s.crashed && decide (∃ k, (s.server k).isSome)) = false
  simp only [undisturbed, Bool.or_eq_true, Bool.not_eq_true', decide_eq_true_eq] at hok
  rcases hok with hc | hnone
  · rw [hc, Bool.false_and]
  · rw [decide_eq_false, Bool.and_false]
    rintro ⟨k, hk⟩
    rw [hnone k] at hk
    cases hk

/-- The other servers of a ring in which one is started have not seen a crash. -/
theorem crashed_of_other (hok : s.undisturbed (.start i) = true) (hk : s.server k = some r) :
    s.crashed = false := by
  simp only [undisturbed, Bool.or_eq_true, Bool.not_eq_true', decide_eq_true_eq] at hok
  rcases hok with hc | hnone
  · exact hc
  · rw [hnone k] at hk
    cases hk

theorem start_live_of_ne (h : k ≠ i) : (s.start port i).live k ↔ s.live k := by
  unfold live
  rw [start_of_ne s h]

/-- **A start keeps the shape.** -/
theorem Shape.start (h : Shape s) (hi : s.server i = none)
    (hok : s.undisturbed (.start i) = true) : Shape (s.start port i) := by
  have hcr := @start_crashed n port s i hok
  have hself : ∀ {r}, (s.start port i).server i = some r →
      r = ServersRing.prepareServerConnection port i := fun hr =>
    (Option.some.inj ((start_self s i).symm.trans hr)).symm
  have hlistener : (s.start port i).listener i = {} := Function.update_self ..
  constructor
  · intro k r hk
    by_cases hki : k = i
    · subst hki
      rw [hself hk]
      exact .unborn rfl rfl rfl rfl rfl
    · rw [start_of_ne s hki] at hk
      have hc := crashed_of_other hok hk
      have hlive : ∀ {j}, (s.crashed = false → s.live j) →
          (s.live j ↔ (s.start port i).live j) := by
        intro j hj
        refine (start_live_of_ne ?_).symm
        rintro rfl
        obtain ⟨x, hx⟩ := hj hc
        rw [hi] at hx
        cases hx
      have haimed : ∀ {j}, Aimed s k r j → Aimed (s.start port i) k r j := fun ha =>
        ⟨ha.client_port, ha.myfile, by rw [ha.next hc]; exact noneBetween_next _ _,
          fun _ => ha.next hc⟩
      have hreaches : ∀ {socket j}, Reaches s socket j → Reaches (s.start port i) socket j := by
        rintro socket j ⟨c, conn, h1, h2, h3, h4, h5⟩
        exact ⟨c, conn, h1, h2, h3, h4.trans (hlive h5), fun _ => (hlive h5).1 (h5 hc)⟩
      refine (h.server k r hk).carry haimed hreaches ?_ ?_
      · intro j hd
        rw [h.disconnected k r hk hd] at hc
        cases hc
      · intro b j _ _ _ hcr'
        rw [hcr] at hcr'
        cases hcr'
  · intro k r hk hd
    by_cases hki : k = i
    · subst hki
      rw [hself hk] at hd
      cases hd
    · rw [start_of_ne s hki] at hk
      have hc := crashed_of_other hok hk
      have := h.disconnected k r hk hd
      rw [hc] at this
      cases this
  · intro k r hk hnil
    by_cases hki : k = i
    · subst hki
      rw [hlistener]
    · rw [start_of_ne s hki] at hk
      rw [start_listener_of_ne s hki]
      exact h.unborn k r hk hnil
  · intro k r hk hstart hne
    by_cases hki : k = i
    · subst hki
      rw [hself hk] at hne
      exact absurd rfl hne
    · rw [start_of_ne s hki] at hk
      rw [start_listener_of_ne s hki] at hstart
      have hc := crashed_of_other hok hk
      have := h.again k r hk hstart hne
      rw [hc] at this
      cases this
  · intro k hk c hc
    by_cases hki : k = i
    · subst hki
      rw [hlistener] at hc
      cases hc
    · rw [start_live_of_ne hki] at hk
      rw [start_listener_of_ne s hki] at hc
      obtain ⟨x, hx⟩ := hk
      have hcf := crashed_of_other hok hx
      obtain ⟨conn, hconn, hdst, hup⟩ := h.inbox k ⟨x, hx⟩ c hc
      exact ⟨conn, hconn, hdst, fun hdown => by rw [hup hdown] at hcf; cases hcf⟩

theorem shape_none_started : Shape (none_started : RingServers n) where
  server _ _ h := by cases h
  disconnected _ _ h := by cases h
  unborn _ _ h := by cases h
  again _ _ h := by cases h
  inbox _ h := by obtain ⟨_, h⟩ := h; cases h

end Crashes

end RingServers
end InstantMessenger
