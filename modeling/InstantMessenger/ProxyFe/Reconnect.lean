import InstantMessenger.Foundations.Refinement
import InstantMessenger.ProxyFe.Threads

/-!
# Server connections, one after another

`InstantMessenger.ProxyFe.Threads` follows the server's connection as one thread that accepts,
listens, and accepts again.  In the code every connection has a new `listenServerCommunication`
thread, the one that accepts is `listenServerReconnect` (for the first connection the main
thread), and the only thing that keeps them in turn is `mutex_server_reconnect`, which the
one locks and the others unlock.

* `Acceptor`, `ServerListener`, `Reconnecting` — these threads, beside the memory and the
  client threads of `ProxyFE`.
* `Reconnecting.step`, `reconnecting` — the transition system; an `accept` may fail.
* `Reconnecting.InTurn` — **whose turn it is**: at most one listener is alive, and the mutex
  is locked exactly while there is one or a connection is being accepted.
* `Reconnecting.refines_proxyFE` — **all of them together are the one thread** of `ProxyFE`.
* `Reconnecting.one_server` — no two listeners are alive, each unlock finds the mutex locked,
  and when no listener is alive the next `pthread_mutex_lock` goes through.
-/

namespace InstantMessenger

open Descriptors Transition ProxyFE

/-- Where the thread is that calls `handleServerConnection`. -/
inductive Acceptor where
  /-- In `listenServerReconnect`, in front of `pthread_mutex_lock`. -/
  | locking
  /-- In `accept`. -/
  | accepting
  /-- `accept` has failed; in front of `pthread_mutex_unlock`. -/
  | failed
  /-- In front of `serverRM_socket = newsockfd`. -/
  | accepted (socket : Nat)
  /-- In front of the `pthread_create` of the listener. -/
  | stored
  deriving DecidableEq, Repr

/-- Where a thread of `listenServerCommunication` is. -/
inductive ServerListener where
  /-- In front of `serverRM_socket = args_pair->first`. -/
  | starting (socket : Nat)
  /-- In its loop or in `handleSocketDisconnection`. -/
  | running (thread : ServerThread)
  /-- In front of `pthread_mutex_unlock`. -/
  | unlocking
  | gone
  deriving DecidableEq, Repr

/-- A front end with all the threads that serve its server connections; `serverThread` of
`memory` is not used. -/
structure Reconnecting where
  memory : ProxyFE
  /-- `mutex_server_reconnect`. -/
  locked : Bool
  acceptor : Acceptor
  listener : Nat → ServerListener
  connections : Nat

/-- A step of a thread. -/
inductive ReconnectStep where
  /-- A step of the client threads and of the consumer. -/
  | client (l : ProxyFE.Step)
  | lock
  | acceptFails
  | unlockFailed
  | accept (socket : Nat)
  | store
  | create
  /-- The steps of the listener of this connection. -/
  | start (c : Nat)
  | serve (c : Nat) (l : ProxyFE.Step)
  | unlock (c : Nat)

/-- The steps of a thread of `listenServerCommunication`. -/
def ProxyFE.Step.ofListener : ProxyFE.Step → Bool
  | .readServer _ => true
  | .deliver _ => true
  | .loseServer => true
  | .forgetServerSocket => true
  | .forgetServerUser => true
  | .closeServer => true
  | _ => false

/-- The steps of `handleServerConnection`. -/
def ProxyFE.Step.ofAcceptor : ProxyFE.Step → Bool
  | .acceptServer _ => true
  | .setServerSocket => true
  | _ => false

theorem ProxyFE.Step.ofAcceptor_eq_false {l : ProxyFE.Step} (h : l.ofListener = true) :
    l.ofAcceptor = false := by
  cases l <;> first | rfl | cases h

/-- The thread has not unlocked the mutex. -/
def ServerListener.alive : ServerListener → Bool
  | .gone => false
  | _ => true

namespace Reconnecting

/-- The listener of this connection goes on. -/
def setListener (s : Reconnecting) (c : Nat) (x : ServerListener) : Reconnecting :=
  { s with listener := Function.update s.listener c x }

/-- Where a listener is after a step of its loop or of `handleSocketDisconnection`. -/
def after : ServerThread → ServerListener
  | .accepting => .unlocking
  | thread => .running thread

/-- What a step does. -/
def step (s : Reconnecting) : ReconnectStep → Option Reconnecting
  | .client l =>
    if l.ofListener || l.ofAcceptor then none
    else (s.memory.step l).map fun memory => { s with memory }
  | .lock =>
    if s.acceptor = .locking ∧ s.locked = false then
      some { s with locked := true, acceptor := .accepting }
    else none
  | .acceptFails => if s.acceptor = .accepting then some { s with acceptor := .failed } else none
  | .unlockFailed =>
    if s.acceptor = .failed then some { s with locked := false, acceptor := .locking } else none
  | .accept d =>
    if s.acceptor = .accepting ∧ s.memory.owner d = none then
      some { s with
        memory := { s.memory with owner := give s.memory.owner d .server }
        acceptor := .accepted d }
    else none
  | .store =>
    match s.acceptor with
    | .accepted d =>
      some { s with memory := { s.memory with serverRM_socket := d }, acceptor := .stored }
    | _ => none
  | .create =>
    if s.acceptor = .stored then
      some { s.setListener s.connections (.starting s.memory.serverRM_socket) with
        acceptor := .locking
        connections := s.connections + 1 }
    else none
  | .start c =>
    match s.listener c with
    | .starting d =>
      some { s.setListener c (.running .listening) with
        memory := { s.memory with serverRM_socket := d } }
    | _ => none
  | .serve c l =>
    match s.listener c with
    | .running thread =>
      if l.ofListener then
        ({ s.memory with serverThread := thread }.step l).map fun memory : ProxyFE =>
          { s.setListener c (after memory.serverThread) with memory }
      else none
    | _ => none
  | .unlock c =>
    if s.listener c = .unlocking then some { s.setListener c .gone with locked := false } else none

/-- The main thread has accepted the first server, with this number, and has made its
listener.  `main` does not look at the result of that first `handleServerConnection`; the
front ends whose first `accept` fails, and which go on without a listener, are left out. -/
def start (d : Nat) : Reconnecting where
  memory := ProxyFE.start d
  locked := true
  acceptor := .locking
  listener := Function.update (fun _ => .gone) 0 (.starting d)
  connections := 1

/-- The threads of a front end, those of its server connections one by one. -/
def reconnecting : System Reconnecting ReconnectStep where
  init s := ∃ d, s = start d
  step := step

/-! ## One server thread -/

/-- Where the one thread of `ProxyFE` is while this listener is alive. -/
def shown : ServerListener → ServerThread
  | .starting _ => .listening
  | .running thread => thread
  | .unlocking => .accepting
  | .gone => .accepting

/-- The listener of the last connection. -/
def current (s : Reconnecting) : ServerListener := s.listener (s.connections - 1)

/-- Where the one thread of `ProxyFE` is. -/
def serverThread (s : Reconnecting) : ServerThread :=
  match s.acceptor with
  | .accepted d => .accepted d
  | .stored => .listening
  | .accepting => .accepting
  | .failed => .accepting
  | .locking => shown s.current

/-- The front end, with its server connections followed as one thread. -/
def overview (s : Reconnecting) : ProxyFE := { s.memory with serverThread := s.serverThread }

/-- The steps of the other threads neither read nor change where the server's thread is. -/
theorem step_client {m : ProxyFE} {l : ProxyFE.Step} (hl : (l.ofListener || l.ofAcceptor) = false)
    (thread : ServerThread) :
    ProxyFE.step { m with serverThread := thread } l =
      (ProxyFE.step m l).map fun n => { n with serverThread := thread } := by
  cases l with
  | acceptClient d =>
    simp only [ProxyFE.step]
    split <;> rfl
  | readClient i p =>
    simp only [ProxyFE.step]
    split
    · unfold processClientPacket
      split
      · rfl
      · split <;> rfl
    · rfl
  | hangUp i =>
    simp only [ProxyFE.step]
    split
    · split <;> rfl
    · rfl
  | registerSocket i =>
    simp only [ProxyFE.step]
    split <;> rfl
  | handOver i =>
    simp only [ProxyFE.step]
    split <;> rfl
  | load w =>
    have hcall : ProxyFE.call { m with serverThread := thread } w = m.call w := by cases w <;> rfl
    simp only [ProxyFE.step, hcall]
    split
    · cases w <;> rfl
    · rfl
  | write w succeeds =>
    have hcall : ProxyFE.call { m with serverThread := thread } w = m.call w := by cases w <;> rfl
    simp only [ProxyFE.step, hcall]
    split
    · split <;> cases w <;> rfl
    · rfl
  | forgetSocket i =>
    simp only [ProxyFE.step]
    split <;> rfl
  | forgetUser i =>
    simp only [ProxyFE.step]
    split <;> rfl
  | close i =>
    simp only [ProxyFE.step]
    split <;> rfl
  | _ => cases hl

/-! ## Whose turn it is -/

/-- At most one thread has the turn: the one that accepts a server, or the listener of the
last connection; and the mutex is locked while one has it. -/
structure InTurn (s : Reconnecting) : Prop where
  positive : 0 < s.connections
  others : ∀ c, c + 1 ≠ s.connections → s.listener c = .gone
  apart : s.acceptor ≠ .locking → s.current = .gone
  locked : s.locked = true ↔ s.acceptor ≠ .locking ∨ s.current.alive = true
  /-- A listener starts with the number that is stored already. -/
  starting : ∀ d, s.current = .starting d → s.memory.serverRM_socket = d
  running : ∀ thread, s.current = .running thread → after thread = .running thread

variable {s t : Reconnecting} {c : Nat}

theorem inTurn_start (d : Nat) : InTurn (start d) where
  positive := Nat.one_pos
  others c hc := by
    have hne : c ≠ 0 := by
      rintro rfl
      exact hc rfl
    show Function.update (fun _ => ServerListener.gone) 0 (.starting d) c = .gone
    exact Function.update_of_ne hne ..
  apart h := absurd rfl h
  locked := iff_of_true rfl (.inr rfl)
  starting e he := by
    cases he
    rfl
  running thread h := by cases h

/-- A listener that is alive is that of the last connection. -/
theorem InTurn.eq_current (h : InTurn s) (hc : (s.listener c).alive = true) :
    c + 1 = s.connections ∧ s.current = s.listener c := by
  have hlast : c + 1 = s.connections := by
    by_contra hne
    rw [h.others c hne] at hc
    cases hc
  refine ⟨hlast, ?_⟩
  unfold current
  rw [← hlast, Nat.add_sub_cancel]

/-- The accepting thread goes on while no listener is alive, or in front of the mutex. -/
theorem InTurn.acceptor (h : InTurn s) {memory : ProxyFE} {locked : Bool} {acceptor : Acceptor}
    (hsocket : memory.serverRM_socket = s.memory.serverRM_socket ∨ s.current = .gone)
    (hacc : acceptor ≠ .locking → s.current = .gone)
    (hlocked : locked = true ↔ acceptor ≠ .locking ∨ s.current.alive = true) :
    InTurn { s with memory, locked, acceptor } where
  positive := h.positive
  others := h.others
  apart := hacc
  locked := hlocked
  starting d hd := by
    rcases hsocket with hsame | hgone
    · exact hsame.trans (h.starting d hd)
    · cases hgone.symm.trans hd
  running := h.running

/-- The listener that has the turn goes on. -/
theorem InTurn.setListener (h : InTurn s) {x : ServerListener} {memory : ProxyFE} {locked : Bool}
    (hc : (s.listener c).alive = true) (hlocked : locked = x.alive)
    (hstart : ∀ d, x ≠ .starting d)
    (hrun : ∀ thread, x = .running thread → after thread = .running thread) :
    InTurn { s.setListener c x with memory, locked } := by
  obtain ⟨hlast, hcurrent⟩ := h.eq_current hc
  have hindex : s.connections - 1 = c := by omega
  have hnew : ∀ memory locked,
      current { s.setListener c x with memory, locked } = x := by
    intro memory locked
    show Function.update s.listener c x (s.connections - 1) = x
    rw [hindex, Function.update_self]
  have hacc : s.acceptor = .locking := by
    by_contra hne
    rw [← hcurrent, h.apart hne] at hc
    cases hc
  refine ⟨h.positive, fun c' hc' => ?_, fun hne => absurd hacc hne, ?_, fun d hd => ?_,
    fun thread hthread => ?_⟩
  · have hne : c' ≠ c := by
      rintro rfl
      exact hc' hlast
    exact (Function.update_of_ne hne _ _).trans (h.others c' hc')
  · rw [hnew, hlocked]
    exact (or_iff_right fun hne => hne hacc).symm
  · rw [hnew] at hd
    exact absurd hd (hstart d)
  · rw [hnew] at hthread
    exact hrun thread hthread

/-- Where the one thread is after a step of a listener. -/
@[simp] theorem shown_after (thread : ServerThread) : shown (after thread) = thread := by
  cases thread <;> rfl

theorem alive_after (thread : ServerThread) : (after thread).alive = true := by
  cases thread <;> rfl

theorem after_ne_starting (thread : ServerThread) (d : Nat) : after thread ≠ .starting d := by
  cases thread <;> exact ServerListener.noConfusion

theorem after_of_after {thread thread' : ServerThread} (h : after thread = .running thread') :
    after thread' = .running thread' := by
  cases thread <;> cases h <;> rfl

/-- Only the accepting thread changes the number of the server. -/
theorem serverRM_socket_eq {m n : ProxyFE} {l : ProxyFE.Step} (hl : l.ofAcceptor = false)
    (h : ProxyFE.step m l = some n) : n.serverRM_socket = m.serverRM_socket := by
  cases ProxyFE.step_cases h with
  | setServerSocket => cases hl
  | load w => cases w <;> rfl
  | written w => cases w <;> rfl
  | failed w => cases w <;> rfl
  | _ => rfl

/-- While a listener is alive, the one thread is where it is. -/
theorem InTurn.overview_of_alive (h : InTurn s) (hc : (s.listener c).alive = true) :
    s.acceptor = .locking ∧
      s.overview = { s.memory with serverThread := shown (s.listener c) } := by
  obtain ⟨-, hcurrent⟩ := h.eq_current hc
  have hacc : s.acceptor = .locking := by
    by_contra hne
    rw [← hcurrent, h.apart hne] at hc
    cases hc
  refine ⟨hacc, ?_⟩
  rw [overview, serverThread, hacc, hcurrent]

/-- The same after a step of that listener. -/
theorem InTurn.overview_setListener (h : InTurn s) (hc : (s.listener c).alive = true)
    (x : ServerListener) (memory : ProxyFE) (locked : Bool) :
    overview { s.setListener c x with memory, locked } =
      { memory with serverThread := shown x } := by
  obtain ⟨hlast, -⟩ := h.eq_current hc
  obtain ⟨hacc, -⟩ := h.overview_of_alive hc
  have hindex : s.connections - 1 = c := by omega
  have hcurrent : current { s.setListener c x with memory, locked } = x := by
    show Function.update s.listener c x (s.connections - 1) = x
    rw [hindex, Function.update_self]
  rw [overview, serverThread, hcurrent]
  show { memory with serverThread := match s.acceptor with
    | .accepted d => .accepted d
    | .stored => .listening
    | .accepting => .accepting
    | .failed => .accepting
    | .locking => shown x } = _
  rw [hacc]

/-- The listener of a new connection gets the turn. -/
theorem InTurn.create (h : InTurn s) (hacc : s.acceptor = .stored) (hgone : s.current = .gone) :
    InTurn { s.setListener s.connections (.starting s.memory.serverRM_socket) with
      acceptor := .locking, connections := s.connections + 1 } := by
  have hcurrent : current { s.setListener s.connections (.starting s.memory.serverRM_socket) with
      acceptor := .locking, connections := s.connections + 1 } =
      .starting s.memory.serverRM_socket := by
    show Function.update s.listener s.connections _ s.connections = _
    rw [Function.update_self]
  refine ⟨Nat.succ_pos _, fun c hc => ?_, fun hne => absurd rfl hne, ?_, fun d hd => ?_,
    fun thread hthread => ?_⟩
  · have hne : c ≠ s.connections := by
      rintro rfl
      exact hc rfl
    show Function.update s.listener s.connections _ c = .gone
    rw [Function.update_of_ne hne]
    by_cases hlast : c + 1 = s.connections
    · rwa [current, ← hlast, Nat.add_sub_cancel] at hgone
    · exact h.others c hlast
  · rw [hcurrent]
    exact iff_of_true (h.locked.2 (.inl (by simp [hacc]))) (.inr rfl)
  · rw [hcurrent] at hd
    exact ServerListener.starting.inj hd
  · rw [hcurrent] at hthread
    cases hthread

theorem overview_create (hacc : s.acceptor = .stored) :
    overview { s.setListener s.connections (.starting s.memory.serverRM_socket) with
      acceptor := .locking, connections := s.connections + 1 } = s.overview := by
  rw [overview, overview, serverThread, serverThread, hacc]
  have hcurrent : current { s.setListener s.connections (.starting s.memory.serverRM_socket) with
      acceptor := .locking, connections := s.connections + 1 } =
      .starting s.memory.serverRM_socket := by
    show Function.update s.listener s.connections _ s.connections = _
    rw [Function.update_self]
  rw [hcurrent]
  rfl

/-- **A step keeps the turns, and is seen as a step of the one thread or not at all.** -/
theorem InTurn.step {l : ReconnectStep} (h : InTurn s) (hst : s.step l = some t) :
    InTurn t ∧ (t.overview = s.overview ∨ ∃ k, ProxyFE.step s.overview k = some t.overview) := by
  unfold Reconnecting.step at hst
  cases l with
  | client l =>
    simp only [Option.ite_none_left_eq_some, Option.map_eq_some_iff] at hst
    obtain ⟨hl, memory, hmemory, rfl⟩ := hst
    rw [Bool.not_eq_true] at hl
    have hsocket := serverRM_socket_eq (Bool.or_eq_false_iff.1 hl).2 hmemory
    refine ⟨h.acceptor (.inl hsocket) h.apart h.locked, .inr ⟨l, ?_⟩⟩
    rw [overview, step_client hl, hmemory]
    rfl
  | lock =>
    simp only [Option.ite_none_right_eq_some, Option.some.injEq] at hst
    obtain ⟨⟨hacc, hunlocked⟩, rfl⟩ := hst
    have hgone : s.current = .gone := by
      have hnot : ¬ (s.acceptor ≠ .locking ∨ s.current.alive = true) := by
        rw [← h.locked, hunlocked]
        exact Bool.false_ne_true
      cases hcur : s.current with
      | gone => rfl
      | _ => exact absurd (.inr (by rw [hcur]; rfl)) hnot
    refine ⟨h.acceptor (.inl rfl) (fun _ => hgone) (iff_of_true rfl (.inl Acceptor.noConfusion)),
      .inl ?_⟩
    rw [overview, overview, serverThread, serverThread, hacc, hgone]
    rfl
  | acceptFails =>
    simp only [Option.ite_none_right_eq_some, Option.some.injEq] at hst
    obtain ⟨hacc, rfl⟩ := hst
    have hne : s.acceptor ≠ .locking := by simp [hacc]
    refine ⟨h.acceptor (.inl rfl) (fun _ => h.apart hne)
      (iff_of_true (h.locked.2 (.inl hne)) (.inl Acceptor.noConfusion)), .inl ?_⟩
    rw [overview, overview, serverThread, serverThread, hacc]
  | unlockFailed =>
    simp only [Option.ite_none_right_eq_some, Option.some.injEq] at hst
    obtain ⟨hacc, rfl⟩ := hst
    have hgone := h.apart (by simp [hacc])
    refine ⟨h.acceptor (.inl rfl) (fun hne => absurd rfl hne) ?_, .inl ?_⟩
    · rw [hgone]
      simp [ServerListener.alive]
    · rw [overview, overview, serverThread, serverThread, hacc]
      show { s.memory with serverThread := shown s.current } = _
      rw [hgone]
      rfl
  | accept d =>
    simp only [Option.ite_none_right_eq_some, Option.some.injEq] at hst
    obtain ⟨⟨hacc, hfree⟩, rfl⟩ := hst
    have hne : s.acceptor ≠ .locking := by simp [hacc]
    refine ⟨h.acceptor (.inl rfl) (fun _ => h.apart hne)
      (iff_of_true (h.locked.2 (.inl hne)) (.inl Acceptor.noConfusion)),
      .inr ⟨.acceptServer d, ?_⟩⟩
    rw [overview, serverThread, hacc]
    exact if_pos ⟨rfl, hfree⟩
  | store =>
    cases hacc : s.acceptor <;> simp only [hacc, reduceCtorEq, Option.some.injEq] at hst
    rename_i d
    subst hst
    have hne : s.acceptor ≠ .locking := by simp [hacc]
    refine ⟨h.acceptor (.inr (h.apart hne)) (fun _ => h.apart hne)
      (iff_of_true (h.locked.2 (.inl hne)) (.inl Acceptor.noConfusion)),
      .inr ⟨.setServerSocket, ?_⟩⟩
    rw [overview, serverThread, hacc]
    rfl
  | create =>
    simp only [Option.ite_none_right_eq_some, Option.some.injEq] at hst
    obtain ⟨hacc, rfl⟩ := hst
    have hgone := h.apart (by simp [hacc])
    exact ⟨h.create hacc hgone, .inl (overview_create hacc)⟩
  | start c =>
    cases hc : s.listener c <;> simp only [hc, reduceCtorEq, Option.some.injEq] at hst
    rename_i d
    subst hst
    have halive : (s.listener c).alive = true := by rw [hc]; rfl
    have hd := h.starting d ((h.eq_current halive).2.trans hc)
    refine ⟨h.setListener halive ?_ (fun _ => ServerListener.noConfusion) ?_, .inl ?_⟩
    · exact h.locked.2 (.inr ((h.eq_current halive).2 ▸ halive))
    · rintro thread ⟨⟩
      rfl
    · subst hd
      rw [h.overview_setListener halive, (h.overview_of_alive halive).2, hc]
      rfl
  | serve c l =>
    cases hc : s.listener c <;> simp only [hc, reduceCtorEq] at hst
    rename_i thread
    simp only [Option.ite_none_right_eq_some, Option.map_eq_some_iff] at hst
    obtain ⟨-, memory, hmemory, rfl⟩ := hst
    have halive : (s.listener c).alive = true := by rw [hc]; rfl
    refine ⟨h.setListener halive ?_ (after_ne_starting _) fun _ => after_of_after,
      .inr ⟨l, ?_⟩⟩
    · rw [alive_after]
      exact h.locked.2 (.inr ((h.eq_current halive).2 ▸ halive))
    · rw [(h.overview_of_alive halive).2, h.overview_setListener halive, hc, shown_after]
      exact hmemory
  | unlock c =>
    simp only [Option.ite_none_right_eq_some, Option.some.injEq] at hst
    obtain ⟨hc, rfl⟩ := hst
    have halive : (s.listener c).alive = true := by rw [hc]; rfl
    refine ⟨h.setListener halive rfl (fun _ => ServerListener.noConfusion) (by rintro _ ⟨⟩),
      .inl ?_⟩
    rw [h.overview_setListener halive, (h.overview_of_alive halive).2, hc]
    rfl

/-! ## The results -/

theorem inTurn (h : reconnecting.Reachable s) : InTurn s := by
  refine h.invariant ?_ fun _ _ _ hs hst => (hs.step hst).1
  rintro _ ⟨d, rfl⟩
  exact inTurn_start d

/-- **Together they are the one thread.**  A front end whose server connections have their own
threads, each with its own steps, does nothing that `ProxyFE` with its one server thread
does not do. -/
theorem refines_proxyFE : Refinement reconnecting proxyFE overview where
  init := by
    rintro _ ⟨d, rfl⟩
    exact ⟨d, rfl⟩
  step s l t hs hst := by
    obtain ⟨-, hsame | ⟨k, hk⟩⟩ := (inTurn hs).step hst
    · rw [hsame]
      exact .refl _
    · exact .cons hk (.refl _)

/-- While a listener is alive the number of the server stays. -/
theorem InTurn.serverRM_socket {l : ReconnectStep} (h : InTurn s)
    (hc : (s.listener c).alive = true) (hst : s.step l = some t) :
    t.memory.serverRM_socket = s.memory.serverRM_socket := by
  obtain ⟨hacc, -⟩ := h.overview_of_alive hc
  unfold Reconnecting.step at hst
  cases l with
  | client l =>
    simp only [Option.ite_none_left_eq_some, Option.map_eq_some_iff] at hst
    obtain ⟨hl, memory, hmemory, rfl⟩ := hst
    rw [Bool.not_eq_true, Bool.or_eq_false_iff] at hl
    exact serverRM_socket_eq hl.2 hmemory
  | store => simp [hacc] at hst
  | start c' =>
    cases hc' : s.listener c' <;> simp only [hc', reduceCtorEq, Option.some.injEq] at hst
    subst hst
    have halive : (s.listener c').alive = true := by rw [hc']; rfl
    exact (h.starting _ ((h.eq_current halive).2.trans hc')).symm
  | serve c' l =>
    cases hc' : s.listener c' <;> simp only [hc', reduceCtorEq] at hst
    simp only [Option.ite_none_right_eq_some, Option.map_eq_some_iff] at hst
    obtain ⟨hl, memory, hmemory, rfl⟩ := hst
    have hsocket := serverRM_socket_eq (ProxyFE.Step.ofAcceptor_eq_false hl) hmemory
    exact hsocket
  | lock | acceptFails | unlockFailed | accept | create | unlock =>
    simp only [Option.ite_none_right_eq_some, Option.some.injEq] at hst
    obtain ⟨-, rfl⟩ := hst
    rfl

/-- **One server at a time, and none is turned away for good.**  In every interleaving of the
accepting thread and of the listeners of all connections: two listeners are never alive at
once, and none is while a server is being accepted; while one is alive `serverRM_socket`
keeps its number; who unlocks `mutex_server_reconnect` finds it locked, so that no unlock is
lost; and when no listener is alive the accepting thread gets through its
`pthread_mutex_lock`. -/
theorem one_server (h : reconnecting.Reachable s) :
    (∀ c c', (s.listener c).alive = true → (s.listener c').alive = true → c = c') ∧
      (∀ c, (s.listener c).alive = true → s.acceptor = .locking ∧
        ∀ l t, s.step l = some t → t.memory.serverRM_socket = s.memory.serverRM_socket) ∧
      (∀ l t, l = .unlockFailed ∨ (∃ c, l = .unlock c) → s.step l = some t → s.locked = true) ∧
      (s.acceptor = .locking → (∀ c, (s.listener c).alive = false) →
        (s.step .lock).isSome = true) := by
  have hturn := inTurn h
  refine ⟨fun c c' hc hc' => ?_, fun c hc => ⟨(hturn.overview_of_alive hc).1, fun l t hst =>
    hturn.serverRM_socket hc hst⟩, ?_, fun hacc hnone => ?_⟩
  · have hlast := (hturn.eq_current hc).1
    have hlast' := (hturn.eq_current hc').1
    omega
  · rintro l t (rfl | ⟨c, rfl⟩) hst
    · have hfailed := (Option.ite_none_right_eq_some.1 hst).1
      exact hturn.locked.2 (.inl (by simp [hfailed]))
    · have hc := (Option.ite_none_right_eq_some.1 hst).1
      have halive : (s.listener c).alive = true := by rw [hc]; rfl
      exact hturn.locked.2 (.inr ((hturn.eq_current halive).2 ▸ halive))
  · have hunlocked : s.locked = false := by
      rw [← Bool.not_eq_true, hturn.locked]
      rintro (hne | hcurrent)
      · exact hne hacc
      · rw [current, hnone] at hcurrent
        cases hcurrent
    rw [step, if_pos ⟨hacc, hunlocked⟩]
    rfl

/-- The first server is lost, the next `accept` fails, and then a server connects again. -/
def secondServer : List ReconnectStep :=
  [.start 0, .serve 0 .loseServer, .serve 0 .forgetServerSocket, .serve 0 .forgetServerUser,
    .serve 0 .closeServer, .unlock 0, .lock, .acceptFails, .unlockFailed, .lock, .accept 3, .store,
    .create]

theorem one_server_second :
    ∃ s, reconnecting.exec (start 3) secondServer = some s ∧ (s.listener 1).alive = true ∧
      s.acceptor = .locking ∧ ∀ c, (s.listener c).alive = true → c = 1 := by
  obtain ⟨s, hs⟩ : ∃ s, reconnecting.exec (start 3) secondServer = some s :=
    Option.isSome_iff_exists.1 (by decide)
  obtain ⟨hunique, halone, -⟩ := one_server (System.reachable_of_exec ⟨3, rfl⟩ hs)
  have halive : (s.listener 1).alive = true := by
    cases hs
    rfl
  exact ⟨s, hs, halive, (halone 1 halive).1, fun c hc => hunique c 1 hc halive⟩

end Reconnecting

end InstantMessenger
