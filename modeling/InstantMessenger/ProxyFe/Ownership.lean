import InstantMessenger.ProxyFe.Threads

/-!
# Who owns a socket number

The kernel gives a number to a connection when it is accepted, and takes it back
when it is closed; nothing else touches the table.

* `SameSockets`, `step_sameSockets` — **between accepts and closes no number changes
  its owner**.
* `Owned`, `owned_of_reachable` — in every run, a connection keeps its number until its
  own thread closes it.
-/

namespace InstantMessenger

open Descriptors

namespace ProxyFE

variable {s t : ProxyFE} {i : Nat} {p : Packet}

/-- The number of the connection to the server. -/
def serverSocket (s : ProxyFE) : Option Nat :=
  match s.serverThread with
  | .accepting => none
  | .accepted d => some d
  | .listening => some s.serverRM_socket
  | .found _ _ => some s.serverRM_socket
  | .leaving d => some d
  | .forgetting d _ => some d
  | .closing d => some d

/-- Every connection owns its number until it is closed. -/
structure Owned (s : ProxyFE) : Prop where
  client : ∀ i, (s.clients i).thread ≠ .gone → s.owner (s.clients i).socket = some (.client i)
  fresh : ∀ i, s.connections ≤ i → (s.clients i).thread = .gone
  server : ∀ d, s.serverSocket = some d → s.owner d = some .server

/-- No connection comes or goes. -/
structure SameSockets (s t : ProxyFE) : Prop where
  owner : t.owner = s.owner
  connections : t.connections = s.connections
  serverSocket : t.serverSocket = s.serverSocket
  socket : ∀ i, (t.clients i).socket = (s.clients i).socket
  gone : ∀ i, (t.clients i).thread = .gone ↔ (s.clients i).thread = .gone

/-- The step accepts a connection or closes one. -/
def Step.isAcceptOrClose : Step → Bool
  | .acceptClient _ | .close _ | .acceptServer _ | .closeServer => true
  | _ => false

theorem SameSockets.rfl : SameSockets s s :=
  ⟨Eq.refl _, Eq.refl _, Eq.refl _, fun _ => Eq.refl _, fun _ => Iff.rfl⟩

/-- The thread of a client goes on. -/
theorem SameSockets.of_update {c : Client} (howner : t.owner = s.owner)
    (hconnections : t.connections = s.connections) (hserver : t.serverSocket = s.serverSocket)
    (hclients : t.clients = Function.update s.clients i c)
    (hsocket : c.socket = (s.clients i).socket) (hgone : c.thread ≠ .gone)
    (hgone' : (s.clients i).thread ≠ .gone) : SameSockets s t := by
  refine ⟨howner, hconnections, hserver, ?_, ?_⟩
  · rw [hclients]
    exact (Function.forall_update_iff s.clients fun j c => c.socket = (s.clients j).socket).2
      ⟨hsocket, fun _ _ => Eq.refl _⟩
  · rw [hclients]
    exact (Function.forall_update_iff s.clients fun j c =>
      c.thread = .gone ↔ (s.clients j).thread = .gone).2
        ⟨iff_of_false hgone hgone', fun _ _ => Iff.rfl⟩

theorem setThread_sameSockets {thread : ClientThread} (hgone : thread ≠ .gone)
    (hgone' : (s.clients i).thread ≠ .gone) : SameSockets s (s.setThread i thread) :=
  .of_update (i := i) rfl rfl rfl rfl rfl hgone hgone'

theorem call_client {x : Outgoing} {c : Call} (h : s.call (.client i) = some (x, c)) :
    (s.clients i).thread = .sending x c := by
  simp only [call] at h
  split at h
  · rename_i hthread
    obtain ⟨rfl, rfl⟩ := Prod.mk.inj (Option.some.inj h)
    exact hthread
  · cases h

theorem setCall_sameSockets {w : Sender} {x : Outgoing} {c c' : Call}
    (h : s.call w = some (x, c)) : SameSockets s (s.setCall w x c') := by
  cases w with
  | consumer => exact ⟨rfl, rfl, rfl, fun _ => rfl, fun _ => Iff.rfl⟩
  | client i => exact setThread_sameSockets (by simp) (by rw [call_client h]; simp)

theorem returns_sameSockets {w : Sender} {x : Outgoing} {c : Call}
    (h : s.call w = some (x, c)) : SameSockets s (s.returns w x) := by
  cases w with
  | consumer => exact ⟨rfl, rfl, rfl, fun _ => rfl, fun _ => Iff.rfl⟩
  | client i =>
    refine setThread_sameSockets ?_ (by rw [call_client h]; simp)
    split <;> simp

/-- **Between accepts and closes no number changes its owner.** -/
theorem step_sameSockets {l : Step} (h : step s l = some t) (hl : l.isAcceptOrClose = false) :
    SameSockets s t := by
  have hgone : ∀ {j thread}, (s.clients j).thread = thread → thread ≠ .gone →
      (s.clients j).thread ≠ .gone := fun heq hne => heq ▸ hne
  have hserver : ∀ {t' : ProxyFE}, t'.owner = s.owner → t'.connections = s.connections →
      t'.serverSocket = s.serverSocket → t'.clients = s.clients → SameSockets s t' :=
    fun ho hn hs hc => ⟨ho, hn, hs, fun _ => by rw [hc], fun _ => by rw [hc]⟩
  cases step_cases h with
  | acceptClient | close | acceptServer | closeServer => cases hl
  | readMessage i p hthread _ | readJoin i p hthread _ =>
    exact .of_update (i := i) rfl rfl rfl rfl rfl (by simp) (hgone hthread (by simp))
  | readOther i p hthread =>
    exact .of_update (i := i) rfl rfl rfl rfl rfl
      (hgone hthread (by simp)) (hgone hthread (by simp))
  | hangUpKnown i userID hthread _ =>
    exact .of_update (i := i) rfl rfl rfl rfl rfl (by simp) (hgone hthread (by simp))
  | hangUpUnknown i hthread => exact setThread_sameSockets (by simp) (hgone hthread (by simp))
  | registerSocket i x hthread | handOver i x hthread _ | forgetUser i x hthread =>
    exact .of_update (i := i) rfl rfl rfl rfl rfl (by simp) (hgone hthread (by simp))
  | forgetSocket i hthread =>
    exact .of_update (i := i) rfl rfl rfl rfl rfl (by simp) (hgone hthread (by simp))
  | load w x hcall => exact setCall_sameSockets hcall
  | written w x d c hcall =>
    have hsame := returns_sameSockets hcall
    exact ⟨hsame.owner, hsame.connections, hsame.serverSocket, hsame.socket, hsame.gone⟩
  | failed w succeeds x d hcall => exact setCall_sameSockets hcall
  | setServerSocket d hthread | forgetServerSocket d hthread =>
    exact hserver rfl rfl (by simp [serverSocket, hthread]) rfl
  | forgetServerUser d userID hthread | delivered _ d userID hthread =>
    exact hserver rfl rfl (by simp [serverSocket, hthread]) rfl
  | found _ hthread | loseServer hthread =>
    exact hserver rfl rfl (by simp [serverSocket, hthread]) rfl
  | undelivered _ _ _ hthread => exact hserver rfl rfl (by simp [serverSocket, hthread]) rfl
  | notFound => exact .rfl

theorem Owned.of_sameSockets (hs : Owned s) (h : SameSockets s t) : Owned t where
  client i hi := by
    rw [h.owner, h.socket]
    exact hs.client i fun hgone => hi ((h.gone i).2 hgone)
  fresh i hi := by
    rw [h.connections] at hi
    exact (h.gone i).2 (hs.fresh i hi)
  server d hd := by
    rw [h.serverSocket] at hd
    rw [h.owner]
    exact hs.server d hd

theorem Owned.acceptClient (hs : Owned s) {d : Nat} (h : step s (.acceptClient d) = some t) :
    Owned t := by
  cases step_cases h with
  | acceptClient _ hfree =>
    refine ⟨?_, ?_, fun e he => give_of_some hfree (hs.server e he)⟩
    · refine (Function.forall_update_iff s.clients fun i c =>
        c.thread ≠ .gone → give s.owner d (.client s.connections) c.socket = some (.client i)).2
          ⟨fun _ => give_self .., ?_⟩
      intro i _ hi
      exact give_of_some hfree (hs.client i hi)
    · intro i hi
      simp only [connect] at hi ⊢
      rw [Function.update_of_ne (by omega)]
      exact hs.fresh i (by omega)

theorem Owned.close (hs : Owned s) (h : step s (.close i) = some t) : Owned t := by
  cases step_cases h with
  | close _ hthread =>
    have hown : s.owner (s.clients i).socket = some (.client i) :=
      hs.client i (by rw [hthread]; simp)
    refine ⟨?_, ?_, fun e he => release_of_some hown (by simp) (hs.server e he)⟩
    · refine (Function.forall_update_iff s.clients fun j c =>
        c.thread ≠ .gone →
          release s.owner (s.clients i).socket c.socket = some (.client j)).2
          ⟨fun hgone => absurd rfl hgone, ?_⟩
      intro j hji hj
      exact release_of_some hown (fun heq => hji (Connection.client.inj heq)) (hs.client j hj)
    · exact (Function.forall_update_iff s.clients fun j c =>
        s.connections ≤ j → c.thread = .gone).2 ⟨fun _ => rfl, fun j _ => hs.fresh j⟩

theorem Owned.acceptServer (hs : Owned s) {d : Nat} (h : step s (.acceptServer d) = some t) :
    Owned t := by
  cases step_cases h with
  | acceptServer _ _ hfree =>
    refine ⟨fun i hi => give_of_some hfree (hs.client i hi), hs.fresh, ?_⟩
    intro e he
    obtain rfl := Option.some.inj (show some d = some e from he)
    exact give_self ..

theorem Owned.closeServer (hs : Owned s) (h : step s .closeServer = some t) : Owned t := by
  cases step_cases h with
  | closeServer d hthread =>
    have hown : s.owner d = some .server := hs.server d (by rw [serverSocket, hthread])
    exact ⟨fun i hi => release_of_some hown (by simp) (hs.client i hi), hs.fresh,
      by simp [serverSocket]⟩

theorem Owned.step (hs : Owned s) {l : Step} (h : step s l = some t) : Owned t := by
  by_cases hl : l.isAcceptOrClose = false
  · exact hs.of_sameSockets (step_sameSockets h hl)
  · cases l with
    | acceptClient d => exact hs.acceptClient h
    | close i => exact hs.close h
    | acceptServer d => exact hs.acceptServer h
    | closeServer => exact hs.closeServer h
    | _ => exact absurd rfl hl

theorem start_owner (d : Nat) : (start d).owner = give (fun _ => none) d .server := rfl

theorem owned_start (d : Nat) : Owned (start d) where
  client _ hi := absurd rfl hi
  fresh _ _ := rfl
  server e he := by
    obtain rfl := Option.some.inj (show some d = some e from he)
    rw [start_owner, give_self]

/-- **A connection keeps its number until its own thread closes it.** -/
theorem owned_of_reachable (h : proxyFE.Reachable s) : Owned s :=
  Transition.System.Reachable.invariant (I := Owned) h
    (fun _ ⟨d, hd⟩ => hd ▸ owned_start d) fun _ _ _ hs hst => hs.step hst

/-- Only so many numbers are in use. -/
theorem exists_free (h : proxyFE.Reachable s) : ∃ d, s.owner d = none := by
  have hbound : ∃ n, ∀ d, n ≤ d → s.owner d = none := by
    refine Transition.System.Reachable.invariant
      (I := fun s => ∃ n, ∀ d, n ≤ d → s.owner d = none) h ?_ fun s l t hs hst => ?_
    · rintro s ⟨e, rfl⟩
      exact ⟨e + 1, fun d hd => by rw [start_owner, give_of_ne (by omega)]⟩
    · obtain ⟨n, hn⟩ := hs
      by_cases hl : l.isAcceptOrClose = false
      · rw [(step_sameSockets hst hl).owner]
        exact ⟨n, hn⟩
      · cases step_cases hst with
        | acceptClient e _ | acceptServer e _ _ =>
          refine ⟨max n (e + 1), ?_⟩
          intro d hd
          exact (give_of_ne (by omega)).trans (hn d (by omega))
        | close i _ => exact ⟨n, fun d hd => release_of_none _ (hn d hd)⟩
        | closeServer e _ => exact ⟨n, fun d hd => release_of_none _ (hn d hd)⟩
        | _ => exact absurd rfl hl
  obtain ⟨n, hn⟩ := hbound
  exact ⟨n, hn n (Nat.le_refl n)⟩

end ProxyFE

end InstantMessenger
