import InstantMessenger.ProxyFe.Ownership

/-!
# Packets for the server

`serverRM_socket` keeps its number from the loss of a server to the next one, and a
call of `sendToServer` keeps the number it has read; meanwhile the connection is
closed, and its number can be given to a client.

* `Holds` — the numbers that `serverRM_socket` and the calls hold.
* `ServerBound` — **the invariant**: these numbers belong to a server or to nobody, and
  what was sent went to a server.
* `NotReused` — the condition on a run: no client is given a number that is held.
* `sent_to_server` — **then every packet goes to a server**, and any accept against
  the condition can be followed by a packet that goes to a client.
-/

namespace InstantMessenger

open Descriptors

namespace ProxyFE

variable {s t : ProxyFE} {d : Nat}

/-- The number is in `serverRM_socket`, or a call of `sendToServer` is about to write
to it. -/
def Holds (s : ProxyFE) (d : Nat) : Prop :=
  d = s.serverRM_socket ∨ ∃ w x, s.call w = some (x, .writing d)

/-- No client is given a number that is held. -/
def NotReused (s : ProxyFE) : Step → Prop
  | .acceptClient d => ¬ Holds s d
  | _ => True

/-! ## The numbers that are held -/

/-- A thread that is not writing holds nothing. -/
theorem Holds.of_update {i : Nat} {c : Client} (hd : Holds t d)
    (hsocket : t.serverRM_socket = s.serverRM_socket)
    (hclients : t.clients = Function.update s.clients i c)
    (hslot : t.processing_message = s.processing_message) (hconsumer : t.consumer = s.consumer)
    (hthread : ∀ x e, c.thread = .sending x (.writing e) → (s.clients i).thread = c.thread) :
    Holds s d := by
  rcases hd with hd | ⟨w, x, hcall⟩
  · exact .inl (hd.trans hsocket)
  · refine .inr ⟨w, x, ?_⟩
    cases w with
    | consumer => rwa [call, ← hslot, ← hconsumer]
    | client j =>
      have hsending := call_client hcall
      rw [hclients] at hsending
      by_cases hj : j = i
      · subst hj
        rw [Function.update_self] at hsending
        rw [call, hthread x d hsending, hsending]
      · rw [Function.update_of_ne hj] at hsending
        rw [call, hsending]

/-- Where the clients and the consumer stay as they are. -/
theorem Holds.of_eq (hd : Holds t d) (hsocket : t.serverRM_socket = s.serverRM_socket)
    (hclients : t.clients = s.clients) (hslot : t.processing_message = s.processing_message)
    (hconsumer : t.consumer = s.consumer) : Holds s d := by
  refine hd.of_update (i := 0) (c := s.clients 0) hsocket ?_ hslot hconsumer fun _ _ _ => rfl
  rw [hclients, Function.update_eq_self]

/-- The consumer, as a call. -/
theorem call_consumer {x : Outgoing} {c : Call} (h : s.call .consumer = some (x, c)) :
    s.processing_message = some x ∧ s.consumer = c := by
  obtain ⟨y, hy, heq⟩ := Option.map_eq_some_iff.1 h
  obtain ⟨rfl, rfl⟩ := Prod.mk.inj heq
  exact ⟨hy, rfl⟩

/-- A call that stands somewhere else holds what is written there. -/
theorem holds_setCall {w : Sender} {x : Outgoing} {c c' : Call} (hcall : s.call w = some (x, c'))
    (hd : Holds (s.setCall w x c) d) : Holds s d ∨ c = .writing d := by
  rcases hd with hd | ⟨w', y, hy⟩
  · cases w <;> exact .inl (.inl hd)
  · cases w with
    | consumer =>
      cases w' with
      | consumer =>
        obtain ⟨-, hc⟩ := call_consumer hy
        exact .inr hc
      | client j => exact .inl (.inr ⟨.client j, y, hy⟩)
    | client i =>
      cases w' with
      | consumer => exact .inl (.inr ⟨.consumer, y, hy⟩)
      | client j =>
        have hsending := call_client hy
        by_cases hj : j = i
        · subst hj
          simp only [setCall, setThread, Function.update_self] at hsending
          exact .inr (ClientThread.sending.inj hsending).2
        · simp only [setCall, setThread, Function.update_of_ne hj] at hsending
          exact .inl (.inr ⟨.client j, y, by rw [call, hsending]⟩)

theorem holds_returns {w : Sender} {x : Outgoing} (hd : Holds (s.returns w x) d) : Holds s d := by
  cases w with
  | client i =>
    refine hd.of_update (i := i) rfl rfl rfl rfl ?_
    intro y e hy
    dsimp only at hy
    split at hy <;> cases hy
  | consumer =>
    rcases hd with hd | ⟨w', y, hy⟩
    · exact .inl hd
    · cases w' with
      | consumer => cases hy
      | client j => exact .inr ⟨.client j, y, hy⟩

/-- **A step holds a new number only when the server has connected with it.** -/
theorem holds_of_step {l : Step} (h : step s l = some t) (hd : Holds t d) :
    Holds s d ∨ s.serverSocket = some d := by
  cases step_cases h with
  | acceptClient e _ => exact .inl (hd.of_update rfl rfl rfl rfl (by simp))
  | readMessage i p _ _ | readJoin i p _ _ | hangUpKnown i p _ _ =>
    exact .inl (hd.of_update rfl rfl rfl rfl (by simp))
  | readOther i p _ _ _ => exact .inl (hd.of_update rfl rfl rfl rfl fun _ _ _ => rfl)
  | hangUpUnknown i _ _ | registerSocket i _ _ | forgetUser i _ _ =>
    exact .inl (hd.of_update rfl rfl rfl rfl (by simp))
  | forgetSocket i _ | close i _ => exact .inl (hd.of_update rfl rfl rfl rfl (by simp))
  | handOver i x hthread hslot =>
    refine .inl ?_
    rcases hd with hd | ⟨w, y, hy⟩
    · exact .inl hd
    · cases w with
      | consumer => cases (call_consumer hy).2
      | client j =>
        have hsending := call_client hy
        by_cases hj : j = i
        · subst hj
          simp only [setThread, Function.update_self] at hsending
          cases hsending
        · simp only [setThread, Function.update_of_ne hj] at hsending
          exact .inr ⟨.client j, y, by rw [call, hsending]⟩
  | load w x hcall =>
    rcases holds_setCall hcall hd with hd | hd
    · exact .inl hd
    · exact .inl (.inl (Call.writing.inj hd).symm)
  | written w x e c hcall _ => exact .inl (holds_returns (w := w) (x := x) hd)
  | failed w _ x e hcall => exact .inl ((holds_setCall hcall hd).resolve_right (by simp))
  | setServerSocket e hthread =>
    rcases hd with hd | hd
    · exact .inr (by rw [serverSocket, hthread, hd])
    · exact .inl (.inr hd)
  | acceptServer | found | notFound | delivered | undelivered =>
    exact .inl (hd.of_eq rfl rfl rfl rfl)
  | loseServer | forgetServerSocket | forgetServerUser | closeServer =>
    exact .inl (hd.of_eq rfl rfl rfl rfl)

/-! ## What was sent -/

@[simp] theorem setCall_sent (s : ProxyFE) (w : Sender) (x : Outgoing) (c : Call) :
    (s.setCall w x c).sent = s.sent := by
  cases w <;> rfl

/-- **What is reported as sent was written to a number that was held.** -/
theorem sent_of_step {l : Step} (h : step s l = some t) :
    t.sent = s.sent ∨ ∃ x d c, Holds s d ∧ s.owner d = some c ∧ t.sent = s.sent ++ [(x, c)] := by
  cases step_cases h with
  | written w x d c hcall hopen => exact .inr ⟨x, d, c, .inr ⟨w, x, hcall⟩, hopen, rfl⟩
  | load | failed => exact .inl (setCall_sent ..)
  | _ => exact .inl rfl

/-- The numbers that are held belong to a server or to nobody, and everything was
sent to a server. -/
structure ServerBound (s : ProxyFE) : Prop where
  held : ∀ d, Holds s d → RefersTo s.owner d .server
  sent : ∀ w ∈ s.sent, w.2 = .server

theorem serverBound_start (d : Nat) : ServerBound (start d) where
  held e he := by
    rcases he with rfl | ⟨w, x, hcall⟩
    · exact .of_some (give_self (fun _ => none) _ Connection.server)
    · cases w <;> cases hcall
  sent _ hw := absurd hw List.not_mem_nil

/-- The numbers that are held stay good. -/
theorem ServerBound.refersTo (hs : ServerBound s) (howned : Owned s) {l : Step}
    (hok : NotReused s l) (h : step s l = some t) (hd : Holds t d) :
    RefersTo t.owner d .server := by
  have hbefore := holds_of_step h hd
  have hgood : RefersTo s.owner d .server := by
    rcases hbefore with hheld | hserver
    · exact hs.held d hheld
    · exact .of_some (howned.server d hserver)
  by_cases hl : l.isAcceptOrClose = false
  · rw [(step_sameSockets h hl).owner]
    exact hgood
  · cases step_cases h with
    | acceptClient e hfree =>
      refine hgood.give ?_
      rintro rfl
      rcases hbefore with hheld | hserver
      · exact hok hheld
      · rw [howned.server d hserver] at hfree
        cases hfree
    | acceptServer e _ _ =>
      by_cases hde : d = e
      · rw [hde]
        exact .of_some (give_self ..)
      · exact hgood.give hde
    | close i _ => exact hgood.release _
    | closeServer e _ => exact hgood.release _
    | _ => exact absurd rfl hl

theorem ServerBound.step (hs : ServerBound s) (howned : Owned s) {l : Step} (hok : NotReused s l)
    (h : step s l = some t) : ServerBound t := by
  refine ⟨fun d hd => hs.refersTo howned hok h hd, ?_⟩
  intro w hw
  rcases sent_of_step h with hsent | ⟨x, d, c, hheld, hopen, hsent⟩
  · rw [hsent] at hw
    exact hs.sent w hw
  · rw [hsent] at hw
    rcases List.mem_append.1 hw with hw | hw
    · exact hs.sent w hw
    · rw [List.mem_singleton.1 hw]
      exact (hs.held d hheld).eq hopen

theorem serverBound_of_reachesWhen (h : proxyFE.ReachesWhen NotReused s) : ServerBound s := by
  have hboth : Owned s ∧ ServerBound s := by
    refine Transition.System.ReachesWhen.invariant (I := fun s => Owned s ∧ ServerBound s) h
      ?_ fun s l t hs hok hst => ?_
    · rintro s ⟨d, rfl⟩
      exact ⟨owned_start d, serverBound_start d⟩
    · exact ⟨hs.1.step hst, hs.2.step hs.1 hok hst⟩
  exact hboth.2

/-! ## A number that is given away too early -/

/-- The call writes. -/
theorem reaches_write {w : Sender} {x : Outgoing} {c : Connection}
    (hcall : s.call w = some (x, .writing d)) (hopen : s.owner d = some c) :
    ∃ u, proxyFE.Reaches s u ∧ (x, c) ∈ u.sent := by
  have hwrite : step s (.write w true) =
      some { s.returns w x with sent := s.sent ++ [(x, c)] } := by
    simp only [step, hcall, hopen]
  exact ⟨_, reaches_of_step hwrite (.refl _), List.mem_append_right _ (List.mem_singleton_self _)⟩

theorem call_setCall {w : Sender} {x : Outgoing} {c c' : Call} (hcall : s.call w = some (x, c)) :
    (s.setCall w x c').call w = some (x, c') := by
  cases w with
  | consumer =>
    obtain ⟨hslot, -⟩ := call_consumer hcall
    show s.processing_message.map (fun y => (y, c')) = _
    rw [hslot]
    rfl
  | client i => rw [setCall, call, setThread_thread]

theorem returns_setCall (w : Sender) (x : Outgoing) (c : Call) :
    (s.setCall w x c).returns w x = s.returns w x := by
  cases w with
  | consumer => rfl
  | client i => simp [setCall, returns, setThread]

/-- **A turn of the loop of `sendToServer`** that succeeds. -/
theorem reaches_sent {w : Sender} {x : Outgoing} {c : Connection}
    (hcall : s.call w = some (x, .retry)) (hopen : s.owner s.serverRM_socket = some c) :
    proxyFE.Reaches s { s.returns w x with sent := s.sent ++ [(x, c)] } := by
  have hload : step s (.load w) = some (s.setCall w x (.writing s.serverRM_socket)) := by
    simp only [step, hcall]
  have hopen' : (s.setCall w x (.writing s.serverRM_socket)).owner s.serverRM_socket = some c := by
    cases w <;> exact hopen
  have hwrite : step (s.setCall w x (.writing s.serverRM_socket)) (.write w true) =
      some { s.returns w x with sent := s.sent ++ [(x, c)] } := by
    simp only [step, call_setCall hcall, hopen', returns_setCall, setCall_sent]
  exact reaches_of_step hload (reaches_of_step hwrite (.refl _))

/-- A client that is there can join. -/
theorem reaches_join {i : Nat} {c : Connection} (hthread : (s.clients i).thread = .reading)
    (hopen : s.owner s.serverRM_socket = some c) :
    ∃ u x, proxyFE.Reaches s u ∧ (x, c) ∈ u.sent := by
  let p : Packet := { type := .JOIN_PACKET }
  let t := ((s.know i p.user_id).registerUser i p.user_id).generate i p .registering
  have hread : step s (.readClient i p) = some t := by
    simp only [step]
    rw [if_pos hthread]
    rfl
  have hthread' : (t.clients i).thread = .registering ⟨i, s.generated.length, p⟩ :=
    setThread_thread ..
  have hregister : step t (.registerSocket i) =
      some { t.setThread i (.sending ⟨i, s.generated.length, p⟩ .retry) with
        socketsMap := Function.update t.socketsMap (t.clients i).socket p.user_id } := by
    simp only [step, hthread']
  have hsend := @reaches_sent
    { t.setThread i (.sending ⟨i, s.generated.length, p⟩ .retry) with
      socketsMap := Function.update t.socketsMap (t.clients i).socket p.user_id }
    (.client i) ⟨i, s.generated.length, p⟩ c (by simp only [call, setThread_thread]) hopen
  exact ⟨_, _, reaches_of_step hread (reaches_of_step hregister hsend),
    List.mem_append_right _ (List.mem_singleton_self _)⟩

/-- **A number that is held and given to a client** can be written to. -/
theorem reaches_misdirected (howned : Owned s) (h : step s (.acceptClient d) = some t)
    (hheld : Holds s d) : ∃ u, proxyFE.Reaches t u ∧ ∃ w ∈ u.sent, w.2 ≠ .server := by
  cases step_cases h with
  | acceptClient _ hfree =>
    rcases hheld with rfl | ⟨w, x, hcall⟩
    · have hthread : ((s.connect s.serverRM_socket).clients s.connections).thread = .reading := by
        simp only [connect, Function.update_self]
      obtain ⟨u, x, hu, hmem⟩ := reaches_join hthread (give_self s.owner s.serverRM_socket _)
      exact ⟨u, hu, _, hmem, by simp⟩
    · have hcall' : (s.connect d).call w = some (x, .writing d) := by
        cases w with
        | consumer => exact hcall
        | client j =>
          have hsending := call_client hcall
          have hj : j ≠ s.connections := by
            rintro rfl
            rw [howned.fresh _ (Nat.le_refl _)] at hsending
            cases hsending
          simp only [call, connect, Function.update_of_ne hj]
          exact hcall
      obtain ⟨u, hu, hmem⟩ := reaches_write hcall' (give_self s.owner d _)
      exact ⟨u, hu, _, hmem, by simp⟩

/-- **Server-bound packets never reach a client** when no client is given a number that
`serverRM_socket` or a call of `sendToServer` still holds; and after any accept that
does give such a number to a client, some packet can reach a client. -/
theorem sent_to_server (s : ProxyFE) :
    (proxyFE.ReachesWhen NotReused s → ∀ w ∈ s.sent, w.2 = .server) ∧
      ∀ d t, proxyFE.Reachable s → step s (.acceptClient d) = some t →
        ¬ NotReused s (.acceptClient d) →
        ∃ u, proxyFE.Reaches t u ∧ ∃ w ∈ u.sent, w.2 ≠ .server :=
  ⟨fun hs => (serverBound_of_reachesWhen hs).sent,
    fun _ _ hs hst hreused => reaches_misdirected (owned_of_reachable hs) hst (not_not.1 hreused)⟩

/-- `handleServerDisconnection`, up to the `close`. -/
def serverGone : List Step := [.loseServer, .forgetServerSocket, .forgetServerUser, .closeServer]

/-- A client joins, the server is lost and comes back with its old number, and the
client leaves; had another client come first, it could have had that number. -/
theorem sent_to_server_reconnect :
    (∃ s, proxyFE.ReachesWhen NotReused s ∧ s.sent.length = 2 ∧ ∀ w ∈ s.sent, w.2 = .server) ∧
      ∃ t u, proxyFE.Reachable t ∧ proxyFE.Reaches t u ∧ ∃ w ∈ u.sent, w.2 ≠ .server := by
  obtain ⟨s, hs⟩ : ∃ s, proxyFE.exec ((start 5).connect 6)
      ([.readClient 0 { type := .JOIN_PACKET }, .registerSocket 0, .load (.client 0),
        .write (.client 0) true] ++ serverGone ++ [.acceptServer 5, .setServerSocket, .hangUp 0,
        .load (.client 0), .write (.client 0) true]) = some s := ⟨_, rfl⟩
  have hfree : ¬ Holds (start 5) 6 := by
    rintro (h | ⟨w, x, h⟩)
    · cases h
    · cases w <;> cases h
  have hstart : proxyFE.ReachesWhen NotReused ((start 5).connect 6) :=
    reachesWhen_of_step (l := .acceptClient 6) (.start ⟨5, rfl⟩) hfree rfl
  have hrun : proxyFE.ReachesWhen NotReused s := hstart.exec (fun l hl u => by
    cases l <;> trivial) hs
  obtain ⟨t, ht⟩ : ∃ t, proxyFE.exec (start 5) serverGone = some t := ⟨_, rfl⟩
  have hreach : proxyFE.Reachable t := Transition.System.reachable_of_exec ⟨5, rfl⟩ ht
  have haccept : step t (.acceptClient 5) = some (t.connect 5) := by
    cases ht
    rfl
  have hheld : ¬ NotReused t (.acceptClient 5) := by
    cases ht
    exact not_not.2 (.inl rfl)
  obtain ⟨u, hu, hmem⟩ := (sent_to_server t).2 5 _ hreach haccept hheld
  have hreach' : proxyFE.Reachable (t.connect 5) :=
    reachable_of_step hreach haccept
  refine ⟨⟨s, hrun, ?_, (sent_to_server s).1 hrun⟩, t.connect 5, u, hreach', hu, hmem⟩
  cases hs
  rfl

/-- The server is lost, a client connects and joins: its JOIN is written to itself. -/
theorem sent_to_server_counterexample :
    ∃ s, proxyFE.Reachable s ∧ ∃ w ∈ s.sent, w.2 = .client 0 := by
  obtain ⟨s, hs⟩ : ∃ s, proxyFE.exec (start 5) (serverGone ++ [.acceptClient 5,
      .readClient 0 { type := .JOIN_PACKET }, .registerSocket 0, .load (.client 0),
      .write (.client 0) true]) = some s := ⟨_, rfl⟩
  refine ⟨s, Transition.System.reachable_of_exec ⟨5, rfl⟩ hs, ?_⟩
  cases hs
  exact ⟨_, List.mem_singleton_self _, rfl⟩

end ProxyFE

end InstantMessenger
