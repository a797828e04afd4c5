import InstantMessenger.ProxyFe.ServerBound
import InstantMessenger.ProxyFe.UserMaps

/-!
# Packets for the clients

`processServerPacket` looks a user up under the semaphore of `usersMap`, gives the
semaphore back, and writes to the number it has found.  In between the client can
leave, and its number can be given to another one.

* `FoundNotReused` — the condition on a run: no client is given the number that
  `processServerPacket` has found and not yet written to.
* `Addressed` — **the invariant**: that number is of the connection that joined as the
  user, or nobody's, and what was delivered went to the connection that joined.
* `delivered_to_joined` — **then a packet for a user reaches the connection on which
  the user joined**, and any accept against the condition can be followed by a
  packet that reaches another one.
-/

namespace InstantMessenger

open Descriptors

namespace ProxyFE

variable {s t : ProxyFE}

/-- No client is given the number that was found for a packet. -/
def FoundNotReused (s : ProxyFE) : Step → Prop
  | .acceptClient d => ∀ p, s.serverThread ≠ .found p d
  | _ => True

/-- The connection is the one on which the user joined. -/
def JoinedOn (s : ProxyFE) (u : Str) (c : Connection) : Prop :=
  ∃ i, c = .client i ∧ (s.clients i).joined = some u

/-- What was found and what was delivered is for the connection that joined. -/
structure Addressed (s : ProxyFE) : Prop where
  found : ∀ p d, s.serverThread = .found p d →
    ∃ c, s.JoinedOn p.user_id c ∧ RefersTo s.owner d c
  delivered : ∀ r ∈ s.delivered, s.JoinedOn r.userID r.connection

theorem addressed_start (d : Nat) : Addressed (start d) where
  found _ _ h := nomatch h
  delivered _ hr := absurd hr List.not_mem_nil

theorem JoinedOn.step (hs : Listed s) {l : Step} (hok : JoinsOnce s l) (h : step s l = some t)
    {u : Str} {c : Connection} (hc : s.JoinedOn u c) : t.JoinedOn u c := by
  obtain ⟨i, rfl, hi⟩ := hc
  exact ⟨i, rfl, joined_of_step hs hok h hi⟩

@[simp] theorem setCall_delivered (s : ProxyFE) (w : Sender) (x : Outgoing) (c : Call) :
    (s.setCall w x c).delivered = s.delivered := by
  cases w <;> rfl

@[simp] theorem returns_delivered (s : ProxyFE) (w : Sender) (x : Outgoing) :
    (s.returns w x).delivered = s.delivered := by
  cases w <;> rfl

/-- **What is delivered was written to the number that was found.** -/
theorem delivered_of_step {l : Step} (h : step s l = some t) :
    t.delivered = s.delivered ∨ ∃ p d c, s.serverThread = .found p d ∧ s.owner d = some c ∧
      t.delivered = s.delivered ++ [⟨p.user_id, forClient p, c⟩] := by
  cases step_cases h with
  | delivered p d c hthread hopen => exact .inr ⟨p, d, c, hthread, hopen, rfl⟩
  | load | failed => exact .inl (setCall_delivered ..)
  | written => exact .inl (returns_delivered ..)
  | _ => exact .inl rfl

/-- A number is found in `usersMap`, or was found before. -/
theorem found_of_step {l : Step} (h : step s l = some t) {p : Packet} {d : Nat}
    (hfound : t.serverThread = .found p d) :
    (s.serverThread = .found p d ∧ ∀ e, l ≠ .acceptServer e ∧ l ≠ .closeServer) ∨
      (l = .readServer p ∧ d = s.usersMap p.user_id ∧ d ≠ 0 ∧ t.owner = s.owner) := by
  cases step_cases h with
  | found q hthread hne =>
    obtain ⟨rfl, rfl⟩ := ServerThread.found.inj hfound
    exact .inr ⟨rfl, rfl, hne, rfl⟩
  | acceptServer | setServerSocket | delivered | undelivered => cases hfound
  | loseServer | forgetServerSocket | forgetServerUser | closeServer => cases hfound
  | load w | failed w => cases w <;> exact .inl ⟨hfound, fun _ => ⟨by simp, by simp⟩⟩
  | written w => cases w <;> exact .inl ⟨hfound, fun _ => ⟨by simp, by simp⟩⟩
  | _ => exact .inl ⟨hfound, fun _ => ⟨by simp, by simp⟩⟩

/-- The number that was found stays good. -/
theorem Addressed.refersTo (hs : Addressed s) {l : Step} (hok : FoundNotReused s l)
    (h : step s l = some t) {p : Packet} {d : Nat} (hfound : s.serverThread = .found p d)
    (hl : ∀ e, l ≠ .acceptServer e ∧ l ≠ .closeServer) :
    ∃ c, s.JoinedOn p.user_id c ∧ RefersTo t.owner d c := by
  obtain ⟨c, hjoined, hgood⟩ := hs.found p d hfound
  refine ⟨c, hjoined, ?_⟩
  by_cases hacc : l.isAcceptOrClose = false
  · rw [(step_sameSockets h hacc).owner]
    exact hgood
  · cases step_cases h with
    | acceptClient e _ =>
      refine hgood.give ?_
      rintro rfl
      exact hok p hfound
    | close i _ => exact hgood.release _
    | acceptServer e => exact absurd rfl (hl e).1
    | closeServer => exact absurd rfl (hl 0).2
    | _ => exact absurd rfl hacc

theorem Addressed.step (hs : Addressed s) (howned : Owned s) (hlisted : Listed s) {l : Step}
    (hok : JoinsOnce s l ∧ FoundNotReused s l) (h : step s l = some t) : Addressed t := by
  refine ⟨?_, ?_⟩
  · intro p d hfound
    rcases found_of_step h hfound with ⟨hbefore, hl⟩ | ⟨-, rfl, hne, howner⟩
    · obtain ⟨c, hjoined, hgood⟩ := hs.refersTo hok.2 h hbefore hl
      exact ⟨c, hjoined.step hlisted hok.1 h, hgood⟩
    · obtain ⟨i, hsocket, hjoin, hlist⟩ := hlisted.user p.user_id hne
      refine ⟨.client i, ⟨i, rfl, joined_of_step hlisted hok.1 h hjoin⟩, ?_⟩
      rw [howner, ← hsocket]
      exact .of_some (howned.client i (ClientThread.ne_gone_of_isListed hlist))
  · intro r hr
    rcases delivered_of_step h with hsame | ⟨p, d, c, hfound, hopen, hnew⟩
    · rw [hsame] at hr
      exact (hs.delivered r hr).step hlisted hok.1 h
    · rw [hnew] at hr
      rcases List.mem_append.1 hr with hr | hr
      · exact (hs.delivered r hr).step hlisted hok.1 h
      · obtain ⟨c', hjoined, hgood⟩ := hs.found p d hfound
        rw [List.mem_singleton.1 hr]
        exact (hgood.eq hopen ▸ hjoined).step hlisted hok.1 h

theorem addressed_of_reachesWhen
    (h : proxyFE.ReachesWhen (fun s l => JoinsOnce s l ∧ FoundNotReused s l) s) :
    Addressed s := by
  have hall : Owned s ∧ Listed s ∧ Addressed s := by
    refine Transition.System.ReachesWhen.invariant
      (I := fun s => Owned s ∧ Listed s ∧ Addressed s) h ?_ fun s l t hs hok hst => ?_
    · rintro s ⟨d, rfl⟩
      exact ⟨owned_start d, listed_start d, addressed_start d⟩
    · obtain ⟨howned, hlisted, haddressed⟩ := hs
      exact ⟨howned.step hst, hlisted.step howned hok.1 hst,
        haddressed.step howned hlisted hok hst⟩
  exact hall.2.2

/-- **The number that was found is given to another client**: the packet is written to
it, though it has not joined. -/
theorem reaches_misdelivered (hs : proxyFE.ReachesWhen JoinsOnce s) {p : Packet} {d : Nat}
    (h : step s (.acceptClient d) = some t) (hfound : s.serverThread = .found p d) :
    ∃ u, proxyFE.Reaches t u ∧ proxyFE.ReachesWhen JoinsOnce u ∧
      ∃ r ∈ u.delivered, ¬ u.JoinedOn r.userID r.connection := by
  have ht : proxyFE.ReachesWhen JoinsOnce t :=
    reachesWhen_of_step (l := .acceptClient d) hs trivial h
  cases step_cases h with
  | acceptClient _ hfree =>
    have hdeliver : step (s.connect d) (.deliver true) = some { s.connect d with
        serverThread := .listening
        delivered := s.delivered ++ [⟨p.user_id, forClient p, .client s.connections⟩] } := by
      have hthread : (s.connect d).serverThread = .found p d := hfound
      have hopen : (s.connect d).owner d = some (.client s.connections) := give_self ..
      simp only [step, hthread, hopen]
      rfl
    refine ⟨_, reaches_of_step hdeliver (.refl _),
      reachesWhen_of_step (l := .deliver true) ht trivial hdeliver, _,
      List.mem_append_right _ (List.mem_singleton_self _), ?_⟩
    rintro ⟨i, hi, hjoined⟩
    obtain rfl := Connection.client.inj hi
    simp only [connect, Function.update_self] at hjoined
    cases hjoined

/-- **No misdelivery to clients**, when clients join once and with user ids of their own, and
no client is given a number that `processServerPacket` has found for a packet and not
yet written to; and after any accept that does, the packet can reach that client. -/
theorem delivered_to_joined (s : ProxyFE) :
    (proxyFE.ReachesWhen (fun s l => JoinsOnce s l ∧ FoundNotReused s l) s →
      ∀ r ∈ s.delivered, s.JoinedOn r.userID r.connection) ∧
      ∀ d t, proxyFE.ReachesWhen JoinsOnce s → step s (.acceptClient d) = some t →
        ¬ FoundNotReused s (.acceptClient d) →
        ∃ u, proxyFE.Reaches t u ∧ proxyFE.ReachesWhen JoinsOnce u ∧
          ∃ r ∈ u.delivered, ¬ u.JoinedOn r.userID r.connection := by
  refine ⟨fun hs => (addressed_of_reachesWhen hs).delivered, ?_⟩
  intro d t hs hst hreused
  obtain ⟨p, hp⟩ := not_forall.1 hreused
  exact reaches_misdelivered hs hst (not_not.1 hp)

/-! ## One client and its successor -/

/-- A client has connected with the number 6 and joins as the user `u`. -/
def oneJoins : ProxyFE :=
  (((start 5).connect 6).know 0 "u".toList).processClientPacket 0
    { type := .JOIN_PACKET, user_id := "u".toList }

theorem oneJoins_reachesWhen :
    proxyFE.ReachesWhen (fun s l => JoinsOnce s l ∧ FoundNotReused s l) oneJoins := by
  have hconnect : proxyFE.ReachesWhen (fun s l => JoinsOnce s l ∧ FoundNotReused s l)
      ((start 5).connect 6) :=
    reachesWhen_of_step (l := .acceptClient 6) (.start ⟨5, rfl⟩) ⟨trivial, fun _ h => by cases h⟩
      rfl
  have hnew : ∀ j, (((start 5).connect 6).clients j).joined ≠ some "u".toList := by
    intro j hj
    simp only [connect, start] at hj
    by_cases hj0 : j = 0
    · rw [hj0, Function.update_self] at hj
      cases hj
    · rw [Function.update_of_ne hj0] at hj
      cases hj
  exact reachesWhen_of_step (l := .readClient 0 { type := .JOIN_PACKET, user_id := "u".toList })
    hconnect ⟨fun _ => ⟨rfl, hnew⟩, trivial⟩ rfl

/-- The server answers, and the front end looks the user up. -/
def answered : List Step :=
  [.registerSocket 0, .readServer { type := .ACCEPT_PACKET, user_id := "u".toList }]

/-- The client leaves. -/
def clientGone : List Step :=
  [.load (.client 0), .write (.client 0) true, .hangUp 0, .load (.client 0),
    .write (.client 0) true, .forgetSocket 0, .forgetUser 0, .close 0]

theorem answered_clientGone_reachesWhen {s : ProxyFE}
    (hs : proxyFE.exec oneJoins (answered ++ clientGone) = some s) :
    proxyFE.ReachesWhen JoinsOnce s := by
  refine (oneJoins_reachesWhen.mono fun _ _ hok => hok.1).exec (fun l hl u => ?_) hs
  cases l with
  | readClient => simp [answered, clientGone] at hl
  | _ => trivial

/-- The answer is delivered; had the client left first, another one could have had it. -/
theorem delivered_to_joined_answer :
    (∃ s, proxyFE.Reachable s ∧ s.delivered.length = 1 ∧
      ∀ r ∈ s.delivered, s.JoinedOn r.userID r.connection) ∧
      ∃ u, proxyFE.ReachesWhen JoinsOnce u ∧
        ∃ r ∈ u.delivered, ¬ u.JoinedOn r.userID r.connection := by
  obtain ⟨s, hs⟩ : ∃ s, proxyFE.exec oneJoins (answered ++ [.deliver true]) = some s := ⟨_, rfl⟩
  have hrun : proxyFE.ReachesWhen (fun s l => JoinsOnce s l ∧ FoundNotReused s l) s := by
    refine oneJoins_reachesWhen.exec (fun l hl u => ?_) hs
    cases l with
    | readClient | acceptClient => simp [answered] at hl
    | _ => exact ⟨trivial, trivial⟩
  obtain ⟨t, ht⟩ : ∃ t, proxyFE.exec oneJoins (answered ++ clientGone) = some t := ⟨_, rfl⟩
  have haccept : step t (.acceptClient 6) = some (t.connect 6) := by
    cases ht
    rfl
  have hfound : ¬ FoundNotReused t (.acceptClient 6) := by
    cases ht
    exact fun h => h _ rfl
  obtain ⟨u, -, hu, hmem⟩ := (delivered_to_joined t).2 6 _ (answered_clientGone_reachesWhen ht)
    haccept hfound
  refine ⟨⟨s, hrun.reachable, ?_, (delivered_to_joined s).1 hrun⟩, u, hu, hmem⟩
  cases hs
  rfl

/-- The answer for the user `u` is looked up, the client leaves, another one connects
and is given its number: the answer is written to the second client. -/
theorem delivered_to_joined_counterexample :
    ∃ s, proxyFE.ReachesWhen JoinsOnce s ∧ (s.clients 0).joined = some "u".toList ∧
      (s.clients 1).joined = none ∧
      ∃ r ∈ s.delivered, r.userID = "u".toList ∧ r.connection = .client 1 := by
  obtain ⟨t, ht⟩ : ∃ t, proxyFE.exec oneJoins (answered ++ clientGone) = some t := ⟨_, rfl⟩
  obtain ⟨s, hs⟩ : ∃ s, proxyFE.exec t [.acceptClient 6, .deliver true] = some s := by
    cases ht
    exact ⟨_, rfl⟩
  have hrun : proxyFE.ReachesWhen JoinsOnce s := by
    refine (answered_clientGone_reachesWhen ht).exec (fun l hl u => ?_) hs
    cases l with
    | readClient => simp at hl
    | _ => trivial
  refine ⟨s, hrun, ?_⟩
  cases ht
  cases hs
  exact ⟨rfl, rfl, _, List.mem_singleton_self _, rfl, rfl⟩

end ProxyFE

end InstantMessenger
