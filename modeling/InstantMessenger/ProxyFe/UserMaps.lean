import InstantMessenger.ProxyFe.Ownership

/-!
# The maps of users and sockets

`usersMap` leads from a user to the number of its connection, `socketsMap` back; both
are filled by `registerUserSocket` and emptied by `handleSocketDisconnection`, in the
thread of the connection.

* `JoinsOnce` — every client joins once, and no two as the same user.
* `ClientThread.isListed`, `ClientThread.isRegistered` — where a thread's user can be in
  the first map, and where it is in the second.
* `Listed`, `Listed.step` — **a number in `usersMap` is the one of the connection that
  joined**, which is not closed yet.
* `joined_of_step` — who has joined stays so.
-/

namespace InstantMessenger

open Descriptors

namespace ProxyFE

variable {s t : ProxyFE} {i : Nat}

/-- Every client joins once, as a user of its own. -/
def JoinsOnce (s : ProxyFE) : Step → Prop
  | .readClient i p =>
    p.isJoinMessage = true →
      (s.clients i).joined = none ∧ ∀ j, (s.clients j).joined ≠ some p.user_id
  | _ => True

/-- The user of the thread can be in `usersMap`. -/
def ClientThread.isListed : ClientThread → Bool
  | .closing | .gone => false
  | _ => true

/-- The user of the thread, once it has joined, is in `socketsMap`. -/
def ClientThread.isRegistered : ClientThread → Bool
  | .reading | .waiting _ | .sending _ _ | .leaving => true
  | _ => false

/-- What a client's thread knows agrees with the map. -/
def Client.Agrees (socketsMap : Nat → Str) (c : Client) : Prop :=
  match c.thread with
  | .registering x => c.joined = some x.packet.user_id
  | .forgetting w => ∀ u, c.joined = some u → w = u
  | .closing | .gone => True
  | _ => ∀ u, c.joined = some u → socketsMap c.socket = u

/-- The maps are about the connections that have joined. -/
structure Listed (s : ProxyFE) : Prop where
  fresh : ∀ i, s.connections ≤ i → (s.clients i).joined = none
  distinct : ∀ i j u, (s.clients i).joined = some u → (s.clients j).joined = some u → i = j
  user : ∀ u, s.usersMap u ≠ 0 → ∃ i, (s.clients i).socket = s.usersMap u ∧
    (s.clients i).joined = some u ∧ (s.clients i).thread.isListed = true
  agrees : ∀ i, (s.clients i).Agrees s.socketsMap

/-! ## Agreement -/

theorem ClientThread.isListed_of_isRegistered {thread : ClientThread}
    (h : thread.isRegistered = true) : thread.isListed = true := by
  cases thread with
  | closing | gone => cases h
  | _ => rfl

theorem ClientThread.ne_gone_of_isListed {thread : ClientThread} (h : thread.isListed = true) :
    thread ≠ .gone := by
  rintro rfl
  cases h

theorem Client.agrees_iff {socketsMap : Nat → Str} {c : Client}
    (h : c.thread.isRegistered = true) :
    c.Agrees socketsMap ↔ ∀ u, c.joined = some u → socketsMap c.socket = u := by
  unfold Client.Agrees
  split <;> rename_i heq
  · rw [heq] at h; cases h
  · rw [heq] at h; cases h
  · rw [heq] at h; cases h
  · rw [heq] at h; cases h
  · exact Iff.rfl

/-- Another number of the map is changed. -/
theorem Client.Agrees.update {socketsMap : Nat → Str} {c : Client} {d : Nat} {u : Str}
    (h : c.Agrees socketsMap) (hd : c.thread ≠ .gone → c.socket ≠ d) :
    c.Agrees (Function.update socketsMap d u) := by
  unfold Client.Agrees at h ⊢
  split <;> rename_i heq <;> simp only [heq] at h
  · exact h
  · exact h
  · trivial
  · trivial
  · rw [Function.update_of_ne (hd (by assumption))]
    exact h

theorem Owned.socket_ne (howned : Owned s) {j : Nat} (hi : (s.clients i).thread ≠ .gone)
    (hj : (s.clients j).thread ≠ .gone) (hij : j ≠ i) :
    (s.clients j).socket ≠ (s.clients i).socket := by
  intro heq
  have hown := howned.client j hj
  rw [heq, howned.client i hi] at hown
  exact hij (Connection.client.inj (Option.some.inj hown)).symm

theorem Owned.socket_ne_server (howned : Owned s) {d : Nat} (hi : (s.clients i).thread ≠ .gone)
    (hd : s.serverSocket = some d) : (s.clients i).socket ≠ d := by
  rintro rfl
  have hown := howned.client i hi
  rw [howned.server _ hd] at hown
  cases hown

/-! ## Moves that leave the maps alone -/

/-- The connections stay what they were, and the maps lose entries at most. -/
theorem Listed.transfer (hs : Listed s) (hconnections : t.connections = s.connections)
    (hsame : ∀ j, (t.clients j).joined = (s.clients j).joined ∧
      (t.clients j).socket = (s.clients j).socket)
    (huser : ∀ u, t.usersMap u ≠ 0 → t.usersMap u = s.usersMap u)
    (hlisted : ∀ j u, t.usersMap u ≠ 0 → (s.clients j).joined = some u →
      (s.clients j).thread.isListed = true → (t.clients j).thread.isListed = true)
    (hagrees : ∀ j, (t.clients j).Agrees t.socketsMap) : Listed t where
  fresh j hj := by
    rw [(hsame j).1]
    exact hs.fresh j (hconnections ▸ hj)
  distinct j k u hj hk :=
    hs.distinct j k u ((hsame j).1.symm.trans hj) ((hsame k).1.symm.trans hk)
  user u hu := by
    have heq := huser u hu
    obtain ⟨j, hsock, hjoin, hlist⟩ := hs.user u (heq ▸ hu)
    exact ⟨j, (hsame j).2.trans (hsock.trans heq.symm), (hsame j).1.trans hjoin,
      hlisted j u hu hjoin hlist⟩
  agrees := hagrees

/-- Nothing that the maps are about changes. -/
theorem Listed.of_eq (hs : Listed s) (hconnections : t.connections = s.connections)
    (hclients : t.clients = s.clients) (husers : t.usersMap = s.usersMap)
    (hsockets : t.socketsMap = s.socketsMap) : Listed t := by
  refine hs.transfer hconnections (fun j => ?_) (fun u _ => by rw [husers])
    (fun j u _ _ hl => by rwa [hclients]) fun j => ?_
  · rw [hclients]
    exact ⟨rfl, rfl⟩
  · rw [hclients, hsockets]
    exact hs.agrees j

/-- What a change of one client leaves alone. -/
theorem update_same {clients : Nat → Client} {c : Client} (hjoined : c.joined = (clients i).joined)
    (hsocket : c.socket = (clients i).socket) :
    ∀ j, (Function.update clients i c j).joined = (clients j).joined ∧
      (Function.update clients i c j).socket = (clients j).socket :=
  (Function.forall_update_iff clients fun j c =>
    c.joined = (clients j).joined ∧ c.socket = (clients j).socket).2
      ⟨⟨hjoined, hsocket⟩, fun _ _ => ⟨rfl, rfl⟩⟩

/-- **One client changes**, and so do the maps.  What was known about the others is asked of
the new maps. -/
theorem Listed.update (hs : Listed s) {c : Client} (hconnections : t.connections = s.connections)
    (hclients : t.clients = Function.update s.clients i c)
    (hsocket : c.socket = (s.clients i).socket) (hjoined : c.joined = (s.clients i).joined)
    (huser : ∀ u, t.usersMap u ≠ 0 → t.usersMap u = s.usersMap u)
    (hlisted : ∀ u, t.usersMap u ≠ 0 → (s.clients i).joined = some u →
      (s.clients i).thread.isListed = true → c.thread.isListed = true)
    (hagrees : c.Agrees t.socketsMap)
    (hothers : ∀ j, j ≠ i → (s.clients j).Agrees t.socketsMap) : Listed t := by
  refine hs.transfer hconnections ?_ huser ?_ ?_ <;> rw [hclients]
  · exact update_same hjoined hsocket
  · exact (Function.forall_update_iff s.clients fun j c => ∀ u, t.usersMap u ≠ 0 →
      (s.clients j).joined = some u → (s.clients j).thread.isListed = true →
        c.thread.isListed = true).2 ⟨hlisted, fun _ _ _ _ _ hl => hl⟩
  · exact (Function.forall_update_iff s.clients fun _ c => c.Agrees t.socketsMap).2
      ⟨hagrees, hothers⟩

/-- A thread goes on between two places where its user is registered. -/
theorem Listed.of_update (hs : Listed s) {c : Client} (hconnections : t.connections = s.connections)
    (hclients : t.clients = Function.update s.clients i c) (husers : t.usersMap = s.usersMap)
    (hsockets : t.socketsMap = s.socketsMap) (hsocket : c.socket = (s.clients i).socket)
    (hjoined : c.joined = (s.clients i).joined) (hbefore : (s.clients i).thread.isRegistered = true)
    (hafter : c.thread.isRegistered = true) : Listed t := by
  refine hs.update hconnections hclients hsocket hjoined (fun u _ => by rw [husers])
    (fun _ _ _ _ => ClientThread.isListed_of_isRegistered hafter) ?_ fun j _ => ?_
  · rw [hsockets, Client.agrees_iff hafter, hjoined, hsocket]
    exact (Client.agrees_iff hbefore).1 (hs.agrees i)
  · rw [hsockets]
    exact hs.agrees j

/-- A call goes on: its thread is in `sendToServer` before, and registered after. -/
theorem Listed.of_call (hs : Listed s) {w : Sender} {x : Outgoing} {c : Call}
    (hcall : s.call w = some (x, c)) (hconnections : t.connections = s.connections)
    (husers : t.usersMap = s.usersMap) (hsockets : t.socketsMap = s.socketsMap)
    (hclients : t.clients = s.clients ∨ ∃ i thread, w = .client i ∧ thread.isRegistered = true ∧
      t.clients = (s.setThread i thread).clients) : Listed t := by
  rcases hclients with hclients | ⟨i, thread, rfl, hthread, hclients⟩
  · exact hs.of_eq hconnections hclients husers hsockets
  · exact hs.of_update (i := i) (c := { s.clients i with thread := thread }) hconnections hclients
      husers hsockets rfl rfl (by rw [call_client hcall]; rfl) hthread

theorem Listed.setCall (hs : Listed s) {w : Sender} {x : Outgoing} {c c' : Call}
    (hcall : s.call w = some (x, c)) : Listed (s.setCall w x c') := by
  cases w with
  | consumer => exact hs.of_call hcall rfl rfl rfl (.inl rfl)
  | client i => exact hs.of_call hcall rfl rfl rfl (.inr ⟨i, _, rfl, rfl, rfl⟩)

theorem Listed.returns (hs : Listed s) {w : Sender} {x : Outgoing} {c : Call}
    (hcall : s.call w = some (x, c)) : Listed (s.returns w x) := by
  cases w with
  | consumer => exact hs.of_call hcall rfl rfl rfl (.inl rfl)
  | client i =>
    refine hs.of_call hcall rfl rfl rfl (.inr ⟨i, _, rfl, ?_, rfl⟩)
    split <;> rfl

/-! ## Moves that change them -/

theorem Listed.connect (hs : Listed s) (d : Nat) : Listed (s.connect d) := by
  have hold : ∀ j u, (s.clients j).joined = some u → j ≠ s.connections := by
    rintro j u hj rfl
    rw [hs.fresh _ (Nat.le_refl _)] at hj
    cases hj
  refine ⟨?_, ?_, ?_, ?_⟩
  · intro j hj
    simp only [ProxyFE.connect] at hj ⊢
    rw [Function.update_of_ne (by omega)]
    exact hs.fresh j (by omega)
  · intro j k u hj hk
    have hback : ∀ l, ((s.connect d).clients l).joined = some u →
        (s.clients l).joined = some u := by
      intro l hl
      simp only [ProxyFE.connect] at hl
      by_cases hnew : l = s.connections
      · rw [hnew, Function.update_self] at hl
        cases hl
      · rwa [Function.update_of_ne hnew] at hl
    exact hs.distinct j k u (hback j hj) (hback k hk)
  · intro u hu
    obtain ⟨j, hsock, hjoin, hlisted⟩ := hs.user u hu
    refine ⟨j, ?_⟩
    simp only [ProxyFE.connect, Function.update_of_ne (hold j u hjoin)]
    exact ⟨hsock, hjoin, hlisted⟩
  · exact (Function.forall_update_iff s.clients fun _ c => c.Agrees s.socketsMap).2
      ⟨(Client.agrees_iff rfl).2 (by simp), fun j _ => hs.agrees j⟩

/-- The thread `i` goes on, and a number of `socketsMap` changes that no other
connection has. -/
theorem Listed.setThread_socketsMap (hs : Listed s) {thread : ClientThread} {d : Nat} {u : Str}
    (hlisted : thread.isListed = true)
    (hagrees : Client.Agrees (Function.update s.socketsMap d u)
      { s.clients i with thread := thread })
    (hothers : ∀ j, j ≠ i → (s.clients j).thread ≠ .gone → (s.clients j).socket ≠ d) :
    Listed { s.setThread i thread with socketsMap := Function.update s.socketsMap d u } :=
  hs.update rfl rfl rfl rfl (fun _ _ => rfl) (fun _ _ _ _ => hlisted) hagrees fun j hj =>
    (hs.agrees j).update (hothers j hj)

/-- The thread `i` erases its user from `usersMap`. -/
theorem Listed.forgetUser (hs : Listed s) {w : Str}
    (hthread : (s.clients i).thread = .forgetting w) :
    Listed { s.setThread i .closing with usersMap := Function.update s.usersMap w 0 } := by
  have hother : ∀ u, Function.update s.usersMap w 0 u ≠ 0 → u ≠ w := by
    rintro u hu rfl
    exact hu (Function.update_self ..)
  refine hs.update rfl rfl rfl rfl (fun u hu => Function.update_of_ne (hother u hu) ..)
    (fun u hu hjoin _ => ?_) trivial fun j _ => hs.agrees j
  -- The user of this thread is the one that is erased.
  have hagrees := hs.agrees i
  rw [Client.Agrees, hthread] at hagrees
  exact absurd (hagrees u hjoin).symm (hother u hu)

/-- The connection `i` is closed; its user is not listed any more. -/
theorem Listed.close (hs : Listed s) (hthread : (s.clients i).thread = .closing)
    {owner : Table Connection} : Listed { s.setThread i .gone with owner := owner } := by
  refine hs.update rfl rfl rfl rfl (fun _ _ => rfl) (fun u _ _ hl => ?_) trivial
    fun j _ => hs.agrees j
  rw [hthread] at hl
  cases hl

/-- The user of a client that joins is new, and leads to it. -/
theorem Listed.readJoin (hs : Listed s) (howned : Owned s) {p : Packet}
    (hthread : (s.clients i).thread = .reading) (hjoined : (s.clients i).joined = none)
    (hnew : ∀ j, (s.clients j).joined ≠ some p.user_id) {c : Client} {x : Outgoing}
    (hsocket : c.socket = (s.clients i).socket) (hjoin : c.joined = some p.user_id)
    (hregistering : c.thread = .registering x) (hpacket : x.packet = p)
    {generated : List Outgoing} :
    Listed { s with
      usersMap := Function.update s.usersMap p.user_id (s.clients i).socket
      clients := Function.update s.clients i c
      generated := generated } := by
  have hi : i < s.connections := by
    refine Nat.lt_of_not_le ?_
    intro hle
    rw [howned.fresh i hle] at hthread
    cases hthread
  have hother : ∀ j u, (s.clients j).joined = some u → j ≠ i := by
    rintro j u hj rfl
    rw [hjoined] at hj
    cases hj
  refine ⟨?_, ?_, ?_, ?_⟩
  · intro j hj
    have hji : j ≠ i := by
      rintro rfl
      exact absurd hi (Nat.not_lt.2 hj)
    dsimp only
    rw [Function.update_of_ne hji]
    exact hs.fresh j hj
  · intro j k u hj hk
    dsimp only at hj hk
    by_cases hji : j = i
    · by_cases hki : k = i
      · rw [hji, hki]
      · rw [hji, Function.update_self, hjoin] at hj
        rw [Function.update_of_ne hki] at hk
        exact absurd (hk.trans hj.symm) (hnew k)
    · rw [Function.update_of_ne hji] at hj
      by_cases hki : k = i
      · rw [hki, Function.update_self, hjoin] at hk
        exact absurd (hj.trans hk.symm) (hnew j)
      · rw [Function.update_of_ne hki] at hk
        exact hs.distinct j k u hj hk
  · intro u hu
    dsimp only at hu ⊢
    by_cases hup : u = p.user_id
    · refine ⟨i, ?_⟩
      rw [hup, Function.update_self, Function.update_self]
      exact ⟨hsocket, hjoin, by rw [hregistering]; rfl⟩
    · rw [Function.update_of_ne hup] at hu ⊢
      obtain ⟨j, hsock, hjoin', hlist⟩ := hs.user u hu
      refine ⟨j, ?_⟩
      rw [Function.update_of_ne (hother j u hjoin')]
      exact ⟨hsock, hjoin', hlist⟩
  · refine (Function.forall_update_iff s.clients fun _ c => c.Agrees s.socketsMap).2
      ⟨?_, fun j _ => hs.agrees j⟩
    rw [Client.Agrees, hregistering]
    dsimp only
    rw [hpacket]
    exact hjoin

/-! ## Every step -/

/-- **A number in `usersMap` is the one of the connection that joined.** -/
theorem Listed.step (hs : Listed s) (howned : Owned s) {l : Step} (hok : JoinsOnce s l)
    (h : step s l = some t) : Listed t := by
  cases step_cases h with
  | acceptClient d _ => exact hs.connect d
  | readMessage i p hthread _ | hangUpKnown i p hthread _ =>
    exact hs.of_update (i := i) rfl rfl rfl rfl rfl rfl (by rw [hthread]; rfl) rfl
  | readOther i p hthread _ _ =>
    exact hs.of_update (i := i) rfl rfl rfl rfl rfl rfl (by rw [hthread]; rfl)
      (by rw [hthread]; rfl)
  | hangUpUnknown i hthread _ =>
    exact hs.of_update (i := i) rfl rfl rfl rfl rfl rfl (by rw [hthread]; rfl) rfl
  | handOver i x hthread _ =>
    exact hs.of_update (i := i) rfl rfl rfl rfl rfl rfl (by rw [hthread]; rfl) rfl
  | readJoin i p hthread hjoin =>
    obtain ⟨hjoined, hnew⟩ := hok hjoin
    refine hs.readJoin (x := ⟨i, s.generated.length, p⟩) howned hthread hjoined hnew ?_ ?_ ?_ ?_
    all_goals rfl
  | registerSocket i x hthread =>
    have hgone : (s.clients i).thread ≠ .gone := by rw [hthread]; simp
    have hagrees := hs.agrees i
    rw [Client.Agrees, hthread] at hagrees
    refine hs.setThread_socketsMap rfl ((Client.agrees_iff rfl).2 fun u hu => ?_)
      fun j hj hlive => howned.socket_ne hgone hlive hj
    dsimp only at hu hagrees ⊢
    rw [Function.update_self]
    exact Option.some.inj (hagrees.symm.trans hu)
  | forgetSocket i hthread =>
    have hgone : (s.clients i).thread ≠ .gone := by rw [hthread]; simp
    have hagrees := (Client.agrees_iff (by rw [hthread]; rfl)).1 (hs.agrees i)
    exact hs.setThread_socketsMap rfl hagrees fun j hj hlive => howned.socket_ne hgone hlive hj
  | forgetUser i w hthread => exact hs.forgetUser hthread
  | close i hthread => exact hs.close hthread
  | load w x hcall => exact hs.setCall hcall
  | written w x d c hcall _ => exact (hs.returns hcall).of_eq rfl rfl rfl rfl
  | failed w _ x d hcall => exact hs.setCall hcall
  | acceptServer | setServerSocket | found | notFound | delivered =>
    exact hs.of_eq rfl rfl rfl rfl
  | undelivered | loseServer | closeServer => exact hs.of_eq rfl rfl rfl rfl
  | forgetServerSocket d hthread =>
    have hserver : s.serverSocket = some d := by rw [serverSocket, hthread]
    exact hs.transfer rfl (fun _ => ⟨rfl, rfl⟩) (fun _ _ => rfl) (fun _ _ _ _ hl => hl)
      fun j => (hs.agrees j).update fun hlive => howned.socket_ne_server hlive hserver
  | forgetServerUser d w hthread =>
    refine hs.transfer rfl (fun _ => ⟨rfl, rfl⟩) (fun u hu => Function.update_of_ne ?_ ..)
      (fun _ _ _ _ hl => hl) hs.agrees
    rintro rfl
    exact hu (Function.update_self ..)

theorem listed_start (d : Nat) : Listed (start d) where
  fresh _ _ := rfl
  distinct _ _ _ hi := nomatch hi
  user _ hu := absurd rfl hu
  agrees _ := trivial

/-- Who has joined stays so, when every client joins once. -/
theorem joined_of_step (hs : Listed s) {l : Step} (hok : JoinsOnce s l) (h : step s l = some t)
    {u : Str} (hi : (s.clients i).joined = some u) : (t.clients i).joined = some u := by
  have hupdate : ∀ {j : Nat} {c : Client}, c.joined = (s.clients j).joined →
      (Function.update s.clients j c i).joined = some u := by
    intro j c hc
    by_cases hij : i = j
    · rw [hij, Function.update_self, hc, ← hij, hi]
    · rw [Function.update_of_ne hij, hi]
  have hcall : ∀ {w : Sender} {x : Outgoing} {c : Call},
      ((s.setCall w x c).clients i).joined = some u := by
    intro w x c
    cases w with
    | consumer => exact hi
    | client j => exact hupdate rfl
  cases step_cases h with
  | acceptClient d _ =>
    have hne : i ≠ s.connections := by
      rintro rfl
      rw [hs.fresh _ (Nat.le_refl _)] at hi
      cases hi
    simp only [ProxyFE.connect, Function.update_of_ne hne, hi]
  | readMessage | readOther | hangUpKnown | hangUpUnknown => exact hupdate rfl
  | registerSocket | handOver | forgetSocket | forgetUser | close => exact hupdate rfl
  | readJoin j p hthread hjoin =>
    have hij : i ≠ j := by
      rintro rfl
      rw [(hok hjoin).1] at hi
      cases hi
    simp only [Function.update_of_ne hij, hi]
  | load | failed => exact hcall
  | written w x =>
    cases w with
    | consumer => exact hi
    | client j => exact hupdate rfl
  | _ => exact hi

end ProxyFE

end InstantMessenger
