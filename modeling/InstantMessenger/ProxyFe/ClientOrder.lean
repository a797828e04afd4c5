import InstantMessenger.ProxyFe.ServerBound

/-!
# The packets of one client

A JOIN and a DISCONNECT are sent by the thread of their client, a message by the
consumer: while the consumer retries, the thread goes on reading.

* `ofClient`, `writtenToServer` — the packets of one client, and those that were
  written to a server.
* `OwnSent` — the condition on a run: no thread comes to a JOIN or a DISCONNECT while the
  consumer has a message of its client.
* `InOrder` — **the invariant**: what was sent, what the consumer has and what the thread
  has are, in this order, what was read or generated.
* `ServerBack`, `serverBack_of_reachable` — an outage can end.
* `written_in_order` — **then the packets of a client are written in order**.
-/

namespace InstantMessenger

open Descriptors

namespace ProxyFE

variable {s t : ProxyFE} {i : Nat}

/-- The packets of the client `i`. -/
def ofClient (i : Nat) (xs : List Outgoing) : List Outgoing := xs.filter fun x => x.client == i

/-- What was written to a server. -/
def writtenToServer (s : ProxyFE) : List Outgoing :=
  (s.sent.filter fun w => w.2 == .server).map Prod.fst

/-- The consumer has no message of the client `i`. -/
def NotConsumed (s : ProxyFE) (i : Nat) : Prop :=
  ∀ x, s.processing_message = some x → x.client ≠ i

/-- A packet that a thread sends itself does not meet a message of its client in the
consumer. -/
def OwnSent (s : ProxyFE) : Step → Prop
  | .readClient i p => p.isJoinMessage = true → s.NotConsumed i
  | .hangUp i => ∀ userID, (s.clients i).userID = some userID → s.NotConsumed i
  | _ => True

/-! ## Packets by client -/

theorem ofClient_append (i : Nat) (xs ys : List Outgoing) :
    ofClient i (xs ++ ys) = ofClient i xs ++ ofClient i ys := List.filter_append ..

theorem ofClient_self {x : Outgoing} (h : x.client = i) : ofClient i [x] = [x] :=
  List.filter_cons_of_pos (by simpa using h)

theorem ofClient_of_ne {x : Outgoing} (h : x.client ≠ i) : ofClient i [x] = [] :=
  List.filter_cons_of_neg (by simpa using h)

theorem ofClient_slot (h : s.NotConsumed i) : ofClient i s.processing_message.toList = [] := by
  cases hslot : s.processing_message with
  | none => rfl
  | some x => exact ofClient_of_ne (h x hslot)

/-- The packet that a thread has. -/
def ClientThread.holds : ClientThread → List Outgoing
  | .registering x | .waiting x | .sending x _ => [x]
  | _ => []

/-- The thread sends the packet itself. -/
def ClientThread.isDirect : ClientThread → Bool
  | .registering _ | .sending _ _ => true
  | _ => false

/-! ## What was sent, and what is on its way -/

/-- The packets of a client in the order in which they were read or generated: those
that were sent, the one the consumer has, and the one its thread has. -/
structure InOrder (s : ProxyFE) : Prop where
  order : ∀ i, ofClient i (s.sent.map Prod.fst) ++
    (ofClient i s.processing_message.toList ++ (s.clients i).thread.holds) =
      ofClient i s.generated
  own : ∀ i, ∀ x ∈ (s.clients i).thread.holds, x.client = i
  alone : ∀ i, (s.clients i).thread.isDirect = true → s.NotConsumed i

/-- No packet moves. -/
theorem InOrder.of_eq (hs : InOrder s) (hsent : t.sent = s.sent)
    (hslot : t.processing_message = s.processing_message) (hgenerated : t.generated = s.generated)
    (hholds : ∀ j, (t.clients j).thread.holds = (s.clients j).thread.holds)
    (hdirect : ∀ j, (t.clients j).thread.isDirect = true → (s.clients j).thread.isDirect = true) :
    InOrder t where
  order j := by
    rw [hsent, hslot, hgenerated, hholds]
    exact hs.order j
  own j x hx := hs.own j x (hholds j ▸ hx)
  alone j hj x hx := hs.alone j (hdirect j hj) x (hslot ▸ hx)

/-- A thread goes on with the packet it has, or without one. -/
theorem InOrder.of_update (hs : InOrder s) {c : Client} (hsent : t.sent = s.sent)
    (hslot : t.processing_message = s.processing_message) (hgenerated : t.generated = s.generated)
    (hclients : t.clients = Function.update s.clients i c)
    (hholds : c.thread.holds = (s.clients i).thread.holds)
    (hdirect : c.thread.isDirect = true → (s.clients i).thread.isDirect = true) : InOrder t := by
  refine hs.of_eq hsent hslot hgenerated ?_ ?_ <;> rw [hclients]
  · exact (Function.forall_update_iff s.clients fun j c =>
      c.thread.holds = (s.clients j).thread.holds).2 ⟨hholds, fun _ _ => rfl⟩
  · exact (Function.forall_update_iff s.clients fun j c =>
      c.thread.isDirect = true → (s.clients j).thread.isDirect = true).2
        ⟨hdirect, fun _ _ hd => hd⟩

theorem InOrder.setCall (hs : InOrder s) {w : Sender} {x : Outgoing} {c c' : Call}
    (hcall : s.call w = some (x, c)) : InOrder (s.setCall w x c') := by
  cases w with
  | consumer => exact hs.of_eq rfl rfl rfl (fun _ => rfl) fun _ h => h
  | client i =>
    have hthread := call_client hcall
    exact hs.of_update (i := i) rfl rfl rfl rfl (by rw [hthread]; rfl) fun _ => by rw [hthread]; rfl

/-- **One client changes**: what is asked of it, and of every other client. -/
theorem InOrder.update {c : Client} (hclients : t.clients = Function.update s.clients i c)
    (horder : ofClient i (t.sent.map Prod.fst) ++
        (ofClient i t.processing_message.toList ++ c.thread.holds) = ofClient i t.generated ∧
      ∀ j, j ≠ i → ofClient j (t.sent.map Prod.fst) ++
        (ofClient j t.processing_message.toList ++ (s.clients j).thread.holds) =
          ofClient j t.generated)
    (hown : (∀ x ∈ c.thread.holds, x.client = i) ∧
      ∀ j, j ≠ i → ∀ x ∈ (s.clients j).thread.holds, x.client = j)
    (halone : (c.thread.isDirect = true → t.NotConsumed i) ∧
      ∀ j, j ≠ i → (s.clients j).thread.isDirect = true → t.NotConsumed j) : InOrder t := by
  constructor <;> rw [hclients]
  · exact (Function.forall_update_iff s.clients fun j c => ofClient j (t.sent.map Prod.fst) ++
      (ofClient j t.processing_message.toList ++ c.thread.holds) = ofClient j t.generated).2 horder
  · exact (Function.forall_update_iff s.clients fun j c =>
      ∀ x ∈ c.thread.holds, x.client = j).2 hown
  · exact (Function.forall_update_iff s.clients fun j c =>
      c.thread.isDirect = true → t.NotConsumed j).2 halone

/-- A packet is read or generated by a thread that has none. -/
theorem InOrder.generate (hs : InOrder s) {c : Client} {x : Outgoing} (hsent : t.sent = s.sent)
    (hslot : t.processing_message = s.processing_message)
    (hgenerated : t.generated = s.generated ++ [x]) (hx : x.client = i)
    (hclients : t.clients = Function.update s.clients i c)
    (hbefore : (s.clients i).thread.holds = []) (hafter : c.thread.holds = [x])
    (halone : c.thread.isDirect = true → s.NotConsumed i) : InOrder t := by
  refine .update hclients ⟨?_, ?_⟩ ⟨?_, ?_⟩ ⟨?_, ?_⟩
  · have horder := hs.order i
    rw [hbefore, List.append_nil] at horder
    rw [hsent, hslot, hgenerated, ofClient_append, hafter, ofClient_self hx, ← List.append_assoc,
      horder]
  · intro j hji
    rw [hsent, hslot, hgenerated, ofClient_append, ofClient_of_ne (by rw [hx]; exact Ne.symm hji),
      List.append_nil, hs.order j]
  · intro y hy
    rw [hafter] at hy
    rw [List.mem_singleton.1 hy, hx]
  · exact fun j _ => hs.own j
  · intro hd y hy
    exact halone hd y (hslot ▸ hy)
  · intro j _ hd y hy
    exact hs.alone j hd y (hslot ▸ hy)

/-- A message goes from its thread to the consumer. -/
theorem InOrder.handOver (hs : InOrder s) {x : Outgoing}
    (hthread : (s.clients i).thread = .waiting x)
    (hslot : s.processing_message = none) :
    InOrder { s.setThread i .reading with processing_message := some x, consumer := .retry } := by
  have hx : x.client = i := hs.own i x (by rw [hthread]; exact List.mem_singleton_self x)
  refine .update (s := s) (i := i) rfl ⟨?_, ?_⟩ ⟨fun _ hy => absurd hy List.not_mem_nil, ?_⟩
    ⟨by simp [ClientThread.isDirect], ?_⟩
  · have horder := hs.order i
    rw [hslot, hthread] at horder
    show _ ++ (ofClient i [x] ++ []) = _
    rw [ofClient_self hx, List.append_nil]
    exact horder
  · intro j hji
    have horder := hs.order j
    rw [hslot] at horder
    show _ ++ (ofClient j [x] ++ _) = _
    rw [ofClient_of_ne (by rw [hx]; exact Ne.symm hji)]
    exact horder
  · exact fun j _ => hs.own j
  · intro j hji _ y hy
    obtain rfl := Option.some.inj hy
    rw [hx]
    exact Ne.symm hji

/-- A packet is sent. -/
theorem InOrder.written (hs : InOrder s) {w : Sender} {x : Outgoing} {call : Call} {c : Connection}
    (hcall : s.call w = some (x, call)) :
    InOrder { s.returns w x with sent := s.sent ++ [(x, c)] } := by
  cases w with
  | consumer =>
    obtain ⟨hslot, -⟩ := call_consumer hcall
    refine ⟨?_, hs.own, fun j _ y hy => nomatch hy⟩
    intro j
    have horder := hs.order j
    rw [hslot] at horder
    show ofClient j ((s.sent ++ [(x, c)]).map Prod.fst) ++ ([] ++ _) = _
    rw [List.map_append, ofClient_append, List.append_assoc]
    exact horder
  | client i =>
    have hthread := call_client hcall
    have hx : x.client = i := hs.own i x (by rw [hthread]; exact List.mem_singleton_self x)
    have hempty : ofClient i s.processing_message.toList = [] :=
      ofClient_slot (hs.alone i (by rw [hthread]; rfl))
    have hafter : (if x.packet.isDisconnect then ClientThread.leaving else .reading).holds = [] ∧
        (if x.packet.isDisconnect then ClientThread.leaving else .reading).isDirect = false := by
      split <;> exact ⟨rfl, rfl⟩
    refine .update (s := s) (i := i) rfl ⟨?_, ?_⟩ ⟨?_, fun j _ => hs.own j⟩
      ⟨?_, fun j _ => hs.alone j⟩
    · have horder := hs.order i
      rw [hthread, hempty] at horder
      show ofClient i ((s.sent ++ [(x, c)]).map Prod.fst) ++
        (ofClient i s.processing_message.toList ++ ClientThread.holds _) = _
      rw [List.map_append, ofClient_append, hafter.1, hempty]
      show _ ++ ofClient i [x] ++ ([] ++ []) = _
      rw [ofClient_self hx, List.append_assoc]
      exact horder
    · intro j hji
      show ofClient j ((s.sent ++ [(x, c)]).map Prod.fst) ++ _ = _
      rw [List.map_append, ofClient_append]
      show _ ++ ofClient j [x] ++ _ = _
      rw [ofClient_of_ne (by rw [hx]; exact Ne.symm hji), List.append_nil]
      exact hs.order j
    · intro y hy
      rw [hafter.1] at hy
      exact absurd hy List.not_mem_nil
    · intro hd
      rw [hafter.2] at hd
      cases hd

/-! ## Every run -/

theorem InOrder.step (hs : InOrder s) (howned : Owned s) {l : Step} (hok : OwnSent s l)
    (h : step s l = some t) : InOrder t := by
  cases step_cases h with
  | acceptClient d _ =>
    have hgone := howned.fresh s.connections (Nat.le_refl _)
    exact hs.of_update (i := s.connections) rfl rfl rfl rfl (by rw [hgone]; rfl)
      (by simp [ClientThread.isDirect])
  | readMessage i p hthread _ =>
    exact hs.generate (i := i) (x := ⟨i, s.generated.length, p⟩) rfl rfl rfl rfl rfl
      (by rw [hthread]; rfl) rfl (by simp [ClientThread.isDirect])
  | readJoin i p hthread hjoin =>
    exact hs.generate (i := i) (x := ⟨i, s.generated.length, p⟩) rfl rfl rfl rfl rfl
      (by rw [hthread]; rfl) rfl fun _ => hok hjoin
  | hangUpKnown i userID hthread hknown =>
    exact hs.generate (i := i) (x := ⟨i, s.generated.length, _⟩) rfl rfl rfl rfl rfl
      (by rw [hthread]; rfl) rfl fun _ => hok userID hknown
  | readOther i p hthread _ _ => exact hs.of_update (i := i) rfl rfl rfl rfl rfl fun hd => hd
  | hangUpUnknown i hthread _ | forgetSocket i hthread | close i hthread =>
    exact hs.of_update (i := i) rfl rfl rfl rfl (by rw [hthread]; rfl)
      (by simp [ClientThread.isDirect])
  | registerSocket i x hthread =>
    exact hs.of_update (i := i) rfl rfl rfl rfl (by rw [hthread]; rfl) fun _ => by rw [hthread]; rfl
  | forgetUser i w hthread =>
    exact hs.of_update (i := i) rfl rfl rfl rfl (by rw [hthread]; rfl)
      (by simp [ClientThread.isDirect])
  | handOver i x hthread hslot => exact hs.handOver hthread hslot
  | load w x hcall => exact hs.setCall hcall
  | written w x d c hcall _ => exact hs.written hcall
  | failed w _ x d hcall => exact hs.setCall hcall
  | acceptServer | setServerSocket | found | notFound | delivered | undelivered =>
    exact hs.of_eq rfl rfl rfl (fun _ => rfl) fun _ hd => hd
  | loseServer | forgetServerSocket | forgetServerUser | closeServer =>
    exact hs.of_eq rfl rfl rfl (fun _ => rfl) fun _ hd => hd

theorem inOrder_start (d : Nat) : InOrder (start d) where
  order _ := rfl
  own _ _ hx := absurd hx List.not_mem_nil
  alone _ hd := nomatch hd

theorem inOrder_of_reachesWhen (h : proxyFE.ReachesWhen OwnSent s) : InOrder s := by
  have hboth : Owned s ∧ InOrder s := by
    refine Transition.System.ReachesWhen.invariant (I := fun s => Owned s ∧ InOrder s) h
      ?_ fun s l t hs hok hst => ?_
    · rintro s ⟨d, rfl⟩
      exact ⟨owned_start d, inOrder_start d⟩
    · exact ⟨hs.1.step hst, hs.2.step hs.1 hok hst⟩
  exact hboth.2

/-- What was written to a server is, for every client, in the order in which it was read
or generated. -/
theorem InOrder.sublist (hs : InOrder s) (i : Nat) :
    (ofClient i s.writtenToServer).Sublist (ofClient i s.generated) := by
  have hwritten : s.writtenToServer.Sublist (s.sent.map Prod.fst) :=
    List.Sublist.map _ List.filter_sublist
  refine (hwritten.filter _).trans ?_
  rw [← hs.order i]
  exact List.sublist_append_left ..

/-! ## Serial numbers -/

/-- The packets are numbered in the order in which they were read or generated. -/
structure Numbered (s : ProxyFE) : Prop where
  below : ∀ x ∈ s.generated, x.serial < s.generated.length
  increasing : s.generated.Pairwise fun x y => x.serial < y.serial

theorem setCall_generated (s : ProxyFE) (w : Sender) (x : Outgoing) (c : Call) :
    (s.setCall w x c).generated = s.generated := by
  cases w <;> rfl

theorem returns_generated (s : ProxyFE) (w : Sender) (x : Outgoing) :
    (s.returns w x).generated = s.generated := by
  cases w <;> rfl

theorem generated_of_step {l : Step} (h : step s l = some t) :
    t.generated = s.generated ∨
      ∃ x, x.serial = s.generated.length ∧ t.generated = s.generated ++ [x] := by
  cases step_cases h with
  | readMessage | readJoin | hangUpKnown => exact .inr ⟨_, rfl, rfl⟩
  | load | failed => exact .inl (setCall_generated ..)
  | written => exact .inl (returns_generated ..)
  | _ => exact .inl rfl

theorem Numbered.append (hs : Numbered s) {x : Outgoing} (hx : x.serial = s.generated.length)
    (ht : t.generated = s.generated ++ [x]) : Numbered t := by
  refine ⟨?_, ?_⟩
  · intro y hy
    rw [ht] at hy ⊢
    rw [List.length_append, List.length_singleton]
    rcases List.mem_append.1 hy with hy | hy
    · have hlt := hs.below y hy
      omega
    · rw [List.mem_singleton.1 hy, hx]
      omega
  · rw [ht]
    refine List.pairwise_append.2 ⟨hs.increasing, List.pairwise_singleton .., fun y hy z hz => ?_⟩
    rw [List.mem_singleton.1 hz, hx]
    exact hs.below y hy

theorem numbered_of_reachable (h : proxyFE.Reachable s) : Numbered s := by
  refine Transition.System.Reachable.invariant (I := Numbered) h ?_ fun s l t hs hst => ?_
  · rintro s ⟨d, rfl⟩
    exact ⟨fun _ hx => absurd hx List.not_mem_nil, List.Pairwise.nil⟩
  · rcases generated_of_step hst with hsame | ⟨x, hx, hnew⟩
    · exact ⟨hsame ▸ hs.below, hsame ▸ hs.increasing⟩
    · exact hs.append hx hnew

/-! ## Overtaking -/

/-- Only the threads for the server have moved. -/
structure SameWork (s t : ProxyFE) : Prop where
  clients : t.clients = s.clients
  slot : t.processing_message = s.processing_message
  consumer : t.consumer = s.consumer
  sent : t.sent = s.sent
  generated : t.generated = s.generated

/-- The server can be there again, without anything else having moved. -/
def ServerBack (s : ProxyFE) : Prop :=
  ∃ u, proxyFE.Reaches s u ∧ SameWork s u ∧ u.owner u.serverRM_socket = some .server

/-- A step of a thread for the server, and on. -/
theorem ServerBack.of_step {l : Step} (hst : step s l = some t) (hsame : SameWork s t)
    (ht : ServerBack t) : ServerBack s := by
  obtain ⟨u, hu, hsame', hopen⟩ := ht
  exact ⟨u, reaches_of_step hst hu, ⟨hsame'.1.trans hsame.1, hsame'.2.trans hsame.2,
    hsame'.3.trans hsame.3, hsame'.4.trans hsame.4, hsame'.5.trans hsame.5⟩, hopen⟩

theorem serverBack_accepted {d : Nat} (hthread : s.serverThread = .accepted d)
    (hopen : s.owner d = some .server) : ServerBack s := by
  have hset : step s .setServerSocket =
      some { s with serverRM_socket := d, serverThread := .listening } := by
    simp only [step, hthread]
  refine .of_step hset ⟨rfl, rfl, rfl, rfl, rfl⟩ ?_
  exact ⟨_, .refl _, ⟨rfl, rfl, rfl, rfl, rfl⟩, hopen⟩

theorem serverBack_accepting (hs : proxyFE.Reachable s) (hthread : s.serverThread = .accepting) :
    ServerBack s := by
  obtain ⟨d, hfree⟩ := exists_free hs
  have haccept : step s (.acceptServer d) =
      some { s with owner := give s.owner d .server, serverThread := .accepted d } := by
    simp only [step]
    rw [if_pos ⟨hthread, hfree⟩]
  exact .of_step haccept ⟨rfl, rfl, rfl, rfl, rfl⟩ (serverBack_accepted rfl (give_self ..))

theorem serverBack_closing (hs : proxyFE.Reachable s) {d : Nat}
    (hthread : s.serverThread = .closing d) : ServerBack s := by
  have hclose : step s .closeServer =
      some { s with serverThread := .accepting, owner := release s.owner d } := by
    simp only [step, hthread]
  exact .of_step hclose ⟨rfl, rfl, rfl, rfl, rfl⟩
    (serverBack_accepting (reachable_of_step hs hclose) rfl)

theorem serverBack_forgetting (hs : proxyFE.Reachable s) {d : Nat} {w : Str}
    (hthread : s.serverThread = .forgetting d w) : ServerBack s := by
  have hforget : step s .forgetServerUser = some { s with
      serverThread := .closing d
      usersMap := Function.update s.usersMap w 0 } := by
    simp only [step, hthread]
  exact .of_step hforget ⟨rfl, rfl, rfl, rfl, rfl⟩
    (serverBack_closing (reachable_of_step hs hforget) rfl)

theorem serverBack_leaving (hs : proxyFE.Reachable s) {d : Nat}
    (hthread : s.serverThread = .leaving d) : ServerBack s := by
  have hforget : step s .forgetServerSocket = some { s with
      serverThread := .forgetting d (s.socketsMap d)
      socketsMap := Function.update s.socketsMap d [] } := by
    simp only [step, hthread]
  exact .of_step hforget ⟨rfl, rfl, rfl, rfl, rfl⟩
    (serverBack_forgetting (reachable_of_step hs hforget) rfl)

/-- **An outage can end**: from every state the server can be there again, and nothing
else has moved. -/
theorem serverBack_of_reachable (hs : proxyFE.Reachable s) : ServerBack s := by
  have howned := owned_of_reachable hs
  cases hthread : s.serverThread with
  | accepting => exact serverBack_accepting hs hthread
  | accepted d =>
    exact serverBack_accepted hthread (howned.server d (by rw [serverSocket, hthread]))
  | listening | found p d =>
    exact ⟨s, .refl s, ⟨rfl, rfl, rfl, rfl, rfl⟩,
      howned.server s.serverRM_socket (by rw [serverSocket, hthread])⟩
  | leaving d => exact serverBack_leaving hs hthread
  | forgetting d w => exact serverBack_forgetting hs hthread
  | closing d => exact serverBack_closing hs hthread

/-- The consumer sends the message it has. -/
theorem reaches_consumed {x : Outgoing} (hslot : s.processing_message = some x)
    (hopen : s.owner s.serverRM_socket = some .server) :
    proxyFE.Reaches s { s.returns .consumer x with sent := s.sent ++ [(x, .server)] } := by
  cases hconsumer : s.consumer with
  | retry => exact reaches_sent (by rw [call, hslot, hconsumer]; rfl) hopen
  | writing d =>
    have hcall : s.call .consumer = some (x, .writing d) := by
      rw [call, hslot, hconsumer]
      rfl
    have hfailed : step s (.write .consumer false) = some (s.setCall .consumer x .retry) := by
      simp only [step, hcall]
    have hsend := @reaches_sent (s.setCall .consumer x .retry) .consumer x .server
      (call_setCall hcall) hopen
    exact reaches_of_step hfailed hsend

/-- **Overtaking.**  A thread that is about to send, while the consumer has an earlier message
of its client, can be faster. -/
theorem reaches_overtaken (hs : proxyFE.Reachable s) {x y : Outgoing}
    (hthread : (s.clients i).thread = .sending y .retry) (hslot : s.processing_message = some x)
    (hx : x.client = i) (hy : y.client = i) (hlt : x.serial < y.serial) :
    ∃ u, proxyFE.Reaches s u ∧
      ¬ (ofClient i u.writtenToServer).Sublist (ofClient i u.generated) := by
  obtain ⟨t, hst, hsame, hopen⟩ := serverBack_of_reachable hs
  have hcall : t.call (.client i) = some (y, .retry) := by rw [call, hsame.clients, hthread]
  have hown := reaches_sent hcall hopen
  have hconsumed := @reaches_consumed
    { t.returns (.client i) y with sent := t.sent ++ [(y, .server)] } x
    (hsame.slot.trans hslot) hopen
  refine ⟨_, hst.trans (hown.trans hconsumed), ?_⟩
  intro hsub
  have hnumbered : s.generated.Pairwise fun x y => x.serial < y.serial :=
    (numbered_of_reachable hs).increasing
  have hlast : [y, x].Sublist s.generated := by
    have hgenerated : (ofClient i t.generated).Sublist s.generated := by
      rw [hsame.generated]
      exact List.filter_sublist
    refine List.Sublist.trans ?_ (hsub.trans hgenerated)
    simp only [writtenToServer, List.filter_append, List.map_append, ofClient_append]
    show List.Sublist [y, x] (_ ++ ofClient i [y] ++ ofClient i [x])
    rw [ofClient_self hx, ofClient_self hy, List.append_assoc]
    exact List.sublist_append_right ..
  have hpair := hnumbered.sublist hlast
  have hyx := List.rel_of_pairwise_cons hpair (List.mem_singleton_self x)
  omega

/-- The same one step earlier, for a JOIN. -/
theorem reaches_overtaken_registering (hs : proxyFE.Reachable s) {x y : Outgoing}
    (hthread : (s.clients i).thread = .registering y) (hslot : s.processing_message = some x)
    (hx : x.client = i) (hy : y.client = i) (hlt : x.serial < y.serial) :
    ∃ u, proxyFE.Reaches s u ∧
      ¬ (ofClient i u.writtenToServer).Sublist (ofClient i u.generated) := by
  have hregister : step s (.registerSocket i) = some { s.setThread i (.sending y .retry) with
      socketsMap := Function.update s.socketsMap (s.clients i).socket y.packet.user_id } := by
    simp only [step, hthread]
  obtain ⟨u, hu, hnot⟩ :=
    reaches_overtaken (reachable_of_step hs hregister) (setThread_thread ..) hslot hx hy hlt
  exact ⟨u, reaches_of_step hregister hu, hnot⟩

/-- The message that the consumer has was read. -/
theorem InOrder.slot_mem (hs : InOrder s) {x : Outgoing} (hslot : s.processing_message = some x) :
    x ∈ s.generated := by
  have horder := hs.order x.client
  rw [hslot] at horder
  have hmem : x ∈ ofClient x.client s.generated := by
    rw [← horder]
    show x ∈ _ ++ (ofClient x.client [x] ++ _)
    rw [ofClient_self rfl]
    exact List.mem_append_right _ (List.mem_append_left _ (List.mem_singleton_self x))
  exact (List.mem_filter.1 hmem).1

/-- A JOIN that is read while the consumer has a message of its client. -/
theorem reaches_overtaken_join (hs : proxyFE.ReachesWhen OwnSent s) {p : Packet}
    (h : step s (.readClient i p) = some t) (hjoin : p.isJoinMessage = true) {x : Outgoing}
    (hslot : s.processing_message = some x) (hx : x.client = i) :
    ∃ u, proxyFE.Reaches t u ∧
      ¬ (ofClient i u.writtenToServer).Sublist (ofClient i u.generated) := by
  have ht : proxyFE.Reachable t := reachable_of_step hs.reachable h
  have hlt := (numbered_of_reachable hs.reachable).below x
    ((inOrder_of_reachesWhen hs).slot_mem hslot)
  cases step_cases h with
  | readMessage _ _ _ hmessage =>
    rw [Packet.isJoinMessage, beq_iff_eq] at hjoin
    rw [Packet.isMessage, hjoin] at hmessage
    cases hmessage
  | readOther _ _ _ _ hother =>
    rw [hjoin] at hother
    cases hother
  | readJoin _ _ _ _ =>
    have hthread' : (Function.update s.clients i
        { s.clients i with
          userID := some ((s.clients i).userID.getD p.user_id)
          joined := some p.user_id
          thread := .registering ⟨i, s.generated.length, p⟩ } i).thread =
        .registering ⟨i, s.generated.length, p⟩ := by
      rw [Function.update_self]
    exact reaches_overtaken_registering ht hthread' hslot hx rfl hlt

/-- A client that ends while the consumer has a message of it. -/
theorem reaches_overtaken_hangUp (hs : proxyFE.ReachesWhen OwnSent s)
    (h : step s (.hangUp i) = some t) {userID : Str} (hknown : (s.clients i).userID = some userID)
    {x : Outgoing} (hslot : s.processing_message = some x) (hx : x.client = i) :
    ∃ u, proxyFE.Reaches t u ∧
      ¬ (ofClient i u.writtenToServer).Sublist (ofClient i u.generated) := by
  have ht : proxyFE.Reachable t := reachable_of_step hs.reachable h
  have hlt := (numbered_of_reachable hs.reachable).below x
    ((inOrder_of_reachesWhen hs).slot_mem hslot)
  cases step_cases h with
  | hangUpUnknown _ _ hunknown =>
    rw [hknown] at hunknown
    cases hunknown
  | hangUpKnown _ _ _ _ =>
    exact reaches_overtaken (i := i) ht (setThread_thread ..) hslot hx rfl hlt

/-- **Per-client order through the front end.**  When no thread comes to a packet that it sends
itself, a JOIN or a DISCONNECT, while the consumer has a message of its client, the
packets of every client are written to the server in the order in which they were read
or generated; and after any step against the condition they can be overtaken. -/
theorem written_in_order (s : ProxyFE) :
    (proxyFE.ReachesWhen OwnSent s → ∀ i,
      (ofClient i s.writtenToServer).Sublist (ofClient i s.generated)) ∧
      ∀ l t, proxyFE.ReachesWhen OwnSent s → step s l = some t → ¬ OwnSent s l →
        ∃ u i, proxyFE.Reaches t u ∧
          ¬ (ofClient i u.writtenToServer).Sublist (ofClient i u.generated) := by
  refine ⟨fun hs i => (inOrder_of_reachesWhen hs).sublist i, ?_⟩
  intro l t hs hst hnot
  cases l with
  | readClient i p =>
    obtain ⟨hjoin, hslot⟩ := Classical.not_imp.1 hnot
    obtain ⟨x, hx⟩ := not_forall.1 hslot
    obtain ⟨hslot, hclient⟩ := Classical.not_imp.1 hx
    obtain ⟨u, hu, hsub⟩ := reaches_overtaken_join hs hst hjoin hslot (not_not.1 hclient)
    exact ⟨u, i, hu, hsub⟩
  | hangUp i =>
    obtain ⟨userID, huser⟩ := not_forall.1 hnot
    obtain ⟨hknown, hslot⟩ := Classical.not_imp.1 huser
    obtain ⟨x, hx⟩ := not_forall.1 hslot
    obtain ⟨hslot, hclient⟩ := Classical.not_imp.1 hx
    obtain ⟨u, hu, hsub⟩ := reaches_overtaken_hangUp hs hst hknown hslot (not_not.1 hclient)
    exact ⟨u, i, hu, hsub⟩
  | _ => exact absurd trivial hnot

/-! ## One client -/

/-- The check of `OwnSent`. -/
def ownSent (s : ProxyFE) : Step → Bool
  | .readClient i p => !p.isJoinMessage || s.processing_message.all fun x => x.client != i
  | .hangUp i => s.processing_message.all fun x => x.client != i
  | _ => true

theorem ownSent_sound (s : ProxyFE) (l : Step) (h : ownSent s l = true) : OwnSent s l := by
  have hslot : ∀ i, (s.processing_message.all fun x => x.client != i) = true →
      s.NotConsumed i := by
    intro i hall x hx
    rw [hx] at hall
    simpa using hall
  cases l with
  | readClient i p =>
    intro hjoin
    rw [ownSent, hjoin] at h
    exact hslot i h
  | hangUp i => exact fun _ _ => hslot i h
  | _ => trivial

/-- A client joins and sends a message, which the consumer takes. -/
def joinsAndSends : List Step :=
  [.acceptClient 6, .readClient 0 { type := .JOIN_PACKET }, .registerSocket 0, .load (.client 0),
    .write (.client 0) true, .readClient 0 { type := .MESSAGE_PACKET }, .handOver 0]

/-- The consumer's call, with a retry. -/
def consumed : List Step :=
  [.load .consumer, .write .consumer false, .load .consumer, .write .consumer true]

/-- The client ends, and its thread sends the DISCONNECT. -/
def disconnects : List Step := [.hangUp 0, .load (.client 0), .write (.client 0) true]

/-- The message is sent, and then the client ends; had it ended before, the DISCONNECT could
have been faster. -/
theorem written_in_order_one :
    (∃ s, proxyFE.Reachable s ∧ s.sent.length = 3 ∧
      (ofClient 0 s.writtenToServer).Sublist (ofClient 0 s.generated)) ∧
      ∃ t u, proxyFE.Reachable t ∧ proxyFE.Reaches t u ∧
        ∃ i, ¬ (ofClient i u.writtenToServer).Sublist (ofClient i u.generated) := by
  obtain ⟨s, hs⟩ : ∃ s, proxyFE.execWhen ownSent (start 5)
      (joinsAndSends ++ consumed ++ disconnects) = some s := ⟨_, rfl⟩
  have hrun : proxyFE.ReachesWhen OwnSent s :=
    Transition.System.reachesWhen_of_execWhen ownSent_sound (.start ⟨5, rfl⟩) hs
  obtain ⟨r, hr⟩ : ∃ r, proxyFE.execWhen ownSent (start 5) joinsAndSends = some r := ⟨_, rfl⟩
  have hrun' : proxyFE.ReachesWhen OwnSent r :=
    Transition.System.reachesWhen_of_execWhen ownSent_sound (.start ⟨5, rfl⟩) hr
  obtain ⟨t, ht⟩ : ∃ t, step r (.hangUp 0) = some t := by
    cases hr
    exact ⟨_, rfl⟩
  have hnot : ¬ OwnSent r (.hangUp 0) := by
    cases hr
    exact fun h => h [] rfl _ rfl rfl
  obtain ⟨u, i, hu, hsub⟩ := (written_in_order r).2 _ t hrun' ht hnot
  refine ⟨⟨s, hrun.reachable, ?_, (written_in_order s).1 hrun 0⟩, t, u,
    reachable_of_step hrun'.reachable ht, hu, i, hsub⟩
  cases hs
  rfl

/-- The client ends while the consumer has its message: the server reads its DISCONNECT
before the message. -/
theorem written_in_order_counterexample :
    ∃ s, proxyFE.Reachable s ∧
      (ofClient 0 s.generated).map (fun x => x.packet.type) =
        [.JOIN_PACKET, .MESSAGE_PACKET, .DISCONNECT_PACKET] ∧
      (ofClient 0 s.writtenToServer).map (fun x => x.packet.type) =
        [.JOIN_PACKET, .DISCONNECT_PACKET, .MESSAGE_PACKET] ∧
      ¬ (ofClient 0 s.writtenToServer).Sublist (ofClient 0 s.generated) := by
  obtain ⟨s, hs⟩ : ∃ s, proxyFE.exec (start 5) (joinsAndSends ++ disconnects ++ consumed) =
      some s := ⟨_, rfl⟩
  refine ⟨s, Transition.System.reachable_of_exec ⟨5, rfl⟩ hs, ?_⟩
  cases hs
  exact ⟨rfl, rfl, by decide⟩

end ProxyFE

end InstantMessenger
