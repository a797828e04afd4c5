import InstantMessenger.Server.Server

/-!
# One replication link

The two directions of a replication socket and the threads that read it: the
`handleRMCommunication` thread of the backup, and on a primary that was promoted
the thread it started when it was a backup itself, which goes on reading the same
socket.  Both run the same loop: pass the semaphore, read, handle, confirm.

* `rmStep` — one step of that loop; `Link.atBackup`, `Link.atPrimary` — the step at
  either end of the link.
* `Link.Quiet` — nothing is in flight and nobody holds a packet.
* `Link.Token` — **a replication in progress is one token**: the packet on its way
  or in the hands of the backup, or a confirmation for it anywhere, and then the
  backup has handled the packet.
-/

namespace InstantMessenger

/-- A packet on a link.  The serial number tells apart packets with the same
contents. -/
structure Tagged where
  serial : Nat
  packet : Packet
  deriving DecidableEq, Repr

/-- The answer of `handleRMCommunication`. -/
def confirmationPacket : Tagged := ⟨0, { type := .REPLICATION_CONFIRMATION_PACKET }⟩

/-- Where a `handleRMCommunication` thread is in its loop. -/
inductive RmThread where
  /-- In front of `wait` and `post`. -/
  | waiting
  | reading
  | received (x : Tagged)
  /-- The packet is handled, the confirmation not yet sent. -/
  | handled
  deriving DecidableEq, Repr

/-- The thread holds no packet. -/
def RmThread.idle : RmThread → Bool
  | .waiting => true
  | .reading => true
  | .received _ => false
  | .handled => false

/-- A step of the loop: the thread after it, what is left to read, what is sent,
and what is handled. -/
structure RmStep where
  thread : RmThread
  incoming : List Tagged
  sent : List Tagged := []
  handles : Option Tagged := none

/-- The next step of the loop of `handleRMCommunication`. -/
def rmStep (semaphoreFree : Bool) (incoming : List Tagged) : RmThread → Option RmStep
  | .waiting => if semaphoreFree then some { thread := .reading, incoming } else none
  | .reading =>
    match incoming with
    | [] => none
    | x :: rest => some { thread := .received x, incoming := rest }
  | .received x => some { thread := .handled, incoming, handles := some x }
  | .handled => some { thread := .waiting, incoming, sent := [confirmationPacket] }

/-- A link, with the memory of the backup at its end. -/
structure Link where
  toBackup : List Tagged
  toPrimary : List Tagged
  backup : Server
  backupThread : RmThread
  /-- The thread of a promoted primary, if it was promoted. -/
  primaryThread : Option RmThread
  /-- The serial numbers of the messages on which the backup has run
  `processReceivedPacket`. -/
  processed : List Nat

namespace Link

/-- A step of the backup's thread.  Its own semaphore does not hold it up. -/
def atBackup (o : Outside) (k : Link) : Option Link :=
  (rmStep true k.toBackup k.backupThread).map fun r =>
    { k with
      backupThread := r.thread
      toBackup := r.incoming
      toPrimary := k.toPrimary ++ r.sent
      backup := (r.handles.map fun x => k.backup.handleRMCommunication o x.packet).getD k.backup
      processed := k.processed ++
        (r.handles.toList.filter fun x => x.packet.isMessage).map Tagged.serial }

/-- A step of the thread of a promoted primary, and the packet it handles. -/
def atPrimary (semaphoreFree : Bool) (k : Link) : Option (Link × Option Tagged) :=
  k.primaryThread.bind fun thread =>
    (rmStep semaphoreFree k.toPrimary thread).map fun r =>
      ({ k with
          primaryThread := some r.thread
          toPrimary := r.incoming
          toBackup := k.toBackup ++ r.sent },
        r.handles)

/-! ## The token -/

/-- The thread of the primary holds no packet. -/
def primaryIdle (k : Link) : Prop := ∀ t, k.primaryThread = some t → t.idle = true

/-- Nothing is in flight, and nobody holds a packet. -/
structure Quiet (k : Link) : Prop where
  toBackup : k.toBackup = []
  toPrimary : k.toPrimary = []
  backup : k.backupThread.idle = true
  primary : k.primaryIdle

/-- The backup has handled the packet; for a message this is `processReceivedPacket`. -/
def Done (k : Link) (x : Tagged) : Prop := x.packet.isMessage = true → x.serial ∈ k.processed

/-- What the backup may have to handle: the packet, or once that is done a
confirmation. -/
def Due (k : Link) (x y : Tagged) : Prop := y = x ∨ (y = confirmationPacket ∧ k.Done x)

/-- The replication of `x` is one token on the link. -/
inductive Token (x : Tagged) (k : Link) : Prop
  | sent (y : Tagged) (hy : k.Due x y) (hto : k.toBackup = [y]) (hfrom : k.toPrimary = [])
      (hb : k.backupThread.idle = true) (hp : k.primaryIdle)
  | atBackup (y : Tagged) (hy : k.Due x y) (hto : k.toBackup = []) (hfrom : k.toPrimary = [])
      (hb : k.backupThread = .received y) (hp : k.primaryIdle)
  | handled (hx : k.Done x) (hto : k.toBackup = []) (hfrom : k.toPrimary = [])
      (hb : k.backupThread = .handled) (hp : k.primaryIdle)
  | confirmed (hx : k.Done x) (hto : k.toBackup = []) (hfrom : k.toPrimary = [confirmationPacket])
      (hb : k.backupThread.idle = true) (hp : k.primaryIdle)
  | atPrimary (hx : k.Done x) (hto : k.toBackup = []) (hfrom : k.toPrimary = [])
      (hb : k.backupThread.idle = true) (hp : k.primaryThread = some (.received confirmationPacket))
  | returned (hx : k.Done x) (hto : k.toBackup = []) (hfrom : k.toPrimary = [])
      (hb : k.backupThread.idle = true) (hp : k.primaryThread = some .handled)

/-- A replication starts on a quiet link. -/
theorem Quiet.send {k : Link} (h : k.Quiet) (x : Tagged) :
    Token x { k with toBackup := k.toBackup ++ [x] } :=
  .sent x (.inl rfl) (by rw [h.toBackup]; rfl) h.toPrimary h.backup h.primary

/-- Whoever reads a packet on the primary's side takes the token, and finds the
packet handled. -/
theorem Token.confirm {k : Link} {x y : Tagged} {rest : List Tagged} (h : Token x k)
    (hread : k.toPrimary = y :: rest) : Quiet { k with toPrimary := rest } ∧ k.Done x := by
  have hnil : k.toPrimary ≠ [] := by simp [hread]
  cases h with
  | confirmed hx hto hfrom hb hp =>
    rw [hfrom, List.cons.injEq] at hread
    exact ⟨⟨hto, hread.2.symm, hb, hp⟩, hx⟩
  | sent _ _ _ hfrom => exact absurd hfrom hnil
  | atBackup _ _ _ hfrom => exact absurd hfrom hnil
  | handled _ _ hfrom => exact absurd hfrom hnil
  | atPrimary _ _ hfrom => exact absurd hfrom hnil
  | returned _ _ hfrom => exact absurd hfrom hnil

/-! ## Steps of the threads -/

/-- What is processed stays processed. -/
theorem Done.mono {k k' : Link} {x : Tagged} (h : k.Done x) (hsub : k.processed ⊆ k'.processed) :
    k'.Done x := fun hm => hsub (h hm)

theorem processed_atBackup {k k' : Link} {o : Outside} (h : k.atBackup o = some k') :
    k.processed ⊆ k'.processed := by
  obtain ⟨r, -, rfl⟩ := Option.map_eq_some_iff.1 h
  exact List.subset_append_left ..

theorem processed_atPrimary {k k' : Link} {free : Bool} {y : Option Tagged}
    (h : k.atPrimary free = some (k', y)) : k.processed ⊆ k'.processed := by
  obtain ⟨t, -, ht⟩ := Option.bind_eq_some_iff.1 h
  obtain ⟨r, -, hr⟩ := Option.map_eq_some_iff.1 ht
  rw [Prod.mk.injEq] at hr
  rw [← hr.1]
  exact List.Subset.refl _

/-- A thread without a packet and with nothing to read passes the semaphore or
waits. -/
theorem rmStep_idle {free : Bool} {t : RmThread} {r : RmStep} (ht : t.idle = true)
    (h : rmStep free [] t = some r) : r = { thread := .reading, incoming := [] } := by
  cases t with
  | waiting =>
    rw [rmStep, Option.ite_none_right_eq_some, Option.some.injEq] at h
    exact h.2.symm
  | reading => cases h
  | received x => cases ht
  | handled => cases ht

theorem rmStep_idle_cons {free : Bool} {t : RmThread} {r : RmStep} {x : Tagged} (ht : t.idle = true)
    (h : rmStep free [x] t = some r) :
    r = { thread := .reading, incoming := [x] } ∨
      r = { thread := .received x, incoming := [] } := by
  cases t with
  | waiting =>
    rw [rmStep, Option.ite_none_right_eq_some, Option.some.injEq] at h
    exact .inl h.2.symm
  | reading => exact .inr (Option.some.inj h).symm
  | received x => cases ht
  | handled => cases ht

theorem Quiet.atBackup {k k' : Link} {o : Outside} (h : k.Quiet) (hst : k.atBackup o = some k') :
    k'.Quiet := by
  obtain ⟨r, hr, rfl⟩ := Option.map_eq_some_iff.1 hst
  rw [h.toBackup] at hr
  rw [rmStep_idle h.backup hr]
  exact ⟨rfl, by simp [h.toPrimary], rfl, h.primary⟩

theorem Quiet.atPrimary {k k' : Link} {free : Bool} {y : Option Tagged} (h : k.Quiet)
    (hst : k.atPrimary free = some (k', y)) : k'.Quiet := by
  obtain ⟨t, ht, hmap⟩ := Option.bind_eq_some_iff.1 hst
  obtain ⟨r, hr, heq⟩ := Option.map_eq_some_iff.1 hmap
  rw [h.toPrimary] at hr
  rw [rmStep_idle (h.primary t ht) hr, Prod.mk.injEq] at heq
  rw [← heq.1]
  exact ⟨by simp [h.toBackup], rfl, h.backup, fun t ht => by cases ht; rfl⟩

/-- **The token stays a token** when the backup's thread moves. -/
theorem Token.stepAtBackup {k k' : Link} {o : Outside} {x : Tagged} (h : Token x k)
    (hst : k.atBackup o = some k') : Token x k' := by
  have hsub := processed_atBackup hst
  obtain ⟨r, hr, rfl⟩ := Option.map_eq_some_iff.1 hst
  cases h with
  | sent y hy hto hfrom hb hp =>
    rw [hto] at hr
    have hy' := hy.imp_right fun h => And.intro h.1 (h.2.mono hsub)
    rcases rmStep_idle_cons hb hr with rfl | rfl
    · exact .sent y hy' rfl (by simp [hfrom]) rfl hp
    · exact .atBackup y hy' rfl (by simp [hfrom]) rfl hp
  | atBackup y hy hto hfrom hb hp =>
    rw [hto, hb, rmStep, Option.some.injEq] at hr
    subst hr
    refine .handled ?_ rfl (by simp [hfrom]) rfl hp
    rcases hy with rfl | ⟨-, hx⟩
    · intro hm
      have hlog : y ∈ (some y).toList.filter fun x => x.packet.isMessage :=
        List.mem_filter.2 ⟨List.mem_singleton.2 rfl, hm⟩
      exact List.mem_append_right _ (List.mem_map_of_mem hlog)
    · exact hx.mono hsub
  | handled hx hto hfrom hb hp =>
    rw [hto, hb, rmStep, Option.some.injEq] at hr
    subst hr
    exact .confirmed (hx.mono hsub) rfl (by simp [hfrom]) rfl hp
  | confirmed hx hto hfrom hb hp =>
    rw [hto] at hr
    rw [rmStep_idle hb hr] at hsub ⊢
    exact .confirmed (hx.mono hsub) rfl (by simp [hfrom]) rfl hp
  | atPrimary hx hto hfrom hb hp =>
    rw [hto] at hr
    rw [rmStep_idle hb hr] at hsub ⊢
    exact .atPrimary (hx.mono hsub) rfl (by simp [hfrom]) rfl hp
  | returned hx hto hfrom hb hp =>
    rw [hto] at hr
    rw [rmStep_idle hb hr] at hsub ⊢
    exact .returned (hx.mono hsub) rfl (by simp [hfrom]) rfl hp

/-- **The token stays a token** when the promoted primary's thread takes the
confirmation and answers it. -/
theorem Token.stepAtPrimary {k k' : Link} {free : Bool} {x : Tagged} {y : Option Tagged}
    (h : Token x k) (hst : k.atPrimary free = some (k', y)) : Token x k' := by
  have hsub := processed_atPrimary hst
  obtain ⟨t, ht, hmap⟩ := Option.bind_eq_some_iff.1 hst
  obtain ⟨r, hr, heq⟩ := Option.map_eq_some_iff.1 hmap
  rw [Prod.mk.injEq] at heq
  obtain ⟨rfl, -⟩ := heq
  clear hmap hst
  have hreading : ∀ t, some RmThread.reading = some t → t.idle = true := by
    rintro t ⟨⟩
    rfl
  cases h with
  | sent z hz hto hfrom hb hp =>
    rw [hfrom] at hr
    have hz' := hz.imp_right fun h => And.intro h.1 (h.2.mono hsub)
    rw [rmStep_idle (hp t ht) hr] at hsub hz' ⊢
    exact .sent z hz' (by simp [hto]) rfl hb hreading
  | atBackup z hz hto hfrom hb hp =>
    rw [hfrom] at hr
    have hz' := hz.imp_right fun h => And.intro h.1 (h.2.mono hsub)
    rw [rmStep_idle (hp t ht) hr] at hsub hz' ⊢
    exact .atBackup z hz' (by simp [hto]) rfl hb hreading
  | handled hx hto hfrom hb hp =>
    rw [hfrom] at hr
    rw [rmStep_idle (hp t ht) hr] at hsub ⊢
    exact .handled (hx.mono hsub) (by simp [hto]) rfl hb hreading
  | confirmed hx hto hfrom hb hp =>
    rw [hfrom] at hr
    rcases rmStep_idle_cons (hp t ht) hr with rfl | rfl
    · exact .confirmed (hx.mono hsub) (by simp [hto]) rfl hb hreading
    · exact .atPrimary (hx.mono hsub) (by simp [hto]) rfl hb rfl
  | atPrimary hx hto hfrom hb hp =>
    rw [hp, Option.some.injEq] at ht
    rw [hfrom, ← ht, rmStep, Option.some.injEq] at hr
    subst hr
    exact .returned (hx.mono hsub) (by simp [hto]) rfl hb rfl
  | returned hx hto hfrom hb hp =>
    rw [hp, Option.some.injEq] at ht
    rw [hfrom, ← ht, rmStep, Option.some.injEq] at hr
    subst hr
    refine .sent confirmationPacket (.inr ⟨rfl, hx.mono hsub⟩) (by simp [hto]) rfl hb ?_
    rintro t ⟨⟩
    rfl

end Link

end InstantMessenger
