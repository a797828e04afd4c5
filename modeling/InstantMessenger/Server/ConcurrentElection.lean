import Mathlib.Data.Finset.Erase
import InstantMessenger.Server.ElectionRing

/-!
# Several starters

The ring of `ElectionRing`, but any set of servers calls `startElection`, each at some
moment: its connecting thread does not wait for the listener, which may have handled
messages before.  Smaller ids are passed on by whoever takes part already, so two messages
can disturb each other.

* `ElectionState`, `electionOf` — the ring and the servers that have still to call
  `startElection`, as a transition system.
* `InTime` — a server other than the one with the largest id takes no part when it calls.
* `Settled` — every message is about the largest id, and no server was told
  another one.
* `Leading` — the one message that may be about another id is on its way to `top`,
  and nothing is ahead of it: FIFO links keep it in front, and it wakes up every
  server it meets.  `Trailing` — it follows the last lap of an election that `top` has won.
* `onlyTop` — **with at most one starter besides the largest, and that one in time, no
  other id is ever returned**.
-/

namespace InstantMessenger
namespace Election

open Cyclic Text

variable {n : Nat} {id : Fin n → Int} {top : Fin n}

/-- The ring, and the servers that have still to call `startElection`. -/
structure ElectionState (n : Nat) where
  ring : RingState n
  pending : Finset (Fin n)

/-- What a thread of a server does next. -/
inductive ElectionStep (n : Nat) where
  /-- `startElection`, in the thread that has connected to the next server. -/
  | start (i : Fin n)
  /-- `listenClientCommunication` handles the next message. -/
  | listen (i : Fin n)
  deriving DecidableEq, Repr

/-- Nobody takes part, and no message is on its way. -/
def idle : RingState n where
  isParticipating _ := false
  link _ := []
  returned _ := []

/-- The server `i` calls `startElection`, which leaves its flag as it is. -/
def call (id : Fin n → Int) (s : RingState n) (i : Fin n) : RingState n :=
  { s with link := Function.update s.link (next i) (s.link (next i) ++ startElection (id i)) }

/-- What a step does. -/
def electionStep (id : Fin n → Int) (s : ElectionState n) :
    ElectionStep n → Option (ElectionState n)
  | .start i =>
    if i ∈ s.pending then some ⟨call id s.ring i, s.pending.erase i⟩ else none
  | .listen i => (receive id s.ring i).map fun ring => { s with ring }

/-- The ring on which the servers in `starters` call `startElection`, each once. -/
def electionOf (id : Fin n → Int) (starters : Finset (Fin n)) :
    Transition.System (ElectionState n) (ElectionStep n) where
  init s := s = ⟨idle, starters⟩
  step := electionStep id

/-- A server that calls `startElection` takes no part in an election, unless it is `top`. -/
def InTime (top : Fin n) (s : ElectionState n) : ElectionStep n → Prop
  | .start i => i ≠ top → s.ring.isParticipating i = false
  | .listen _ => True

instance (top : Fin n) (s : ElectionState n) : (l : ElectionStep n) → Decidable (InTime top s l)
  | .start i => inferInstanceAs (Decidable (i ≠ top → s.ring.isParticipating i = false))
  | .listen _ => inferInstanceAs (Decidable True)

theorem call_link (s : RingState n) (i j : Fin n) :
    (call id s i).link j = s.link j ++ if j = next i then startElection (id i) else [] := by
  show Function.update s.link (next i) _ j = _
  rw [Function.update_apply]
  split
  · rename_i hj
    rw [hj]
  · rw [List.append_nil]

/-- With one starter this is the ring of `ElectionRing`. -/
theorem call_idle (id : Fin n → Int) (start : Fin n) : call id idle start = started id start := by
  refine RingState.ext rfl ?_ rfl
  funext j
  rw [call_link]
  exact (Function.update_apply (fun _ => []) (next start) (startElection (id start)) j).symm

theorem receive_idle (id : Fin n → Int) (i : Fin n) : receive id idle i = none := rfl

/-- **What handling a message does**: the flag and the results change at the
server itself, its link loses the message, and the next link gets what is sent. -/
theorem receive_cases {s t : RingState n} {i : Fin n} (h : receive id s i = some t) :
    ∃ message rest r, s.link i = message :: rest ∧
      processElectionInfo (s.isParticipating i) message (id i) = some r ∧
      t.isParticipating = Function.update s.isParticipating i r.isParticipating ∧
      (∀ j, t.link j = (if j = i then rest else s.link j) ++ if j = next i then r.sent else []) ∧
      t.returned = Function.update s.returned i (s.returned i ++ r.returned) := by
  unfold receive at h
  cases hlink : s.link i with
  | nil => rw [hlink] at h; cases h
  | cons message rest =>
    rw [hlink] at h
    dsimp only at h
    rw [Option.map_eq_some_iff] at h
    obtain ⟨r, hr, rfl⟩ := h
    refine ⟨message, rest, r, rfl, hr, rfl, ?_, rfl⟩
    intro j
    dsimp only
    have hrest : ∀ j, Function.update s.link i rest j = if j = i then rest else s.link j :=
      fun j => Function.update_apply ..
    by_cases hj : j = next i
    · rw [hj, Function.update_self, if_pos rfl, hrest]
    · rw [Function.update_of_ne hj, if_neg hj, List.append_nil, hrest]

/-- A server that takes no part yet passes the larger id on, whatever the message
was. -/
theorem process_asleep (status : Str) (client_ID server_ID : Int) :
    process false status client_ID server_ID =
      ⟨true, [buildPacket (max client_ID server_ID) ELECTION], 0⟩ := by
  rcases lt_or_ge server_ID client_ID with hlt | hge
  · rw [max_eq_left (le_of_lt hlt)]
    exact if_pos hlt
  · rw [max_eq_right hge]
    exact if_neg (not_lt.2 hge)

/-! ## Messages about the largest id -/

/-- Every message is about the server with the largest id. -/
def AboutTop (id : Fin n → Int) (top : Fin n) (messages : List Str) : Prop :=
  ∀ message ∈ messages, ∃ status, IsStatus status ∧ message = buildPacket (id top) status

theorem aboutTop_nil : AboutTop id top [] := fun _ h => absurd h List.not_mem_nil

theorem aboutTop_singleton {status : Str} (hs : IsStatus status) :
    AboutTop id top [buildPacket (id top) status] :=
  fun _ h => ⟨status, hs, List.mem_singleton.1 h⟩

theorem AboutTop.append {ms ms' : List Str} (h : AboutTop id top ms) (h' : AboutTop id top ms') :
    AboutTop id top (ms ++ ms') :=
  fun m hm => (List.mem_append.1 hm).elim (h m) (h' m)

theorem AboutTop.tail {m : Str} {ms : List Str} (h : AboutTop id top (m :: ms)) :
    AboutTop id top ms := fun m' hm => h m' (List.mem_cons_of_mem _ hm)

/-- A message about the largest id is passed on as one. -/
theorem processed_aboutTop (h : Ids id top) {message : Str} {messages : List Str}
    (hm : AboutTop id top (message :: messages)) {isParticipating : Bool} {i : Fin n}
    {r : Processed} (hr : processElectionInfo isParticipating message (id i) = some r) :
    AboutTop id top r.sent ∧ ∀ v ∈ r.returned, v = id top := by
  obtain ⟨status, hs, rfl⟩ := hm _ List.mem_cons_self
  rw [h.processElectionInfo_buildPacket ⟨top, rfl⟩ hs, Option.some.injEq] at hr
  subst hr
  have hnone : ∀ (b : Bool) (sent : List Str), ∀ v ∈ (⟨b, sent, 0⟩ : Processed).returned,
      v = id top := fun b sent v hv => absurd hv List.not_mem_nil
  unfold process
  split
  · split
    · exact ⟨aboutTop_singleton (.inl rfl), hnone _ _⟩
    · rename_i hle
      -- A server whose id is not smaller is `top` itself.
      rw [le_antisymm (h.isLargest i) (not_lt.1 hle)]
      exact ⟨aboutTop_singleton (.inl rfl), hnone _ _⟩
  · split
    · split
      · exact ⟨aboutTop_singleton (.inl rfl), hnone _ _⟩
      · exact ⟨aboutTop_singleton (.inr rfl), hnone _ _⟩
    · refine ⟨?_, ?_⟩
      · dsimp only
        split
        · exact aboutTop_singleton (.inr rfl)
        · exact aboutTop_nil
      · intro v hv
        rw [Processed.returned, if_pos (ne_of_gt (h.positive top))] at hv
        exact List.mem_singleton.1 hv

/-- No server was told another id. -/
def OnlyTop (id : Fin n → Int) (top : Fin n) (s : RingState n) : Prop :=
  ∀ i, ∀ v ∈ s.returned i, v = id top

/-- What is returned now is added to what was returned. -/
theorem OnlyTop.update {s t : RingState n} {i : Fin n} {r : Processed} (h : OnlyTop id top s)
    (ht : t.returned = Function.update s.returned i (s.returned i ++ r.returned))
    (hr : ∀ v ∈ r.returned, v = id top) : OnlyTop id top t := by
  intro j v hv
  rw [ht] at hv
  by_cases hj : j = i
  · subst hj
    rw [Function.update_self] at hv
    exact (List.mem_append.1 hv).elim (h j v) (hr v)
  · rw [Function.update_of_ne hj] at hv
    exact h j v hv

/-- Every message is about the largest id, and no server was told another one. -/
structure Settled (id : Fin n → Int) (top : Fin n) (s : RingState n) : Prop where
  links : ∀ i, AboutTop id top (s.link i)
  told : OnlyTop id top s

theorem Settled.step (h : Ids id top) {s t : RingState n} {i : Fin n} (hs : Settled id top s)
    (hst : receive id s i = some t) : Settled id top t := by
  obtain ⟨message, rest, r, hlink, hr, -, hl, hret⟩ := receive_cases hst
  have hmessages : AboutTop id top (message :: rest) := hlink ▸ hs.links i
  obtain ⟨hsent, hreturned⟩ := processed_aboutTop h hmessages hr
  refine ⟨?_, hs.told.update hret hreturned⟩
  intro j
  rw [hl]
  refine AboutTop.append ?_ ?_
  · split
    · exact hmessages.tail
    · exact hs.links j
  · split
    · exact hsent
    · exact aboutTop_nil

/-- The server with the largest id may call whenever it likes. -/
theorem aboutTop_startElection (j : Fin n) :
    AboutTop id top (if j = next top then startElection (id top) else []) := by
  split
  · exact aboutTop_singleton (.inl rfl)
  · exact aboutTop_nil

theorem Settled.call {s : RingState n} (hs : Settled id top s) :
    Settled id top (call id s top) where
  links j := by
    rw [call_link]
    exact (hs.links j).append (aboutTop_startElection j)
  told := hs.told

/-! ## The one other message -/

/-- The message about `v` has come `m` steps after `next top`.  From there to `top` nobody
takes part, and nothing else is on the way. -/
structure Leading (id : Fin n → Int) (top : Fin n) (m : Nat) (v : Int) (s : RingState n) :
    Prop where
  within : m < n
  value : ∃ i, id i = v
  first : ∃ rest, s.link (shift (next top) m) = buildPacket v ELECTION :: rest ∧
    AboutTop id top rest
  others : ∀ i, i ≠ shift (next top) m → AboutTop id top (s.link i)
  asleep : ∀ l, m ≤ l → l < n → s.isParticipating (shift (next top) l) = false
  ahead : ∀ l, m < l → l < n → s.link (shift (next top) l) = []
  told : OnlyTop id top s

/-- One of two ids of the ring is one. -/
theorem exists_id_max {v : Int} (hv : ∃ i, id i = v) (i : Fin n) : ∃ j, id j = max v (id i) := by
  rcases max_choice v (id i) with h | h
  · rwa [h]
  · exact ⟨i, h.symm⟩

/-- The first message wakes up the server it meets; past `top` it is about `top`. -/
theorem Leading.step_first (h : Ids id top) {m : Nat} {v : Int} {s t : RingState n}
    (hs : Leading id top m v s) (hst : receive id s (shift (next top) m) = some t) :
    Settled id top t ∨ Leading id top (m + 1) (max v (id (shift (next top) m))) t := by
  obtain ⟨message, rest, r, hlink, hr, hp, hl, hret⟩ := receive_cases hst
  obtain ⟨rest', hlink', hrest⟩ := hs.first
  rw [hlink] at hlink'
  obtain ⟨rfl, rfl⟩ := List.cons.inj hlink'
  rw [hs.asleep m le_rfl hs.within, h.processElectionInfo_buildPacket hs.value (.inl rfl),
    Option.some.injEq] at hr
  rw [process_asleep] at hr
  subst hr
  have htold : OnlyTop id top t :=
    hs.told.update hret fun v hv => absurd hv List.not_mem_nil
  rcases Nat.lt_or_ge (m + 1) n with hm | hm
  · have hne : ∀ l, m < l → l < n → shift (next top) l ≠ shift (next top) m :=
      fun l hl hln => shift_ne _ hln hs.within (by omega)
    refine .inr ⟨hm, exists_id_max hs.value _, ⟨[], ?_, aboutTop_nil⟩, fun j hj => ?_,
      fun l hlo hln => ?_, fun l hlo hln => ?_, htold⟩
    · rw [hl, if_neg (hne _ (Nat.lt_succ_self m) hm), hs.ahead _ (Nat.lt_succ_self m) hm,
        if_pos (shift_succ _ m)]
      rfl
    · rw [shift_succ] at hj
      rw [hl, if_neg hj, List.append_nil]
      split
      · exact hrest
      · exact hs.others j ‹_›
    · rw [hp, Function.update_of_ne (hne l hlo hln)]
      exact hs.asleep l (by omega) hln
    · rw [hl, if_neg (hne l (by omega) hln), if_neg (shift_ne_next _ hln hm (by omega)),
        hs.ahead l (by omega) hln]
      rfl
  · -- The last server on the way is `top`.
    have hwithin := hs.within
    have htop : shift (next top) m = top := by
      rw [show m = n - 1 by omega, shift_next_last]
    obtain ⟨i, rfl⟩ := hs.value
    rw [htop, max_eq_right (h.isLargest i)] at hl
    refine .inl ⟨fun j => ?_, htold⟩
    rw [hl]
    refine AboutTop.append ?_ ?_
    · split
      · exact hrest
      · exact hs.others j (by rwa [htop])
    · split
      · exact aboutTop_singleton (.inl rfl)
      · exact aboutTop_nil

/-- The other messages do not overtake it. -/
theorem Leading.step_other (h : Ids id top) {i : Fin n} {m : Nat} {v : Int} {s t : RingState n}
    (hs : Leading id top m v s) (hi : i ≠ shift (next top) m) (hst : receive id s i = some t) :
    Leading id top m v t := by
  obtain ⟨message, rest, r, hlink, hr, hp, hl, hret⟩ := receive_cases hst
  have hmessages : AboutTop id top (message :: rest) := hlink ▸ hs.others i hi
  obtain ⟨hsent, hreturned⟩ := processed_aboutTop h hmessages hr
  have hbehind : ∀ l, m ≤ l → l < n → shift (next top) l ≠ i := by
    rintro l hlo hln rfl
    rcases Nat.lt_or_eq_of_le hlo with hlt | rfl
    · rw [hs.ahead l hlt hln] at hlink
      cases hlink
    · exact hi rfl
  have hadded : ∀ j, AboutTop id top (if j = next i then r.sent else []) := by
    intro j
    split
    · exact hsent
    · exact aboutTop_nil
  obtain ⟨rest', hfirst, hrest⟩ := hs.first
  refine ⟨hs.within, hs.value, ⟨_, ?_, hrest.append (hadded (shift (next top) m))⟩,
    fun j hj => ?_, fun l hlo hln => ?_, fun l hlo hln => ?_, hs.told.update hret hreturned⟩
  · rw [hl, if_neg (Ne.symm hi), hfirst, List.cons_append]
  · rw [hl]
    refine AboutTop.append ?_ (hadded j)
    split
    · exact hmessages.tail
    · exact hs.others j hj
  · rw [hp, Function.update_of_ne (hbehind l hlo hln)]
    exact hs.asleep l hlo hln
  · obtain ⟨k, rfl⟩ : ∃ k, l = k + 1 := ⟨l - 1, by omega⟩
    have hnext : shift (next top) (k + 1) ≠ next i := by
      intro heq
      rw [shift_succ] at heq
      exact hbehind k (by omega) (by omega) (next_injective heq)
    rw [hl, if_neg (hbehind _ (by omega) hln), if_neg hnext, hs.ahead _ hlo hln]
    rfl

/-- What `top` writes is not in its way. -/
theorem Leading.call {m : Nat} {v : Int} {s : RingState n} (hs : Leading id top m v s) :
    Leading id top m v (call id s top) where
  within := hs.within
  value := hs.value
  first := by
    obtain ⟨rest, hfirst, hrest⟩ := hs.first
    refine ⟨_, ?_, hrest.append (aboutTop_startElection (shift (next top) m))⟩
    rw [call_link, hfirst, List.cons_append]
  others j hj := by
    rw [call_link]
    exact (hs.others j hj).append (aboutTop_startElection j)
  asleep := hs.asleep
  ahead l hlo hln := by
    have hne := shift_ne (next top) hln (show 0 < n by omega) (show l ≠ 0 by omega)
    rw [shift_zero] at hne
    rw [call_link, hs.ahead l hlo hln, if_neg hne]
    rfl
  told := hs.told

/-! ## Behind an election that is over -/

/-- `top` has won an election: the news have come `p` steps after `next top`, and a message
about `v` follows them.  Between the two nobody takes part. -/
structure Trailing (id : Fin n → Int) (top : Fin n) (m p : Nat) (v : Int) (s : RingState n) :
    Prop where
  le : m ≤ p
  within : p < n
  value : ∃ i, id i = v
  links : ∀ l, l < n → s.link (shift (next top) l) =
    (if l = p then [buildPacket (id top) ELECTED] else []) ++
      if l = m then [buildPacket v ELECTION] else []
  asleep : ∀ l, m ≤ l → l < p → s.isParticipating (shift (next top) l) = false
  awake : ∀ l, p ≤ l → l < n → s.isParticipating (shift (next top) l) = true
  told : OnlyTop id top s

/-- The news put one server more to sleep; when they are back at `top`, the other message is
the only one. -/
theorem Trailing.step_news (h : Ids id top) {m p : Nat} {v : Int} {s t : RingState n}
    (hs : Trailing id top m p v s) (hst : receive id s (shift (next top) p) = some t) :
    Leading id top m v t ∨ Trailing id top m (p + 1) v t := by
  have hle := hs.le
  have hwithin := hs.within
  obtain ⟨message, rest, r, hlink, hr, hp, hl, hret⟩ := receive_cases hst
  rw [hs.links p hs.within, if_pos rfl] at hlink
  obtain ⟨rfl, rfl⟩ := List.cons.inj hlink
  rw [hs.awake p le_rfl hs.within, h.processElectionInfo_buildPacket ⟨top, rfl⟩ (.inr rfl),
    Option.some.injEq] at hr
  subst hr
  have hresult : (process true ELECTED (id top) (id (shift (next top) p))).result = id top := rfl
  have htold : OnlyTop id top t := by
    refine hs.told.update hret ?_
    intro w hw
    rw [Processed.returned, hresult, if_pos (ne_of_gt (h.positive top))] at hw
    exact List.mem_singleton.1 hw
  have hasleep : ∀ l, m ≤ l → l < p + 1 → t.isParticipating (shift (next top) l) = false := by
    intro l hlo hlp
    rw [hp]
    by_cases hlp' : l = p
    · subst hlp'
      rw [Function.update_self]
      rfl
    · rw [Function.update_of_ne (shift_ne _ (by omega) hwithin hlp')]
      exact hs.asleep l hlo (by omega)
  rcases Nat.lt_or_ge (p + 1) n with hpn | hpn
  · have hsent : (process true ELECTED (id top) (id (shift (next top) p))).sent =
        [buildPacket (id top) ELECTED] :=
      if_pos fun heq => shift_next_ne top hpn (h.distinct heq.symm)
    refine .inr ⟨by omega, hpn, hs.value, ?_, hasleep, ?_, htold⟩
    · intro l hln
      rw [hl, hsent, hs.links l hln]
      simp only [shift_inj (next top) hln hwithin, shift_eq_next_iff (next top) hln hpn]
      by_cases hlp : l = p
      · subst hlp
        simp
      · by_cases hlp' : l = p + 1
        · subst hlp'
          simp [show p + 1 ≠ m by omega]
        · simp [hlp, hlp']
    · intro l hlo hln
      rw [hp, Function.update_of_ne (shift_ne _ hln hwithin (by omega))]
      exact hs.awake l (by omega) hln
  · have htop : shift (next top) p = top := by
      rw [show p = n - 1 by omega, shift_next_last]
    have hsent : (process true ELECTED (id top) (id (shift (next top) p))).sent = [] := by
      rw [htop]
      exact if_neg (not_not.2 rfl)
    have hlinks : ∀ l, l < n → t.link (shift (next top) l) =
        if l = m then [buildPacket v ELECTION] else [] := by
      intro l hln
      rw [hl, hsent, hs.links l hln]
      simp only [shift_inj (next top) hln hwithin]
      by_cases hlp : l = p
      · subst hlp
        simp
      · simp [hlp]
    refine .inl ⟨by omega, hs.value, ⟨[], ?_, aboutTop_nil⟩, ?_, ?_, ?_, htold⟩
    · rw [hlinks m (by omega), if_pos rfl]
    · intro j hj
      rw [← shift_dist (next top) j, hlinks _ (dist_lt _ _), if_neg]
      · exact aboutTop_nil
      · intro hd
        exact hj (by rw [← hd, shift_dist])
    · exact fun l hlo hln => hasleep l hlo (by omega)
    · intro l hlo hln
      rw [hlinks l hln, if_neg (by omega)]

/-- The other message wakes up a server that the news have put to sleep. -/
theorem Trailing.step_behind (h : Ids id top) {m p : Nat} {v : Int} {s t : RingState n}
    (hs : Trailing id top m p v s) (hmp : m < p)
    (hst : receive id s (shift (next top) m) = some t) :
    Trailing id top (m + 1) p (max v (id (shift (next top) m))) t := by
  have hwithin := hs.within
  obtain ⟨message, rest, r, hlink, hr, hp, hl, hret⟩ := receive_cases hst
  rw [hs.links m (by omega), if_neg (by omega), if_pos rfl, List.nil_append] at hlink
  obtain ⟨rfl, rfl⟩ := List.cons.inj hlink
  rw [hs.asleep m le_rfl hmp, h.processElectionInfo_buildPacket hs.value (.inl rfl),
    process_asleep, Option.some.injEq] at hr
  subst hr
  refine ⟨hmp, hwithin, exists_id_max hs.value _, ?_, ?_, ?_,
    hs.told.update hret fun w hw => absurd hw List.not_mem_nil⟩
  · intro l hln
    rw [hl, hs.links l hln]
    simp only [shift_inj (next top) hln (show m < n by omega),
      shift_eq_next_iff (next top) hln (show m + 1 < n by omega)]
    by_cases hlm : l = m
    · subst hlm
      simp [show l ≠ p by omega]
    · simp [hlm]
  · intro l hlo hlp
    rw [hp, Function.update_of_ne (shift_ne _ (by omega) (by omega) (by omega))]
    exact hs.asleep l (by omega) hlp
  · intro l hlo hln
    rw [hp, Function.update_of_ne (shift_ne _ hln (by omega) (by omega))]
    exact hs.awake l hlo hln

theorem Trailing.step (h : Ids id top) {m p : Nat} {v : Int} {i : Fin n} {s t : RingState n}
    (hs : Trailing id top m p v s) (hst : receive id s i = some t) :
    (∃ m' v', Leading id top m' v' t) ∨ ∃ m' p' v', Trailing id top m' p' v' t := by
  have hi : i = shift (next top) (dist (next top) i) := (shift_dist _ _).symm
  by_cases hp : dist (next top) i = p
  · rw [hi, hp] at hst
    exact (hs.step_news h hst).imp (fun hlead => ⟨_, _, hlead⟩) fun htrail => ⟨_, _, _, htrail⟩
  · obtain ⟨message, rest, r, hlink, -⟩ := receive_cases hst
    rw [hi, hs.links _ (dist_lt _ _), if_neg hp, List.nil_append] at hlink
    split at hlink
    · rename_i hm
      have hle := hs.le
      rw [hi, hm] at hst
      exact .inr ⟨_, _, _, hs.step_behind h (by omega) hst⟩
    · cases hlink

/-! ## The second starter -/

/-- A server calls: from there to `top` nobody takes part, and nothing is on the way. -/
theorem leading_call {i : Fin n} {s : RingState n} (hi : i ≠ top)
    (hlinks : ∀ j, AboutTop id top (s.link j)) (htold : OnlyTop id top s)
    (hquiet : ∀ l, dist (next top) i < l → l < n →
      s.isParticipating (shift (next top) l) = false ∧ s.link (shift (next top) l) = []) :
    Leading id top (dist (next top) i + 1) (id i) (call id s i) := by
  have hwithin := dist_next_lt hi
  have hother : ∀ j, j ≠ shift (next top) (dist (next top) i + 1) →
      (call id s i).link j = s.link j := by
    intro j hj
    rw [call_link, next_eq_shift (next top) i, if_neg hj, List.append_nil]
  refine ⟨hwithin, ⟨i, rfl⟩, ⟨[], ?_, aboutTop_nil⟩, ?_, ?_, ?_, htold⟩
  · rw [call_link, (hquiet _ (Nat.lt_succ_self _) hwithin).2, if_pos (next_eq_shift _ i).symm]
    rfl
  · intro j hj
    rw [hother j hj]
    exact hlinks j
  · exact fun l hlo hln => (hquiet l hlo hln).1
  · intro l hlo hln
    rw [hother _ (shift_ne _ hln hwithin (by omega))]
    exact (hquiet l (by omega) hln).2

/-- The largest of the ids after `top` is that of `top`. -/
theorem Ids.largest_self (h : Ids id top) (k : Nat) : largest id top k = id top := by
  induction k with
  | zero => rfl
  | succ k ih =>
    show max (largest id top k) _ = _
    rw [ih, max_eq_left (h.isLargest _)]

theorem onlyTop_stage {start : Fin n} {a b : Nat} {receiver : Fin n} {messages : List Str} :
    OnlyTop id top (stage id start top a b receiver messages) := by
  intro i v hv
  change v ∈ (if dist (next top) i < b then [id top] else []) at hv
  split at hv
  · exact List.mem_singleton.1 hv
  · exact absurd hv List.not_mem_nil

theorem aboutTop_stage {start : Fin n} {a b : Nat} {receiver : Fin n} {messages : List Str}
    (hm : AboutTop id top messages) (i : Fin n) :
    AboutTop id top ((stage id start top a b receiver messages).link i) := by
  show AboutTop id top (if i = receiver then messages else [])
  split
  · exact hm
  · exact aboutTop_nil

/-- **A server calls while `top` is the only one that has**: its message has the way to `top`
for itself, or it follows the news that `top` has won. -/
theorem Staged.call (h : Ids id top) {i : Fin n} (hi : i ≠ top) {c : Nat} {s : RingState n}
    (hs : Staged id top top c s) (hasleep : s.isParticipating i = false) :
    (∃ m v, Leading id top m v (call id s i)) ∨ ∃ m p v, Trailing id top m p v (call id s i) := by
  cases hs with
  | waking _ hk =>
    change (decide (dist (next top) i < c) && !decide (dist (next top) i < 0)) = false at hasleep
    have hle : c ≤ dist (next top) i := by simpa using hasleep
    refine .inl ⟨_, _, leading_call hi (aboutTop_stage ?_) onlyTop_stage ?_⟩
    · rw [h.largest_self]
      exact aboutTop_singleton (.inl rfl)
    · intro l hlo hln
      constructor
      · show (decide (dist (next top) _ < c) && _) = false
        rw [dist_shift _ hln]
        simp
        omega
      · exact if_neg (shift_ne _ hln hk (by omega))
  | searching k hk =>
    change (decide (dist (next top) i < n) && !decide (dist (next top) i < 0)) = false at hasleep
    simp [dist_lt] at hasleep
  | telling k hk =>
    change (decide (dist (next top) i < n) && !decide (dist (next top) i < k)) = false at hasleep
    have hlt : dist (next top) i < k := by simpa [dist_lt] using hasleep
    have htold : OnlyTop id top
        (stage id top top n k (shift (next top) k) [buildPacket (id top) ELECTED]) := onlyTop_stage
    refine .inr ⟨dist (next top) i + 1, k, id i, hlt, hk, ⟨i, rfl⟩, ?_, ?_, ?_, htold⟩
    · intro l hln
      rw [call_link, next_eq_shift (next top) i]
      show (if _ = shift (next top) k then _ else _) ++ _ = _
      simp only [shift_inj (next top) hln hk, shift_inj (next top) hln (dist_next_lt hi)]
      rfl
    · intro l hlo hlk
      show (decide (dist (next top) _ < n) && !decide (dist (next top) _ < k)) = false
      rw [dist_shift _ (by omega)]
      simp [hlk]
    · intro l hlo hln
      show (decide (dist (next top) _ < n) && !decide (dist (next top) _ < k)) = true
      rw [dist_shift _ hln]
      simp [hln, hlo]
  | ended =>
    refine .inl ⟨_, _, leading_call hi (aboutTop_stage aboutTop_nil) onlyTop_stage ?_⟩
    intro l hlo hln
    refine ⟨?_, ite_self _⟩
    show (decide (dist (next top) _ < n) && !decide (dist (next top) _ < n)) = false
    simp [dist_lt]

/-! ## Every run -/

/-- The states of a run with at most one starter besides `top`, who calls in time. -/
inductive Safe (id : Fin n → Int) (top : Fin n) : ElectionState n → Prop
  | idle {pending : Finset (Fin n)} : Safe id top ⟨idle, pending⟩
  /-- Only `top` has called. -/
  | alone {ring : RingState n} {pending : Finset (Fin n)} {c : Nat} (htop : top ∉ pending)
      (hs : Staged id top top c ring) : Safe id top ⟨ring, pending⟩
  | leading {ring : RingState n} {pending : Finset (Fin n)} {m : Nat} {v : Int}
      (hlast : ∀ i ∈ pending, i = top) (hs : Leading id top m v ring) : Safe id top ⟨ring, pending⟩
  | trailing {ring : RingState n} {pending : Finset (Fin n)} {m p : Nat} {v : Int}
      (hlast : ∀ i, i ∉ pending) (hs : Trailing id top m p v ring) : Safe id top ⟨ring, pending⟩
  | settled {ring : RingState n} {pending : Finset (Fin n)}
      (hlast : ∀ i ∈ pending, i = top) (hs : Settled id top ring) : Safe id top ⟨ring, pending⟩

theorem Safe.onlyTop {s : ElectionState n} (hs : Safe id top s) : OnlyTop id top s.ring := by
  cases hs with
  | idle => exact fun _ _ hv => absurd hv List.not_mem_nil
  | alone htop hs => cases hs <;> exact onlyTop_stage
  | leading hlast hs => exact hs.told
  | trailing hlast hs => exact hs.told
  | settled hlast hs => exact hs.told

/-- A message is handled. -/
theorem Safe.listen (h : Ids id top) {ring ring' : RingState n} {pending : Finset (Fin n)}
    {i : Fin n} (hs : Safe id top ⟨ring, pending⟩) (hst : receive id ring i = some ring') :
    Safe id top ⟨ring', pending⟩ := by
  cases hs with
  | idle =>
    rw [receive_idle] at hst
    cases hst
  | alone htop hs => exact .alone htop (hs.step h hst)
  | @leading _ _ m v hlast hs =>
    by_cases hi : i = shift (next top) m
    · subst hi
      exact (hs.step_first h hst).elim (.settled hlast) (.leading hlast)
    · exact .leading hlast (hs.step_other h hi hst)
  | trailing hlast hs =>
    rcases hs.step h hst with ⟨m, v, hlead⟩ | ⟨m, p, v, htrail⟩
    · exact .leading (fun i hi => absurd hi (hlast i)) hlead
    · exact .trailing hlast htrail
  | settled hlast hs => exact .settled hlast (hs.step h hst)

/-- `startElection` is called, by `top` or in time. -/
theorem Safe.start (h : Ids id top) {ring : RingState n} {pending : Finset (Fin n)} {i : Fin n}
    (hpending : ∀ a ∈ pending, ∀ b ∈ pending, a ≠ top → b ≠ top → a = b)
    (hs : Safe id top ⟨ring, pending⟩) (hi : i ∈ pending)
    (hasleep : i ≠ top → ring.isParticipating i = false) :
    Safe id top ⟨call id ring i, pending.erase i⟩ := by
  -- after a server other than `top`, only `top` may be left
  have hlast : i ≠ top → ∀ j ∈ pending.erase i, j = top := by
    intro hne j hj
    obtain ⟨hji, hj⟩ := Finset.mem_erase.1 hj
    by_contra hjtop
    exact hji (hpending j hj i hi hjtop hne)
  cases hs with
  | idle =>
    by_cases htop : i = top
    · subst htop
      rw [call_idle]
      exact .alone (Finset.notMem_erase _ _) staged_started
    · exact .leading (hlast htop) (leading_call htop (fun _ => aboutTop_nil)
        (fun _ _ hv => absurd hv List.not_mem_nil) fun _ _ _ => ⟨rfl, rfl⟩)
  | alone htop hs =>
    have hne : i ≠ top := fun heq => htop (heq ▸ hi)
    rcases hs.call h hne (hasleep hne) with ⟨m, v, hlead⟩ | ⟨m, p, v, htrail⟩
    · exact .leading (hlast hne) hlead
    · refine .trailing (fun j hj => ?_) htrail
      exact htop (hlast hne j hj ▸ Finset.mem_of_mem_erase hj)
  | leading hlast hs =>
    rw [hlast i hi]
    exact .leading (fun j hj => hlast j (Finset.mem_of_mem_erase hj)) hs.call
  | trailing hlast hs => exact absurd hi (hlast i)
  | settled hlast hs =>
    rw [hlast i hi]
    exact .settled (fun j hj => hlast j (Finset.mem_of_mem_erase hj)) hs.call

/-- **One starter besides the largest, in time.**  No run tells a server another id. -/
theorem onlyTop (h : Ids id top) {starters : Finset (Fin n)}
    (hstarters : ∀ a ∈ starters, ∀ b ∈ starters, a ≠ top → b ≠ top → a = b)
    {s : ElectionState n} (hs : (electionOf id starters).ReachesWhen (InTime top) s) :
    OnlyTop id top s.ring := by
  have hinv : s.pending ⊆ starters ∧ Safe id top s := by
    refine Transition.System.ReachesWhen.invariant
      (I := fun s => s.pending ⊆ starters ∧ Safe id top s) hs ?_ fun t l u hI hok hst => ?_
    · rintro t rfl
      exact ⟨subset_rfl, .idle⟩
    · obtain ⟨ring, pending⟩ := t
      obtain ⟨hsub, hsafe⟩ := hI
      cases l with
      | start i =>
        obtain ⟨hi, hu⟩ := Option.ite_none_right_eq_some.1 hst
        cases hu
        exact ⟨(Finset.erase_subset _ _).trans hsub,
          hsafe.start h (fun a ha b hb => hstarters a (hsub ha) b (hsub hb)) hi hok⟩
      | listen i =>
        obtain ⟨ring', hring, hu⟩ := Option.map_eq_some_iff.1 hst
        cases hu
        exact ⟨hsub, hsafe.listen h hring⟩
  exact hinv.2.onlyTop

end Election
end InstantMessenger
