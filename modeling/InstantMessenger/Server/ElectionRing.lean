import Mathlib.Data.Fin.VecNotation
import InstantMessenger.Foundations.Cyclic
import InstantMessenger.Foundations.Transition
import InstantMessenger.Server.Election

/-!
# One election on a ring

`n` live servers on a directed ring with reliable FIFO links; one of them starts
an election, and every message is handled by `processElectionInfo`.  The starter
does not take part by starting, and a participant passes smaller ids on, so the
one message goes round almost three times.

* `RingState`, `receive`, `ring` — the servers' flags, the links, and what
  `processElectionInfo` returned, as a transition system.
* `Staged` — **the invariant**: in the first lap the message carries the largest id
  so far and wakes the servers up; in the second it looks for the server with
  that id; in the third, as ELECTED, it puts the servers to sleep again.
* `single_starter` — every run is finite, and ends with all servers told the
  largest id once.
-/

namespace InstantMessenger
namespace Election

open Cyclic Text

variable {n : Nat}

/-- The servers of a ring.  `link i` holds the messages on their way to `i`, and
`returned i` the results of `processElectionInfo` at `i` that are not zero. -/
@[ext] structure RingState (n : Nat) where
  isParticipating : Fin n → Bool
  link : Fin n → List Str
  returned : Fin n → List Int

/-- The result, when it is not zero. -/
def Processed.returned (r : Processed) : List Int := if r.result ≠ 0 then [r.result] else []

/-- `listenClientCommunication` at the server `i`: the next message is handled,
and what it sends goes to the next server. -/
def receive (id : Fin n → Int) (s : RingState n) (i : Fin n) : Option (RingState n) :=
  match s.link i with
  | [] => none
  | message :: rest =>
    (processElectionInfo (s.isParticipating i) message (id i)).map fun r =>
      let link := Function.update s.link i rest
      { isParticipating := Function.update s.isParticipating i r.isParticipating
        link := Function.update link (next i) (link (next i) ++ r.sent)
        returned := Function.update s.returned i (s.returned i ++ r.returned) }

/-- Nobody takes part, and `start` has called `startElection`. -/
def started (id : Fin n → Int) (start : Fin n) : RingState n where
  isParticipating _ := false
  link := Function.update (fun _ => []) (next start) (startElection (id start))
  returned _ := []

/-- The ring with this starter. -/
def ring (id : Fin n → Int) (start : Fin n) : Transition.System (RingState n) (Fin n) where
  init s := s = started id start
  step := receive id

/-- The election is over, and every server was told once that `top` won it. -/
structure Ended (id : Fin n → Int) (top : Fin n) (s : RingState n) : Prop where
  asleep : ∀ i, s.isParticipating i = false
  empty : ∀ i, s.link i = []
  told : ∀ i, s.returned i = [id top]

/-! ## The largest id -/

/-- The largest id of `start` and the `k` servers after it. -/
def largest (id : Fin n → Int) (start : Fin n) : Nat → Int
  | 0 => id start
  | k + 1 => max (largest id start k) (id (shift (next start) k))

theorem largest_mono {id : Fin n → Int} {start : Fin n} {k l : Nat} (h : k ≤ l) :
    largest id start k ≤ largest id start l := by
  induction l with
  | zero => rw [Nat.le_zero.1 h]
  | succ l ih =>
    rcases Nat.lt_or_ge k (l + 1) with hk | hk
    · exact le_trans (ih (by omega)) (le_max_left ..)
    · rw [Nat.le_antisymm h hk]

/-- After one lap it is at least every id. -/
theorem le_largest (id : Fin n → Int) (start i : Fin n) : id i ≤ largest id start n := by
  have hlast : id i ≤ largest id start (dist (next start) i + 1) := by
    have h : id (shift (next start) (dist (next start) i)) ≤
        largest id start (dist (next start) i + 1) := le_max_right ..
    rwa [shift_dist] at h
  exact le_trans hlast (largest_mono (dist_lt _ _))

theorem exists_largest (id : Fin n → Int) (start : Fin n) (k : Nat) :
    ∃ i, id i = largest id start k := by
  induction k with
  | zero => exact ⟨start, rfl⟩
  | succ k ih =>
    obtain ⟨i, hi⟩ := ih
    rcases le_total (largest id start k) (id (shift (next start) k)) with h | h
    · exact ⟨_, (max_eq_right h).symm⟩
    · exact ⟨i, hi.trans (max_eq_left h).symm⟩

/-! ## The stages -/

/-- The state in which the first `a` servers after `start` have taken part, the
first `b` servers after `top` have been told, and `messages` are on their way to
`receiver`. -/
def stage (id : Fin n → Int) (start top : Fin n) (a b : Nat) (receiver : Fin n)
    (messages : List Str) : RingState n where
  isParticipating i := decide (dist (next start) i < a) && !decide (dist (next top) i < b)
  link i := if i = receiver then messages else []
  returned i := if dist (next top) i < b then [id top] else []

/-- The states of the run, with the number of messages handled before. -/
inductive Staged (id : Fin n → Int) (start top : Fin n) : Nat → RingState n → Prop
  | waking (k : Nat) (hk : k < n) :
      Staged id start top k (stage id start top k 0 (shift (next start) k)
        [buildPacket (largest id start k) ELECTION])
  | searching (k : Nat) (hk : k ≤ dist (next start) top) :
      Staged id start top (n + k) (stage id start top n 0 (shift (next start) k)
        [buildPacket (id top) ELECTION])
  | telling (k : Nat) (hk : k < n) :
      Staged id start top (n + dist (next start) top + 1 + k)
        (stage id start top n k (shift (next top) k) [buildPacket (id top) ELECTED])
  | ended : Staged id start top (n + dist (next start) top + 1 + n)
      (stage id start top n n (next top) [])

/-- Handling the one message of a stage. -/
theorem receive_stage {id : Fin n → Int} {start top receiver i : Fin n} {a b : Nat}
    {message : Str} {r : Processed}
    (hr : processElectionInfo
      ((stage id start top a b receiver [message]).isParticipating receiver) message
        (id receiver) = some r)
    {t : RingState n} (h : receive id (stage id start top a b receiver [message]) i = some t) :
    i = receiver ∧
      t.isParticipating = Function.update
        (stage id start top a b receiver [message]).isParticipating receiver r.isParticipating ∧
      t.link = (fun j => if j = next receiver then r.sent else []) ∧
      t.returned = Function.update (stage id start top a b receiver [message]).returned receiver
        ((stage id start top a b receiver [message]).returned receiver ++ r.returned) := by
  by_cases hi : i = receiver
  · subst hi
    have hlink : (stage id start top a b i [message]).link i = [message] := if_pos rfl
    unfold receive at h
    rw [hlink] at h
    dsimp only at h
    rw [hr, Option.map_some, Option.some.injEq] at h
    subst h
    refine ⟨rfl, rfl, ?_, rfl⟩
    have hempty : Function.update (stage id start top a b i [message]).link i [] =
        fun _ => [] := by
      funext j
      by_cases hj : j = i
      · rw [hj, Function.update_self]
      · rw [Function.update_of_ne hj]
        exact if_neg hj
    funext j
    simp only [hempty, List.nil_append]
    by_cases hj : j = next i
    · rw [hj, Function.update_self, if_pos rfl]
    · rw [Function.update_of_ne hj, if_neg hj]
  · have hlink : (stage id start top a b receiver [message]).link i = [] := if_neg hi
    unfold receive at h
    rw [hlink] at h
    cases h

section Run

variable {id : Fin n → Int} {start top : Fin n}

/-- The ids are positive `int`s, no two alike, and `top` has the largest. -/
structure Ids (id : Fin n → Int) (top : Fin n) : Prop where
  distinct : Function.Injective id
  positive : ∀ i, 0 < id i
  isInt : ∀ i, id i ≤ INT_MAX
  isLargest : ∀ i, id i ≤ id top

theorem Ids.largest_eq (h : Ids id top) : largest id start n = id top := by
  obtain ⟨i, hi⟩ := exists_largest id start n
  refine le_antisymm ?_ (le_largest id start top)
  rw [← hi]
  exact h.isLargest i

/-- An election message about any server is parsed back. -/
theorem Ids.processElectionInfo_buildPacket (h : Ids id top) {v : Int} (hv : ∃ i, id i = v)
    {status : Str} (hs : IsStatus status) (isParticipating : Bool) (server_ID : Int) :
    processElectionInfo isParticipating (buildPacket v status) server_ID =
      some (process isParticipating status v server_ID) := by
  obtain ⟨i, rfl⟩ := hv
  exact Election.processElectionInfo_buildPacket hs (le_of_lt (h.positive i)) (h.isInt i) _ _

/-- The one message of a stage is not lost. -/
theorem receive_stage_isSome {a b : Nat} {receiver : Fin n} {message : Str} {r : Processed}
    (hr : processElectionInfo
      ((stage id start top a b receiver [message]).isParticipating receiver) message
        (id receiver) = some r) :
    (receive id (stage id start top a b receiver [message]) receiver).isSome = true := by
  have hlink : (stage id start top a b receiver [message]).link receiver = [message] := if_pos rfl
  unfold receive
  rw [hlink]
  dsimp only
  rw [hr]
  rfl

/-- A state is a stage when its three parts are. -/
theorem eq_stage {t : RingState n} {a b : Nat} {receiver : Fin n} {messages : List Str}
    (hp : ∀ j, t.isParticipating j =
      (decide (dist (next start) j < a) && !decide (dist (next top) j < b)))
    (hl : t.link = fun j => if j = receiver then messages else [])
    (hret : ∀ j, t.returned j = if dist (next top) j < b then [id top] else []) :
    t = stage id start top a b receiver messages :=
  RingState.ext (funext hp) hl (funext hret)

/-- A handler that returns nothing leaves what was returned before. -/
theorem returned_unchanged {before after : Fin n → List Int} {i : Fin n} {more : List Int}
    (h : after = Function.update before i (before i ++ more)) (hmore : more = []) :
    after = before := by
  rw [h, hmore, List.append_nil, Function.update_eq_self]

/-! ### First lap -/

theorem processed_waking (h : Ids id top) {k : Nat} (hk : k < n) :
    processElectionInfo
      ((stage id start top k 0 (shift (next start) k)
        [buildPacket (largest id start k) ELECTION]).isParticipating (shift (next start) k))
      (buildPacket (largest id start k) ELECTION) (id (shift (next start) k)) =
      some ⟨true, [buildPacket (largest id start (k + 1)) ELECTION], 0⟩ := by
  rw [h.processElectionInfo_buildPacket (exists_largest id start k) (.inl rfl)]
  have hflag : (stage id start top k 0 (shift (next start) k)
      [buildPacket (largest id start k) ELECTION]).isParticipating (shift (next start) k) =
        false := by
    show (decide (dist (next start) _ < k) && _) = false
    rw [dist_shift _ hk]
    simp
  rw [hflag, process, if_pos (show (!false) = true from rfl)]
  have hmax : largest id start (k + 1) =
      max (largest id start k) (id (shift (next start) k)) := rfl
  by_cases hgt : largest id start k > id (shift (next start) k)
  · rw [if_pos hgt, hmax, max_eq_left (le_of_lt hgt)]
    rfl
  · rw [if_neg hgt, hmax, max_eq_right (not_lt.1 hgt)]
    rfl

/-- A server that is woken up takes part from then on. -/
theorem waking_step (h : Ids id top) {k : Nat} (hk : k < n) {i : Fin n} {t : RingState n}
    (hst : receive id (stage id start top k 0 (shift (next start) k)
      [buildPacket (largest id start k) ELECTION]) i = some t) :
    Staged id start top (k + 1) t := by
  obtain ⟨-, hp, hl, hret⟩ := receive_stage (processed_waking h hk) hst
  have hstage : t = stage id start top (k + 1) 0 (shift (next start) (k + 1))
      [buildPacket (largest id start (k + 1)) ELECTION] := by
    refine eq_stage (fun j => ?_) ?_ (fun j => ?_)
    · rw [hp]
      by_cases hj : j = shift (next start) k
      · subst hj
        rw [Function.update_self, dist_shift _ hk]
        simp
      · simp only [dist_lt_succ_iff_of_ne hj]
        exact Function.update_of_ne hj _ _
    · rw [hl, shift_succ]
    · rw [returned_unchanged hret rfl]
      rfl
  rw [hstage]
  rcases Nat.lt_or_ge (k + 1) n with hlt | hge
  · exact .waking (k + 1) hlt
  · -- the lap is complete, and everybody takes part
    have hlast : k + 1 = n := by omega
    have hfirst : Staged id start top n (stage id start top n 0 (shift (next start) 0)
        [buildPacket (id top) ELECTION]) := .searching 0 (Nat.zero_le _)
    rw [shift_zero] at hfirst
    rwa [hlast, shift_size, h.largest_eq]

/-! ### Second lap -/

theorem processed_searching (h : Ids id top) {k : Nat} (hk : k < n) :
    processElectionInfo
      ((stage id start top n 0 (shift (next start) k)
        [buildPacket (id top) ELECTION]).isParticipating (shift (next start) k))
      (buildPacket (id top) ELECTION) (id (shift (next start) k)) =
      some ⟨true,
        [buildPacket (id top) (if k = dist (next start) top then ELECTED else ELECTION)], 0⟩ := by
  rw [h.processElectionInfo_buildPacket ⟨top, rfl⟩ (.inl rfl)]
  have hflag : (stage id start top n 0 (shift (next start) k)
      [buildPacket (id top) ELECTION]).isParticipating (shift (next start) k) = true := by
    show (decide (dist (next start) _ < n) && !decide (dist (next top) _ < 0)) = true
    simp [dist_lt]
  have htop : id top = id (shift (next start) k) ↔ k = dist (next start) top := by
    rw [h.distinct.eq_iff, eq_comm, shift_eq_iff hk]
  rw [hflag, process, if_neg (by decide), if_pos (by decide)]
  by_cases hid : k = dist (next start) top
  · rw [if_neg (not_not.2 (htop.2 hid)), if_pos hid]
    rfl
  · rw [if_pos fun heq => hid (htop.1 heq), if_neg hid]
    rfl

/-- The message passes on until it reaches the server it names. -/
theorem searching_step (h : Ids id top) {k : Nat} (hk : k ≤ dist (next start) top) {i : Fin n}
    {t : RingState n}
    (hst : receive id (stage id start top n 0 (shift (next start) k)
      [buildPacket (id top) ELECTION]) i = some t) :
    Staged id start top (n + k + 1) t := by
  have hkn : k < n := Nat.lt_of_le_of_lt hk (dist_lt _ _)
  obtain ⟨-, hp, hl, hret⟩ := receive_stage (processed_searching h hkn) hst
  have hstage : t = stage id start top n 0 (next (shift (next start) k))
      [buildPacket (id top) (if k = dist (next start) top then ELECTED else ELECTION)] := by
    refine eq_stage (fun j => ?_) hl (fun j => ?_)
    · rw [hp]
      by_cases hj : j = shift (next start) k
      · subst hj
        rw [Function.update_self]
        simp [dist_lt]
      · rw [Function.update_of_ne hj]
        rfl
    · rw [returned_unchanged hret rfl]
      rfl
  rw [hstage]
  by_cases hid : k = dist (next start) top
  · have hfirst : Staged id start top (n + dist (next start) top + 1)
        (stage id start top n 0 (shift (next top) 0) [buildPacket (id top) ELECTED]) :=
      .telling 0 (Nat.zero_lt_of_lt hkn)
    rw [shift_zero] at hfirst
    rw [if_pos hid, hid, shift_dist]
    exact hfirst
  · rw [if_neg hid, ← shift_succ]
    exact .searching (k + 1) (by omega)

/-! ### Third lap -/

theorem processed_telling (h : Ids id top) {k : Nat} (hk : k < n) :
    processElectionInfo
      ((stage id start top n k (shift (next top) k)
        [buildPacket (id top) ELECTED]).isParticipating (shift (next top) k))
      (buildPacket (id top) ELECTED) (id (shift (next top) k)) =
      some ⟨false, if k + 1 = n then [] else [buildPacket (id top) ELECTED], id top⟩ := by
  rw [h.processElectionInfo_buildPacket ⟨top, rfl⟩ (.inr rfl)]
  have hflag : (stage id start top n k (shift (next top) k)
      [buildPacket (id top) ELECTED]).isParticipating (shift (next top) k) = true := by
    show (decide (dist (next start) _ < n) && !decide (dist (next top) _ < k)) = true
    rw [dist_shift _ hk]
    simp [dist_lt]
  have htop : id top = id (shift (next top) k) ↔ k + 1 = n := by
    have hlast := dist_next_self top
    rw [h.distinct.eq_iff, eq_comm, shift_eq_iff hk]
    omega
  rw [hflag, process, if_neg (by decide), if_neg (by decide)]
  by_cases hid : k + 1 = n
  · rw [if_neg (not_not.2 (htop.2 hid)), if_pos hid]
  · rw [if_pos fun heq => hid (htop.1 heq), if_neg hid]
    rfl

/-- A server that is told the winner takes no part any more. -/
theorem telling_step (h : Ids id top) {k : Nat} (hk : k < n) {i : Fin n} {t : RingState n}
    (hst : receive id (stage id start top n k (shift (next top) k)
      [buildPacket (id top) ELECTED]) i = some t) :
    Staged id start top (n + dist (next start) top + 1 + k + 1) t := by
  obtain ⟨-, hp, hl, hret⟩ := receive_stage (processed_telling h hk) hst
  have htold : (⟨false, if k + 1 = n then [] else [buildPacket (id top) ELECTED], id top⟩ :
      Processed).returned = [id top] := if_pos (ne_of_gt (h.positive top))
  have hstage : t = stage id start top n (k + 1) (shift (next top) (k + 1))
      (if k + 1 = n then [] else [buildPacket (id top) ELECTED]) := by
    refine eq_stage (fun j => ?_) ?_ (fun j => ?_)
    · rw [hp]
      by_cases hj : j = shift (next top) k
      · subst hj
        rw [Function.update_self, dist_shift _ hk]
        simp
      · simp only [dist_lt_succ_iff_of_ne hj]
        exact Function.update_of_ne hj _ _
    · rw [hl, shift_succ]
    · rw [hret, htold]
      by_cases hj : j = shift (next top) k
      · subst hj
        rw [Function.update_self, dist_shift _ hk, if_pos (Nat.lt_succ_self k)]
        show (if dist (next top) _ < k then [id top] else []) ++ [id top] = [id top]
        rw [dist_shift _ hk, if_neg (Nat.lt_irrefl k)]
        rfl
      · simp only [dist_lt_succ_iff_of_ne hj]
        exact Function.update_of_ne hj _ _
  rw [hstage]
  by_cases hlast : k + 1 = n
  · rw [if_pos hlast, Nat.add_assoc _ k 1, hlast, shift_size]
    exact .ended
  · rw [if_neg hlast]
    exact .telling (k + 1) (by omega)

/-! ### The whole run -/

theorem staged_started : Staged id start top 0 (started id start) := by
  have hstage : started id start = stage id start top 0 0 (shift (next start) 0)
      [buildPacket (largest id start 0) ELECTION] := by
    refine eq_stage (fun j => by simp [started]) ?_ (fun j => rfl)
    funext j
    show Function.update (fun _ => []) (next start) (startElection (id start)) j = _
    rw [shift_zero]
    by_cases hj : j = next start
    · rw [hj, Function.update_self, if_pos rfl]
      rfl
    · rw [Function.update_of_ne hj, if_neg hj]
  rw [hstage]
  exact .waking 0 start.pos

/-- **One message more.** -/
theorem Staged.step (h : Ids id top) {c : Nat} {s t : RingState n} (hs : Staged id start top c s)
    {i : Fin n} (hst : receive id s i = some t) : Staged id start top (c + 1) t := by
  cases hs with
  | waking k hk => exact waking_step h hk hst
  | searching k hk => exact searching_step h hk hst
  | telling k hk => exact telling_step h hk hst
  | ended =>
    have hempty : (stage id start top n n (next top) []).link i = [] := ite_self ..
    unfold receive at hst
    rw [hempty] at hst
    cases hst

/-- No more than three laps. -/
theorem Staged.le {c : Nat} {s : RingState n} (hs : Staged id start top c s) : c ≤ 3 * n := by
  have hdist := dist_lt (next start) top
  cases hs <;> omega

/-- A message that has arrived is handled; without one the election is over. -/
theorem Staged.enabled (h : Ids id top) {c : Nat} {s : RingState n}
    (hs : Staged id start top c s) :
    (∀ i, s.link i ≠ [] → (receive id s i).isSome = true) ∧
      ((∀ i, receive id s i = none) → Ended id top s) := by
  have hone : ∀ {a b : Nat} {receiver : Fin n} {message : Str} {r : Processed},
      processElectionInfo
        ((stage id start top a b receiver [message]).isParticipating receiver) message
          (id receiver) = some r →
      (∀ i, (stage id start top a b receiver [message]).link i ≠ [] →
          (receive id (stage id start top a b receiver [message]) i).isSome = true) ∧
        ((∀ i, receive id (stage id start top a b receiver [message]) i = none) →
          Ended id top (stage id start top a b receiver [message])) := by
    intro a b receiver message r hr
    have hsome := receive_stage_isSome hr
    refine ⟨?_, ?_⟩
    · intro i hi
      by_cases hij : i = receiver
      · rwa [hij]
      · exact absurd (if_neg hij) hi
    · intro hnone
      rw [hnone receiver] at hsome
      cases hsome
  cases hs with
  | waking k hk => exact hone (processed_waking h hk)
  | searching k hk =>
    exact hone (processed_searching h (Nat.lt_of_le_of_lt hk (dist_lt _ _)))
  | telling k hk => exact hone (processed_telling h hk)
  | ended =>
    refine ⟨fun i hi => absurd (ite_self _) hi, fun _ => ⟨fun i => ?_, fun i => ite_self _, ?_⟩⟩
    · show (decide (dist (next start) i < n) && !decide (dist (next top) i < n)) = false
      simp [dist_lt]
    · exact fun i => if_pos (dist_lt _ _)

theorem Staged.exec (h : Ids id top) {c : Nat} {s t : RingState n} (hs : Staged id start top c s)
    {ls : List (Fin n)} (he : (ring id start).exec s ls = some t) :
    Staged id start top (c + ls.length) t := by
  induction ls generalizing c s with
  | nil =>
    rw [Transition.System.exec_nil, Option.some.injEq] at he
    rwa [← he]
  | cons l ls ih =>
    rw [Transition.System.exec_cons, Option.bind_eq_some_iff] at he
    obtain ⟨u, hu, hrest⟩ := he
    have hlen := ih (hs.step h hu) hrest
    rwa [Nat.add_assoc, Nat.add_comm 1] at hlen

theorem staged_of_reachable (h : Ids id top) {s : RingState n}
    (hs : (ring id start).Reachable s) : ∃ c, Staged id start top c s := by
  refine Transition.System.Reachable.invariant (I := fun s => ∃ c, Staged id start top c s) hs ?_
    fun t l u hI hst => ?_
  · rintro t rfl
    exact ⟨0, staged_started⟩
  · obtain ⟨c, hc⟩ := hI
    exact ⟨c + 1, hc.step h hst⟩

end Run

/-- **Ring election, single starter.**  On every ring of servers with distinct
positive `int` ids and for every starter: the words of a message are read back as
they were written; no run handles more than `3 * n` messages; a message that has
arrived can always be handled; and a run that cannot go on has told every server
the largest id exactly once, with nobody taking part and nothing in flight. -/
theorem single_starter {n : Nat} {id : Fin n → Int} (hdistinct : Function.Injective id)
    (hpositive : ∀ i, 0 < id i) (hint : ∀ i, id i ≤ INT_MAX) (start : Fin n) :
    (∀ i status isParticipating server_ID, IsStatus status →
      processElectionInfo isParticipating (buildPacket (id i) status) server_ID =
        some (process isParticipating status (id i) server_ID)) ∧
    ∃ top, (∀ i, id i ≤ id top) ∧
      (∀ ls s, (ring id start).exec (started id start) ls = some s → ls.length ≤ 3 * n) ∧
      ∀ s, (ring id start).Reachable s →
        (∀ i, s.link i ≠ [] → (receive id s i).isSome = true) ∧
          ((∀ i, receive id s i = none) → Ended id top s) := by
  obtain ⟨top, htop⟩ := exists_largest id start n
  have hids : Ids id top :=
    ⟨hdistinct, hpositive, hint, fun i => htop ▸ le_largest id start i⟩
  refine ⟨fun i status p sid hs => hids.processElectionInfo_buildPacket ⟨i, rfl⟩ hs p sid, top,
    hids.isLargest, fun ls s he => ?_, fun s hs => ?_⟩
  · have hlen := (staged_started.exec hids he).le
    omega
  · obtain ⟨c, hc⟩ := staged_of_reachable hids hs
    exact hc.enabled hids

/-- Three servers, the one in the middle starts. -/
theorem single_starter_three :
    ∃ top : Fin 3, ∀ s, (ring ![5001, 5003, 5002] 1).Reachable s →
      (∀ i, receive ![5001, 5003, 5002] s i = none) → Ended ![5001, 5003, 5002] top s := by
  obtain ⟨-, top, -, -, hrun⟩ := @single_starter 3 ![5001, 5003, 5002]
    (by unfold Function.Injective; decide) (by decide) (by decide) 1
  exact ⟨top, fun s hs => (hrun s hs).2⟩

end Election
end InstantMessenger
