import InstantMessenger.Server.RivalStarters

/-!
# A starter that comes late

`startElection` does not look at `isParticipating`: a server that has already passed on the
message of another one can still start an election of its own.  On every ring this is
enough for a wrong result, also when `top` is the other starter.

* `Lone` — a message about `top`, and what has been written behind it, on their way through
  a ring in which nothing else happens.
* `exists_late_returned` — **`top` starts, another server takes part and then starts**:
  a run that returns that server's id.
* `concurrent_starters_iff` — which starters are safe: at any time only one; and one
  besides `top` when the servers other than `top` start only while they take no part.
-/

namespace InstantMessenger
namespace Election

open Cyclic Text Transition.System

variable {n : Nat} {id : Fin n → Int} {top : Fin n} {starters : Finset (Fin n)}

/-- A message about `top`, with those about `vs` behind it, has come `k` steps after
`next top`; nothing else is on the way, and from there on nobody takes part. -/
structure Lone (id : Fin n → Int) (top : Fin n) (vs : List Int) (k : Nat) (s : RingState n) :
    Prop where
  here : s.link (shift (next top) k) = elections (id top :: vs)
  elsewhere : ∀ l, l < n → l ≠ k → s.link (shift (next top) l) = []
  asleep : ∀ l, k ≤ l → l < n → s.isParticipating (shift (next top) l) = false

theorem lone_started (id : Fin n → Int) (top : Fin n) : Lone id top [] 0 (started id top) := by
  have hlink : (started id top).link =
      Function.update (fun _ => []) (next top) (startElection (id top)) := rfl
  refine ⟨?_, ?_, fun _ _ _ => rfl⟩
  · rw [hlink, shift_zero, Function.update_self]
    rfl
  · intro l hl hl0
    have hne := shift_ne (next top) hl top.pos hl0
    rw [shift_zero] at hne
    rw [hlink, Function.update_of_ne hne]

/-- They pass a server that none of them is about. -/
theorem Lone.step (h : Ids id top) {vs : List Int} {k : Nat} {s : RingState n} (hk : k + 1 < n)
    (hvs : ∀ v ∈ vs, v ≠ id (shift (next top) k) ∧ ∃ j, id j = v) (hs : Lone id top vs k s) :
    ∃ t, (listeners id).Reaches s t ∧ Lone id top vs (k + 1) t := by
  have hids : ∀ v ∈ id top :: vs, v ≠ id (shift (next top) k) ∧ ∃ j, id j = v := by
    intro v hv
    rcases List.mem_cons.1 hv with rfl | hv
    · exact ⟨fun heq => shift_next_ne top hk (h.distinct heq.symm), top, rfl⟩
    · exact hvs v hv
  have hpassed : passed false (id (shift (next top) k)) (id top :: vs) = id top :: vs := by
    show max (id top) _ :: vs = _
    rw [max_eq_left (h.isLargest _)]
  obtain ⟨t, ht, hp, hl⟩ := flush h (shift_ne_next _ (by omega) hk (by omega)) hids
    (hs.here.trans (List.append_nil _).symm)
  rw [hs.asleep k le_rfl (by omega), hpassed] at hl
  refine ⟨t, ht, ?_, ?_, ?_⟩
  · rw [hl, if_neg (shift_ne _ hk (by omega) (by omega)), if_pos (shift_succ _ k),
      hs.elsewhere _ hk (by omega)]
    rfl
  · intro l hln hlk
    rw [hl, if_neg (shift_ne_next _ hln hk hlk), List.append_nil]
    split
    · rfl
    · refine hs.elsewhere l hln ?_
      rintro rfl
      exact absurd rfl ‹_›
  · intro l hlo hln
    rw [hp _ (shift_ne _ hln (by omega) (by omega))]
    exact hs.asleep l (by omega) hln

theorem Lone.advance (h : Ids id top) {vs : List Int} {k : Nat} {s : RingState n}
    (hs : Lone id top vs k s) {m : Nat} (hkm : k ≤ m) (hm : m < n)
    (hvs : ∀ l, k ≤ l → l < m → ∀ v ∈ vs, v ≠ id (shift (next top) l) ∧ ∃ j, id j = v) :
    ∃ t, (listeners id).Reaches s t ∧ Lone id top vs m t := by
  induction m, hkm using Nat.le_induction with
  | base => exact ⟨s, .refl s, hs⟩
  | succ m hkm ih =>
    obtain ⟨t, ht, hlone⟩ := ih (by omega) fun l hlo hlm => hvs l hlo (by omega)
    obtain ⟨u, hu, hlone'⟩ := hlone.step h hm (hvs m hkm (by omega))
    exact ⟨u, ht.trans hu, hlone'⟩

/-- A server that has just passed the message on starts an election of its own. -/
theorem Lone.call {i : Fin n} (hi : i ≠ top) {s : RingState n}
    (hs : Lone id top [] (dist (next top) i + 1) s) :
    Lone id top [id i] (dist (next top) i + 1) (call id s i) where
  here := by
    rw [call_link, hs.here, if_pos (next_eq_shift _ i).symm]
    rfl
  elsewhere l hln hl := by
    rw [call_link, hs.elsewhere l hln hl, next_eq_shift (next top) i,
      if_neg (shift_ne _ hln (dist_next_lt hi) hl)]
    rfl
  asleep := hs.asleep

/-- **`top` has started, and another server starts after it has taken part**: on every ring
some server is told that the other one has won. -/
theorem exists_late_returned (h : Ids id top) (htop : top ∈ starters) {i : Fin n}
    (hi : i ∈ starters) (hitop : i ≠ top) :
    ∃ s j v, (electionOf id starters).Reachable s ∧ v ∈ s.ring.returned j ∧ v ≠ id top := by
  have hwithin := dist_next_lt hitop
  have hstart : (electionOf id starters).Reachable ⟨started id top, starters.erase top⟩ := by
    refine (Reachable.start rfl).next (l := .start top) ?_
    show (if top ∈ starters then _ else _) = _
    rw [if_pos htop, call_idle]
  -- the message of `top` has passed the other server
  obtain ⟨s, hs, hlone⟩ := (lone_started id top).advance h (Nat.zero_le _) hwithin
    fun _ _ _ _ hv => absurd hv List.not_mem_nil
  have hcalled : (electionOf id starters).Reachable
      ⟨call id s i, (starters.erase top).erase i⟩ := by
    refine Reachable.next (l := .start i)
      (reachesWhen_listeners (fun _ _ => trivial) hstart hs) ?_
    exact if_pos (Finset.mem_erase.2 ⟨hitop, hi⟩)
  -- both messages come to `top`
  obtain ⟨t, ht, hlone'⟩ := (hlone.call hitop).advance h (Nat.le_sub_one_of_lt hwithin)
    (show n - 1 < n by omega) fun l hlo hln v hv => by
      rw [List.mem_singleton.1 hv]
      refine ⟨fun heq => ?_, i, rfl⟩
      have hdist := (shift_eq_iff (show l < n by omega)).1 (h.distinct heq).symm
      omega
  have hhere := hlone'.here
  have hasleep := hlone'.asleep (n - 1) le_rfl (by omega)
  rw [shift_next_last] at hhere hasleep
  rw [← shift_dist (next top) i] at hhere
  obtain ⟨u, hu, hpair⟩ := exists_paired_of_waiting h hwithin ⟨top, rfl⟩ hhere hasleep
    fun l hl => hlone'.elsewhere l (by omega) (by omega)
  obtain ⟨w, j, v, hw, hmem, hne⟩ := hpair.exists_returned h hwithin
    fun _ hv => absurd hv List.not_mem_nil
  exact ⟨_, j, v, reachesWhen_listeners (fun _ _ => trivial) hcalled (ht.trans (hu.trans hw)),
    hmem, hne⟩

/-! ## Which starters are safe -/

/-- The only starter calls before anything is handled. -/
theorem inTime_of_subsingleton (hone : ∀ a ∈ starters, ∀ b ∈ starters, a = b)
    {s : ElectionState n} (hs : (electionOf id starters).Reachable s) :
    (electionOf id starters).ReachesWhen (InTime top) s := by
  have hinv : (electionOf id starters).ReachesWhen (InTime top) s ∧ s.pending ⊆ starters ∧
      (s.ring = idle ∨ s.pending = ∅) := by
    refine Reachable.invariant
      (I := fun s => (electionOf id starters).ReachesWhen (InTime top) s ∧
        s.pending ⊆ starters ∧ (s.ring = idle ∨ s.pending = ∅)) hs ?_ fun t l u hI hst => ?_
    · rintro t rfl
      exact ⟨.start rfl, subset_rfl, .inl rfl⟩
    · obtain ⟨ring, pending⟩ := t
      obtain ⟨hreach, hsub, hidle⟩ := hI
      cases l with
      | start i =>
        obtain ⟨hi, hu⟩ := Option.ite_none_right_eq_some.1 hst
        have hring : ring = idle := hidle.resolve_right fun h => by
          rw [show pending = ∅ from h] at hi
          exact absurd hi (Finset.notMem_empty i)
        refine ⟨hreach.next (l := .start i) (fun _ => by rw [hring]; rfl) hst, ?_, ?_⟩
        · cases hu
          exact (Finset.erase_subset _ _).trans hsub
        · cases hu
          refine .inr (Finset.eq_empty_of_forall_notMem fun j hj => ?_)
          obtain ⟨hji, hj⟩ := Finset.mem_erase.1 hj
          exact hji (hone j (hsub hj) i (hsub hi))
      | listen i =>
        obtain ⟨ring', hring, hu⟩ := Option.map_eq_some_iff.1 hst
        refine ⟨hreach.next (l := .listen i) trivial hst, ?_, ?_⟩
        · cases hu
          exact hsub
        · cases hu
          refine .inr (hidle.resolve_left fun h => ?_)
          rw [show ring = idle from h, receive_idle] at hring
          cases hring
  exact hinv.1

/-- **Ring election, concurrent starters.**  On every ring of servers with distinct
positive `int` ids: no order of the calls of `startElection` and of the handling of messages
makes `processElectionInfo` return a nonzero id other than the largest, exactly when no two
servers start.  No order in which the servers other than the one with the largest id call it
only while they take no part does so, exactly when at most one of them starts. -/
theorem concurrent_starters_iff {n : Nat} {id : Fin n → Int} {top : Fin n} (h : Ids id top)
    (starters : Finset (Fin n)) :
    ((∀ s, (electionOf id starters).Reachable s → ∀ i, ∀ v ∈ s.ring.returned i, v = id top) ↔
      ∀ a ∈ starters, ∀ b ∈ starters, a = b) ∧
    ((∀ s, (electionOf id starters).ReachesWhen (InTime top) s →
        ∀ i, ∀ v ∈ s.ring.returned i, v = id top) ↔
      ∀ a ∈ starters, ∀ b ∈ starters, a ≠ top → b ≠ top → a = b) := by
  refine ⟨⟨?_, ?_⟩, ?_, ?_⟩
  · intro hall a ha b hb
    by_contra hab
    have hbad : ∃ s j v, (electionOf id starters).Reachable s ∧ v ∈ s.ring.returned j ∧
        v ≠ id top := by
      by_cases hatop : a = top
      · exact exists_late_returned h (hatop ▸ ha) hb fun hbtop => hab (hatop.trans hbtop.symm)
      · by_cases hbtop : b = top
        · exact exists_late_returned h (hbtop ▸ hb) ha hatop
        · obtain ⟨s, j, v, hs, hmem⟩ := exists_early_returned h ha hb hatop hbtop hab
          exact ⟨s, j, v, hs.reachable, hmem⟩
    obtain ⟨s, j, v, hs, hmem, hne⟩ := hbad
    exact hne (hall s hs j v hmem)
  · intro hone s hs
    exact onlyTop h (fun a ha b hb _ _ => hone a ha b hb) (inTime_of_subsingleton hone hs)
  · intro hall a ha b hb hatop hbtop
    by_contra hab
    obtain ⟨s, j, v, hs, hmem, hne⟩ := exists_early_returned h ha hb hatop hbtop hab
    exact hne (hall s hs j v hmem)
  · exact fun hstarters s hs => onlyTop h hstarters hs

/-- Three servers: the one with the largest id wins an election, and one more that the third
server starts after it was told. -/
theorem concurrent_starters_two :
    ∃ s, (electionOf ![5001, 5003, 5002] {1, 2}).ReachesWhen (InTime 1) s ∧
      (∀ i, s.ring.returned i = [5003, 5003]) ∧
      ∀ i, ∀ v ∈ s.ring.returned i, v = (![5001, 5003, 5002] : Fin 3 → Int) 1 := by
  obtain ⟨s, hs⟩ : ∃ s, (electionOf ![5001, 5003, 5002] {1, 2}).execWhen
      (fun s l => decide (InTime 1 s l)) ⟨idle, {1, 2}⟩
      [.start 1, .listen 2, .listen 0, .listen 1, .listen 2, .listen 0, .listen 1, .listen 2,
        .listen 0, .listen 1, .start 2, .listen 0, .listen 1, .listen 2, .listen 0, .listen 1,
        .listen 2, .listen 0, .listen 1] = some s := ⟨_, rfl⟩
  have hrun : (electionOf ![5001, 5003, 5002] {1, 2}).ReachesWhen (InTime 1) s :=
    reachesWhen_of_execWhen (fun _ _ => of_decide_eq_true) (.start rfl) hs
  refine ⟨s, hrun, ?_, (@concurrent_starters_iff 3 ![5001, 5003, 5002] 1
    ⟨by unfold Function.Injective; decide, by decide, by decide, by decide⟩ {1, 2}).2.2
      (by decide) s hrun⟩
  cases hs
  decide

/-- Three servers: the two others have both started, or the one behind the largest starts
after it has passed on the message of the largest.  Each time the server with the smallest id
is told that the second largest has won. -/
theorem concurrent_starters_counterexample :
    (∃ s, (electionOf ![5003, 5002, 5001] {1, 2}).exec ⟨idle, {1, 2}⟩
        [.start 1, .start 2, .listen 2, .listen 0, .listen 1, .listen 2, .listen 0, .listen 1,
          .listen 2] = some s ∧
      ∃ v ∈ s.ring.returned 2, v ≠ 0 ∧ v < (![5003, 5002, 5001] : Fin 3 → Int) 0) ∧
    ∃ s, (electionOf ![5003, 5002, 5001] {0, 1}).exec ⟨idle, {0, 1}⟩
        [.start 0, .listen 1, .start 1, .listen 2, .listen 2, .listen 0, .listen 0, .listen 1,
          .listen 1, .listen 2, .listen 2] = some s ∧
      ∃ v ∈ s.ring.returned 2, v ≠ 0 ∧ v < (![5003, 5002, 5001] : Fin 3 → Int) 0 :=
  ⟨⟨_, rfl, 5002, by decide, by decide, by decide⟩,
    _, rfl, 5002, by decide, by decide, by decide⟩

end Election
end InstantMessenger
