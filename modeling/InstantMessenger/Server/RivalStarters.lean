import Mathlib.Data.Finset.Basic
import InstantMessenger.Server.ConcurrentElection

/-!
# Two starters besides the largest

The other side of `onlyTop`: on every ring, two starters other than `top` have a
run in which a server is told a smaller id, even when all have called `startElection`
before the first message is handled.

* `listeners` — the listener threads alone; `handle_election`, `flush` — a server handles
  one ELECTION message, and all the messages that wait at it.
* `startedBy` — the ring when all starters have called.
* `gathered`, `Swept` — **the first lap**: server after server is flushed, and the
  messages of the starters pile up before `top`.
* `Paired` — **the second lap**: a message about `top` wakes everybody up, and the
  smaller id behind it comes to its own server, which takes part: it is elected.
* `exists_early_returned` — **a run that returns another id**.
-/

namespace InstantMessenger
namespace Election

open Cyclic Text Transition.System

variable {n : Nat} {id : Fin n → Int} {top : Fin n} {starters : Finset (Fin n)}

/-! ## Handling messages -/

/-- The listener threads of the ring. -/
def listeners (id : Fin n → Int) : Transition.System (RingState n) (Fin n) where
  init _ := True
  step := receive id

/-- Listening is part of an election, at any time. -/
theorem reachesWhen_listeners {ok : ElectionState n → ElectionStep n → Prop}
    (hok : ∀ s i, ok s (.listen i)) {r t : RingState n} {pending : Finset (Fin n)}
    (hs : (electionOf id starters).ReachesWhen ok ⟨r, pending⟩)
    (hrt : (listeners id).Reaches r t) :
    (electionOf id starters).ReachesWhen ok ⟨t, pending⟩ := by
  obtain ⟨is, hexec⟩ := hrt
  induction is generalizing r with
  | nil =>
    cases hexec
    exact hs
  | cons i is ih =>
    rw [exec_cons, Option.bind_eq_some_iff] at hexec
    obtain ⟨u, hu, hrest⟩ := hexec
    refine ih (hs.next (hok _ i) ?_) hrest
    show (receive id r i).map _ = _
    rw [show receive id r i = some u from hu, Option.map_some]

/-- What a server sends on for an ELECTION message. -/
def answer (isParticipating : Bool) (client_ID server_ID : Int) : Str :=
  if isParticipating then
    if client_ID ≠ server_ID then buildPacket client_ID ELECTION
    else buildPacket client_ID ELECTED
  else buildPacket (max client_ID server_ID) ELECTION

/-- A server does not stand in the way of a larger id than its own. -/
theorem answer_top (h : Ids id top) (b : Bool) {i : Fin n} (hi : i ≠ top) :
    answer b (id top) (id i) = buildPacket (id top) ELECTION := by
  cases b with
  | true => exact if_pos fun heq => hi (h.distinct heq).symm
  | false =>
    show buildPacket (max (id top) (id i)) ELECTION = _
    rw [max_eq_left (h.isLargest i)]

/-- The largest server answers with its own id when it wakes up. -/
theorem answer_at_top (h : Ids id top) {v : Int} (hv : ∃ j, id j = v) :
    answer false v (id top) = buildPacket (id top) ELECTION := by
  obtain ⟨j, rfl⟩ := hv
  show buildPacket (max (id j) (id top)) ELECTION = _
  rw [max_eq_right (h.isLargest j)]

theorem process_election (isParticipating : Bool) (client_ID server_ID : Int) :
    process isParticipating ELECTION client_ID server_ID =
      ⟨true, [answer isParticipating client_ID server_ID], 0⟩ := by
  cases isParticipating with
  | false => exact process_asleep ..
  | true =>
    by_cases hne : client_ID ≠ server_ID
    · simp [process, answer, sendMessageToNextServer, hne]
    · simp [process, answer, sendMessageToNextServer, hne]

/-- A server handles the ELECTION message that waits at it. -/
theorem handle_election (h : Ids id top) {s : RingState n}
    {i : Fin n} {v : Int} {rest : List Str}
    (hv : ∃ j, id j = v) (hlink : s.link i = buildPacket v ELECTION :: rest) :
    ∃ t, (listeners id).Reaches s t ∧
      t.isParticipating = Function.update s.isParticipating i true ∧
      ∀ j, t.link j = (if j = i then rest else s.link j) ++
        if j = next i then [answer (s.isParticipating i) v (id i)] else [] := by
  have hsome : ∃ t, receive id s i = some t := by
    unfold receive
    rw [hlink]
    dsimp only
    rw [h.processElectionInfo_buildPacket hv (.inl rfl), Option.map_some]
    exact ⟨_, rfl⟩
  obtain ⟨t, ht⟩ := hsome
  obtain ⟨message, rest', r, hlink', hr, hp, hl, -⟩ := receive_cases ht
  rw [hlink] at hlink'
  obtain ⟨rfl, rfl⟩ := List.cons.inj hlink'
  rw [h.processElectionInfo_buildPacket hv (.inl rfl), process_election, Option.some.injEq] at hr
  subst hr
  exact ⟨t, .cons ht (.refl t), hp, hl⟩

/-- A server that takes part returns the id of an ELECTED message. -/
theorem handle_elected (h : Ids id top) {s : RingState n}
    {i : Fin n} {v : Int} {rest : List Str}
    (hv : ∃ j, id j = v) (hlink : s.link i = buildPacket v ELECTED :: rest)
    (hawake : s.isParticipating i = true) :
    ∃ t, (listeners id).Reaches s t ∧ v ∈ t.returned i := by
  have hpos : v ≠ 0 := by
    obtain ⟨j, rfl⟩ := hv
    exact ne_of_gt (h.positive j)
  have hsome : ∃ t, receive id s i = some t ∧ v ∈ t.returned i := by
    unfold receive
    rw [hlink]
    dsimp only
    rw [h.processElectionInfo_buildPacket hv (.inr rfl), hawake, Option.map_some]
    refine ⟨_, rfl, ?_⟩
    dsimp only
    rw [Function.update_self]
    have hresult : (process true ELECTED v (id i)).result = v := rfl
    refine List.mem_append_right _ ?_
    rw [Processed.returned, hresult, if_pos hpos]
    exact List.mem_singleton_self v
  obtain ⟨t, ht, hmem⟩ := hsome
  exact ⟨t, .cons ht (.refl t), hmem⟩

/-- These ids as ELECTION messages. -/
def elections (vs : List Int) : List Str := vs.map fun v => buildPacket v ELECTION

theorem elections_append (vs ws : List Int) :
    elections (vs ++ ws) = elections vs ++ elections ws := List.map_append

/-! ## Everybody has called -/

/-- Nobody takes part, and the servers in `starters` have called `startElection`. -/
def startedBy (id : Fin n → Int) (starters : Finset (Fin n)) : RingState n where
  isParticipating _ := false
  link i := if prev i ∈ starters then startElection (id (prev i)) else []
  returned _ := []

/-- One starter more. -/
theorem call_startedBy {calls : Finset (Fin n)} {i : Fin n} (hi : i ∉ calls) :
    call id (startedBy id calls) i = startedBy id (insert i calls) := by
  refine RingState.ext rfl (funext fun j => ?_) rfl
  rw [call_link]
  show (if prev j ∈ calls then _ else _) ++ _ = if prev j ∈ insert i calls then _ else _
  by_cases hj : j = next i
  · subst hj
    rw [prev_next, if_neg hi, if_pos rfl, if_pos (Finset.mem_insert_self _ _)]
    rfl
  · have hne : prev j ≠ i := fun heq => hj (by rw [← heq, next_prev])
    rw [if_neg hj, List.append_nil]
    exact if_congr (by rw [Finset.mem_insert, or_iff_right hne]) rfl rfl

/-- All of them can call before a message is handled. -/
theorem reachesWhen_startedBy (top : Fin n) (starters : Finset (Fin n)) :
    (electionOf id starters).ReachesWhen (InTime top) ⟨startedBy id starters, ∅⟩ := by
  have hcalled : ∀ calls ⊆ starters, (electionOf id starters).ReachesWhen (InTime top)
      ⟨startedBy id calls, starters \ calls⟩ := by
    intro calls
    induction calls using Finset.induction_on with
    | empty =>
      intro _
      rw [Finset.sdiff_empty]
      exact .start (congrArg (ElectionState.mk · _) (RingState.ext rfl rfl rfl))
    | insert i calls hi ih =>
      intro hsub
      obtain ⟨hmem, hcalls⟩ := Finset.insert_subset_iff.1 hsub
      refine (ih hcalls).next (l := .start i) (fun _ => rfl) ?_
      show (if i ∈ starters \ calls then _ else _) = _
      rw [if_pos (Finset.mem_sdiff.2 ⟨hmem, hi⟩), call_startedBy hi, Finset.sdiff_insert]
  have hall := hcalled starters subset_rfl
  rwa [Finset.sdiff_self] at hall

/-- What a starter has written to its successor. -/
theorem startedBy_link (i : Fin n) :
    (startedBy id starters).link (next i) = elections (if i ∈ starters then [id i] else []) := by
  show (if prev (next i) ∈ starters then startElection (id (prev (next i))) else []) = _
  rw [prev_next]
  split <;> rfl

/-- What a server makes of the ids that come to it, none of them its own: the first
one is raised to its own when it wakes the server up. -/
def passed (isParticipating : Bool) (server_ID : Int) : List Int → List Int
  | [] => []
  | v :: vs => (if isParticipating then v else max v server_ID) :: vs

theorem passed_awake (server_ID : Int) (vs : List Int) : passed true server_ID vs = vs := by
  cases vs <;> rfl

/-- **A server handles everything that waits at it.** -/
theorem flush (h : Ids id top) {i : Fin n} (hnext : i ≠ next i) {vs : List Int}
    (hvs : ∀ v ∈ vs, v ≠ id i ∧ ∃ j, id j = v) {s : RingState n}
    {rest : List Str}
    (hlink : s.link i = elections vs ++ rest) :
    ∃ t, (listeners id).Reaches s t ∧
      (∀ j, j ≠ i → t.isParticipating j = s.isParticipating j) ∧
      ∀ j, t.link j = (if j = i then rest else s.link j) ++
        if j = next i then elections (passed (s.isParticipating i) (id i) vs) else [] := by
  induction vs generalizing s with
  | nil =>
    refine ⟨s, .refl s, fun _ _ => rfl, ?_⟩
    intro j
    rw [show (if j = next i then elections (passed (s.isParticipating i) (id i) []) else []) = []
      from ite_self _, List.append_nil]
    split
    · rename_i hj
      rw [hj, hlink]
      rfl
    · rfl
  | cons v vs ih =>
    obtain ⟨hv, hexists⟩ := hvs v List.mem_cons_self
    obtain ⟨u, hu, hup, hul⟩ := handle_election h hexists hlink
    have hulink : u.link i = elections vs ++ rest := by
      rw [hul, if_pos rfl, if_neg hnext, List.append_nil]
      rfl
    obtain ⟨t, ht, htp, htl⟩ := ih (fun w hw => hvs w (List.mem_cons_of_mem _ hw)) hulink
    refine ⟨t, hu.trans ht, ?_, ?_⟩
    · intro j hj
      rw [htp j hj, hup, Function.update_of_ne hj]
    · intro j
      rw [htl, hup, Function.update_self, passed_awake, hul]
      have hanswer : ∀ b, answer b v (id i) =
          buildPacket (if b then v else max v (id i)) ELECTION
        | true => if_pos hv
        | false => rfl
      by_cases hj : j = i
      · rw [if_pos hj, if_pos hj, if_neg (hj ▸ hnext), if_neg (hj ▸ hnext)]
      · rw [if_neg hj, if_neg hj, if_neg hj]
        split
        · rw [hanswer, List.append_assoc]
          rfl
        · rw [List.append_nil]

/-- After ELECTION messages a server takes part. -/
theorem flush_awake (h : Ids id top) {i : Fin n} (hnext : i ≠ next i) {v : Int} {vs : List Int}
    (hvs : ∀ w ∈ v :: vs, ∃ j, id j = w) {s : RingState n}
    {rest : List Str}
    (hlink : s.link i = elections (v :: vs) ++ rest) :
    ∃ t, (listeners id).Reaches s t ∧ t.isParticipating i = true ∧ t.link i = rest := by
  induction vs generalizing s v with
  | nil =>
    obtain ⟨t, ht, hp, hl⟩ := handle_election h (hvs v List.mem_cons_self) hlink
    refine ⟨t, ht, ?_, ?_⟩
    · rw [hp, Function.update_self]
    · rw [hl, if_pos rfl, if_neg hnext, List.append_nil]
      rfl
  | cons w vs ih =>
    obtain ⟨u, hu, -, hl⟩ := handle_election h (hvs v List.mem_cons_self) hlink
    have hulink : u.link i = elections (w :: vs) ++ rest := by
      rw [hl, if_pos rfl, if_neg hnext, List.append_nil]
      rfl
    obtain ⟨t, ht, hp, hlt⟩ := ih (fun w hw => hvs w (List.mem_cons_of_mem _ hw)) hulink
    exact ⟨t, hu.trans ht, hp, hlt⟩

/-! ## The first lap -/

/-- The message of `top`, when it has started. -/
def ownStart (id : Fin n → Int) (top : Fin n) (starters : Finset (Fin n)) : List Int :=
  if top ∈ starters then [id top] else []

theorem eq_of_mem_ownStart {v : Int} (hv : v ∈ ownStart id top starters) : v = id top := by
  unfold ownStart at hv
  split at hv
  · exact List.mem_singleton.1 hv
  · exact absurd hv List.not_mem_nil

/-- The other ids that wait `k` steps after `next top`, once the servers before have
handled everything: the last starter's in front. -/
def gathered (id : Fin n → Int) (top : Fin n) (starters : Finset (Fin n)) : Nat → List Int
  | 0 => []
  | k + 1 =>
    let i := shift (next top) k
    (if i ∈ starters then [id i] else []) ++ passed false (id i) (gathered id top starters k)

theorem gathered_mem {k : Nat} {v : Int} (hv : v ∈ gathered id top starters k) :
    ∃ l < k, id (shift (next top) l) = v := by
  induction k generalizing v with
  | zero => exact absurd hv List.not_mem_nil
  | succ k ih =>
    rcases List.mem_append.1 hv with hstart | hpassed
    · split at hstart
      · exact ⟨k, Nat.lt_succ_self k, (List.mem_singleton.1 hstart).symm⟩
      · exact absurd hstart List.not_mem_nil
    · cases hg : gathered id top starters k with
      | nil =>
        rw [hg] at hpassed
        exact absurd hpassed List.not_mem_nil
      | cons w ws =>
        rw [hg] at ih hpassed
        have hold : ∀ u ∈ w :: ws, ∃ l < k + 1, id (shift (next top) l) = u := by
          intro u hu
          obtain ⟨l, hl, hid⟩ := ih hu
          exact ⟨l, by omega, hid⟩
        rcases List.mem_cons.1 hpassed with rfl | htail
        · rcases max_choice w (id (shift (next top) k)) with hmax | hmax
          · exact hold _ (List.mem_cons.2 (.inl hmax))
          · exact ⟨k, Nat.lt_succ_self k, hmax.symm⟩
        · exact hold v (List.mem_cons_of_mem _ htail)

theorem length_gathered_succ (k : Nat) :
    (gathered id top starters (k + 1)).length =
      (if shift (next top) k ∈ starters then 1 else 0) + (gathered id top starters k).length := by
  have hlen : ∀ w vs, (passed false w vs).length = vs.length := by
    intro w vs
    cases vs <;> rfl
  show (_ ++ passed false _ _).length = _
  rw [List.length_append, hlen]
  split <;> rfl

/-- One starter, one message. -/
theorem one_le_length_gathered {k l : Nat} (hl : shift (next top) l ∈ starters) (hlk : l < k) :
    1 ≤ (gathered id top starters k).length := by
  induction k with
  | zero => exact absurd hlk (Nat.not_lt_zero l)
  | succ k ih =>
    rw [length_gathered_succ]
    rcases Nat.lt_or_eq_of_le (Nat.le_of_lt_succ hlk) with hlt | rfl
    · exact le_trans (ih hlt) (Nat.le_add_left _ _)
    · rw [if_pos hl]
      exact Nat.le_add_right _ _

theorem two_le_length_gathered {k l m : Nat} (hl : shift (next top) l ∈ starters)
    (hm : shift (next top) m ∈ starters) (hlm : l < m) (hmk : m < k) :
    2 ≤ (gathered id top starters k).length := by
  induction k with
  | zero => exact absurd hmk (Nat.not_lt_zero m)
  | succ k ih =>
    rw [length_gathered_succ]
    rcases Nat.lt_or_eq_of_le (Nat.le_of_lt_succ hmk) with hlt | rfl
    · exact le_trans (ih hlt) (Nat.le_add_left _ _)
    · rw [if_pos hm]
      exact Nat.add_le_add le_rfl (one_le_length_gathered hl hlm)

/-- The first `k` servers after `top` have handled everything. -/
structure Swept (id : Fin n → Int) (top : Fin n) (starters : Finset (Fin n)) (k : Nat)
    (s : RingState n) : Prop where
  behind : ∀ l, l < k → s.link (shift (next top) l) = []
  here : s.link (shift (next top) k) =
    elections (gathered id top starters k ++ ownStart id top starters)
  ahead : ∀ l, k < l → l < n →
    s.link (shift (next top) l) = (startedBy id starters).link (shift (next top) l)
  asleep : ∀ l, k ≤ l → l < n → s.isParticipating (shift (next top) l) = false

theorem swept_started : Swept id top starters 0 (startedBy id starters) := by
  refine ⟨fun l hl => absurd hl (Nat.not_lt_zero l), ?_, fun _ _ _ => rfl, fun _ _ _ => rfl⟩
  rw [shift_zero, startedBy_link]
  rfl

/-- What waits is not about the server it waits at. -/
theorem gathered_ne (h : Ids id top) {k : Nat} (hk : k + 1 < n) {v : Int}
    (hv : v ∈ gathered id top starters k ++ ownStart id top starters) :
    v ≠ id (shift (next top) k) ∧ ∃ j, id j = v := by
  rcases List.mem_append.1 hv with hg | ht
  · obtain ⟨l, hl, rfl⟩ := gathered_mem hg
    exact ⟨fun heq => shift_ne _ (by omega) (by omega) (Nat.ne_of_lt hl) (h.distinct heq), _, rfl⟩
  · rw [eq_of_mem_ownStart ht]
    exact ⟨fun heq => shift_next_ne top hk (h.distinct heq.symm), top, rfl⟩

theorem passed_gathered (h : Ids id top) (k : Nat) (i : Fin n) :
    passed false (id i) (gathered id top starters k ++ ownStart id top starters) =
      passed false (id i) (gathered id top starters k) ++ ownStart id top starters := by
  cases gathered id top starters k with
  | nil =>
    unfold ownStart
    split
    · show [max (id top) (id i)] = [id top]
      rw [max_eq_left (h.isLargest i)]
    · rfl
  | cons v vs => rfl

/-- One server more. -/
theorem Swept.step (h : Ids id top) {k : Nat} (hk : k + 1 < n) {s : RingState n}
    (hsw : Swept id top starters k s) :
    ∃ t, (listeners id).Reaches s t ∧ Swept id top starters (k + 1) t := by
  have hne : ∀ l, l < n → l ≠ k → shift (next top) l ≠ shift (next top) k :=
    fun l hl hlk => shift_ne _ hl (by omega) hlk
  have hne' : ∀ l, l < n → l ≠ k + 1 → shift (next top) l ≠ next (shift (next top) k) :=
    fun l hl hlk => shift_ne_next _ hl hk hlk
  obtain ⟨t, ht, hp, hl⟩ := flush h (hne' k (by omega) (by omega))
    (fun v hv => gathered_ne h hk hv) (hsw.here.trans (List.append_nil _).symm)
  refine ⟨t, ht, ?_, ?_, ?_, ?_⟩
  · intro l hlk
    rw [hl, if_neg (hne' l (by omega) (by omega)), List.append_nil]
    split
    · rfl
    · refine hsw.behind l (Nat.lt_of_le_of_ne (by omega) ?_)
      rintro rfl
      exact absurd rfl ‹_›
  · rw [hl, if_neg (hne _ hk (by omega)), if_pos (shift_succ _ k), hsw.ahead _ (by omega) hk,
      hsw.asleep k le_rfl (by omega), passed_gathered h]
    show _ = elections (((if _ then _ else _) ++ passed _ _ _) ++ _)
    rw [shift_succ, startedBy_link, List.append_assoc, ← elections_append]
  · intro l hlo hln
    rw [hl, if_neg (hne l hln (by omega)), if_neg (hne' l hln (by omega)), List.append_nil]
    exact hsw.ahead l (by omega) hln
  · intro l hlo hln
    rw [hp _ (hne l hln (by omega))]
    exact hsw.asleep l (by omega) hln

/-- The first lap comes to `top`. -/
theorem exists_swept (h : Ids id top) {k : Nat} (hk : k < n) :
    ∃ s, (listeners id).Reaches (startedBy id starters) s ∧ Swept id top starters k s := by
  induction k with
  | zero => exact ⟨_, .refl _, swept_started⟩
  | succ k ih =>
    obtain ⟨s, hs, hsw⟩ := ih (by omega)
    obtain ⟨t, ht, hswt⟩ := hsw.step h hk
    exact ⟨t, hs.trans ht, hswt⟩

/-! ## The second lap -/

/-- A message about `top` and the one about `w` behind it have come `k` steps after
`next top`; what is left of the first lap, `rest`, waits at `top`. -/
structure Paired (id : Fin n → Int) (top : Fin n) (w : Int) (rest : List Int) (k : Nat)
    (s : RingState n) : Prop where
  here : s.link (shift (next top) k) = elections [id top, w]
  elsewhere : ∀ l, l + 1 < n → l ≠ k → s.link (shift (next top) l) = []
  last : s.link top = elections rest

/-- `top` handles the first two of the messages that have come to it. -/
theorem exists_paired_of_waiting (h : Ids id top) {v : Int} {x : Nat} {rest : List Int}
    (hx : x + 1 < n) (hv : ∃ j, id j = v) {s : RingState n}
    (hlink : s.link top = elections (v :: id (shift (next top) x) :: rest))
    (hasleep : s.isParticipating top = false)
    (hempty : ∀ l, l + 1 < n → s.link (shift (next top) l) = []) :
    ∃ t, (listeners id).Reaches s t ∧ Paired id top (id (shift (next top) x)) rest 0 t := by
  have hnext : top ≠ next top := ne_next (by omega) top
  obtain ⟨u, hu, hup, hul⟩ := handle_election h hv hlink
  have hulink : u.link top = elections (id (shift (next top) x) :: rest) := by
    rw [hul, if_pos rfl, if_neg hnext, List.append_nil]
    rfl
  obtain ⟨t, ht, -, htl⟩ := handle_election h ⟨_, rfl⟩ hulink
  refine ⟨t, hu.trans ht, ?_, ?_, ?_⟩
  · have hw : answer true (id (shift (next top) x)) (id top) =
        buildPacket (id (shift (next top) x)) ELECTION :=
      if_pos fun heq => shift_next_ne top hx (h.distinct heq)
    have hfirst : s.link (next top) = [] := by
      have hzero := hempty 0 (by omega)
      rwa [shift_zero] at hzero
    rw [shift_zero, htl, if_neg (Ne.symm hnext), if_pos rfl, hul, if_neg (Ne.symm hnext),
      if_pos rfl, hfirst, hup, Function.update_self, hasleep, answer_at_top h hv, hw]
    rfl
  · intro l hl hl0
    have hne : shift (next top) l ≠ next top := by
      have hshift := shift_ne (next top) (show l < n by omega) (show 0 < n by omega) hl0
      rwa [shift_zero] at hshift
    have htop := shift_next_ne top hl
    rw [htl, if_neg htop, if_neg hne, hul, if_neg htop, if_neg hne, hempty l hl]
    rfl
  · rw [htl, if_pos rfl, if_neg hnext, List.append_nil]
    rfl

/-- Two of the messages of the first lap make a pair. -/
theorem exists_paired_zero (h : Ids id top) {l m : Nat} (hl : shift (next top) l ∈ starters)
    (hm : shift (next top) m ∈ starters) (hlm : l < m) (hmn : m + 1 < n) :
    ∃ x rest s, x + 1 < n ∧ (∀ v ∈ rest, ∃ j, id j = v) ∧
      (listeners id).Reaches (startedBy id starters) s ∧
      Paired id top (id (shift (next top) x)) rest 0 s := by
  obtain ⟨s, hs, hsw⟩ : ∃ s, (listeners id).Reaches (startedBy id starters) s ∧
      Swept id top starters (n - 1) s := exists_swept h (by omega)
  have hlen : 2 ≤ (gathered id top starters (n - 1)).length :=
    two_le_length_gathered hl hm hlm (by omega)
  match hg : gathered id top starters (n - 1) with
  | [] => rw [hg] at hlen; exact absurd hlen (by simp)
  | [v] => rw [hg] at hlen; exact absurd hlen (by simp)
  | v :: w :: ws =>
    have hmem : ∀ u ∈ v :: w :: ws, ∃ l < n - 1, id (shift (next top) l) = u := by
      rw [← hg]
      exact fun u hu => gathered_mem hu
    have hknown : ∀ u ∈ v :: w :: ws, ∃ j, id j = u := fun u hu =>
      let ⟨_, _, hid⟩ := hmem u hu
      ⟨_, hid⟩
    have hhere := hsw.here
    have hasleep := hsw.asleep (n - 1) le_rfl (by omega)
    rw [hg, shift_next_last] at hhere
    rw [shift_next_last] at hasleep
    obtain ⟨x, hx, rfl⟩ := hmem w (List.mem_cons_of_mem _ List.mem_cons_self)
    obtain ⟨t, ht, hp⟩ := exists_paired_of_waiting h (by omega) (hknown v List.mem_cons_self)
      hhere hasleep fun l hl => hsw.behind l (by omega)
    refine ⟨x, ws ++ ownStart id top starters, t, by omega, ?_, hs.trans ht, hp⟩
    intro r hr
    rcases List.mem_append.1 hr with hws | hown
    · exact hknown r (List.mem_cons_of_mem _ (List.mem_cons_of_mem _ hws))
    · exact ⟨top, (eq_of_mem_ownStart hown).symm⟩

/-- The two messages pass a server that is neither `top` nor the other one. -/
theorem Paired.step (h : Ids id top) {x k : Nat} (hkx : k < x) (hx : x + 1 < n) {rest : List Int}
    {s : RingState n} (hp : Paired id top (id (shift (next top) x)) rest k s) :
    ∃ t, (listeners id).Reaches s t ∧
      Paired id top (id (shift (next top) x)) rest (k + 1) t := by
  have hpassed : ∀ b, passed b (id (shift (next top) k)) [id top, id (shift (next top) x)] =
      [id top, id (shift (next top) x)]
    | true => rfl
    | false => by
      show [max (id top) _, _] = _
      rw [max_eq_left (h.isLargest _)]
  have hvs : ∀ v ∈ [id top, id (shift (next top) x)],
      v ≠ id (shift (next top) k) ∧ ∃ j, id j = v := by
    intro v hv
    rcases List.mem_cons.1 hv with rfl | hv
    · exact ⟨fun heq => shift_next_ne top (by omega) (h.distinct heq.symm), _, rfl⟩
    · rw [List.mem_singleton.1 hv]
      exact ⟨fun heq => shift_ne _ (by omega) (by omega) (Nat.ne_of_gt hkx) (h.distinct heq),
        _, rfl⟩
  have hne : ∀ l, l + 1 < n → l ≠ k + 1 → shift (next top) l ≠ next (shift (next top) k) :=
    fun l hl hlk => shift_ne_next _ (by omega) (by omega) hlk
  obtain ⟨t, ht, -, hl⟩ := flush h (hne k (by omega) (by omega)) hvs
    (hp.here.trans (List.append_nil _).symm)
  rw [hpassed] at hl
  refine ⟨t, ht, ?_, ?_, ?_⟩
  · rw [hl, if_neg (shift_ne _ (by omega) (by omega) (by omega)), if_pos (shift_succ _ k),
      hp.elsewhere _ (by omega) (by omega)]
    rfl
  · intro l hln hlk
    rw [hl, if_neg (hne l hln hlk), List.append_nil]
    split
    · rfl
    · refine hp.elsewhere l hln ?_
      rintro rfl
      exact absurd rfl ‹_›
  · have htop : top ≠ next (shift (next top) k) := by
      rw [← shift_succ]
      exact Ne.symm (shift_next_ne top (by omega))
    rw [hl, if_neg (Ne.symm (shift_next_ne top (by omega))), if_neg htop, List.append_nil]
    exact hp.last

theorem Paired.advance (h : Ids id top) {x : Nat} (hx : x + 1 < n) {rest : List Int}
    {s : RingState n} (hp : Paired id top (id (shift (next top) x)) rest 0 s)
    {k : Nat} (hk : k ≤ x) :
    ∃ t, (listeners id).Reaches s t ∧
      Paired id top (id (shift (next top) x)) rest k t := by
  induction k with
  | zero => exact ⟨s, .refl s, hp⟩
  | succ k ih =>
    obtain ⟨t, ht, hpt⟩ := ih (by omega)
    obtain ⟨u, hu, hpu⟩ := hpt.step h hk hx
    exact ⟨u, ht.trans hu, hpu⟩

/-- **The server with the smaller id takes part when its own id comes back**: it
declares itself elected, and its successor believes it. -/
theorem Paired.elected (h : Ids id top) {x : Nat} (hx : x + 1 < n) {rest : List Int}
    (hrest : ∀ v ∈ rest, ∃ j, id j = v) {s : RingState n}
    (hp : Paired id top (id (shift (next top) x)) rest x s) :
    ∃ t i, (listeners id).Reaches s t ∧ id (shift (next top) x) ∈ t.returned i := by
  have hself : ∀ i : Fin n, i ≠ next i := ne_next (by omega)
  obtain ⟨u, hu, hup, hul⟩ := handle_election h ⟨top, rfl⟩ hp.here
  have hulink : u.link (shift (next top) x) =
      buildPacket (id (shift (next top) x)) ELECTION :: [] := by
    rw [hul, if_pos rfl, if_neg (hself _), List.append_nil]
    rfl
  obtain ⟨t, ht, -, htl⟩ := handle_election h ⟨_, rfl⟩ hulink
  have htop := fun b => answer_top h b (shift_next_ne top hx)
  have hwon : answer true (id (shift (next top) x)) (id (shift (next top) x)) =
      buildPacket (id (shift (next top) x)) ELECTED := if_neg (not_not.2 rfl)
  -- Before the two messages, only `top` can have had something to handle.
  obtain ⟨old, hold, hknown⟩ : ∃ old, s.link (next (shift (next top) x)) = elections old ∧
      ∀ v ∈ old, ∃ j, id j = v := by
    rcases Nat.lt_or_ge (x + 2) n with hlt | hge
    · refine ⟨[], ?_, fun _ hv => absurd hv List.not_mem_nil⟩
      rw [← shift_succ]
      exact hp.elsewhere _ (by omega) (by omega)
    · refine ⟨rest, ?_, hrest⟩
      have hnext : next (shift (next top) x) = top := by
        rw [← shift_succ, show x + 1 = n - 1 by omega, shift_next_last]
      rw [hnext]
      exact hp.last
  have hlink : t.link (next (shift (next top) x)) = elections (old ++ [id top]) ++
      [buildPacket (id (shift (next top) x)) ELECTED] := by
    rw [htl, if_neg (Ne.symm (hself _)), if_pos rfl, hul, if_neg (Ne.symm (hself _)), if_pos rfl,
      hup, Function.update_self, htop, hwon, hold, elections_append]
    rfl
  obtain ⟨v, vs, hvs⟩ := List.exists_cons_of_ne_nil
    (List.append_ne_nil_of_right_ne_nil old (List.cons_ne_nil (id top) []))
  have hids : ∀ w ∈ v :: vs, ∃ j, id j = w := by
    intro w hw
    rw [← hvs] at hw
    rcases List.mem_append.1 hw with hw | hw
    · exact hknown w hw
    · exact ⟨top, (List.mem_singleton.1 hw).symm⟩
  rw [hvs] at hlink
  obtain ⟨t', ht', hawake, hlink'⟩ := flush_awake h (hself _) hids hlink
  obtain ⟨t'', ht'', hmem⟩ := handle_elected h ⟨_, rfl⟩ hlink' hawake
  exact ⟨t'', _, hu.trans (ht.trans (ht'.trans ht'')), hmem⟩

/-- The message of the pair that is not about `top` elects its server. -/
theorem Paired.exists_returned (h : Ids id top) {x : Nat} (hx : x + 1 < n) {rest : List Int}
    (hrest : ∀ v ∈ rest, ∃ j, id j = v) {s : RingState n}
    (hp : Paired id top (id (shift (next top) x)) rest 0 s) :
    ∃ t i v, (listeners id).Reaches s t ∧ v ∈ t.returned i ∧ v ≠ id top := by
  obtain ⟨t, ht, hpt⟩ := hp.advance h hx le_rfl
  obtain ⟨u, i, hu, hmem⟩ := hpt.elected h hx hrest
  exact ⟨u, i, _, ht.trans hu, hmem, fun heq => shift_next_ne top hx (h.distinct heq)⟩

/-- **Two starters besides the largest** have a run that tells a server another id. -/
theorem exists_early_returned (h : Ids id top) {a b : Fin n} (ha : a ∈ starters)
    (hb : b ∈ starters) (hatop : a ≠ top) (hbtop : b ≠ top) (hab : a ≠ b) :
    ∃ s i v, (electionOf id starters).ReachesWhen (InTime top) s ∧ v ∈ s.ring.returned i ∧
      v ≠ id top := by
  have hordered : ∃ l m, shift (next top) l ∈ starters ∧ shift (next top) m ∈ starters ∧
      l < m ∧ m + 1 < n := by
    have ha' : shift (next top) (dist (next top) a) ∈ starters := by rwa [shift_dist]
    have hb' : shift (next top) (dist (next top) b) ∈ starters := by rwa [shift_dist]
    rcases Nat.lt_trichotomy (dist (next top) a) (dist (next top) b) with hlt | heq | hgt
    · exact ⟨_, _, ha', hb', hlt, dist_next_lt hbtop⟩
    · exact absurd (by rw [← shift_dist (next top) a, heq, shift_dist]) hab
    · exact ⟨_, _, hb', ha', hgt, dist_next_lt hatop⟩
  obtain ⟨l, m, hl, hm, hlm, hmn⟩ := hordered
  obtain ⟨x, rest, s, hx, hrest, hs, hp⟩ := exists_paired_zero h hl hm hlm hmn
  obtain ⟨t, i, v, ht, hmem, hne⟩ := hp.exists_returned h hx hrest
  exact ⟨_, i, v, reachesWhen_listeners (fun _ _ => trivial) (reachesWhen_startedBy top starters)
    (hs.trans ht), hmem, hne⟩

end Election
end InstantMessenger
