import InstantMessenger.Server.LiveGroup

/-!
# Everybody sees the same order

What a session of a group is sent live, over all the threads that put messages into the
queue, join and leave.

* `LiveGroup.Orderly` — **the invariant**: what a session was sent is the run of
  broadcasts that its life spans.
* `LiveGroup.Orderly.broadcast`, `LiveGroup.Orderly.register`,
  `LiveGroup.Orderly.disconnect` — a broadcast lengthens the runs of the open sessions, a
  registration starts one, and a disconnect event ends those of the sessions that leave.
* `LiveGroup.same_order` — **a session sees a contiguous run of the pop sequence**, from
  its registration to its release, so two sessions see what they share in one order.
-/

namespace InstantMessenger

open Table

namespace LiveGroup

/-- What a session was sent is the run of broadcasts that its life spans. -/
structure Orderly (s : LiveGroup) : Prop where
  spans : ∀ (n : Nat) (l : Life), s.lives[n]? = some l →
    l.opened ≤ s.closing l ∧ s.closing l ≤ s.delivered.length
  runs : ∀ (n : Nat) (l : Life), s.lives[n]? = some l →
    s.liveTo n = (s.delivered.drop l.opened).take (s.closing l - l.opened)
  unborn : ∀ n, s.lives.length ≤ n → s.liveTo n = []
  wire : s.sent = s.live.map fun p => (sessionOf s.lives p.1, p.2)

/-! ## The broadcasts -/

/-- What a broadcast sends to the seats with one number. -/
theorem broadcast_to (seats : List Seat) (n : Nat) (x : Stored) :
    ((seats.map fun seat => (seat.number, x)).filter fun p => p.1 == n).map Prod.snd =
      List.replicate ((seats.map Seat.number).count n) x := by
  induction seats with
  | nil => rfl
  | cons seat seats ih =>
    rw [List.map_cons, List.map_cons]
    by_cases hn : seat.number = n
    · rw [List.filter_cons_of_pos (by simpa using hn), List.map_cons, ih, hn,
        List.count_cons_self, List.replicate_succ]
    · rw [List.filter_cons_of_neg (by simpa using hn), ih, List.count_cons_of_ne hn]

theorem liveTo_append {s : LiveGroup} (x : Stored) (n : Nat) :
    ((s.live ++ (seatsOf s.tables).map fun seat => (seat.number, x)).filter
        fun p => p.1 == n).map Prod.snd =
      s.liveTo n ++ List.replicate ((numbers s.tables).count n) x := by
  rw [List.filter_append, List.map_append, broadcast_to]
  rfl

/-- What is sent goes to a number that was given. -/
theorem Orderly.number_lt {s : LiveGroup} (ho : s.Orderly) {p : Nat × Stored} (hp : p ∈ s.live) :
    p.1 < s.lives.length := by
  by_contra hge
  have hmem : p.2 ∈ s.liveTo p.1 :=
    List.mem_map_of_mem (List.mem_filter.2 ⟨hp, by simp⟩)
  rw [ho.unborn p.1 (not_lt.1 hge)] at hmem
  cases hmem

/-- **A broadcast** lengthens the run of every open session by one. -/
theorem Orderly.broadcast {s : LiveGroup} (hn : s.Numbered) (ho : s.Orderly) (x : Stored) :
    Orderly { s with
      consumer := .waiting
      delivered := s.delivered ++ [x]
      sent := s.sent ++ s.group.getAllActiveConnectionIds.map fun c => (c, x)
      live := s.live ++ (seatsOf s.tables).map fun seat => (seat.number, x) } := by
  refine ⟨?_, ?_, ?_, ?_⟩
  · intro n l hl
    have hspan := ho.spans n l hl
    rw [closing] at hspan ⊢
    rw [List.length_append, List.length_singleton]
    cases hr : l.released with
    | none =>
      rw [hr] at hspan
      simp only [Option.getD_none] at hspan ⊢
      omega
    | some r =>
      rw [hr] at hspan
      simp only [Option.getD_some] at hspan ⊢
      omega
  · intro n l hl
    have hspan := ho.spans n l hl
    have hrun := ho.runs n l hl
    show ((s.live ++ _).filter _).map _ = _
    rw [liveTo_append, hrun]
    rw [closing] at hspan ⊢
    rw [closing]
    cases hr : l.released with
    | none =>
      -- the session is open: it has one seat
      have hone : (numbers s.tables).count n = 1 :=
        List.count_eq_one_of_mem hn.distinct ((hn.isOpen n).2 ⟨l, hl, hr⟩)
      rw [hr] at hspan
      simp only [Option.getD_none] at hspan ⊢
      rw [hone, List.replicate_one, List.length_append, List.length_singleton,
        List.drop_append_of_le_length hspan.1, List.take_of_length_le (by simp),
        List.take_of_length_le (by simp; omega)]
    | some r =>
      have hzero : (numbers s.tables).count n = 0 := by
        refine List.count_eq_zero.2 ?_
        intro hmem
        obtain ⟨k, hk, hopen⟩ := (hn.isOpen n).1 hmem
        rw [hl] at hk
        cases hk
        rw [hr] at hopen
        cases hopen
      rw [hr] at hspan
      simp only [Option.getD_some] at hspan ⊢
      rw [hzero, List.replicate_zero, List.append_nil,
        List.drop_append_of_le_length (by omega), List.take_append_of_le_length (by simp; omega)]
  · intro n hlen
    show ((s.live ++ _).filter _).map _ = _
    have hzero : (numbers s.tables).count n = 0 :=
      List.count_eq_zero.2 fun hmem => absurd (number_lt_of_open hn hmem) (not_lt.2 hlen)
    rw [liveTo_append, ho.unborn n hlen, hzero]
    rfl
  · have hactive : s.group.getAllActiveConnectionIds = (seatsOf s.tables).map Seat.session := by
      rw [sessions_seatsOf, hn.users]
      rfl
    dsimp only
    rw [hactive, ho.wire, List.map_append, List.map_map, List.map_map]
    congr 1
    refine List.map_congr_left ?_
    intro seat hseat
    simp only [Function.comp_apply, hn.session seat hseat]

/-- **A registration** starts a run. -/
theorem Orderly.register {s t : LiveGroup} {c : Session} {userName : Str} {o : Outside}
    (hn : s.Numbered) (ho : s.Orderly) (h : s.step (.register c userName o) = some t) :
    t.Orderly := by
  obtain ⟨-, -, -, -, hdelivered, hsent, hlive, hcase⟩ := step_register hn h
  have hlives : t.lives = s.lives ++ [⟨c, s.delivered.length, none⟩] ∨ t.lives = s.lives :=
    hcase.imp (fun h => h.1) fun h => h.1
  have hliveTo : ∀ n, t.liveTo n = s.liveTo n := fun n => by rw [liveTo, liveTo, hlive]
  have hclosing : ∀ l, t.closing l = s.closing l := fun l => by rw [closing, closing, hdelivered]
  rcases hlives with hlives | hlives
  · refine ⟨?_, ?_, ?_, ?_⟩
    · intro n l hl
      rw [hclosing, hdelivered]
      rw [hlives] at hl
      rcases Slots.getElem?_concat_cases hl with hl | ⟨-, rfl⟩
      · exact ho.spans n l hl
      · exact ⟨le_refl _, le_refl _⟩
    · intro n l hl
      rw [hclosing, hdelivered, hliveTo]
      rw [hlives] at hl
      rcases Slots.getElem?_concat_cases hl with hl | ⟨rfl, rfl⟩
      · exact ho.runs n l hl
      · rw [ho.unborn _ (le_refl _), closing, Option.getD_none, Nat.sub_self, List.take_zero]
    · intro n hlen
      rw [hlives, List.length_append, List.length_singleton] at hlen
      rw [hliveTo]
      exact ho.unborn n (by omega)
    · rw [hsent, hlive, hlives, ho.wire]
      exact List.map_congr_left fun p hp => by rw [sessionOf_concat _ (ho.number_lt hp)]
  · refine ⟨?_, ?_, ?_, ?_⟩
    · intro n l hl
      rw [hclosing, hdelivered]
      exact ho.spans n l (hlives ▸ hl)
    · intro n l hl
      rw [hclosing, hdelivered, hliveTo]
      exact ho.runs n l (hlives ▸ hl)
    · intro n hlen
      rw [hliveTo]
      exact ho.unborn n (hlives ▸ hlen)
    · rw [hsent, hlive, hlives, ho.wire]

/-- **A disconnect event** ends the runs of the sessions that leave. -/
theorem Orderly.disconnect {s : LiveGroup} (ho : s.Orderly) (g : Group) (ts : List Table) :
    Orderly { s with
      group := g
      tables := ts
      lives := release s.delivered.length ts s.lives } := by
  have hold : ∀ (n : Nat) (l : Life), (release s.delivered.length ts s.lives)[n]? = some l →
      ∃ k, s.lives[n]? = some k ∧ l.opened = k.opened ∧ s.closing l = s.closing k := by
    intro n l hl
    obtain ⟨k, hk, ⟨hopen, -, rfl⟩ | ⟨rfl, -⟩⟩ := getElem?_release hl
    · exact ⟨k, hk, rfl, by rw [closing, closing, hopen]; rfl⟩
    · exact ⟨l, hk, rfl, rfl⟩
  refine ⟨?_, ?_, ?_, ?_⟩
  · intro n l hl
    obtain ⟨k, hk, hopened, hclosing⟩ := hold n l hl
    have hspan := ho.spans n k hk
    rw [← hopened, ← hclosing] at hspan
    exact hspan
  · intro n l hl
    obtain ⟨k, hk, hopened, hclosing⟩ := hold n l hl
    have hrun := ho.runs n k hk
    rw [← hopened, ← hclosing] at hrun
    exact hrun
  · intro n hlen
    rw [length_release] at hlen
    exact ho.unborn n hlen
  · dsimp only
    rw [ho.wire]
    exact List.map_congr_left fun p _ => by rw [sessionOf_release]

theorem Orderly.move {s t : LiveGroup} {l : LiveStep} (hn : s.Numbered) (ho : s.Orderly)
    (h : s.step l = some t) : t.Orderly := by
  cases l with
  | receive userName text time =>
    cases h
    exact ⟨ho.spans, ho.runs, ho.unborn, ho.wire⟩
  | pop =>
    obtain ⟨m, -, -, rfl⟩ := step_pop h
    exact ⟨ho.spans, ho.runs, ho.unborn, ho.wire⟩
  | append =>
    obtain ⟨x, -, rfl⟩ := step_append h
    exact ⟨ho.spans, ho.runs, ho.unborn, ho.wire⟩
  | broadcast =>
    obtain ⟨x, -, rfl⟩ := step_broadcast h
    exact ho.broadcast hn x
  | register c userName o => exact ho.register hn h
  | disconnect c time counts =>
    cases h
    exact ho.disconnect _ _

theorem numbered_of_reachable {s : LiveGroup} (h : liveGroup.Reachable s) : s.Numbered := by
  refine h.invariant ?_ fun t l u ht hst => ht.move hst
  intro t ht
  refine ⟨?_, ?_, ?_, ?_⟩
  · rw [ht.tables, ht.users]
    rfl
  · rw [ht.tables]
    exact List.nodup_nil
  · intro n
    rw [ht.tables, ht.lives]
    simp [numbers, seatsOf]
  · intro seat hseat
    rw [ht.tables] at hseat
    cases hseat

theorem popped_of_reachable {s : LiveGroup} (h : liveGroup.Reachable s) : s.Popped := by
  refine h.invariant ?_ fun t l u ht hst => ht.move hst
  intro t ht
  refine ⟨?_, ?_, ?_⟩
  · intro k x hx
    rw [ht.pops] at hx
    cases hx
  · intro k x hx
    rw [ht.pops] at hx
    cases hx
  · rw [ht.delivered, ht.consumer, ht.pops]
    rfl

theorem orderly_of_reachable {s : LiveGroup} (h : liveGroup.Reachable s) : s.Orderly := by
  have hboth : s.Numbered ∧ s.Orderly := by
    refine h.invariant (I := fun s => s.Numbered ∧ s.Orderly) ?_ ?_
    · intro t ht
      refine ⟨numbered_of_reachable (.start ht), ?_, ?_, ?_, ?_⟩
      · intro n l hl
        rw [ht.lives] at hl
        cases hl
      · intro n l hl
        rw [ht.lives] at hl
        cases hl
      · intro n _
        rw [liveTo, ht.live]
        rfl
      · rw [ht.sent, ht.live]
        rfl
    · rintro t l u ⟨hn, ho⟩ hst
      exact ⟨hn.move hst, ho.move hn hst⟩
  exact hboth.2

/-! ## The results -/

theorem Popped.nodup {s : LiveGroup} (hp : s.Popped) : s.pops.Nodup := by
  have hplaces : s.pops.map Stored.place = (List.range s.pops.length).map Int.ofNat := by
    refine List.ext_getElem? ?_
    intro k
    rw [List.getElem?_map, List.getElem?_map]
    rcases Nat.lt_or_ge k s.pops.length with hk | hk
    · rw [List.getElem?_range hk, List.getElem?_eq_getElem hk]
      exact congrArg some (hp.place k _ (List.getElem?_eq_getElem hk))
    · rw [List.getElem?_eq_none hk, List.getElem?_eq_none (by simpa using hk)]
      rfl
  refine List.Nodup.of_map Stored.place ?_
  rw [hplaces]
  exact List.nodup_range.map fun a b h => Int.ofNat.inj h

/-- A sublist of a list without repetitions is found again by its members. -/
theorem filter_mem_of_sublist {α : Type*} [DecidableEq α] {a l : List α} (h : a.Sublist l)
    (hl : l.Nodup) : l.filter (· ∈ a) = a := by
  have hperm : (l.filter (· ∈ a)).Perm a :=
    (List.perm_ext_iff_of_nodup (hl.filter _) (hl.sublist h)).2 fun x => by
      simpa using fun hx => h.subset hx
  have hsub : a.Sublist (l.filter (· ∈ a)) := by
    have hfilter := h.filter (· ∈ a)
    rwa [List.filter_eq_self.2 fun x hx => by simpa using hx] at hfilter
  exact (hsub.eq_of_length hperm.length_eq.symm).symm

/-- Two parts of one order agree on what they share. -/
theorem shared_order {α : Type*} [DecidableEq α] {a b l : List α} (ha : a.Sublist l)
    (hb : b.Sublist l) (hl : l.Nodup) : a.filter (· ∈ b) = b.filter (· ∈ a) := by
  calc a.filter (· ∈ b) = (l.filter (· ∈ a)).filter (· ∈ b) := by
        rw [filter_mem_of_sublist ha hl]
    _ = (l.filter (· ∈ b)).filter (· ∈ a) := List.filter_comm _ _ l
    _ = b.filter (· ∈ a) := by rw [filter_mem_of_sublist hb hl]

theorem delivered_prefix {s : LiveGroup} (hp : s.Popped) : s.delivered <+: s.pops :=
  ⟨inHand s.consumer, hp.split⟩

/-- The run of a session, cut out of the pop sequence. -/
theorem liveTo_eq {s : LiveGroup} (hp : s.Popped) (ho : s.Orderly) {n : Nat} {l : Life}
    (hl : s.lives[n]? = some l) :
    s.liveTo n = (s.pops.drop l.opened).take (s.closing l - l.opened) := by
  have hspan := ho.spans n l hl
  rw [ho.runs n l hl, ← hp.split, List.drop_append_of_le_length (by omega),
    List.take_append_of_le_length (by simp; omega)]

theorem liveTo_sublist {s : LiveGroup} (hp : s.Popped) (ho : s.Orderly) (n : Nat) :
    (s.liveTo n).Sublist s.pops := by
  cases hl : s.lives[n]? with
  | none =>
    rw [ho.unborn n (by simpa using hl)]
    exact List.nil_sublist _
  | some l =>
    rw [liveTo_eq hp ho hl]
    exact (List.take_sublist _ _).trans (List.drop_sublist _ _)

/-- The packets to a pair that was registered once are those of its one session. -/
theorem sent_to_of_unique {s : LiveGroup} (h : liveGroup.Reachable s) {c : Session} {n : Nat}
    (hn : sessionOf s.lives n = c)
    (hone : ∀ m < s.lives.length, sessionOf s.lives m = c → m = n) :
    (s.sent.filter fun p => p.1 == c).map Prod.snd = s.liveTo n := by
  have ho := orderly_of_reachable h
  rw [ho.wire, List.filter_map, List.map_map, liveTo]
  have hfilter : s.live.filter ((fun p => p.1 == c) ∘ fun p => (sessionOf s.lives p.1, p.2)) =
      s.live.filter fun p => p.1 == n := by
    refine List.filter_congr ?_
    intro p hp
    rw [Function.comp_apply, Bool.eq_iff_iff, beq_iff_eq, beq_iff_eq]
    constructor
    · exact hone p.1 (ho.number_lt hp)
    · rintro rfl
      exact hn
  rw [hfilter]
  rfl

/-- **Same order for everybody.**  Messages are popped in the order of the queue.  What is
broadcast to a session is the run of the pop sequence from the number of broadcasts
before its registration to the number before its release, and goes out under its own
pair; and any two sessions see what they share in the same order. -/
theorem same_order {s : LiveGroup} (h : liveGroup.Reachable s) :
    (∀ (k : Nat) (x : Stored), s.pops[k]? = some x →
        x.place = k ∧ s.group.messages_queue[k]? = some x.message) ∧
      (∀ (n : Nat) (l : Life), s.lives[n]? = some l →
        s.liveTo n = (s.pops.drop l.opened).take (s.closing l - l.opened) ∧
          l.opened ≤ s.closing l ∧ s.closing l ≤ s.delivered.length) ∧
      s.delivered <+: s.pops ∧
      s.sent = s.live.map (fun p => (sessionOf s.lives p.1, p.2)) ∧
      ∀ m n, (s.liveTo m).filter (· ∈ s.liveTo n) = (s.liveTo n).filter (· ∈ s.liveTo m) := by
  have hp := popped_of_reachable h
  have ho := orderly_of_reachable h
  refine ⟨fun k x hx => ⟨hp.place k x hx, hp.fifo k x hx⟩, ?_, delivered_prefix hp, ho.wire, ?_⟩
  · intro n l hl
    exact ⟨liveTo_eq hp ho hl, ho.spans n l hl⟩
  · intro m n
    exact shared_order (liveTo_sublist hp ho m) (liveTo_sublist hp ho n) hp.nodup

/-- A group with nobody in it. -/
def quietGroup : LiveGroup where
  group := Group.new "g".toList
  consumer := .waiting
  pops := []
  delivered := []
  sent := []
  tables := []
  lives := []
  live := []

/-- One client registers the same pair twice; it leaves after the first broadcast, and
another client comes. -/
def comingAndGoing : List LiveStep :=
  [.register ("x".toList, "f".toList) "u".toList {},
    .register ("x".toList, "f".toList) "u".toList {},
    .pop, .append, .broadcast,
    .disconnect ("x".toList, "f".toList) 0 fun _ => none,
    .register ("y".toList, "f".toList) "v".toList {},
    .pop, .append, .broadcast]

theorem same_order_comingAndGoing :
    ∃ s, liveGroup.exec quietGroup comingAndGoing = some s ∧
      s.liveTo 0 = (s.pops.drop 0).take 1 ∧ s.liveTo 1 = (s.pops.drop 0).take 2 ∧
      s.liveTo 2 = (s.pops.drop 1).take 1 := by
  obtain ⟨s, hs⟩ : ∃ s, liveGroup.exec quietGroup comingAndGoing = some s :=
    Option.isSome_iff_exists.1 (by decide)
  have hstart : Start quietGroup := ⟨rfl, rfl, rfl, rfl, rfl, rfl, rfl, rfl⟩
  have hreach : liveGroup.Reachable s := Transition.System.reachable_of_exec hstart hs
  obtain ⟨-, hruns, -⟩ := same_order hreach
  refine ⟨s, hs, ?_, ?_, ?_⟩
  · have hfirst := hruns 0 ⟨("x".toList, "f".toList), 0, some 1⟩
    cases hs
    exact (hfirst (by decide)).1
  · have hsecond := hruns 1 ⟨("x".toList, "f".toList), 0, none⟩
    cases hs
    exact (hsecond (by decide)).1
  · have hthird := hruns 2 ⟨("y".toList, "f".toList), 1, none⟩
    cases hs
    exact (hthird (by decide)).1

end LiveGroup

end InstantMessenger
