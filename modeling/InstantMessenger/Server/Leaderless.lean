import InstantMessenger.Server.NextPrimary
import InstantMessenger.Server.SplitBrain

/-!
# A ring without a primary

* `Formed`, `formedRing` — a ring in which all servers of the file are started and
  linked, and what happens to it when no server is started again.
* `sparing` — the condition on a run: a crash leaves another primary or strikes a
  ring at rest, and no server that is connecting starts to connect again.
* `Led.step` — **under it the stages of the outline follow each other**.
* `no_leaderless_ring` — a ring at rest then has a primary.
* `leaderless_counterexample` — the primary crashes while its new predecessor is about
  to connect to it.
-/

namespace InstantMessenger
namespace RingServers

open Cyclic

variable {n : Nat} {port : Fin n → Int} {s t : RingServers n} {l : RingLabel n}

/-! ## Runs without starts -/

/-- All servers of the file have been started, none has crashed, and the ring is
quiescent. -/
structure Formed (port : Fin n → Int) (s : RingServers n) : Prop where
  run : (serversRing port).ReachesWhen (fun _ l => ∀ i, l ≠ .crash i) s
  started : ∀ i, s.live i
  quiescent : s.Quiescent port

/-- A ring that was formed, on which servers crash and none is started. -/
def formedRing (port : Fin n → Int) : Transition.System (RingServers n) (RingLabel n) where
  init := Formed port
  step s
    | .start _ => none
    | l => s.step port l

/-- A crash leaves another primary, or strikes a ring at rest. -/
def sparing (port : Fin n → Int) (s : RingServers n) : RingLabel n → Prop
  | .crash i => (∃ j, j ≠ i ∧ ∃ r ∈ s.server j, r.isPrimary = true) ∨ s.AtRest port
  | .acceptor i => s.undisturbed (.acceptor i) = true
  | _ => True

theorem step_connector {i : Fin n} {r : ServersRing n} {th : ConnectThread}
    (hr : s.server i = some r) (ht : r.connecting = [th]) :
    s.step port (.connector i 0) = s.connectToServer port i r 0 th := by
  rw [step, hr, Option.bind_some, ht]
  rfl

/-- What the threads of a ring do when it is quiescent. -/
theorem Quiescent.idle (h : s.Quiescent port)
    (hl : (∃ i k, l = .connector i k) ∨ ∃ i, l = .acceptor i) : s.step port l = none := by
  rcases hl with ⟨i, k, rfl⟩ | ⟨i, rfl⟩
  · cases hr : s.server i with
    | none => simp only [step, hr, Option.bind_none]
    | some r =>
      by_cases hk : k < r.connecting.length
      · exact h.connected i r hr k hk
      · have hnone : r.connecting[k]? = none := List.getElem?_eq_none (not_lt.1 hk)
        simp only [step, hr, Option.bind_some, hnone, Option.bind_none]
  · exact h.accepted i

/-! ## A ring that was formed -/

/-- A ring that has not seen a crash. -/
theorem Followed.without_crash (hports : Ports port)
    (hs : (serversRing port).ReachesWhen (fun _ l => ∀ i, l ≠ .crash i) s) :
    Followed port s ∧ s.crashed = false := by
  refine hs.invariant (I := fun s => Followed port s ∧ s.crashed = false) ?_ ?_
  · rintro _ rfl
    exact ⟨followed_none_started, rfl⟩
  · rintro s l t ⟨h, hc⟩ hnot hst
    have hok : s.undisturbed l = true := by
      cases l with
      | start i => simp [undisturbed, hc]
      | crash i => exact absurd rfl (hnot i)
      | connector i k => rfl
      | acceptor i =>
        refine decide_eq_true ?_
        intro r hr hstart _
        by_contra hne
        have := h.shape.again i r hr hstart hne
        rw [hc] at this
        cases this
    refine ⟨h.step hports hok hst, ?_⟩
    cases l with
    | start i =>
      obtain ⟨-, -, rfl⟩ := step_start hst
      exact start_crashed hok
    | crash i => exact absurd rfl (hnot i)
    | connector i k =>
      obtain ⟨v, hv, -⟩ := h.outline
      obtain ⟨-, v', hm, hv'⟩ := hv.thread hports h.shape (.inl ⟨i, k, rfl⟩) hok hst
      rw [← hv'.crashed, Outline.Move.crashed hm, hv.crashed, hc]
    | acceptor i =>
      obtain ⟨v, hv, -⟩ := h.outline
      obtain ⟨-, v', hm, hv'⟩ := hv.thread hports h.shape (.inr ⟨i, rfl⟩) hok hst
      rw [← hv'.crashed, Outline.Move.crashed hm, hv.crashed, hc]

/-- The ring is well shaped, and its outline at one of the stages. -/
structure Led (port : Fin n → Int) (s : RingServers n) : Prop where
  shape : Shape s
  outline : ∃ v, Outlined port s v ∧ v.Linked ∧ v.Stage
  formed : s.crashed = false → s.Quiescent port

theorem led_formed (hports : Ports port) (h : Formed port s) : Led port s := by
  obtain ⟨hfollowed, hc⟩ := Followed.without_crash hports h.run
  obtain ⟨v, hv, hsound⟩ := hfollowed.outline
  have hfresh := hsound.fresh (hv.crashed.trans hc)
  refine ⟨hfollowed.shape, ⟨v, hv, hsound.linked, ?_⟩, fun _ => h.quiescent⟩
  by_cases hex : ∃ k, v.live k
  · obtain ⟨k, hk⟩ := hex
    obtain ⟨m, hm⟩ := hfresh.first k hk
    refine .stable (first k) hfresh.flying ⟨m, hm, ?_⟩ fun j m' hj => ?_
    · rw [(hfresh.member _ m hm).2.2.2.1]
      exact decide_eq_true rfl
    · obtain ⟨-, h1, h2, h3, h4⟩ := hfresh.member j m' hj
      exact ⟨h1, h2, h4, fun hpr => of_decide_eq_true (h3 ▸ hpr)⟩
  · exact .empty fun k hk => hex ⟨k, hk⟩

/-- A ring at rest, in outline. -/
theorem AtRest.outline (h : s.AtRest port) (hshape : Shape s) {v : Outline n}
    (hv : Outlined port s v) : v.Rest where
  flying := by
    have hnone : s.inFlight = 0 := by
      refine congrArg _ (List.flatMap_eq_nil_iff.2 fun conn hconn => ?_)
      rw [RingConn.flying, h.silent conn hconn, List.map_nil]
    rw [hv.flying] at hnone
    exact Multiset.map_eq_zero.1 hnone
  up := by
    intro k m hm
    obtain ⟨r, hr, hshows⟩ := hv.member hm
    obtain ⟨c, hc, conn, hconn, hup, -⟩ := h.linked k r hr
    have hlive : ∀ {j}, Reaches s r.socket_client j → s.live j := by
      rintro j ⟨c', conn', hc', hconn', -, hup', -⟩
      obtain rfl : c' = c := Option.some.inj (hc'.symm.trans hc)
      cases hconn'.symm.trans hconn
      exact hup'.1 hup
    have hsocket : r.socket_client ≠ none := fun h0 => by
      rw [h0] at hc
      cases hc
    cases hshape.server k r hr with
    | unborn _ h0 _ _ _ => exact absurd h0 hsocket
    | running ht hp =>
      cases hp with
      | fresh h0 _ _ => exact absurd h0 hsocket
      | lost _ hreaches hdead _ => exact absurd (hlive hreaches) hdead
      | trying h0 _ _ => exact absurd h0 hsocket
      | failed h0 _ _ _ => exact absurd h0 hsocket
      | connected _ _ _ =>
        have hidle := h.connected k r hr 0 (by rw [ht]; exact Nat.zero_lt_one)
        rw [step_connector hr ht] at hidle
        cases hidle
      | @watching _ j _ ha hreaches =>
        refine ⟨?_, j, ?_, ?_⟩
        · rw [hshows.calling, ServersRing.calls_eq ht]
          rfl
        · rw [hshows.target, ServersRing.aims_eq ht]
          exact ha.client_port
        · rw [hv.live]
          exact hlive hreaches

/-- **A step of a spared ring leads to the next stage.** -/
theorem Led.step (hports : Ports port) (h : Led port s) (hok : sparing port s l)
    (hst : (formedRing port).step s l = some t) : Led port t := by
  obtain ⟨v, hv, hlinked, hstage⟩ := h.outline
  have hthread : ((∃ i k, l = .connector i k) ∨ ∃ i, l = .acceptor i) →
      s.undisturbed l = true → s.step port l = some t → Led port t := by
    intro hl hok hst
    obtain ⟨hshape, v', hm, hv'⟩ := hv.thread hports h.shape hl hok hst
    refine ⟨hshape, ⟨v', hv', hlinked.move hm, hstage.move hlinked hm⟩, ?_⟩
    intro hc
    -- before the first crash there is nothing to do
    have hcs : s.crashed = false := by
      rw [← hv.crashed, ← Outline.Move.crashed hm, hv'.crashed, hc]
    rw [(h.formed hcs).idle hl] at hst
    cases hst
  cases l with
  | start i => cases hst
  | crash i =>
    obtain ⟨hi, rfl⟩ := @step_crash n port s t i hst
    have hundisturbed : s.undisturbed (.crash i) = true := by
      refine decide_eq_true ?_
      intro k r hr _ th hth hfailed j hj _
      cases hserver : s.server j with
      | none => rfl
      | some x =>
        cases h.shape.server k r hr with
        | unborn h0 _ _ _ _ =>
          rw [h0] at hth
          cases hth
        | running ht hp =>
          rw [ht, List.mem_singleton] at hth
          subst hth
          cases hp with
          | fresh _ _ _ | lost _ _ _ _ | trying _ _ _ | connected _ _ _ | watching _ _ _ =>
            cases hfailed
          | @failed b j' h0 _ ha hdead =>
            obtain rfl : j' = j := Option.some.inj (ha.client_port.symm.trans hj)
            by_cases hc : s.crashed = true
            · exact absurd ⟨x, hserver⟩ (hdead hc)
            · have hquiet := (h.formed (Bool.eq_false_of_not_eq_true hc)).connected k r hr 0
                (by rw [ht]; exact Nat.zero_lt_one)
              rw [step_connector hr ht] at hquiet
              cases hquiet
    refine ⟨h.shape.crash hundisturbed, ⟨_, hv.crash i, hlinked.crash i,
      hstage.crash hlinked (by rwa [hv.live]) ?_⟩, fun hc => by cases hc⟩
    rcases hok with ⟨j, hji, r, hj, hpr⟩ | hrest
    · obtain ⟨m, hm, hshows⟩ := hv.shown j r hj
      exact .inl ⟨j, m, hji, hm, hshows.isPrimary.trans hpr⟩
    · exact .inr (hrest.outline h.shape hv)
  | connector i k => exact hthread (.inl ⟨i, k, rfl⟩) rfl hst
  | acceptor i => exact hthread (.inr ⟨i, rfl⟩) hok hst

/-- **No leaderless ring.**  For every ring that was formed from a `config.txt` with
distinct ports: in every run in which servers crash only while another live server is
the primary or while the ring is at rest, and no server that is connecting starts to
connect again, a state at rest, and so a quiescent one, in which a server is live has a live
server with `isPrimary` set. -/
theorem no_leaderless_ring (hdistinct : Function.Injective port) (hpositive : ∀ i, 0 < port i)
    (hint : ∀ i, port i ≤ Text.INT_MAX)
    (hs : (formedRing port).ReachesWhen (sparing port) s) (hrest : s.AtRest port)
    (hlive : ∃ i, s.live i) : ∃ j r, s.server j = some r ∧ r.isPrimary = true := by
  have hports : Ports port := ⟨hdistinct, hpositive, hint⟩
  have hled : Led port s := hs.invariant (fun _ h => led_formed hports h)
    fun _ _ _ h hok hst => h.step hports hok hst
  obtain ⟨v, hv, -, hstage⟩ := hled.outline
  obtain ⟨i, hi⟩ := hlive
  obtain ⟨j, m, hm, hpr⟩ := hstage.primary (hrest.outline hled.shape hv)
    (show v.live i by rwa [hv.live])
  obtain ⟨r, hr, hshows⟩ := hv.member hm
  exact ⟨j, r, hr, hshows.isPrimary.symm.trans hpr⟩

/-! ## A ring of four -/

instance (port : Fin n → Int) (s : RingServers n) : Decidable (s.AtRest port) :=
  decidable_of_iff
    ((∀ i, ∀ r ∈ s.server i, ∃ c ∈ r.socket_client, ∃ conn ∈ s.conns[c]?,
        conn.dstUp = true ∧ (s.server conn.dst).isSome) ∧
      (∀ conn ∈ s.conns, conn.queue = []) ∧
      ∀ i, ∀ r ∈ s.server i, ∀ t < r.connecting.length, s.step port (.connector i t) = none)
    ⟨fun h => ⟨h.1, h.2.1, h.2.2⟩, fun h => ⟨h.linked, h.silent, h.connected⟩⟩

instance (port : Fin n → Int) (s : RingServers n) : Decidable (s.Quiescent port) :=
  decidable_of_iff (s.AtRest port ∧ ∀ i, s.step port (.acceptor i) = none)
    ⟨fun h => ⟨h.1, h.2⟩, fun h => ⟨h.toAtRest, h.accepted⟩⟩

instance (port : Fin n → Int) (s : RingServers n) : DecidablePred (sparing port s)
  | .start _ => .isTrue trivial
  | .crash i => inferInstanceAs (Decidable ((∃ j, j ≠ i ∧ ∃ r ∈ s.server j, _) ∨ _))
  | .connector _ _ => .isTrue trivial
  | .acceptor _ => inferInstanceAs (Decidable (_ = true))

/-- Four servers are started and linked. -/
def formation : List (RingLabel 4) :=
  let starts : List (RingLabel 4) := [0, 1, 2, 3].flatMap fun i =>
    [.start i, .acceptor i, .connector i 0]
  let links : List (RingLabel 4) := [0, 1, 2, 3].flatMap fun i =>
    [.connector i 0, .connector i 0]
  starts ++ links ++ [.acceptor 0, .acceptor 1, .acceptor 2, .acceptor 3]

def fourPorts : Fin 4 → Int := ![5001, 5002, 5003, 5004]

/-- The label is not a crash. -/
def noCrash (_ : RingServers 4) : RingLabel 4 → Bool
  | .crash _ => false
  | _ => true

theorem formed_four : ∃ s, (serversRing fourPorts).execWhen noCrash none_started formation =
    some s ∧ Formed fourPorts s := by
  obtain ⟨s, hs⟩ : ∃ s, (serversRing fourPorts).execWhen noCrash none_started formation = some s :=
    Option.isSome_iff_exists.1 (by decide)
  have hrun : (serversRing fourPorts).ReachesWhen (fun _ l => ∀ i, l ≠ .crash i) s := by
    refine Transition.System.reachesWhen_of_execWhen (fun _ l h i => ?_) (.start rfl) hs
    rintro rfl
    cases h
  have hstarted : ∀ i, (s.server i).isSome = true := by cases hs; decide
  have hquiescent : s.Quiescent fourPorts := by cases hs; decide
  exact ⟨s, hs, hrun, fun i => Option.isSome_iff_exists.1 (hstarted i), hquiescent⟩

/-- The primary crashes on a ring at rest: its predecessor misses it, is linked to the
next server, and the election goes round. -/
def succession : List (RingLabel 4) :=
  [.crash 0, .connector 3 0, .connector 3 0, .connector 3 0, .connector 3 0, .acceptor 1,
    .acceptor 1, .acceptor 1] ++
    (List.replicate 3 [.acceptor 1, .acceptor 2, .acceptor 3]).flatten

/-- The new primary of a ring of four. -/
theorem no_leaderless_ring_four : ∃ s : RingServers 4, s.server 0 = none ∧
    ∃ j r, s.server j = some r ∧ r.isPrimary = true := by
  obtain ⟨s, hs, hformed⟩ := formed_four
  obtain ⟨t, ht⟩ : ∃ t, (formedRing fourPorts).execWhen
      (fun s l => decide (sparing fourPorts s l)) s succession = some t :=
    Option.isSome_iff_exists.1 (by cases hs; decide)
  have hrun : (formedRing fourPorts).ReachesWhen (sparing fourPorts) t :=
    Transition.System.reachesWhen_of_execWhen (fun _ _ h => of_decide_eq_true h) (.start hformed) ht
  have hrest : t.AtRest fourPorts := by cases hs; cases ht; decide
  have hlive : t.live 1 := Option.isSome_iff_exists.1 (by cases hs; cases ht; decide)
  refine ⟨t, by cases hs; cases ht; rfl, ?_⟩
  exact no_leaderless_ring (by unfold Function.Injective; decide) (by decide) (by decide) hrun
    hrest ⟨1, hlive⟩

/-- **The new predecessor.**  A server that is not the primary crashes; its predecessor
looks for the next one, which is the primary.  The primary crashes before the
connection is made, and the predecessor, which lost another server, starts no
election. -/
theorem leaderless_counterexample :
    ¬ ∀ (n : Nat) (port : Fin n → Int), Function.Injective port → (∀ i, 0 < port i) →
        (∀ i, port i ≤ Text.INT_MAX) → ∀ s, (formedRing port).Reachable s →
          s.Quiescent port → (∃ i, s.live i) → ∃ j r, s.server j = some r ∧ r.isPrimary = true := by
  intro h
  obtain ⟨s, hs, hformed⟩ := formed_four
  obtain ⟨t, ht⟩ : ∃ t, (formedRing fourPorts).exec s
      [.crash 3, .connector 2 0, .connector 2 0, .crash 0, .acceptor 1, .acceptor 1,
        .connector 2 0, .connector 2 0, .connector 2 0, .connector 2 0, .acceptor 1] = some t :=
    Option.isSome_iff_exists.1 (by cases hs; decide)
  have hreach : (formedRing fourPorts).Reachable t :=
    Transition.System.reachable_of_exec hformed ht
  have hquiescent : t.Quiescent fourPorts := by cases hs; cases ht; decide
  have hlive : t.live 1 := Option.isSome_iff_exists.1 (by cases hs; cases ht; decide)
  have hnone : ∀ j, ∀ r ∈ t.server j, r.isPrimary = false := by cases hs; cases ht; decide
  obtain ⟨j, r, hr, hpr⟩ := h 4 fourPorts (by unfold Function.Injective; decide) (by decide)
    (by decide) t hreach hquiescent ⟨1, hlive⟩
  rw [hnone j r hr] at hpr
  cases hpr

end RingServers
end InstantMessenger
