import Mathlib.Data.Fin.VecNotation
import InstantMessenger.Server.OnePrimary
import InstantMessenger.Server.RingSimulation

/-!
# Two primaries

* `Followed` — a ring of well shaped servers and its outline; `Followed.step` —
  **every undisturbed step keeps both**.
* `no_split_brain` — in undisturbed runs there is one primary at most.
* `split_brain_counterexample` — a server is promoted because it is the only one left,
  and a new one binds the first port.
-/

namespace InstantMessenger
namespace RingServers

open Cyclic

variable {n : Nat} {port : Fin n → Int} {s t : RingServers n} {l : RingLabel n}

/-- The servers are well shaped, and the outline of the ring is sound. -/
structure Followed (port : Fin n → Int) (s : RingServers n) : Prop where
  shape : Shape s
  outline : ∃ v, Outlined port s v ∧ v.Sound

theorem followed_none_started : Followed port (none_started : RingServers n) where
  shape := shape_none_started
  outline := by
    refine ⟨nobody, outlined_none_started, Outline.Fresh.sound ⟨rfl, rfl, ?_, ?_⟩⟩
    · intro k r hk
      cases hk
    · rintro k ⟨r, hr⟩
      cases hr

/-- **Every undisturbed step is followed by the outline.** -/
theorem Followed.step (hports : Ports port) (h : Followed port s) (hok : s.undisturbed l = true)
    (hst : s.step port l = some t) : Followed port t := by
  obtain ⟨v, hv, hsound⟩ := h.outline
  have hthread : ((∃ i t, l = .connector i t) ∨ ∃ i, l = .acceptor i) → Followed port t := by
    intro hl
    obtain ⟨hshape, v', hm, hv'⟩ := hv.thread hports h.shape hl hok hst
    exact ⟨hshape, v', hv', hsound.move hm⟩
  cases l with
  | start i =>
    obtain ⟨hi, hbefore, rfl⟩ := step_start hst
    refine ⟨h.shape.start hi hok, _, hv.start hports i hok, hsound.start ?_ ?_ ?_⟩
    · rintro ⟨m, hm⟩
      rw [hv.only i hi] at hm
      cases hm
    · rw [hv.live]
      exact hbefore
    · rw [hv.crashed, hv.live]
      rintro hc k ⟨r, hr⟩
      rw [crashed_of_other hok hr] at hc
      cases hc
  | crash i =>
    obtain ⟨-, rfl⟩ := step_crash hst
    exact ⟨h.shape.crash hok, _, hv.crash i, hsound.crash i⟩
  | connector i t => exact hthread (.inl ⟨i, t, rfl⟩)
  | acceptor i => exact hthread (.inr ⟨i, rfl⟩)

/-- **No split brain.**  For every `config.txt` with distinct ports: in every run in
which servers are started before the first crash, or when no server is left, no
server crashes while another one is about to pass over a port that is live by now,
and no server that is connecting starts to connect again, no two live servers have
`isPrimary` set. -/
theorem no_split_brain (hdistinct : Function.Injective port) (hpositive : ∀ i, 0 < port i)
    (hint : ∀ i, port i ≤ Text.INT_MAX)
    (hs : (serversRing port).ReachesWhen (fun s l => s.undisturbed l = true) s) {i j : Fin n}
    {r r' : ServersRing n} (hi : s.server i = some r) (hj : s.server j = some r')
    (hpi : r.isPrimary = true) (hpj : r'.isPrimary = true) : i = j := by
  have hports : Ports port := ⟨hdistinct, hpositive, hint⟩
  have hfollowed : Followed port s := by
    refine hs.invariant ?_ fun _ _ _ h hok hst => h.step hports hok hst
    rintro _ rfl
    exact followed_none_started
  obtain ⟨v, hv, hsound⟩ := hfollowed.outline
  obtain ⟨m, hm, hshows⟩ := hv.shown i r hi
  obtain ⟨m', hm', hshows'⟩ := hv.shown j r' hj
  exact hsound.one_primary hm hm' (hshows.isPrimary.trans hpi) (hshows'.isPrimary.trans hpj)

/-- Two servers on the first lines of three; the first crashes while the second tries
the third line. -/
def promotion : List (RingLabel 3) :=
  [.start 0, .acceptor 0, .connector 0 0, .start 1, .acceptor 1, .connector 0 0, .connector 0 0,
    .acceptor 1, .connector 1 0, .connector 1 0, .crash 0, .acceptor 1, .connector 1 0,
    .connector 1 0, .connector 1 0]

/-- The server that is left has promoted itself, and is the only primary. -/
theorem no_split_brain_three : ∃ s : RingServers 3, ∃ r, s.server 1 = some r ∧
    r.isPrimary = true ∧
      ∀ i r', s.server i = some r' → r'.isPrimary = true → i = 1 := by
  obtain ⟨s, hs⟩ : ∃ s, (serversRing ![5001, 5002, 5003]).execWhen undisturbed none_started
      promotion = some s := Option.isSome_iff_exists.1 (by decide)
  have hrun : (serversRing ![5001, 5002, 5003]).ReachesWhen
      (fun s l => s.undisturbed l = true) s :=
    Transition.System.reachesWhen_of_execWhen (fun _ _ h => h) (.start rfl) hs
  have hone := @no_split_brain 3 ![5001, 5002, 5003] s
    (by unfold Function.Injective; decide) (by decide) (by decide) hrun
  have hprimary : ∃ r, s.server 1 = some r ∧ r.isPrimary = true := by
    cases hs
    exact ⟨_, rfl, rfl⟩
  obtain ⟨r, hr, hp⟩ := hprimary
  exact ⟨s, r, hr, hp, fun i r' hi hp' => hone hi hr hp' hp⟩

/-- **A restart.**  The server that is left has promoted itself; a new server binds the
first port of the file, and takes itself for the primary. -/
theorem split_brain_counterexample :
    ¬ ∀ (n : Nat) (port : Fin n → Int), Function.Injective port → (∀ i, 0 < port i) →
        (∀ i, port i ≤ Text.INT_MAX) → ∀ s, (serversRing port).Reachable s →
          ∀ i j r r', s.server i = some r → s.server j = some r' → r.isPrimary = true →
            r'.isPrimary = true → i = j := by
  intro h
  obtain ⟨s, hs⟩ : ∃ s, (serversRing ![5001, 5002, 5003]).exec none_started
      (promotion ++ [.start 0]) = some s := Option.isSome_iff_exists.1 (by decide)
  have hreach : (serversRing ![5001, 5002, 5003]).Reachable s :=
    Transition.System.reachable_of_exec rfl hs
  have hone := h 3 ![5001, 5002, 5003] (by unfold Function.Injective; decide) (by decide)
    (by decide) s hreach 0 1
  cases hs
  exact absurd (hone _ _ rfl rfl rfl rfl) (by decide)

end RingServers
end InstantMessenger
