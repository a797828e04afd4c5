import InstantMessenger.Server.RingOutline

/-!
# At most one primary

The argument in outline.  While a primary is live every server follows it, or has
heard last of one that is dead and is not linked to it; such a server starts no
election.  So at most one server starts one, namely the predecessor of the primary
that died, and there is never more than one message.

* `Member.Harmless`, `Member.Settled` — servers that will start no election, and
  servers that follow a live primary.
* `Outline.Phase` — where the ring is between the death of a primary and the next
  one.
* `Outline.Phase.move`, `Outline.Phase.crash` — **the phases follow each other**.
* `Outline.Fresh` — a ring that has seen no crash.
* `Outline.Sound` — both, with one primary at most: `Outline.Sound.one_primary`.
-/

namespace InstantMessenger

open Cyclic

variable {n : Nat}

namespace Member

/-- The server starts no election: it has heard last of a primary that is dead, and
is not linked to it. -/
structure Harmless (live : Fin n → Prop) (r : Member n) : Prop where
  calling : r.calling = false
  primary : ¬live r.primary
  target : r.target ≠ some r.primary

/-- The server follows the primary `p`, or is harmless. -/
def Settled (live : Fin n → Prop) (p : Fin n) (r : Member n) : Prop :=
  (r.calling = false ∧ live p ∧ r.primary = p) ∨ r.Harmless live

/-- The server may start one election. -/
structure Restless (live : Fin n → Prop) (r : Member n) : Prop where
  primary : ¬live r.primary
  target : r.calling = true → r.target ≠ some r.primary

section

variable {live live' : Fin n → Prop} {p : Fin n} {r : Member n}

theorem Harmless.mono (h : r.Harmless live) (hsub : ∀ k, live' k → live k) : r.Harmless live' :=
  ⟨h.calling, fun hl => h.primary (hsub _ hl), h.target⟩

theorem Harmless.restless (h : r.Harmless live) : r.Restless live :=
  ⟨h.primary, fun _ => h.target⟩

theorem Restless.mono (h : r.Restless live) (hsub : ∀ k, live' k → live k) : r.Restless live' :=
  ⟨fun hl => h.primary (hsub _ hl), h.target⟩

theorem Settled.calling (h : r.Settled live p) : r.calling = false :=
  h.elim And.left Harmless.calling

/-- A server that takes part in an election starts none for that. -/
theorem Harmless.wake (h : r.Harmless live) :
    Harmless live { r with isParticipating := true } :=
  ⟨h.calling, h.primary, h.target⟩

/-- A server gives up one that is dead. -/
theorem Harmless.leave (h : r.Harmless live) {j : Fin n} (hj : r.target = some j) :
    Harmless live { r with target := none, calling := decide (j = r.primary) } where
  calling := decide_eq_false fun heq => h.target (heq ▸ hj)
  primary := h.primary
  target := fun heq => by cases heq

theorem Settled.leave (h : r.Settled live p) {j : Fin n} (hj : r.target = some j)
    (hdead : ¬live j) :
    Settled live p { r with target := none, calling := decide (j = r.primary) } := by
  rcases h with ⟨-, hp, hr⟩ | h
  · refine .inl ⟨decide_eq_false ?_, hp, hr⟩
    rintro rfl
    exact hdead (hr ▸ hp)
  · exact .inr (h.leave hj)

theorem Restless.leave (h : r.Restless live) {j : Fin n} :
    Restless live { r with target := none, calling := decide (j = r.primary) } where
  primary := h.primary
  target := fun _ heq => by cases heq

/-- A server is linked to one that is live. -/
theorem Harmless.link (h : r.Harmless live) {j : Fin n} (hj : live j) :
    Harmless live { r with target := some j } where
  calling := h.calling
  primary := h.primary
  target := by
    intro heq
    exact h.primary (Option.some.inj heq ▸ hj)

theorem Settled.link (h : r.Settled live p) {j : Fin n} (hj : live j) :
    Settled live p { r with target := some j } :=
  h.imp id fun h => h.link hj

theorem Restless.link (h : r.Restless live) {j : Fin n} (hj : live j) :
    Restless live { r with target := some j } where
  primary := h.primary
  target := by
    intro _ heq
    exact h.primary (Option.some.inj heq ▸ hj)

end

end Member

namespace Outline

open Member

/-- There are no two live servers. -/
def Lone (v : Outline n) : Prop := ∀ i j, v.live i → v.live j → i = j

/-- The phases between one primary and the next. -/
inductive Phase (v : Outline n) : Prop
  | lone : v.Lone → Phase v
  /-- The servers follow `p`, which may be dead. -/
  | calm (p : Fin n) : v.flying = 0 → (∀ k r, v.member k = some r → r.Settled v.live p) →
      (∀ k r, v.member k = some r → r.isPrimary = true → k = p) → Phase v
  /-- Only `x` may start an election. -/
  | pending (x : Fin n) : v.flying = 0 → (∀ k r, v.member k = some r → r.Restless v.live) →
      (∀ k r, v.member k = some r → k ≠ x → r.Harmless v.live) →
      (∀ k r, v.member k = some r → r.isPrimary = false) → Phase v
  | electing (d T : Fin n) : v.flying = {(d, .election T)} →
      (∀ k r, v.member k = some r → r.Harmless v.live) →
      (∀ k r, v.member k = some r → r.isPrimary = false) → (v.live T → v.Joined T d) → Phase v
  /-- A dead server is announced. -/
  | vain (d T : Fin n) : v.flying = {(d, .elected T)} → ¬v.live T →
      (∀ k r, v.member k = some r → r.Harmless v.live) →
      (∀ k r, v.member k = some r → r.isPrimary = false) → Phase v
  /-- A live server is announced, and the servers before `d` have been told. -/
  | telling (d T : Fin n) : v.flying = {(d, .elected T)} → v.live T →
      (∀ k r, v.member k = some r → r.Settled v.live T) →
      (∀ k r, v.member k = some r → rank T d ≤ rank T k →
        r.isParticipating = true ∧ r.Harmless v.live) →
      (∀ k r, v.member k = some r → r.isPrimary = false) → Phase v

section Phases

variable {v v' : Outline n} {i j k d T p x : Fin n} {r r' : Member n}

theorem Lone.put (h : v.Lone) (hi : v.member i = some r) : (v.put i r').Lone := by
  unfold Lone
  rw [put_live hi]
  exact h

/-- Without a message, a primary or anybody who would look for one, all is calm. -/
theorem Phase.calm_of_harmless (p : Fin n) (hfly : v.flying = 0)
    (hall : ∀ k r, v.member k = some r → r.Harmless v.live)
    (hno : ∀ k r, v.member k = some r → r.isPrimary = false) : Phase v := by
  refine .calm p hfly (fun k r hk => .inr (hall k r hk)) ?_
  intro k r hk hpr
  rw [hno k r hk] at hpr
  cases hpr

/-! ### Moves without a message -/

/-- One server changes, and it is as settled as before. -/
theorem Phase.put (h : Phase v) (hi : v.member i = some r)
    (hparticipating : r'.isParticipating = r.isParticipating)
    (hprimary : r'.isPrimary = r.isPrimary)
    (hharmless : r.Harmless v.live → r'.Harmless v.live)
    (hrestless : r.Restless v.live → r'.Restless v.live)
    (hsettled : ∀ p, r.Settled v.live p → r'.Settled v.live p) : Phase (v.put i r') := by
  have hlive := put_live (y := r') hi
  have hnone : (∀ k r, v.member k = some r → r.isPrimary = false) →
      ∀ k r, (v.put i r').member k = some r → r.isPrimary = false := fun h =>
    forall_put h (hprimary.trans (h i r hi)) fun _ _ _ => id
  cases h with
  | lone h => exact .lone (h.put hi)
  | calm p hfly hall hone =>
    refine .calm p hfly ?_ (forall_put hone ?_ fun _ _ _ => id)
    · rw [hlive]
      exact forall_put hall (hsettled p (hall i r hi)) fun _ _ _ => id
    · intro hpr
      exact hone i r hi (hprimary ▸ hpr)
  | pending x hfly hall hother hno =>
    refine .pending x hfly ?_ ?_ (hnone hno)
    · rw [hlive]
      exact forall_put hall (hrestless (hall i r hi)) fun _ _ _ => id
    · rw [hlive]
      exact forall_put hother (fun hx => hharmless (hother i r hi hx)) fun _ _ _ => id
  | electing d T hfly hall hno hjoined =>
    refine .electing d T hfly ?_ (hnone hno) ?_
    · rw [hlive]
      exact forall_put hall (hharmless (hall i r hi)) fun _ _ _ => id
    · intro hT
      rw [hlive] at hT
      exact forall_put (hjoined hT)
        (fun hlt => hparticipating.trans (hjoined hT i r hi hlt)) fun _ _ _ => id
  | vain d T hfly hT hall hno =>
    refine .vain d T hfly (by rwa [hlive]) ?_ (hnone hno)
    rw [hlive]
    exact forall_put hall (hharmless (hall i r hi)) fun _ _ _ => id
  | telling d T hfly hT hall hrest hno =>
    refine .telling d T hfly (by rwa [hlive]) ?_ ?_ (hnone hno)
    · rw [hlive]
      exact forall_put hall (hsettled T (hall i r hi)) fun _ _ _ => id
    · rw [hlive]
      refine forall_put hrest (fun hle => ?_) fun _ _ _ => id
      obtain ⟨hp, hh⟩ := hrest i r hi hle
      exact ⟨hparticipating.trans hp, hharmless hh⟩

/-- Only the restless server calls an election, and when it does there is no other
message. -/
theorem Phase.call (h : Phase v) (hlinked : v.Linked) (hi : v.member i = some r)
    (hj : r.target = some j) (hcalling : r.calling = true) :
    Phase ((v.put i { r with calling := false }).carry
      (v.flying + v.send (some j) (.election i))) := by
  have hlive := put_live (y := { r with calling := false }) hi
  have hno_call : ¬r.calling = false := fun h => by rw [hcalling] at h; cases h
  cases h with
  | lone h =>
    have hlone : Lone (v.put i { r with calling := false }) := h.put hi
    exact .lone hlone
  | calm p _ hall _ => exact absurd (hall i r hi).calling hno_call
  | electing d T _ hall _ _ => exact absurd (hall i r hi).calling hno_call
  | vain d T _ _ hall _ => exact absurd (hall i r hi).calling hno_call
  | telling d T _ _ hall _ _ => exact absurd (hall i r hi).calling hno_call
  | pending x hfly hall hother hno =>
    obtain rfl : i = x := by
      by_contra hne
      exact hno_call (hother i r hi hne).calling
    have hself := hall i r hi
    have hharmless : Harmless v.live { r with calling := false } :=
      ⟨rfl, hself.primary, hself.target hcalling⟩
    have hall' : ∀ k y, (v.put i { r with calling := false }).member k = some y →
        y.Harmless v.live := forall_put hother hharmless fun _ _ hne h => h hne
    have hno' : ∀ k y, (v.put i { r with calling := false }).member k = some y →
        y.isPrimary = false := forall_put hno (hno i r hi) fun _ _ _ => id
    rw [← hlive] at hall'
    by_cases hlj : v.live j
    · rw [send_live hlj, hfly, Multiset.zero_add]
      refine .electing j i rfl hall' hno' ?_
      exact fun _ => joined_first_put hi (hlinked i r j hi hj)
    · rw [send_lost hlj, hfly, Multiset.zero_add]
      exact .calm_of_harmless i rfl hall' hno'

/-! ### Messages -/

/-- What a server that is harmless or settled writes is lost, or arrives at the next
live server. -/
theorem send_next (hlinked : v.Linked) (hi : v.member d = some r) (m : Note n) :
    v.send r.target m = 0 ∨
      ∃ j, r.target = some j ∧ v.live j ∧ NoneBetween v.live d j ∧ v.send r.target m = {(j, m)} :=
  (v.send_cases r.target m).imp id fun ⟨j, hj, hl, hs⟩ => ⟨j, hj, hl, hlinked d r j hi hj, hs⟩

/-- The election goes on, or its message is lost. -/
theorem Phase.pass_election (hlinked : v.Linked) (hi : v.member d = some r)
    (hall : ∀ k x, v.member k = some x → x.Harmless v.live) (hself : r'.Harmless v.live)
    (hno : ∀ k x, v.member k = some x → x.isPrimary = false) (hnot : r'.isPrimary = false)
    (hjoined : ∀ j, NoneBetween v.live d j → v.live T → Joined (v.put d r') T j) :
    Phase ((v.put d r').carry (v.send r.target (.election T))) := by
  have hlive := put_live (y := r') hi
  have hall' : ∀ k x, (v.put d r').member k = some x → x.Harmless (v.put d r').live := by
    rw [hlive]
    exact forall_put hall hself fun _ _ _ => id
  have hno' : ∀ k x, (v.put d r').member k = some x → x.isPrimary = false :=
    forall_put hno hnot fun _ _ _ => id
  rcases send_next hlinked hi (.election T) with h | ⟨j, -, -, hbetween, h⟩
  · rw [h]
    exact .calm_of_harmless d rfl hall' hno'
  · rw [h]
    refine .electing j T rfl hall' hno' fun hT => hjoined j hbetween ?_
    rw [← hlive]
    exact hT

theorem Phase.hear_election {m : Note n} {out : Option (Note n)} (hlinked : v.Linked)
    (hall : ∀ k r, v.member k = some r → r.Harmless v.live)
    (hno : ∀ k r, v.member k = some r → r.isPrimary = false)
    (hjoined : v.live T → v.Joined T d) (hi : v.member d = some r) (hm : m = .election T)
    (hhears : Hears d r m r' out) :
    Phase ((v.put d r').carry (out.elim 0 (v.send r.target))) := by
  cases hhears with
  | wake _ T' x hmT _ hx =>
    have hT' : T' = T := named_of_wake hmT (.inl hm)
    apply Phase.pass_election hlinked hi hall (hall d r hi).wake hno (hno d r hi)
    intro j hbetween hl
    by_cases hxd : x = d
    · subst hxd
      exact joined_first_put hi hbetween
    · obtain rfl : x = T := hT' ▸ hx.resolve_right hxd
      exact (hjoined hl).next hl (Ne.symm hxd) rfl hbetween
  | pass T' hp hne =>
    cases hm
    apply Phase.pass_election hlinked hi hall (hall d r hi) hno (hno d r hi)
    intro j hbetween hl
    exact (hjoined hl).next hl (Ne.symm hne) hp hbetween
  | elect hp =>
    cases hm
    have hlive := put_live (y := r) hi
    have hall' : ∀ k x, (v.put d r).member k = some x → x.Harmless (v.put d r).live := by
      rw [hlive]
      exact forall_put hall (hall d r hi) fun _ _ _ => id
    have hno' : ∀ k x, (v.put d r).member k = some x → x.isPrimary = false :=
      forall_put hno (hno d r hi) fun _ _ _ => id
    have hpart := (hjoined ⟨r, hi⟩).all fun y hy => by
      rw [hi, Option.some.injEq] at hy
      rw [← hy]
      exact hp
    rcases send_next hlinked hi (.elected d) with h | ⟨j, -, -, hbetween, h⟩
    · simp only [Option.elim, h]
      exact .calm_of_harmless d rfl hall' hno'
    · simp only [Option.elim, h]
      refine .telling j d rfl ⟨r, put_self ..⟩ (fun k x hk => .inr (hall' k x hk)) ?_ hno'
      exact fun k x hk _ =>
        ⟨forall_put hpart hp (fun _ _ _ => id) k x hk, hall' k x hk⟩
  | tell | win => cases hm

theorem Phase.hear_vain {m : Note n} {out : Option (Note n)} (hlinked : v.Linked)
    (hT : ¬v.live T) (hall : ∀ k r, v.member k = some r → r.Harmless v.live)
    (hno : ∀ k r, v.member k = some r → r.isPrimary = false) (hi : v.member d = some r)
    (hm : m = .elected T) (hhears : Hears d r m r' out) :
    Phase ((v.put d r').carry (out.elim 0 (v.send r.target))) := by
  cases hhears with
  | wake _ T' x hmT _ hx =>
    have hT' : T' = T := named_of_wake hmT (.inr hm)
    apply Phase.pass_election hlinked hi hall (hall d r hi).wake hno (hno d r hi)
    intro j hbetween hl
    obtain rfl : x = d := hx.resolve_left fun heq => hT (hT' ▸ heq ▸ hl)
    exact joined_first_put hi hbetween
  | tell T' hp hne =>
    cases hm
    have hlive := put_live (y := { r with isParticipating := false, primary := T }) hi
    have hself : Restless v.live { r with isParticipating := false, primary := T } :=
      ⟨hT, fun hc => by rw [(hall d r hi).calling] at hc; cases hc⟩
    have hno' : ∀ k x, (v.put d { r with isParticipating := false, primary := T }).member k =
        some x → x.isPrimary = false := forall_put hno (hno d r hi) fun _ _ _ => id
    rcases send_next hlinked hi (.elected T) with h | ⟨j, hj, hl, -, h⟩
    · -- the predecessor of `T` has been told, and has not yet missed it
      simp only [Option.elim, h]
      refine .pending d rfl ?_ ?_ hno'
      · show ∀ k x, _ → Restless (v.put d _).live x
        rw [hlive]
        exact forall_put hall hself fun _ _ _ h => h.restless
      · show ∀ k x, _ → k ≠ d → Harmless (v.put d _).live x
        rw [hlive]
        exact forall_put hall (fun hne => absurd rfl hne) fun _ _ _ h _ => h
    · simp only [Option.elim, h]
      refine .vain j T rfl ?_ ?_ hno'
      · show ¬(v.put d _).live T
        rwa [hlive]
      · show ∀ k x, _ → Harmless (v.put d _).live x
        rw [hlive]
        refine forall_put hall ⟨(hall d r hi).calling, hT, ?_⟩ fun _ _ _ => id
        intro heq
        rw [hj] at heq
        obtain rfl : j = T := Option.some.inj heq
        exact hT hl
  | win =>
    cases hm
    exact absurd ⟨r, hi⟩ hT
  | pass | elect => cases hm

theorem Phase.hear_telling {m : Note n} {out : Option (Note n)} (hlinked : v.Linked)
    (hT : v.live T) (hall : ∀ k r, v.member k = some r → r.Settled v.live T)
    (hrest : ∀ k r, v.member k = some r → rank T d ≤ rank T k →
      r.isParticipating = true ∧ r.Harmless v.live)
    (hno : ∀ k r, v.member k = some r → r.isPrimary = false) (hi : v.member d = some r)
    (hm : m = .elected T) (hhears : Hears d r m r' out) :
    Phase ((v.put d r').carry (out.elim 0 (v.send r.target))) := by
  obtain ⟨hpart, hself⟩ := hrest d r hi le_rfl
  cases hhears with
  | wake _ T' x hmT hnot _ =>
    rw [hpart] at hnot
    cases hnot
  | tell T' hp hne =>
    cases hm
    have hlive := put_live (y := { r with isParticipating := false, primary := T }) hi
    have hall' : ∀ k x, (v.put d { r with isParticipating := false, primary := T }).member k =
        some x → x.Settled v.live T :=
      forall_put hall (.inl ⟨hself.calling, hT, rfl⟩) fun _ _ _ => id
    have hno' : ∀ k x, (v.put d { r with isParticipating := false, primary := T }).member k =
        some x → x.isPrimary = false := forall_put hno (hno d r hi) fun _ _ _ => id
    rw [← hlive] at hall'
    rcases send_next hlinked hi (.elected T) with h | ⟨j, -, -, hbetween, h⟩
    · simp only [Option.elim, h]
      exact .calm T rfl hall' fun k x hk hpr => by
        rw [hno' k x hk] at hpr
        cases hpr
    · have hlt := hbetween.rank_lt hT (Ne.symm hne)
      simp only [Option.elim, h]
      refine .telling j T rfl ?_ hall' ?_ hno'
      · show (v.put d _).live T
        rwa [hlive]
      · show ∀ k x, _ → _ → _ ∧ Harmless (v.put d _).live x
        rw [hlive]
        exact forall_put hrest (fun hle => absurd hle (not_le.2 hlt)) fun k x _ h hle =>
          h (le_trans (le_of_lt hlt) hle)
  | win hp =>
    cases hm
    have hlive := put_live
      (y := { r with isParticipating := false, primary := d, isPrimary := true }) hi
    refine .calm d rfl ?_ ?_
    · show ∀ k x, _ → Settled (v.put d _).live d x
      rw [hlive]
      exact forall_put hall (.inl ⟨hself.calling, hT, rfl⟩) fun _ _ _ => id
    · exact forall_put hno (fun _ => rfl) fun k x _ h hpr => by
        rw [h] at hpr
        cases hpr
  | pass | elect => cases hm

theorem Phase.hear {m : Note n} {out : Option (Note n)} {flying : Multiset (Fin n × Note n)}
    (h : Phase v) (hlinked : v.Linked) (hi : v.member i = some r)
    (hfly : v.flying = (i, m) ::ₘ flying) (hhears : Hears i r m r' out) :
    Phase ((v.put i r').carry (flying + out.elim 0 (v.send r.target))) := by
  have hnot : v.flying ≠ 0 := fun h0 => by
    rw [h0] at hfly
    exact absurd hfly.symm (Multiset.cons_ne_zero)
  cases h with
  | lone h =>
    have hlone : Lone (v.put i r') := h.put hi
    exact .lone hlone
  | calm p h0 _ _ => exact absurd h0 hnot
  | pending x h0 _ _ _ => exact absurd h0 hnot
  | electing d T hd hall hno hjoined =>
    obtain ⟨rfl, hm, rfl⟩ := read_only hd hfly
    rw [Multiset.zero_add]
    exact Phase.hear_election hlinked hall hno hjoined hi hm hhears
  | vain d T hd hT hall hno =>
    obtain ⟨rfl, hm, rfl⟩ := read_only hd hfly
    rw [Multiset.zero_add]
    exact Phase.hear_vain hlinked hT hall hno hi hm hhears
  | telling d T hd hT hall hrest hno =>
    obtain ⟨rfl, hm, rfl⟩ := read_only hd hfly
    rw [Multiset.zero_add]
    exact Phase.hear_telling hlinked hT hall hrest hno hi hm hhears

/-- **A move leads to the next phase.** -/
theorem Phase.move (h : Phase v) (hlinked : v.Linked) (hm : Move v v') : Phase v' := by
  cases hm with
  | rest => exact h
  | leave hi hj hdead =>
    exact h.put hi rfl rfl (fun h => h.leave hj) (fun h => h.leave) fun p h => h.leave hj hdead
  | link hi _ hj _ _ =>
    exact h.put hi rfl rfl (fun h => h.link hj) (fun h => h.link hj) fun p h => h.link hj
  | call hi hj hcalling => exact h.call hlinked hi hj hcalling
  | quit hi _ _ =>
    refine h.put hi rfl rfl (fun h => ⟨rfl, h.primary, h.target⟩)
      (fun h => ⟨h.primary, fun hc => by cases hc⟩) fun p h => ?_
    exact h.imp (fun h => ⟨rfl, h.2⟩) fun h => ⟨rfl, h.primary, h.target⟩
  | promote hi _ hbetween =>
    refine .lone ?_
    unfold Lone
    rw [put_live hi]
    intro j k hj hk
    rw [hbetween.alone hj, hbetween.alone hk]
  | hear hi hfly hhears => exact h.hear hlinked hi hfly hhears

/-! ### Crashes -/

theorem Lone.crash (h : v.Lone) (i : Fin n) : (v.crash i).Lone := fun j k hj hk =>
  h j k (crash_live.1 hj).2 (crash_live.1 hk).2

theorem crash_sub : ∀ k, (v.crash i).live k → v.live k := fun _ h => (crash_live.1 h).2

theorem settled_crash (h : r.Settled v.live p) (hp : p ≠ i) : r.Settled (v.crash i).live p :=
  h.imp (fun h => ⟨h.1, crash_live.2 ⟨hp, h.2.1⟩, h.2.2⟩) fun h => h.mono crash_sub

/-- When the primary dies, only its predecessor may start an election. -/
theorem Phase.crash_settled (hlinked : v.Linked)
    (hall : ∀ k r, v.member k = some r → r.Settled v.live p)
    (hone : ∀ k r, v.member k = some r → r.isPrimary = true → k = p)
    (hfly : (v.crash i).flying = 0) : Phase (v.crash i) := by
  by_cases hp : p = i
  · subst hp
    have hdead : ¬(v.crash p).live p := fun h => (crash_live.1 h).1 rfl
    have hrestless : ∀ k r, (v.crash p).member k = some r → r.Restless (v.crash p).live :=
      forall_crash hall fun k r _ h => by
        rcases h with ⟨hc, -, rfl⟩ | h
        · exact ⟨hdead, fun hc' => by rw [hc] at hc'; cases hc'⟩
        · exact (h.mono crash_sub).restless
    have hno : ∀ k r, (v.crash p).member k = some r → r.isPrimary = false :=
      forall_crash hone fun k r hk h => Bool.eq_false_of_not_eq_true fun hpr => hk (h hpr)
    -- the one whose link is broken
    obtain ⟨x, hx⟩ : ∃ x, ∀ k r, v.member k = some r → r.target = some p → k = x := by
      by_cases hex : ∃ x r, v.member x = some r ∧ r.target = some p
      · obtain ⟨x, y, hy, hxp⟩ := hex
        exact ⟨x, fun k r hk hkp =>
          (hlinked k r p hk hkp).source_unique (hlinked x y p hy hxp) ⟨r, hk⟩ ⟨y, hy⟩⟩
      · exact ⟨p, fun k r hk hkp => absurd ⟨k, r, hk, hkp⟩ hex⟩
    refine .pending x hfly hrestless (fun k r hk hkx => ?_) hno
    have hk' := (crash_cases hk).2
    rcases hall k r hk' with ⟨hc, -, rfl⟩ | h
    · exact ⟨hc, hdead, fun ht => hkx (hx k r hk' ht)⟩
    · exact h.mono crash_sub
  · exact .calm p hfly (forall_crash hall fun _ _ _ h => settled_crash h hp)
      (forall_crash hone fun _ _ _ => id)

/-- **A crash leads to the next phase.** -/
theorem Phase.crash (h : Phase v) (hlinked : v.Linked) (hdelivers : v.Delivers) (i : Fin n) :
    Phase (v.crash i) := by
  have hsettle : ∀ d, (v.crash i).flying = 0 → (∀ k r, v.member k = some r → r.Harmless v.live) →
      (∀ k r, v.member k = some r → r.isPrimary = false) → Phase (v.crash i) :=
    fun d hfly hall hno => .calm d hfly
      (forall_crash hall fun _ _ _ h => .inr (h.mono crash_sub))
      (forall_crash hno fun _ _ _ h hpr => by rw [h] at hpr; cases hpr)
  cases h with
  | lone h => exact .lone (h.crash i)
  | calm p hfly hall hone => exact Phase.crash_settled hlinked hall hone (crash_flying_zero hfly)
  | pending x hfly hall hother hno =>
    exact .pending x (crash_flying_zero hfly) (forall_crash hall fun _ _ _ h => h.mono crash_sub)
      (forall_crash hother fun _ _ _ h hx => (h hx).mono crash_sub)
      (forall_crash hno fun _ _ _ => id)
  | electing d T hfly hall hno hjoined =>
    by_cases hd : d = i
    · subst hd
      exact hsettle d (crash_flying_self hfly) hall hno
    · exact .electing d T (crash_flying_of_ne hfly hd)
        (forall_crash hall fun _ _ _ h => h.mono crash_sub) (forall_crash hno fun _ _ _ => id)
        fun hT => (hjoined (crash_sub T hT)).crash i
  | vain d T hfly hT hall hno =>
    by_cases hd : d = i
    · subst hd
      exact hsettle d (crash_flying_self hfly) hall hno
    · exact .vain d T (crash_flying_of_ne hfly hd) (fun h => hT (crash_sub T h))
        (forall_crash hall fun _ _ _ h => h.mono crash_sub) (forall_crash hno fun _ _ _ => id)
  | telling d T hfly hT hall hrest hno =>
    by_cases hd : d = i
    · subst hd
      exact Phase.crash_settled hlinked hall
        (fun k r hk hpr => by rw [hno k r hk] at hpr; cases hpr)
        (crash_flying_self hfly)
    · by_cases hTi : T = i
      · -- its predecessor has not been told yet, since the message is on its way to a live server
        subst hTi
        have hdead : ¬(v.crash T).live T := fun h => (crash_live.1 h).1 rfl
        have hld : v.live d := hdelivers _ (by rw [hfly]; exact Multiset.mem_singleton_self _)
        refine .vain d T (crash_flying_of_ne hfly hd) hdead ?_ (forall_crash hno fun _ _ _ => id)
        refine forall_crash (fun _ _ hk => hk) ?_
        intro k r hkT hk
        by_cases hle : rank T d ≤ rank T k
        · exact (hrest k r hk hle).2.mono crash_sub
        · rcases hall k r hk with ⟨hc, -, rfl⟩ | h
          · refine ⟨hc, hdead, fun ht => hle ?_⟩
            exact (hlinked k r _ hk ht).rank_le hT hkT hld (rank_lt_self hd)
          · exact h.mono crash_sub
      · exact .telling d T (crash_flying_of_ne hfly hd) (crash_live.2 ⟨hTi, hT⟩)
          (forall_crash hall fun _ _ _ h => settled_crash h hTi)
          (forall_crash hrest fun _ _ _ h hle => ⟨(h hle).1, (h hle).2.mono crash_sub⟩)
          (forall_crash hno fun _ _ _ => id)

end Phases

/-! ## Before the first crash -/

/-- The servers of a ring that has not seen a crash are linked to the next line, if
they are linked, and follow the first. -/
structure Fresh (v : Outline n) : Prop where
  crashed : v.crashed = false
  flying : v.flying = 0
  member : ∀ k r, v.member k = some r →
    (∀ j, r.target = some j → j = next k ∧ v.live j) ∧ r.calling = false ∧ r.primary = first k ∧
      r.isPrimary = decide (k = first k) ∧ r.isParticipating = false
  first : ∀ k, v.live k → v.live (first k)

section Fresh

variable {v v' : Outline n} {i k : Fin n} {r r' : Member n}

theorem Fresh.linked (h : Fresh v) : v.Linked := by
  intro k r j hk hj
  rw [((h.member k r hk).1 j hj).1]
  exact noneBetween_next _ _

theorem Fresh.phase (h : Fresh v) : Phase v := by
  by_cases hex : ∃ k, v.live k
  · obtain ⟨k, hk⟩ := hex
    refine .calm (InstantMessenger.first k) h.flying (fun j r hj => ?_) fun j r hj hpr => ?_
    · obtain ⟨-, hc, hp, -⟩ := h.member j r hj
      exact .inl ⟨hc, h.first k hk, hp⟩
    · rw [(h.member j r hj).2.2.2.1] at hpr
      exact of_decide_eq_true hpr
  · exact .lone fun j _ hj _ => absurd ⟨j, hj⟩ hex

theorem Fresh.put (h : Fresh v) (hi : v.member i = some r)
    (htarget : ∀ j, r'.target = some j → j = next i ∧ v.live j) (hcalling : r'.calling = false)
    (hprimary : r'.primary = r.primary) (hpr : r'.isPrimary = r.isPrimary)
    (hpart : r'.isParticipating = r.isParticipating) : Fresh (v.put i r') where
  crashed := h.crashed
  flying := h.flying
  member := by
    rw [put_live hi]
    obtain ⟨-, -, h1, h2, h3⟩ := h.member i r hi
    exact forall_put h.member
      ⟨htarget, hcalling, hprimary.trans h1, hpr.trans h2, hpart.trans h3⟩ fun _ _ _ => id
  first := by
    rw [put_live hi]
    exact h.first

/-- Without a crash only links are made. -/
theorem Fresh.move (h : Fresh v) (hm : Move v v') : Fresh v' := by
  cases hm with
  | rest => exact h
  | leave hi hj hdead => exact absurd ((h.member _ _ hi).1 _ hj).2 hdead
  | link hi _ hj _ hnext =>
    refine h.put hi (fun j hj' => ?_) (h.member _ _ hi).2.1 rfl rfl rfl
    rw [← Option.some.inj hj']
    exact ⟨hnext h.crashed, hj⟩
  | call hi _ hcalling | quit hi hcalling _ =>
    rw [(h.member _ _ hi).2.1] at hcalling
    cases hcalling
  | promote _ hcrashed _ =>
    rw [h.crashed] at hcrashed
    cases hcrashed
  | hear _ hfly _ =>
    rw [h.flying] at hfly
    exact absurd hfly.symm (Multiset.cons_ne_zero)

/-- A server is started on a ring that has not seen a crash. -/
theorem Fresh.start (h : Fresh v) (hi : ¬v.live i) (hbefore : ∀ k < i, v.live k) :
    Fresh (v.start i) where
  crashed := rfl
  flying := h.flying
  member := by
    intro k r hk
    rcases put_cases (v := v) hk with ⟨rfl, rfl⟩ | ⟨hne, hk⟩
    · exact ⟨fun _ hj => absurd hj (by simp [fresh]), rfl, rfl, rfl, rfl⟩
    · obtain ⟨htarget, hrest⟩ := h.member k r hk
      refine ⟨fun j hj => ⟨(htarget j hj).1, ?_⟩, hrest⟩
      obtain ⟨y, hy⟩ := (htarget j hj).2
      have hji : j ≠ i := fun heq => hi (heq ▸ ⟨y, hy⟩)
      exact ⟨y, (put_of_ne v (fresh i) hji).trans hy⟩
  first := by
    intro k _
    by_cases hfirst : InstantMessenger.first k = i
    · rw [hfirst]
      exact ⟨fresh i, put_self ..⟩
    · have hlt : InstantMessenger.first k < i :=
        Nat.pos_of_ne_zero fun h0 => hfirst (Fin.ext h0.symm)
      obtain ⟨y, hy⟩ := hbefore _ hlt
      exact ⟨y, (put_of_ne v (fresh i) hfirst).trans hy⟩

/-- The first server of a ring. -/
theorem Fresh.restart (hnone : ∀ k, ¬v.live k) (hfly : v.flying = 0) (hbefore : ∀ k < i, v.live k) :
    Fresh (v.start i) := by
  have hempty : Fresh { v with crashed := false } :=
    ⟨rfl, hfly, fun k r hk => absurd ⟨r, hk⟩ (hnone k), fun k hk => absurd hk (hnone k)⟩
  exact hempty.start (hnone i) hbefore

end Fresh

/-! ## Runs -/

/-- The invariant of the ring. -/
structure Sound (v : Outline n) : Prop where
  linked : v.Linked
  delivers : v.Delivers
  phase : Phase v
  fresh : v.crashed = false → Fresh v

section Sound

variable {v v' : Outline n} {i j : Fin n} {r r' : Member n}

theorem Fresh.sound (h : Fresh v) : Sound v where
  linked := h.linked
  delivers := fun x hx => by
    rw [h.flying] at hx
    exact absurd hx (Multiset.notMem_zero _)
  phase := h.phase
  fresh := fun _ => h

theorem Move.crashed (hm : Move v v') : v'.crashed = v.crashed := by
  cases hm <;> rfl

theorem Sound.move (h : Sound v) (hm : Move v v') : Sound v' where
  linked := h.linked.move hm
  delivers := h.delivers.move hm
  phase := h.phase.move h.linked hm
  fresh := by
    rw [Move.crashed hm]
    exact fun hc => (h.fresh hc).move hm

theorem Sound.crash (h : Sound v) (i : Fin n) : Sound (v.crash i) where
  linked := h.linked.crash i
  delivers := h.delivers.crash i
  phase := h.phase.crash h.linked h.delivers i
  fresh := fun hc => by cases hc

/-- Servers are started before the first crash, or when none is left. -/
theorem Sound.start (h : Sound v) (hi : ¬v.live i) (hbefore : ∀ k < i, v.live k)
    (hok : v.crashed = true → ∀ k, ¬v.live k) : Sound (v.start i) := by
  cases hc : v.crashed with
  | false => exact ((h.fresh hc).start hi hbefore).sound
  | true =>
    refine (Fresh.restart (hok hc) ?_ hbefore).sound
    refine Multiset.eq_zero_of_forall_notMem ?_
    intro x hx
    exact hok hc x.1 (h.delivers x hx)

/-- **There is at most one primary.** -/
theorem Sound.one_primary (h : Sound v) (hi : v.member i = some r) (hj : v.member j = some r')
    (hpi : r.isPrimary = true) (hpj : r'.isPrimary = true) : i = j := by
  have hno : ¬(∀ k r, v.member k = some r → r.isPrimary = false) := fun hno => by
    rw [hno i r hi] at hpi
    cases hpi
  cases h.phase with
  | lone h => exact h i j ⟨r, hi⟩ ⟨r', hj⟩
  | calm p _ _ hone => exact (hone i r hi hpi).trans (hone j r' hj hpj).symm
  | pending _ _ _ _ h | electing _ _ _ _ h _ | vain _ _ _ _ _ h | telling _ _ _ _ _ _ h =>
    exact absurd h hno

end Sound

end Outline
end InstantMessenger
