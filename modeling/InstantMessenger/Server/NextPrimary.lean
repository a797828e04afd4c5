import Mathlib.Data.Fintype.EquivFin
import InstantMessenger.Server.RingOutline

/-!
# The next primary

The argument in outline.  When the primary of a ring at rest dies, its predecessor
misses it and calls an election as soon as it is linked again, and without a crash
the election ends with a primary that all servers follow.

* `Member.Up` — a server that is linked to a live one and calls no election.
* `Outline.Rest` — all servers are, and no message is on its way.
* `Outline.exists_predecessor` — **at rest, every live server has a predecessor**.
* `Outline.Stage` — where the ring is between one primary and the next.
* `Outline.Stage.move`, `Outline.Stage.crash` — **the stages follow each other**, when
  a crash leaves another primary or strikes a ring at rest.
* `Outline.Stage.primary` — at rest there is a primary, if anyone is live.
-/

namespace InstantMessenger

open Cyclic

variable {n : Nat}

/-- The server is linked to a live one, and calls no election. -/
structure Member.Up (live : Fin n → Prop) (r : Member n) : Prop where
  calling : r.calling = false
  target : ∃ j, r.target = some j ∧ live j

namespace Outline

open Member

/-- All links are up, and no message is on its way. -/
structure Rest (v : Outline n) : Prop where
  flying : v.flying = 0
  up : ∀ k r, v.member k = some r → r.Up v.live

/-- There is a primary, other than `i`. -/
def OtherPrimary (v : Outline n) (i : Fin n) : Prop :=
  ∃ j r, j ≠ i ∧ v.member j = some r ∧ r.isPrimary = true

/-- The stages between one primary and the next. -/
inductive Stage (v : Outline n) : Prop
  | empty : (∀ k, ¬v.live k) → Stage v
  | alone (x : Fin n) : (∃ r, v.member x = some r ∧ r.isPrimary = true) →
      (∀ k, v.live k → k = x) → Stage v
  /-- The servers follow the primary `p`. -/
  | stable (p : Fin n) : v.flying = 0 → (∃ r, v.member p = some r ∧ r.isPrimary = true) →
      (∀ k r, v.member k = some r → r.calling = false ∧ r.primary = p ∧
        r.isParticipating = false ∧ (r.isPrimary = true → k = p)) → Stage v
  /-- The primary `p` has died, and its predecessor `x` has not replaced its link. -/
  | waiting (p x : Fin n) : v.flying = 0 → ¬v.live p → v.live x →
      (∀ k r, v.member k = some r → r.primary = p ∧ r.isPrimary = false) →
      (∀ k r, v.member k = some r → k ≠ x → r.Up v.live) →
      (∀ r, v.member x = some r → (r.calling = false ∧ r.target = some p) ∨
        (r.calling = true ∧ ∀ j, r.target = some j → v.live j)) → Stage v
  | electing (d T : Fin n) : v.flying = {(d, .election T)} → v.live T →
      (∀ k r, v.member k = some r → r.Up v.live) →
      (∀ k r, v.member k = some r → r.isPrimary = false) → v.Joined T d → Stage v
  /-- `T` is announced, and the servers before `d` have been told. -/
  | telling (d T : Fin n) : v.flying = {(d, .elected T)} → v.live T →
      (∀ k r, v.member k = some r → r.Up v.live) →
      (∀ k r, v.member k = some r → r.isPrimary = false) →
      (∀ k r, v.member k = some r → rank T d ≤ rank T k → r.isParticipating = true) →
      (∀ k r, v.member k = some r → rank T k < rank T d →
        r.isParticipating = false ∧ r.primary = T) → Stage v

section Stages

variable {v v' : Outline n} {i j k d T p x : Fin n} {r r' : Member n}

/-- At rest the links are a permutation of the live servers. -/
theorem exists_predecessor (hlinked : v.Linked) (hup : ∀ k r, v.member k = some r → r.Up v.live)
    (hp : v.live p) : ∃ x r, v.member x = some r ∧ r.target = some p := by
  have hnext : ∀ k : {k // v.live k}, ∃ j : {j // v.live j}, ∃ r, v.member k = some r ∧
      r.target = some j.1 := by
    rintro ⟨k, r, hk⟩
    obtain ⟨j, hj, hl⟩ := (hup k r hk).target
    exact ⟨⟨j, hl⟩, r, hk, hj⟩
  choose f y hy hf using hnext
  have hinj : Function.Injective f := by
    intro a b hab
    refine Subtype.ext ?_
    have hb := hf b
    rw [← hab] at hb
    exact (hlinked _ _ _ (hy a) (hf a)).source_unique (hlinked _ _ _ (hy b) hb) a.2 b.2
  obtain ⟨a, ha⟩ := (Finite.injective_iff_surjective.1 hinj) ⟨p, hp⟩
  exact ⟨a.1, y a, hy a, by rw [hf a, ha]⟩

theorem Hears.isPrimary {m : Note n} {out : Option (Note n)} (h : Hears i r m r' out)
    (hr : r.isPrimary = true) : r'.isPrimary = true := by
  cases h
  · exact hr
  · exact hr
  · exact hr
  · exact hr
  · rfl

theorem isPrimary_put (h : ∃ r, v.member x = some r ∧ r.isPrimary = true)
    (hi : v.member i = some r) (hr : r.isPrimary = true → r'.isPrimary = true) :
    ∃ y, (v.put i r').member x = some y ∧ y.isPrimary = true := by
  obtain ⟨y, hy, hpr⟩ := h
  by_cases hx : x = i
  · subst hx
    rw [hi, Option.some.injEq] at hy
    exact ⟨r', put_self .., hr (hy ▸ hpr)⟩
  · exact ⟨y, (put_of_ne v r' hx).trans hy, hpr⟩

/-- The last server stays the primary. -/
theorem Stage.alone_move (hx : ∃ r, v.member x = some r ∧ r.isPrimary = true)
    (hone : ∀ k, v.live k → k = x) (hm : Move v v') : Stage v' := by
  have hput : ∀ {i : Fin n} {r r' : Member n} {flying : Multiset (Fin n × Note n)},
      v.member i = some r → (r.isPrimary = true → r'.isPrimary = true) →
      Stage ((v.put i r').carry flying) := fun {i r r' _} hi hr =>
    .alone x (isPrimary_put hx hi hr) fun k hk => hone k ((congrFun (put_live hi) k).mp hk)
  cases hm with
  | rest => exact .alone x hx hone
  | leave hi _ _ => exact hput hi id
  | link hi _ _ _ _ => exact hput hi id
  | call hi _ _ => exact hput hi id
  | quit hi _ _ => exact hput hi id
  | promote hi _ _ => exact hput hi fun _ => rfl
  | hear hi _ hhears => exact hput hi (Hears.isPrimary hhears)

theorem Stage.promote (hi : v.member i = some r) (hbetween : NoneBetween v.live i i) :
    Stage (v.put i { r with primary := i, isPrimary := true }) := by
  refine .alone i ⟨_, put_self .., rfl⟩ ?_
  intro k hk
  rw [put_live hi] at hk
  exact hbetween.alone hk

theorem Stage.stable_move (hfly : v.flying = 0) (hp : ∃ r, v.member p = some r ∧ r.isPrimary = true)
    (hall : ∀ k r, v.member k = some r → r.calling = false ∧ r.primary = p ∧
      r.isParticipating = false ∧ (r.isPrimary = true → k = p)) (hm : Move v v') : Stage v' := by
  have hput : ∀ {i : Fin n} {r r' : Member n}, v.member i = some r →
      r'.isPrimary = r.isPrimary → r'.primary = r.primary →
      r'.isParticipating = r.isParticipating → r'.calling = false → Stage (v.put i r') := by
    intro i r r' hi hpr hprimary hpart hcalling
    refine .stable p hfly (isPrimary_put hp hi fun h => hpr.trans h) ?_
    intro k y hk
    rcases put_cases hk with ⟨rfl, rfl⟩ | ⟨-, hk⟩
    · obtain ⟨-, h2, h3, h4⟩ := hall k r hi
      exact ⟨hcalling, hprimary.trans h2, hpart.trans h3, fun h => h4 (hpr ▸ h)⟩
    · exact hall k y hk
  cases hm with
  | rest => exact .stable p hfly hp hall
  | leave hi hj hdead =>
    refine hput hi rfl rfl rfl (decide_eq_false ?_)
    rintro rfl
    obtain ⟨y, hy, -⟩ := hp
    exact hdead ((hall _ _ hi).2.1 ▸ ⟨y, hy⟩)
  | link hi _ _ _ _ => exact hput hi rfl rfl rfl (hall _ _ hi).1
  | call hi _ hcalling | quit hi hcalling _ =>
    rw [(hall _ _ hi).1] at hcalling
    cases hcalling
  | promote hi _ hbetween => exact Stage.promote hi hbetween
  | hear _ hf _ =>
    rw [hfly] at hf
    exact absurd hf.symm (Multiset.cons_ne_zero)

/-- The predecessor of the dead primary gives it up, is linked to the next server, and
calls an election. -/
theorem Stage.waiting_move (hlinked : v.Linked) (hfly : v.flying = 0) (hp : ¬v.live p)
    (hx : v.live x) (hall : ∀ k r, v.member k = some r → r.primary = p ∧ r.isPrimary = false)
    (hup : ∀ k r, v.member k = some r → k ≠ x → r.Up v.live)
    (hself : ∀ r, v.member x = some r → (r.calling = false ∧ r.target = some p) ∨
      (r.calling = true ∧ ∀ j, r.target = some j → v.live j)) (hm : Move v v') : Stage v' := by
  -- only the predecessor has anything to do
  have hself_of : ∀ {i : Fin n} {r : Member n}, v.member i = some r → ¬r.Up v.live → i = x :=
    fun hi hnot => by
      by_contra hne
      exact hnot (hup _ _ hi hne)
  have hput : ∀ {r r' : Member n}, v.member x = some r → r'.primary = r.primary →
      r'.isPrimary = r.isPrimary →
      (r'.calling = true ∧ ∀ j, r'.target = some j → v.live j) → Stage (v.put x r') := by
    intro r r' hi hprimary hpr hgoal
    have hlive := put_live (y := r') hi
    refine .waiting p x hfly (by rwa [hlive]) (by rwa [hlive]) ?_ ?_ ?_
    · intro k y hk
      rcases put_cases hk with ⟨rfl, rfl⟩ | ⟨-, hk⟩
      · exact ⟨hprimary.trans (hall k r hi).1, hpr.trans (hall k r hi).2⟩
      · exact hall k y hk
    · intro k y hk hkx
      rw [hlive]
      rw [put_of_ne v r' hkx] at hk
      exact hup k y hk hkx
    · intro y hy
      rw [put_self, Option.some.injEq] at hy
      subst hy
      rw [hlive]
      exact .inr hgoal
  cases hm with
  | rest => exact .waiting p x hfly hp hx hall hup hself
  | leave hi hj hdead =>
    obtain rfl := hself_of hi fun h => by
      obtain ⟨k, hk, hl⟩ := h.target
      rw [hj] at hk
      exact hdead (Option.some.inj hk ▸ hl)
    refine hput hi rfl rfl ⟨decide_eq_true ?_, fun _ h => by cases h⟩
    rcases hself _ hi with ⟨-, ht⟩ | ⟨-, hl⟩
    · rw [hj] at ht
      exact (Option.some.inj ht).trans (hall _ _ hi).1.symm
    · exact absurd (hl _ hj) hdead
  | link hi hnone hj _ _ =>
    obtain rfl := hself_of hi fun h => by
      obtain ⟨k, hk, -⟩ := h.target
      rw [hnone] at hk
      cases hk
    refine hput hi rfl rfl ⟨?_, fun k hk => Option.some.inj hk ▸ hj⟩
    rcases hself _ hi with ⟨-, ht⟩ | ⟨hc, -⟩
    · rw [hnone] at ht
      cases ht
    · exact hc
  | @call i j r hi hj hcalling =>
    obtain rfl := hself_of hi fun h => by
      rw [h.calling] at hcalling
      cases hcalling
    have hlive := put_live (y := { r with calling := false }) hi
    have hlj : v.live j := by
      rcases hself _ hi with ⟨hc, -⟩ | ⟨-, hl⟩
      · rw [hcalling] at hc
        cases hc
      · exact hl j hj
    rw [send_live hlj, hfly, Multiset.zero_add]
    refine .electing j i rfl ⟨_, put_self ..⟩ ?_ ?_ ?_
    · show ∀ k y, _ → Up (v.put i _).live y
      rw [hlive]
      intro k y hk
      rcases put_cases hk with ⟨-, rfl⟩ | ⟨hne, hk⟩
      · exact ⟨rfl, j, hj, hlj⟩
      · exact hup k y hk hne
    · intro k y hk
      rcases put_cases (v := v) hk with ⟨rfl, rfl⟩ | ⟨-, hk⟩
      · exact (hall _ _ hi).2
      · exact (hall k y hk).2
    · exact joined_first_put hi (hlinked i r j hi hj)
  | quit hi _ hpr =>
    rw [(hall _ _ hi).2] at hpr
    cases hpr
  | promote hi _ hbetween => exact Stage.promote hi hbetween
  | hear _ hf _ =>
    rw [hfly] at hf
    exact absurd hf.symm (Multiset.cons_ne_zero)

/-! ### The election -/

/-- Nothing that is written at rest is lost. -/
theorem send_up (hlinked : v.Linked) (hup : ∀ k r, v.member k = some r → r.Up v.live)
    (hi : v.member d = some r) (m : Note n) :
    ∃ j, NoneBetween v.live d j ∧ v.send r.target m = {(j, m)} := by
  obtain ⟨j, hj, hl⟩ := (hup d r hi).target
  exact ⟨j, hlinked d r j hi hj, by rw [hj, send_live hl]⟩

theorem Stage.hear_election {m : Note n} {out : Option (Note n)} (hlinked : v.Linked)
    (hT : v.live T) (hup : ∀ k r, v.member k = some r → r.Up v.live)
    (hno : ∀ k r, v.member k = some r → r.isPrimary = false) (hjoined : v.Joined T d)
    (hi : v.member d = some r) (hm : m = .election T) (hhears : Hears d r m r' out) :
    Stage ((v.put d r').carry (out.elim 0 (v.send r.target))) := by
  have hlive := put_live (y := r') hi
  have hpass : ∀ x, v.live x → r'.Up v.live → r'.isPrimary = false →
      (∀ j, NoneBetween v.live d j → Joined (v.put d r') x j) →
      Stage ((v.put d r').carry (v.send r.target (.election x))) := by
    intro x hx hup' hno' hjoined'
    obtain ⟨j, hbetween, hsend⟩ := send_up hlinked hup hi (.election x)
    rw [hsend]
    refine .electing j x rfl ?_ ?_ (forall_put hno hno' fun _ _ _ => id) (hjoined' j hbetween)
    · show (v.put d r').live x
      rwa [hlive]
    · show ∀ k y, _ → Up (v.put d r').live y
      rw [hlive]
      exact forall_put hup hup' fun _ _ _ => id
  cases hhears with
  | wake _ T' x hmT _ hx =>
    obtain rfl : T' = T := named_of_wake hmT (.inl hm)
    have hup' : Up v.live { r with isParticipating := true } :=
      ⟨(hup d r hi).calling, (hup d r hi).target⟩
    by_cases hxd : x = d
    · subst hxd
      exact hpass x ⟨r, hi⟩ hup' (hno x r hi) fun j hbetween => joined_first_put hi hbetween
    · obtain rfl : x = T' := hx.resolve_right hxd
      exact hpass x hT hup' (hno d r hi) fun j hbetween =>
        hjoined.next hT (Ne.symm hxd) rfl hbetween
  | pass T' hp hne =>
    cases hm
    exact hpass T hT (hup d r hi) (hno d r hi) fun j hbetween =>
      hjoined.next hT (Ne.symm hne) hp hbetween
  | elect hp =>
    cases hm
    have hpart := hjoined.all fun y hy => by
      rw [hi, Option.some.injEq] at hy
      rw [← hy]
      exact hp
    obtain ⟨j, hbetween, hsend⟩ := send_up hlinked hup hi (.elected d)
    simp only [Option.elim, hsend]
    refine .telling j d rfl ?_ ?_ (forall_put hno (hno d r hi) fun _ _ _ => id) ?_ ?_
    · show (v.put d r).live d
      rwa [hlive]
    · show ∀ k y, _ → Up (v.put d r).live y
      rw [hlive]
      exact forall_put hup (hup d r hi) fun _ _ _ => id
    · exact fun k y hk _ => forall_put hpart hp (fun _ _ _ => id) k y hk
    · intro k y hk hlt
      have hl : v.live k := by
        rw [← hlive]
        exact ⟨y, hk⟩
      exact absurd hlt (hbetween k hl)
  | tell | win => cases hm

theorem Stage.hear_telling {m : Note n} {out : Option (Note n)} (hlinked : v.Linked)
    (hT : v.live T) (hup : ∀ k r, v.member k = some r → r.Up v.live)
    (hno : ∀ k r, v.member k = some r → r.isPrimary = false)
    (hrest : ∀ k r, v.member k = some r → rank T d ≤ rank T k → r.isParticipating = true)
    (htold : ∀ k r, v.member k = some r → rank T k < rank T d →
      r.isParticipating = false ∧ r.primary = T)
    (hi : v.member d = some r) (hm : m = .elected T) (hhears : Hears d r m r' out) :
    Stage ((v.put d r').carry (out.elim 0 (v.send r.target))) := by
  have hlive := put_live (y := r') hi
  have hpart := hrest d r hi le_rfl
  have hbefore : ∀ k y, v.member k = some y → k ≠ d → rank T k ≤ rank T d →
      y.isParticipating = false ∧ y.primary = T := fun k y hk hne hle =>
    htold k y hk (lt_of_le_of_ne hle fun heq => hne (rank_injective heq))
  cases hhears with
  | wake _ T' x hmT hnot _ =>
    rw [hpart] at hnot
    cases hnot
  | tell T' hp hne =>
    cases hm
    obtain ⟨j, hbetween, hsend⟩ := send_up hlinked hup hi (.elected T)
    have hlt := hbetween.rank_lt hT (Ne.symm hne)
    simp only [Option.elim, hsend]
    refine .telling j T rfl ?_ ?_ (forall_put hno (hno d r hi) fun _ _ _ => id) ?_ ?_
    · show (v.put d _).live T
      rwa [hlive]
    · show ∀ k y, _ → Up (v.put d _).live y
      rw [hlive]
      exact forall_put hup ⟨(hup d r hi).calling, (hup d r hi).target⟩ fun _ _ _ => id
    · exact forall_put hrest (fun hle => absurd hle (not_le.2 hlt)) fun k y _ h hle =>
        h (le_trans (le_of_lt hlt) hle)
    · intro k y hk hkj
      rcases put_cases (v := v) hk with ⟨rfl, rfl⟩ | ⟨hkd, hk⟩
      · exact ⟨rfl, rfl⟩
      · exact hbefore k y hk hkd (hbetween.rank_le hT (Ne.symm hne) ⟨y, hk⟩ hkj)
  | win hp =>
    cases hm
    refine .stable d rfl ⟨_, put_self .., rfl⟩ ?_
    intro k y hk
    rcases put_cases (v := v) hk with ⟨rfl, rfl⟩ | ⟨hkd, hk⟩
    · exact ⟨(hup k r hi).calling, rfl, rfl, fun _ => rfl⟩
    · obtain ⟨h1, h2⟩ := hbefore k y hk hkd (le_of_lt (rank_lt_self hkd))
      exact ⟨(hup k y hk).calling, h2, h1, fun hpr => by rw [hno k y hk] at hpr; cases hpr⟩
  | pass | elect => cases hm

/-- Without a crash, at rest, only the message moves. -/
theorem Stage.up_move (hup : ∀ k r, v.member k = some r → r.Up v.live)
    (hsame : Stage v)
    (hhear : ∀ {i : Fin n} {r r' : Member n} {m : Note n} {out : Option (Note n)}
      {flying : Multiset (Fin n × Note n)}, v.member i = some r → v.flying = (i, m) ::ₘ flying →
      Hears i r m r' out → Stage ((v.put i r').carry (flying + out.elim 0 (v.send r.target))))
    (hm : Move v v') : Stage v' := by
  cases hm with
  | rest => exact hsame
  | leave hi hj hdead =>
    obtain ⟨k, hk, hl⟩ := (hup _ _ hi).target
    rw [hj] at hk
    exact absurd hl (Option.some.inj hk ▸ hdead)
  | link hi hnone _ _ _ =>
    obtain ⟨k, hk, -⟩ := (hup _ _ hi).target
    rw [hnone] at hk
    cases hk
  | call hi _ hcalling | quit hi hcalling _ =>
    rw [(hup _ _ hi).calling] at hcalling
    cases hcalling
  | promote hi _ hbetween => exact Stage.promote hi hbetween
  | hear hi hfly hhears => exact hhear hi hfly hhears

/-- **A move leads to the next stage.** -/
theorem Stage.move (h : Stage v) (hlinked : v.Linked) (hm : Move v v') : Stage v' := by
  have hsame := h
  cases h with
  | empty hnone =>
    have hno : ∀ {i : Fin n} {r : Member n}, v.member i ≠ some r := fun hi => hnone _ ⟨_, hi⟩
    cases hm with
    | rest => exact hsame
    | leave hi _ _ | link hi _ _ _ _ | call hi _ _ | quit hi _ _ | promote hi _ _ | hear hi _ _ =>
      exact absurd hi hno
  | alone x hx hone => exact Stage.alone_move hx hone hm
  | stable p hfly hp hall => exact Stage.stable_move hfly hp hall hm
  | waiting p x hfly hp hx hall hup hself =>
    exact Stage.waiting_move hlinked hfly hp hx hall hup hself hm
  | electing d T hd hT hup hno hjoined =>
    refine Stage.up_move hup hsame (fun hi hfly hhears => ?_) hm
    obtain ⟨rfl, hm, rfl⟩ := read_only hd hfly
    rw [Multiset.zero_add]
    exact Stage.hear_election hlinked hT hup hno hjoined hi hm hhears
  | telling d T hd hT hup hno hrest htold =>
    refine Stage.up_move hup hsame (fun hi hfly hhears => ?_) hm
    obtain ⟨rfl, hm, rfl⟩ := read_only hd hfly
    rw [Multiset.zero_add]
    exact Stage.hear_telling hlinked hT hup hno hrest htold hi hm hhears

/-! ### Crashes -/

theorem Stage.crash_stable (hfly : v.flying = 0)
    (hp : ∃ r, v.member p = some r ∧ r.isPrimary = true)
    (hall : ∀ k r, v.member k = some r → r.calling = false ∧ r.primary = p ∧
      r.isParticipating = false ∧ (r.isPrimary = true → k = p)) (hi : i ≠ p) :
    Stage (v.crash i) := by
  obtain ⟨r, hr, hpr⟩ := hp
  exact .stable p (crash_flying_zero hfly) ⟨r, (crash_of_ne v (Ne.symm hi)).trans hr, hpr⟩
    (forall_crash hall fun _ _ _ => id)

/-- The primary of a ring at rest dies, and is missed by its predecessor. -/
theorem Stage.crash_primary (hlinked : v.Linked) (hrest : Rest v) (hp : v.live p)
    (hall : ∀ k r, v.member k = some r → r.primary = p ∧ (r.isPrimary = true → k = p)) :
    Stage (v.crash p) := by
  have hdead : ¬(v.crash p).live p := fun h => (crash_live.1 h).1 rfl
  by_cases hex : ∃ k, (v.crash p).live k
  · obtain ⟨k, hk⟩ := hex
    obtain ⟨x, y, hy, hxp⟩ := exists_predecessor hlinked hrest.up hp
    have hbetween := hlinked x y p hy hxp
    have hx : x ≠ p := by
      rintro rfl
      exact (crash_live.1 hk).1 (hbetween.alone (crash_live.1 hk).2)
    refine .waiting p x (crash_flying_zero hrest.flying) hdead (crash_live.2 ⟨hx, y, hy⟩) ?_ ?_ ?_
    · exact forall_crash hall fun k r hkp h =>
        ⟨h.1, Bool.eq_false_of_not_eq_true fun hpr => hkp (h.2 hpr)⟩
    · intro k r hk hkx
      have hk' := (crash_cases hk).2
      obtain ⟨hc, j, hj, hl⟩ := hrest.up k r hk'
      refine ⟨hc, j, hj, crash_live.2 ⟨?_, hl⟩⟩
      rintro rfl
      exact hkx ((hlinked k r j hk' hj).source_unique hbetween ⟨r, hk'⟩ ⟨y, hy⟩)
    · intro r hr
      rw [crash_of_ne v hx, hy, Option.some.injEq] at hr
      subst hr
      exact .inl ⟨(hrest.up x y hy).calling, hxp⟩
  · exact .empty fun k hk => hex ⟨k, hk⟩

/-- **A crash leads to the next stage**, if it leaves another primary or strikes a ring
at rest. -/
theorem Stage.crash (h : Stage v) (hlinked : v.Linked) (hi : v.live i)
    (hok : v.OtherPrimary i ∨ Rest v) : Stage (v.crash i) := by
  have hnot : (∀ k r, v.member k = some r → r.isPrimary = false) → ¬v.OtherPrimary i := by
    rintro hno ⟨j, r, -, hj, hpr⟩
    rw [hno j r hj] at hpr
    cases hpr
  cases h with
  | empty hnone => exact absurd hi (hnone i)
  | alone x _ hone =>
    refine .empty ?_
    intro k hk
    obtain ⟨hki, hk⟩ := crash_live.1 hk
    exact hki ((hone k hk).trans (hone i hi).symm)
  | stable p hfly hp hall =>
    by_cases hip : i = p
    · subst hip
      rcases hok with ⟨j, r, hji, hj, hpr⟩ | hrest
      · exact absurd ((hall j r hj).2.2.2 hpr) hji
      · exact Stage.crash_primary hlinked hrest hi fun k r hk =>
          ⟨(hall k r hk).2.1, (hall k r hk).2.2.2⟩
    · exact Stage.crash_stable hfly hp hall hip
  | waiting p x _ hp hx hall hup hself =>
    rcases hok with hother | hrest
    · exact absurd hother (hnot fun k r hk => (hall k r hk).2)
    · obtain ⟨y, hy⟩ := hx
      obtain ⟨hc, j, hj, hl⟩ := hrest.up x y hy
      rcases hself y hy with ⟨-, ht⟩ | ⟨hc', -⟩
      · rw [hj] at ht
        exact absurd hl (Option.some.inj ht ▸ hp)
      · rw [hc] at hc'
        cases hc'
  | electing d T hd _ _ hno _ | telling d T hd _ _ hno _ _ =>
    rcases hok with hother | hrest
    · exact absurd hother (hnot hno)
    · rw [hrest.flying] at hd
      exact absurd hd.symm (Multiset.singleton_ne_zero _)

/-! ### At rest -/

/-- **A ring at rest has a primary**, if anyone is live. -/
theorem Stage.primary (h : Stage v) (hrest : Rest v) (hlive : v.live i) :
    ∃ k r, v.member k = some r ∧ r.isPrimary = true := by
  cases h with
  | empty hnone => exact absurd hlive (hnone i)
  | alone x hx _ | stable x _ hx _ => exact ⟨x, hx⟩
  | waiting p x _ hp hx _ _ hself =>
    obtain ⟨y, hy⟩ := hx
    obtain ⟨hc, j, hj, hl⟩ := hrest.up x y hy
    rcases hself y hy with ⟨-, ht⟩ | ⟨hc', -⟩
    · rw [hj] at ht
      exact absurd hl (Option.some.inj ht ▸ hp)
    · rw [hc] at hc'
      cases hc'
  | electing d T hd _ _ _ _ | telling d T hd _ _ _ _ _ =>
    rw [hrest.flying] at hd
    exact absurd hd.symm (Multiset.singleton_ne_zero _)

end Stages

end Outline
end InstantMessenger
