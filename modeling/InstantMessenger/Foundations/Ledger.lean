import Mathlib.Algebra.BigOperators.Group.Finset.Piecewise
import Mathlib.Algebra.Group.Int.Defs
import Mathlib.Data.List.Nodup
import Mathlib.Data.List.Count

/-!
# Counters beside a list of what they count

Entries are opened and closed, each entry has an owner, and a counter for every
owner is kept apart from the entries.  The counters are right when each equals
the number of its owner's entries.

* `Balanced` — every counter equals the number of entries of its owner.
* `Opens`, `Closes` — one entry is added, and the entries satisfying a test are
  removed, the counters moved accordingly; `Closes.trans` and `Closes.append`
  put removals together, one after the other and part by part.
* `Balanced.opens`, `Balanced.closes` — **both keep the balance**.
* `lowered` — the sum of what some counters have lost; a removal takes one off for
  every entry that goes.
-/

namespace InstantMessenger
namespace Ledger

variable {ε κ : Type*} [DecidableEq κ] (owner : ε → κ)

/-- The number of entries of an owner. -/
def held (es : List ε) (k : κ) : Nat := es.countP fun e => owner e = k

/-- Every counter is the number of its owner's entries. -/
def Balanced (es : List ε) (m : κ → Int) : Prop := ∀ k, m k = held owner es k

/-- The entry `e` is added, and its owner's counter goes up. -/
structure Opens (e : ε) (es : List ε) (m : κ → Int) (es' : List ε) (m' : κ → Int) : Prop where
  entries : es'.Perm (e :: es)
  counter : ∀ k, m' k = m k + if owner e = k then 1 else 0

/-- The entries that satisfy `p` are removed, and each lowers its owner's counter. -/
structure Closes (p : ε → Bool) (es : List ε) (m : κ → Int) (es' : List ε) (m' : κ → Int) :
    Prop where
  entries : es' = es.filter fun e => !p e
  counter : ∀ k, m' k = m k - es.countP fun e => p e && owner e = k

variable {owner} {es es' es'' : List ε} {m m' m'' : κ → Int} {p q : ε → Bool}

theorem held_append (es fs : List ε) (k : κ) :
    held owner (es ++ fs) k = held owner es k + held owner fs k := List.countP_append

/-! ## What keeps the balance -/

theorem Balanced.opens {e : ε} (h : Balanced owner es m) (ho : Opens owner e es m es' m') :
    Balanced owner es' m' := by
  intro k
  rw [ho.counter k, h k, held, held, ho.entries.countP_eq, List.countP_cons]
  by_cases hk : owner e = k <;> simp [hk]

/-- A test splits a count in two. -/
theorem countP_split (p q : ε → Bool) (es : List ε) :
    es.countP q = es.countP (fun e => p e && q e) + (es.filter fun e => !p e).countP q := by
  induction es with
  | nil => rfl
  | cons e es ih =>
    rw [List.countP_cons, List.countP_cons, ih]
    cases hp : p e with
    | true =>
      rw [List.filter_cons_of_neg (by simp [hp])]
      simp
      omega
    | false =>
      rw [List.filter_cons_of_pos (by simp [hp]), List.countP_cons]
      simp
      omega

theorem Balanced.closes (h : Balanced owner es m) (hc : Closes owner p es m es' m') :
    Balanced owner es' m' := by
  intro k
  have hsplit := countP_split p (fun e => decide (owner e = k)) es
  rw [hc.counter k, h k, held, held, hc.entries]
  omega

/-! ## Removals -/

/-- Nothing satisfies the test. -/
theorem Closes.nothing (hp : ∀ e ∈ es, p e = false) : Closes owner p es m es m where
  entries := (List.filter_eq_self.2 fun e he => by simp [hp e he]).symm
  counter k := by
    have hzero : es.countP (fun e => p e && decide (owner e = k)) = 0 :=
      List.countP_eq_zero.2 fun e he => by simp [hp e he]
    rw [hzero]
    simp

/-- One entry satisfies the test. -/
theorem Closes.single [DecidableEq ε] {e : ε} (hnodup : es.Nodup) (he : e ∈ es)
    (hp : ∀ x ∈ es, p x = true ↔ x = e) (hentries : es' = es.filter fun e => !p e)
    (hm : ∀ k, m' k = m k - if owner e = k then 1 else 0) : Closes owner p es m es' m' where
  entries := hentries
  counter k := by
    have hcount : es.countP (fun x => p x && decide (owner x = k)) =
        if owner e = k then 1 else 0 := by
      by_cases hk : owner e = k
      · rw [if_pos hk, ← List.count_eq_one_of_mem hnodup he, List.count]
        refine List.countP_congr ?_
        intro x hx
        rw [Bool.and_eq_true, hp x hx, decide_eq_true_eq, beq_iff_eq]
        constructor
        · exact fun h => h.1
        · rintro rfl
          exact ⟨rfl, hk⟩
      · rw [if_neg hk]
        refine List.countP_eq_zero.2 ?_
        intro x hx
        rw [Bool.and_eq_true, hp x hx, decide_eq_true_eq]
        rintro ⟨rfl, hxk⟩
        exact hk hxk
    rw [hm k, hcount]
    split <;> rfl

/-- One removal after another. -/
theorem Closes.trans (h : Closes owner p es m es' m') (h' : Closes owner q es' m' es'' m'') :
    Closes owner (fun e => p e || q e) es m es'' m'' where
  entries := by
    rw [h'.entries, h.entries, List.filter_filter]
    exact List.filter_congr fun e _ => by rw [Bool.not_or, Bool.and_comm]
  counter k := by
    have hsplit := countP_split p (fun e => (p e || q e) && decide (owner e = k)) es
    have hp : es.countP (fun e => p e && ((p e || q e) && decide (owner e = k))) =
        es.countP fun e => p e && decide (owner e = k) :=
      List.countP_congr fun e _ => by cases p e <;> simp
    have hq : (es.filter fun e => !p e).countP (fun e => (p e || q e) && decide (owner e = k)) =
        (es.filter fun e => !p e).countP fun e => q e && decide (owner e = k) := by
      refine List.countP_congr ?_
      intro e he
      have hpe : p e = false := by simpa using (List.mem_filter.1 he).2
      rw [hpe, Bool.false_or]
    rw [h'.counter k, h.counter k, h.entries, hsplit, hp, hq]
    omega

/-- A removal part by part. -/
theorem Closes.append {fs fs' : List ε} (h : Closes owner p es m es' m')
    (h' : Closes owner p fs m' fs' m'') :
    Closes owner p (es ++ fs) m (es' ++ fs') m'' where
  entries := by rw [h.entries, h'.entries, List.filter_append]
  counter k := by
    rw [h'.counter k, h.counter k, List.countP_append]
    omega

/-- The test matters only on the entries. -/
theorem Closes.congr (h : Closes owner p es m es' m') (hpq : ∀ e ∈ es, p e = q e) :
    Closes owner q es m es' m' where
  entries := by
    rw [h.entries]
    exact List.filter_congr fun e he => by rw [hpq e he]
  counter k := by
    rw [h.counter k]
    congr 2
    exact List.countP_congr fun e he => by rw [hpq e he]

/-! ## What all counters have lost together -/

/-- The sum of what the counters of `K` have lost. -/
def lowered (K : Finset κ) (m m' : κ → Int) : Int := ∑ k ∈ K, (m k - m' k)

omit [DecidableEq κ] in
theorem lowered_self (K : Finset κ) (m : κ → Int) : lowered K m m = 0 :=
  Finset.sum_eq_zero fun k _ => Int.sub_self (m k)

omit [DecidableEq κ] in
theorem lowered_trans (K : Finset κ) (m m' m'' : κ → Int) :
    lowered K m m'' = lowered K m m' + lowered K m' m'' := by
  rw [lowered, lowered, lowered, ← Finset.sum_add_distrib]
  refine Finset.sum_congr rfl ?_
  intro k _
  omega

/-- One counter goes down by one. -/
theorem lowered_one (K : Finset κ) {k : κ} (h : ∀ j, m' j = m j - if k = j then 1 else 0) :
    lowered K m m' = if k ∈ K then 1 else 0 := by
  rw [← Finset.sum_ite_eq K k fun _ => (1 : Int)]
  refine Finset.sum_congr rfl ?_
  intro j _
  rw [h j]
  omega

/-- The counters that are lowered by the entries that go lose one for each. -/
theorem lowered_eq_countP {K : Finset κ} (hK : ∀ e ∈ es, owner e ∈ K)
    (h : ∀ k, m' k = m k - es.countP fun e => p e && owner e = k) :
    lowered K m m' = es.countP p := by
  induction es generalizing m' with
  | nil =>
    refine Finset.sum_eq_zero ?_
    intro k _
    rw [h k]
    simp
  | cons e es ih =>
    have hrest := @ih (fun k => m k - es.countP fun e => p e && owner e = k)
      (fun x hx => hK x (List.mem_cons_of_mem _ hx)) fun _ => rfl
    rw [lowered_trans K m _ m', hrest, List.countP_cons]
    cases hp : p e with
    | true =>
      have hone := @lowered_one κ _ (fun k => m k - es.countP fun e => p e && owner e = k) m' K
        (owner e) (by
        intro j
        rw [h j, List.countP_cons]
        by_cases hj : owner e = j
        · simp [hp, hj]
          omega
        · simp [hj])
      rw [hone, if_pos (hK e (List.mem_cons_self ..))]
      simp
    | false =>
      have hsame : m' = fun k => m k - es.countP fun e => p e && owner e = k := by
        funext k
        rw [h k, List.countP_cons]
        simp [hp]
      rw [hsame, lowered_self]
      simp

/-- A removal leaves some of the entries. -/
theorem Closes.sublist (h : Closes owner p es m es' m') : es'.Sublist es := by
  rw [h.entries]
  exact List.filter_sublist

end Ledger
end InstantMessenger
