import Mathlib.Data.Multiset.Filter
import InstantMessenger.Foundations.Between

/-!
# The ring in outline

What the servers of a ring do to each other, without threads, sockets and files: who
is linked to whom, who is going to start an election, and which election messages
are on their way.

* `Member`, `Note`, `Outline` — a live server, an election message, and the ring.
* `Hears` — what a message does to the server that reads it.
* `Move` — what a thread of a server can do; `Outline.crash`, `Outline.start`.
* `Outline.Linked` — **links skip no live server**, kept by every move and crash.
* `Joined` — the servers that an election has passed take part in it;
  `joined_first` and `Joined.next` pass it on.
-/

namespace InstantMessenger

open Cyclic

/-- An election message, and the server whose id it carries. -/
inductive Note (n : Nat) where
  | election (T : Fin n)
  | elected (T : Fin n)
  deriving DecidableEq

/-- A live server.  Its target is the server it is linked to, or the one it has lost
and not yet replaced; it is calling when it will start an election as soon as it is
linked again. -/
structure Member (n : Nat) where
  target : Option (Fin n)
  calling : Bool
  primary : Fin n
  isPrimary : Bool
  isParticipating : Bool

/-- A ring: its live servers, and the messages on their way to them. -/
structure Outline (n : Nat) where
  member : Fin n → Option (Member n)
  flying : Multiset (Fin n × Note n)
  crashed : Bool

variable {n : Nat}

/-- The first port of the file. -/
def first (i : Fin n) : Fin n := ⟨0, i.pos⟩

namespace Outline

/-- There is a live server on the port. -/
def live (v : Outline n) (k : Fin n) : Prop := ∃ r, v.member k = some r

def put (v : Outline n) (i : Fin n) (r : Member n) : Outline n :=
  { v with member := Function.update v.member i (some r) }

/-- What a server with this target writes to it arrives if the target is live. -/
def send (v : Outline n) (target : Option (Fin n)) (m : Note n) : Multiset (Fin n × Note n) :=
  match target with
  | none => 0
  | some j => if (v.member j).isSome then {(j, m)} else 0

/-- The same servers, with other messages on their way. -/
def carry (v : Outline n) (flying : Multiset (Fin n × Note n)) : Outline n := { v with flying }

def crash (v : Outline n) (i : Fin n) : Outline n where
  member := Function.update v.member i none
  flying := v.flying.filter fun x => x.1 ≠ i
  crashed := true

/-- A server that has just bound its port. -/
def fresh (i : Fin n) : Member n where
  target := none
  calling := false
  primary := first i
  isPrimary := decide (i = first i)
  isParticipating := false

/-- A server is started on a ring that has not seen a crash. -/
def start (v : Outline n) (i : Fin n) : Outline n :=
  { v.put i (fresh i) with crashed := false }

end Outline

/-- The server `i` handles a message: what becomes of the server, and what it passes
on.  A server that is woken up passes on the larger of two ids. -/
inductive Hears (i : Fin n) (r : Member n) : Note n → Member n → Option (Note n) → Prop
  | wake (m : Note n) (T x : Fin n) : m = .election T ∨ m = .elected T → r.isParticipating = false →
      x = T ∨ x = i → Hears i r m { r with isParticipating := true } (some (.election x))
  | pass (T : Fin n) : r.isParticipating = true → T ≠ i →
      Hears i r (.election T) r (some (.election T))
  | elect : r.isParticipating = true → Hears i r (.election i) r (some (.elected i))
  | tell (T : Fin n) : r.isParticipating = true → T ≠ i →
      Hears i r (.elected T) { r with isParticipating := false, primary := T } (some (.elected T))
  | win : r.isParticipating = true →
      Hears i r (.elected i) { r with isParticipating := false, primary := i, isPrimary := true }
        none

/-- What the threads of the servers can do. -/
inductive Move (v : Outline n) : Outline n → Prop
  | rest : Move v v
  /-- A server gives up the one it has lost. -/
  | leave {i j : Fin n} {r : Member n} : v.member i = some r → r.target = some j → ¬v.live j →
      Move v (v.put i { r with target := none, calling := decide (j = r.primary) })
  | link {i j : Fin n} {r : Member n} : v.member i = some r → r.target = none → v.live j →
      NoneBetween v.live i j → (v.crashed = false → j = next i) →
      Move v (v.put i { r with target := some j })
  | call {i j : Fin n} {r : Member n} : v.member i = some r → r.target = some j →
      r.calling = true →
      Move v ((v.put i { r with calling := false }).carry
        (v.flying + v.send (some j) (.election i)))
  /-- A server that found itself alone calls no election any more. -/
  | quit {i : Fin n} {r : Member n} : v.member i = some r → r.calling = true →
      r.isPrimary = true → Move v (v.put i { r with calling := false })
  | promote {i : Fin n} {r : Member n} : v.member i = some r → v.crashed = true →
      NoneBetween v.live i i → Move v (v.put i { r with primary := i, isPrimary := true })
  | hear {i : Fin n} {r r' : Member n} {m : Note n} {out : Option (Note n)}
      {flying : Multiset (Fin n × Note n)} : v.member i = some r → v.flying = (i, m) ::ₘ flying →
      Hears i r m r' out →
      Move v ((v.put i r').carry (flying + out.elim 0 (v.send r.target)))

theorem Hears.target {i : Fin n} {r r' : Member n} {m : Note n} {out : Option (Note n)}
    (h : Hears i r m r' out) : r'.target = r.target := by
  cases h <;> rfl

namespace Outline

section Members

variable {v v' : Outline n} {i j k : Fin n} {r r' : Member n}

theorem put_self (v : Outline n) (i : Fin n) (r : Member n) : (v.put i r).member i = some r :=
  Function.update_self ..

theorem put_of_ne (v : Outline n) (r : Member n) (h : k ≠ i) :
    (v.put i r).member k = v.member k := Function.update_of_ne h ..

/-- The servers after one of them has changed. -/
theorem put_cases (h : (v.put i r').member k = some r) :
    (k = i ∧ r = r') ∨ (k ≠ i ∧ v.member k = some r) := by
  by_cases hk : k = i
  · subst hk
    rw [put_self, Option.some.injEq] at h
    exact .inl ⟨rfl, h.symm⟩
  · rw [put_of_ne _ _ hk] at h
    exact .inr ⟨hk, h⟩

theorem put_live {y : Member n} (hi : v.member i = some r) : (v.put i y).live = v.live := by
  funext k
  refine propext ?_
  by_cases hk : k = i
  · subst hk
    exact ⟨fun _ => ⟨r, hi⟩, fun _ => ⟨y, put_self ..⟩⟩
  · unfold live
    rw [put_of_ne _ _ hk]

theorem crash_self (v : Outline n) (i : Fin n) : (v.crash i).member i = none :=
  Function.update_self ..

theorem crash_of_ne (v : Outline n) (h : k ≠ i) : (v.crash i).member k = v.member k :=
  Function.update_of_ne h ..

theorem crash_cases (h : (v.crash i).member k = some r) : k ≠ i ∧ v.member k = some r := by
  by_cases hk : k = i
  · rw [hk, crash_self] at h
    cases h
  · rw [crash_of_ne _ hk] at h
    exact ⟨hk, h⟩

theorem crash_live : (v.crash i).live k ↔ k ≠ i ∧ v.live k := by
  constructor
  · rintro ⟨r, hr⟩
    obtain ⟨hk, hr⟩ := crash_cases hr
    exact ⟨hk, r, hr⟩
  · rintro ⟨hk, r, hr⟩
    exact ⟨r, (crash_of_ne _ hk).trans hr⟩

/-- What holds of all servers still holds after one of them has changed. -/
theorem forall_put {P Q : Fin n → Member n → Prop} (h : ∀ k r, v.member k = some r → P k r)
    (hi : Q i r') (hother : ∀ k r, k ≠ i → P k r → Q k r) :
    ∀ k r, (v.put i r').member k = some r → Q k r := by
  intro k r hk
  rcases put_cases hk with ⟨rfl, rfl⟩ | ⟨hne, hk⟩
  · exact hi
  · exact hother k r hne (h k r hk)

theorem forall_crash {P Q : Fin n → Member n → Prop} (h : ∀ k r, v.member k = some r → P k r)
    (himp : ∀ k r, k ≠ i → P k r → Q k r) :
    ∀ k r, (v.crash i).member k = some r → Q k r := fun k r hk =>
  himp k r (crash_cases hk).1 (h k r (crash_cases hk).2)

theorem send_live (h : v.live j) (m : Note n) : v.send (some j) m = {(j, m)} := by
  obtain ⟨r, hr⟩ := h
  exact if_pos (by rw [hr]; rfl)

theorem send_lost (h : ¬v.live j) (m : Note n) : v.send (some j) m = 0 :=
  if_neg fun hj => h (Option.isSome_iff_exists.1 hj)

/-- What is sent arrives at the target, or is lost. -/
theorem send_cases (v : Outline n) (target : Option (Fin n)) (m : Note n) :
    v.send target m = 0 ∨ ∃ j, target = some j ∧ v.live j ∧ v.send target m = {(j, m)} := by
  cases target with
  | none => exact .inl rfl
  | some j =>
    by_cases hj : v.live j
    · exact .inr ⟨j, rfl, hj, send_live hj m⟩
    · exact .inl (send_lost hj m)

end Members

/-! ## Links -/

/-- No live server is passed over by a link. -/
def Linked (v : Outline n) : Prop :=
  ∀ i r j, v.member i = some r → r.target = some j → NoneBetween v.live i j

section Linked

variable {v v' : Outline n} {i j k : Fin n} {r r' : Member n}

theorem Linked.put (h : v.Linked) (hi : v.member i = some r)
    (ht : ∀ j, r'.target = some j → NoneBetween v.live i j) : (v.put i r').Linked := by
  intro k x j hk hj
  rw [put_live hi]
  rcases put_cases hk with ⟨rfl, rfl⟩ | ⟨-, hk⟩
  · exact ht j hj
  · exact h k x j hk hj

theorem Linked.crash (h : v.Linked) (i : Fin n) : (v.crash i).Linked := fun k x j hk hj =>
  (h k x j (crash_cases hk).2 hj).mono fun _ hl => (crash_live.1 hl).2

theorem Linked.move (h : v.Linked) (hm : Move v v') : v'.Linked := by
  cases hm with
  | rest => exact h
  | leave hi _ _ => exact h.put hi fun j hj => by cases hj
  | link hi _ _ hbetween _ =>
    refine h.put hi ?_
    intro j hj
    rw [← Option.some.inj hj]
    exact hbetween
  | @call i _ r hi _ _ =>
    have hput : (v.put i { r with calling := false }).Linked := h.put hi fun j hj => h i r j hi hj
    exact hput
  | quit hi _ _ => exact h.put hi fun j hj => h _ _ j hi hj
  | promote hi _ _ => exact h.put hi fun j hj => h _ _ j hi hj
  | @hear i r r' _ _ _ hi _ hhears =>
    have hput : (v.put i r').Linked := h.put hi fun j hj => h i r j hi (hhears.target ▸ hj)
    exact hput

end Linked

/-! ## Taking part -/

/-- The live servers from the one after `T` up to the receiver `d` take part in the
election, `d` excluded. -/
def Joined (v : Outline n) (T d : Fin n) : Prop :=
  ∀ k r, v.member k = some r → rank T k < rank T d → r.isParticipating = true

section Joined

variable {v : Outline n} {i d d' T : Fin n} {r r' : Member n}

/-- The message about a server has just left it. -/
theorem joined_first (hbetween : NoneBetween v.live T d) : Joined v T d := fun k r hk hlt =>
  absurd hlt (hbetween k ⟨r, hk⟩)

/-- And the server it is about may change with that. -/
theorem joined_first_put (hi : v.member T = some r) (hbetween : NoneBetween v.live T d) :
    Joined (v.put T r') T d := by
  apply joined_first
  rwa [put_live hi]

/-- The receiver takes part, and passes the message on. -/
theorem Joined.next (h : Joined v T d) (hT : v.live T) (hne : d ≠ T)
    (hr : r'.isParticipating = true) (hbetween : NoneBetween v.live d d') :
    Joined (v.put d r') T d' := by
  intro k x hk hlt
  rcases put_cases hk with ⟨-, rfl⟩ | ⟨hkd, hk⟩
  · exact hr
  · have hle := hbetween.rank_le hT hne ⟨x, hk⟩ hlt
    have hne' : rank T k ≠ rank T d := fun heq => hkd (rank_injective heq)
    exact h k x hk (by omega)

theorem Joined.crash (h : Joined v T d) (i : Fin n) : Joined (v.crash i) T d := fun k x hk =>
  h k x (crash_cases hk).2

/-- Back at the server it is about, the message has passed all of them. -/
theorem Joined.all (h : Joined v T T) (hT : ∀ r, v.member T = some r → r.isParticipating = true) :
    ∀ k r, v.member k = some r → r.isParticipating = true := by
  intro k r hk
  by_cases hkT : k = T
  · rw [hkT] at hk
    exact hT r hk
  · exact h k r hk (rank_lt_self hkT)

end Joined

/-! ## Messages -/

section Messages

variable {v v' : Outline n} {i d : Fin n} {m m' : Note n} {flying : Multiset (Fin n × Note n)}

/-- The message that wakes a server is about the server it names. -/
theorem named_of_wake {T T' : Fin n} (hmT : m = .election T' ∨ m = .elected T')
    (hm : m = .election T ∨ m = .elected T) : T' = T := by
  rcases hmT with h | h <;> rcases hm with h' | h' <;> rw [h] at h' <;> cases h' <;> rfl

/-- Every message is on its way to a live server. -/
def Delivers (v : Outline n) : Prop := ∀ x ∈ v.flying, v.live x.1

theorem live_of_mem_send {target : Option (Fin n)} {x : Fin n × Note n}
    (hx : x ∈ v.send target m) : v.live x.1 := by
  rcases v.send_cases target m with h | ⟨j, -, hj, h⟩
  · rw [h] at hx
    exact absurd hx (Multiset.notMem_zero _)
  · rw [h, Multiset.mem_singleton] at hx
    rw [hx]
    exact hj

theorem Delivers.move (h : v.Delivers) (hm : Move v v') : v'.Delivers := by
  cases hm with
  | rest => exact h
  | leave hi _ _ | link hi _ _ _ _ | quit hi _ _ | promote hi _ _ =>
    intro x hx
    rw [put_live hi]
    exact h x hx
  | call hi _ _ =>
    intro x hx
    refine (congrFun (put_live hi) x.1).mpr ?_
    rcases Multiset.mem_add.1 hx with hx | hx
    · exact h x hx
    · exact live_of_mem_send hx
  | @hear _ _ _ _ out _ hi hfly _ =>
    intro x hx
    refine (congrFun (put_live hi) x.1).mpr ?_
    rcases Multiset.mem_add.1 hx with hx | hx
    · exact h x (by rw [hfly]; exact Multiset.mem_cons_of_mem hx)
    · cases out with
      | none => exact absurd hx (Multiset.notMem_zero _)
      | some m => exact live_of_mem_send hx

theorem Delivers.crash (h : v.Delivers) (i : Fin n) : (v.crash i).Delivers := fun x hx =>
  crash_live.2 ⟨(Multiset.mem_filter.1 hx).2, h x (Multiset.mem_filter.1 hx).1⟩

/-- The message that is read is the only one. -/
theorem read_only (hd : v.flying = {(d, m)}) (hi : v.flying = (i, m') ::ₘ flying) :
    i = d ∧ m' = m ∧ flying = 0 := by
  rw [hd] at hi
  obtain ⟨heq, hzero⟩ := (Multiset.singleton_eq_cons_iff _).1 hi
  cases heq
  exact ⟨rfl, rfl, hzero⟩

theorem crash_flying_self (hd : v.flying = {(d, m)}) : (v.crash d).flying = 0 := by
  show v.flying.filter _ = 0
  rw [hd, Multiset.filter_singleton]
  exact if_neg fun h => h rfl

theorem crash_flying_of_ne (hd : v.flying = {(d, m)}) (hne : d ≠ i) :
    (v.crash i).flying = {(d, m)} := by
  show v.flying.filter _ = _
  rw [hd, Multiset.filter_singleton]
  exact if_pos hne

theorem crash_flying_zero (h : v.flying = 0) : (v.crash i).flying = 0 := by
  show v.flying.filter _ = 0
  rw [h, Multiset.filter_zero]

end Messages

end Outline
end InstantMessenger
