import Mathlib.Data.List.Infix
import InstantMessenger.Foundations.Transition

/-!
# Broadcast in one order

What a chat room is for, with nothing of how it works: messages are submitted by their
senders, one after another they get their place in a single log, and every member is shown
the log from its beginning.

* `Broadcast`, `broadcast` — the submissions of each sender, the log, and what each member
  was shown, as a transition system over any senders and messages.
* `Broadcast.Consistent` — **the guarantee**: the log holds each sender's messages in the
  order of the submissions, each once, and every member was shown a beginning of the log.
* `Broadcast.consistent_of_reachable` — it holds in every run; `Consistent.agree` and
  `Consistent.fifo` — two members never disagree about the order, and each sees what
  anybody submitted from its beginning on, in order.
-/

namespace InstantMessenger

/-- The messages submitted by each sender, their common order, and what each member was
shown. -/
structure Broadcast (ι μ : Type*) where
  submitted : ι → List μ
  log : List μ
  shown : ι → List μ

namespace Broadcast

variable {ι μ : Type*}

/-- What can happen. -/
inductive Step (ι μ : Type*) where
  | submit (m : μ)
  /-- The next message of a sender gets its place. -/
  | order (i : ι)
  /-- The next message of the log is shown. -/
  | show (j : ι)
  deriving DecidableEq, Repr

/-- The part of a list that one sender wrote. -/
def of [DecidableEq ι] (sender : μ → ι) (i : ι) (ms : List μ) : List μ :=
  ms.filter fun m => sender m = i

section Of

variable [DecidableEq ι] {sender : μ → ι} {i : ι}

@[simp] theorem of_nil : of sender i [] = [] := rfl

@[simp] theorem of_append (ms ns : List μ) :
    of sender i (ms ++ ns) = of sender i ms ++ of sender i ns := List.filter_append ..

theorem of_cons_self {m : μ} (ms : List μ) (h : sender m = i) :
    of sender i (m :: ms) = m :: of sender i ms := List.filter_cons_of_pos (by simpa using h)

theorem of_cons_ne {m : μ} (ms : List μ) (h : sender m ≠ i) :
    of sender i (m :: ms) = of sender i ms := List.filter_cons_of_neg (by simpa using h)

theorem mem_of {m : μ} {ms : List μ} : m ∈ of sender i ms ↔ m ∈ ms ∧ sender m = i := by
  simp [of]

theorem of_isPrefix {ms ns : List μ} (h : ms <+: ns) : of sender i ms <+: of sender i ns :=
  h.filter _

end Of

variable [DecidableEq ι]

/-- What a step does. -/
def step (sender : μ → ι) (member : ι → Prop) [DecidablePred member] (s : Broadcast ι μ) :
    Step ι μ → Option (Broadcast ι μ)
  | .submit m =>
    if member (sender m) then
      some { s with
        submitted := Function.update s.submitted (sender m) (s.submitted (sender m) ++ [m]) }
    else none
  | .order i =>
    match (s.submitted i)[(of sender i s.log).length]? with
    | some m => some { s with log := s.log ++ [m] }
    | none => none
  | .show j =>
    if member j then
      match s.log[(s.shown j).length]? with
      | some m => some { s with shown := Function.update s.shown j (s.shown j ++ [m]) }
      | none => none
    else none

/-- Nothing was said yet. -/
def start : Broadcast ι μ := ⟨fun _ => [], [], fun _ => []⟩

end Broadcast

/-- Broadcast in one order to the members. -/
def broadcast {ι μ : Type*} [DecidableEq ι] (sender : μ → ι) (member : ι → Prop)
    [DecidablePred member] : Transition.System (Broadcast ι μ) (Broadcast.Step ι μ) where
  init s := s = Broadcast.start
  step := Broadcast.step sender member

namespace Broadcast

variable {ι μ : Type*} [DecidableEq ι] {sender : μ → ι} {member : ι → Prop}
  [DecidablePred member] {s t : Broadcast ι μ}

/-- **The guarantee.** -/
structure Consistent (sender : μ → ι) (member : ι → Prop) (s : Broadcast ι μ) : Prop where
  /-- What is submitted, a member submitted it. -/
  genuine : ∀ i, ∀ m ∈ s.submitted i, sender m = i ∧ member i
  ordered : ∀ i, of sender i s.log <+: s.submitted i
  shown : ∀ j, s.shown j <+: s.log

/-! ## The steps keep the guarantee -/

theorem append_prefix_of_getElem? {as bs : List μ} {b : μ} (h : as <+: bs)
    (hb : bs[as.length]? = some b) : as ++ [b] <+: bs := by
  obtain ⟨rest, rfl⟩ := h
  rw [List.getElem?_append_right le_rfl, Nat.sub_self] at hb
  cases rest with
  | nil => cases hb
  | cons c rest =>
    cases hb
    exact ⟨rest, by simp⟩

theorem Consistent.step {l : Step ι μ} (h : Consistent sender member s)
    (hst : s.step sender member l = some t) : Consistent sender member t := by
  obtain ⟨hgenuine, hordered, hshown⟩ := h
  cases l with
  | submit m =>
    simp only [Broadcast.step, Option.ite_none_right_eq_some, Option.some.injEq] at hst
    obtain ⟨hm, rfl⟩ := hst
    refine ⟨?_, ?_, hshown⟩
    · intro i n hn
      by_cases hi : i = sender m
      · subst hi
        simp only [Function.update_self, List.mem_append, List.mem_singleton] at hn
        rcases hn with hn | rfl
        · exact hgenuine _ n hn
        · exact ⟨rfl, hm⟩
      · simp only [Function.update_of_ne hi] at hn
        exact hgenuine i n hn
    · intro i
      by_cases hi : i = sender m
      · subst hi
        simp only [Function.update_self]
        exact (hordered _).trans (List.prefix_append _ _)
      · simp only [Function.update_of_ne hi]
        exact hordered i
  | order i =>
    simp only [Broadcast.step] at hst
    split at hst
    · rename_i m hm
      cases hst
      have hmi : sender m = i := (hgenuine i m (List.mem_of_getElem? hm)).1
      refine ⟨hgenuine, ?_, fun j => (hshown j).trans (List.prefix_append _ _)⟩
      intro k
      by_cases hk : k = i
      · subst hk
        simp only [of_append, of_cons_self [] hmi, of_nil]
        exact append_prefix_of_getElem? (hordered k) hm
      · have hne : sender m ≠ k := fun h => hk (h ▸ hmi)
        simp only [of_append, of_cons_ne [] hne, of_nil, List.append_nil]
        exact hordered k
    · cases hst
  | «show» j =>
    simp only [Broadcast.step, Option.ite_none_right_eq_some] at hst
    obtain ⟨-, hst⟩ := hst
    split at hst
    · rename_i m hm
      cases hst
      refine ⟨hgenuine, hordered, ?_⟩
      intro k
      by_cases hk : k = j
      · subst hk
        simp only [Function.update_self]
        exact append_prefix_of_getElem? (hshown k) hm
      · simp only [Function.update_of_ne hk]
        exact hshown k
    · cases hst

/-- **Every run is consistent.** -/
theorem consistent_of_reachable (h : (broadcast sender member).Reachable s) :
    Consistent sender member s := by
  refine h.invariant ?_ fun t l u ht hst => ht.step hst
  rintro _ rfl
  exact ⟨by simp [start], fun i => by simp [start], fun j => by simp [start]⟩

/-! ## What the guarantee says -/

omit [DecidablePred member] in
/-- Two members never disagree about the order. -/
theorem Consistent.agree (h : Consistent sender member s) (j k : ι) :
    s.shown j <+: s.shown k ∨ s.shown k <+: s.shown j :=
  List.prefix_or_prefix_of_prefix (h.shown j) (h.shown k)

omit [DecidablePred member] in
/-- What a member was shown of a sender is what that sender submitted first, in order. -/
theorem Consistent.fifo (h : Consistent sender member s) (i j : ι) :
    of sender i (s.shown j) <+: s.submitted i :=
  (of_isPrefix (h.shown j)).trans (h.ordered i)

omit [DecidablePred member] in
/-- A member is shown what members submitted, and nothing else. -/
theorem Consistent.member_of_shown (h : Consistent sender member s) {j : ι} {m : μ}
    (hm : m ∈ s.shown j) : member (sender m) := by
  have hlog : m ∈ of sender (sender m) s.log := mem_of.2 ⟨(h.shown j).subset hm, rfl⟩
  exact (h.genuine _ m ((h.ordered (sender m)).subset hlog)).2

end Broadcast
end InstantMessenger
