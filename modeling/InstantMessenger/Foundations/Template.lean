import Mathlib.Data.List.Forall2
import Mathlib.Logic.Function.Basic

/-!
# Texts after a template

A text that is written after a template has one character for each place of the template,
and the same value may be asked for at several places.

* `exists_map_of_forall₂` — **what fits a template place by place is filled in by one
  function of the places**, when a place that is repeated leaves no choice.
-/

namespace InstantMessenger
namespace Template

variable {α β : Type*} {R : α → β → Prop}

theorem exists_map_of_forall₂ [DecidableEq α] [Nonempty β] {l : List α} {s : List β}
    (hl : l.Pairwise fun p q => p = q → ∀ b c, R p b → R p c → b = c)
    (h : List.Forall₂ R l s) : ∃ f : α → β, l.map f = s ∧ ∀ p ∈ l, R p (f p) := by
  induction h with
  | nil => exact ⟨fun _ => Classical.arbitrary β, rfl, by simp⟩
  | @cons p c l s hp _ ih =>
    rw [List.pairwise_cons] at hl
    obtain ⟨f, hf, hfits⟩ := ih hl.2
    have hsame : ∀ q ∈ l, Function.update f p c q = f q := by
      intro q hq
      by_cases hqp : q = p
      · subst hqp
        rw [Function.update_self]
        exact hl.1 q hq rfl c (f q) hp (hfits q hq)
      · exact Function.update_of_ne hqp c f
    refine ⟨Function.update f p c, ?_, ?_⟩
    · rw [List.map_cons, Function.update_self, List.map_congr_left hsame, hf]
    · intro q hq
      rcases List.mem_cons.1 hq with rfl | hq
      · rwa [Function.update_self]
      · rw [hsame q hq]
        exact hfits q hq

end Template
end InstantMessenger
