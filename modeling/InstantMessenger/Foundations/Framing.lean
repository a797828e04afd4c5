import Mathlib.Data.List.Basic
import Mathlib.Algebra.BigOperators.Group.List.Basic
import Mathlib.Algebra.Order.Ring.Nat

/-!
# Frames of one size on a byte stream

A sender that writes frames of `n` bytes to a stream and may write only the first bytes
of one, and a reader that cuts the stream into pieces of `n` bytes.  There is nothing in
the stream that says where a frame begins.

* `written` — the stream, of frames and of how much of each was accepted.
* `Cut` — pieces of `n` bytes from the front of a stream.
* `NoneCompleted` — a frame that was cut short is not completed by what was accepted
  later.
* `cut_prefix` — **then every cut of the stream is a prefix of the frames**;
  `exists_cut_not_prefix` — otherwise there are frames that are read wrongly.
-/

namespace InstantMessenger
namespace Framing

variable {α : Type*}

/-- The stream: of each frame the bytes that were accepted. -/
def written (frames : List (List α)) (accepted : List Nat) : List α :=
  (frames.zipWith (fun f k => f.take k) accepted).flatten

/-- Pieces of `n` bytes from the front of the stream. -/
structure Cut (n : Nat) (stream : List α) (out : List (List α)) : Prop where
  length_eq : ∀ f ∈ out, f.length = n
  isPrefix : out.flatten <+: stream

/-- From every short write on, fewer than `n` bytes are accepted. -/
def NoneCompleted (n : Nat) (accepted : List Nat) : Prop :=
  ∀ k rest, k :: rest <:+ accepted → k < n → k + rest.sum < n

variable {n : Nat}

@[simp] theorem written_cons (f : List α) (frames : List (List α)) (k : Nat)
    (accepted : List Nat) :
    written (f :: frames) (k :: accepted) = f.take k ++ written frames accepted := rfl

theorem written_nil_right (frames : List (List α)) : written frames [] = [] := by
  cases frames <;> rfl

theorem NoneCompleted.tail {k : Nat} {accepted : List Nat}
    (h : NoneCompleted n (k :: accepted)) : NoneCompleted n accepted := by
  intro k' rest hsuffix
  exact h k' rest (hsuffix.trans (List.suffix_cons k accepted))

/-! ## Cuts -/

theorem Cut.nil (stream : List α) : Cut n stream [] := ⟨by simp, List.nil_prefix⟩

/-- Nothing is cut from a stream that is too short. -/
theorem Cut.eq_nil {stream : List α} {out : List (List α)} (h : Cut n stream out)
    (hlen : stream.length < n) : out = [] := by
  cases out with
  | nil => rfl
  | cons f out =>
    have hle := h.isPrefix.length_le
    have hf := h.length_eq f (List.mem_cons_self ..)
    rw [List.flatten_cons, List.length_append] at hle
    omega

theorem cut_cons_iff {f : List α} {stream : List α} {out : List (List α)} :
    Cut n stream (f :: out) ↔ f.length = n ∧ f <+: stream ∧ Cut n (stream.drop n) out := by
  constructor
  · rintro ⟨hlen, hprefix⟩
    have hf := hlen f (List.mem_cons_self ..)
    obtain ⟨rest, rfl⟩ := hprefix
    refine ⟨hf, ?_, ?_, ?_⟩
    · rw [List.flatten_cons, List.append_assoc]
      exact List.prefix_append _ _
    · intro g hg
      exact hlen g (List.mem_cons_of_mem _ hg)
    · rw [List.flatten_cons, List.append_assoc, List.drop_left' hf]
      exact List.prefix_append _ _
  · rintro ⟨hf, ⟨rest, rfl⟩, hlen, hprefix⟩
    rw [List.drop_left' hf] at hprefix
    refine ⟨?_, ?_⟩
    · intro g hg
      rcases List.mem_cons.1 hg with rfl | hg
      · exact hf
      · exact hlen g hg
    · rw [List.flatten_cons]
      exact (List.prefix_append_right_inj f).2 hprefix

theorem length_written_le (frames : List (List α)) (accepted : List Nat) :
    (written frames accepted).length ≤ accepted.sum := by
  induction accepted generalizing frames with
  | nil => simp [written_nil_right]
  | cons k accepted ih =>
    cases frames with
    | nil => exact Nat.zero_le _
    | cons f frames =>
      rw [written_cons, List.length_append, List.length_take, List.sum_cons]
      exact Nat.add_le_add (Nat.min_le_left ..) (ih frames)

/-- **No frame is read wrongly**, when none that was cut short is completed. -/
theorem cut_prefix (hn : 0 < n) {frames : List (List α)} {accepted : List Nat}
    (hframes : ∀ f ∈ frames, f.length = n) (hle : ∀ k ∈ accepted, k ≤ n)
    (h : NoneCompleted n accepted) {out : List (List α)}
    (hcut : Cut n (written frames accepted) out) : out <+: frames := by
  induction accepted generalizing frames out with
  | nil =>
    rw [written_nil_right] at hcut
    rw [hcut.eq_nil hn]
    exact List.nil_prefix
  | cons k accepted ih =>
    by_cases hk : k < n
    · -- the rest of the stream is too short for a frame
      have hlen := length_written_le frames (k :: accepted)
      rw [List.sum_cons] at hlen
      rw [hcut.eq_nil (hlen.trans_lt (h k accepted List.suffix_rfl hk))]
      exact List.nil_prefix
    · cases frames with
      | nil =>
        obtain rfl := hcut.eq_nil hn
        exact List.nil_prefix
      | cons f frames =>
        have hf := hframes f (List.mem_cons_self ..)
        have htake : f.take k = f := List.take_of_length_le (hf.le.trans (not_lt.1 hk))
        rw [written_cons, htake] at hcut
        cases out with
        | nil => exact List.nil_prefix
        | cons g out =>
          obtain ⟨hg, hprefix, hrest⟩ := cut_cons_iff.1 hcut
          have hgf : g = f := by
            refine List.IsPrefix.eq_of_length ?_ (hg.trans hf.symm)
            exact List.prefix_of_prefix_length_le hprefix (List.prefix_append ..)
              (hg.trans hf.symm).le
          rw [List.drop_left' hf] at hrest
          rw [hgf, List.cons_prefix_cons]
          refine ⟨rfl, ih ?_ ?_ h.tail hrest⟩
          · intro f' hf'
            exact hframes f' (List.mem_cons_of_mem _ hf')
          · intro k' hk'
            exact hle k' (List.mem_cons_of_mem _ hk')

/-! ## A frame that is completed by the next one -/

theorem written_replicate {b : α} {accepted : List Nat} (hle : ∀ k ∈ accepted, k ≤ n) :
    written (accepted.map fun _ => List.replicate n b) accepted =
      List.replicate accepted.sum b := by
  induction accepted with
  | nil => rfl
  | cons k accepted ih =>
    have hk := hle k (List.mem_cons_self ..)
    rw [List.map_cons, written_cons, List.take_replicate, Nat.min_eq_left hk, List.sum_cons,
      ih fun k' hk' => hle k' (List.mem_cons_of_mem _ hk'), List.replicate_append_replicate]

/-- What is not completed at the head is not completed later. -/
theorem not_noneCompleted_cons {k : Nat} {accepted : List Nat}
    (h : ¬ NoneCompleted n (k :: accepted)) : n ≤ k + accepted.sum := by
  by_contra hlt
  refine h ?_
  intro k' rest hsuffix hk'
  rcases List.suffix_cons_iff.1 hsuffix with heq | ⟨front, rfl⟩
  · cases heq
    omega
  · rw [List.sum_append, List.sum_cons] at hlt
    omega

/-- **A frame is read wrongly** for some frames, when one that was cut short is completed:
of bytes `a` up to there, of bytes `b` from there on. -/
theorem exists_cut_not_prefix {a b : α} (hab : a ≠ b) {accepted : List Nat}
    (hle : ∀ k ∈ accepted, k ≤ n) (h : ¬ NoneCompleted n accepted) :
    ∃ frames : List (List α), frames.length = accepted.length ∧ (∀ f ∈ frames, f.length = n) ∧
      ∃ out, Cut n (written frames accepted) out ∧ ¬ out <+: frames := by
  induction accepted with
  | nil =>
    refine absurd ?_ h
    intro k rest hsuffix
    exact absurd (List.suffix_nil.1 hsuffix) (List.cons_ne_nil k rest)
  | cons k accepted ih =>
    have hle' : ∀ k' ∈ accepted, k' ≤ n := fun k' hk' => hle k' (List.mem_cons_of_mem _ hk')
    have hkn := hle k (List.mem_cons_self ..)
    by_cases hk : k < n
    · have hsum := not_noneCompleted_cons h
      refine ⟨List.replicate n a :: accepted.map fun _ => List.replicate n b, by simp, ?_,
        [List.replicate k a ++ List.replicate (n - k) b], ?_, ?_⟩
      · intro f hf
        rcases List.mem_cons.1 hf with rfl | hf
        · exact List.length_replicate ..
        · obtain ⟨_, _, rfl⟩ := List.mem_map.1 hf
          exact List.length_replicate ..
      · have hlen : (List.replicate k a ++ List.replicate (n - k) b).length = n := by
          rw [List.length_append, List.length_replicate, List.length_replicate]
          omega
        refine cut_cons_iff.2 ⟨hlen, ?_, .nil _⟩
        have hsplit : accepted.sum = n - k + (accepted.sum - (n - k)) := by omega
        rw [written_cons, List.take_replicate, Nat.min_eq_left hkn, written_replicate hle',
          hsplit, ← List.replicate_append_replicate, ← List.append_assoc]
        exact List.prefix_append _ _
      · intro hprefix
        have heq := (List.cons_prefix_cons.1 hprefix).1
        have hmem : b ∈ List.replicate n a := by
          rw [← heq]
          refine List.mem_append_right _ (List.mem_replicate.2 ⟨?_, rfl⟩)
          omega
        exact hab (List.eq_of_mem_replicate hmem).symm
    · have hrest : ¬ NoneCompleted n accepted := by
        intro hnone
        refine h ?_
        intro k' rest hsuffix hk'
        rcases List.suffix_cons_iff.1 hsuffix with heq | hsuffix
        · cases heq
          exact absurd hk' hk
        · exact hnone k' rest hsuffix hk'
      obtain ⟨frames, hlen, hframes, out, hcut, hnot⟩ := ih hle' hrest
      refine ⟨List.replicate n a :: frames, by simp [hlen], ?_, List.replicate n a :: out, ?_, ?_⟩
      · intro f hf
        rcases List.mem_cons.1 hf with rfl | hf
        · exact List.length_replicate ..
        · exact hframes f hf
      · have hfull : (List.replicate n a).take k = List.replicate n a :=
          List.take_of_length_le (by rw [List.length_replicate]; exact not_lt.1 hk)
        rw [written_cons, hfull]
        refine cut_cons_iff.2 ⟨List.length_replicate .., List.prefix_append .., ?_⟩
        rw [List.drop_left' (List.length_replicate ..)]
        exact hcut
      · rw [List.cons_prefix_cons]
        rintro ⟨_, hprefix⟩
        exact hnot hprefix

end Framing
end InstantMessenger
