import Mathlib.Data.List.TakeWhile
import InstantMessenger.Foundations.Lines

/-!
# A file that is read piece by piece

An `ifstream` with its flags.  `getline` sets `eofbit` when it meets the end of the file and
`failbit` when it extracts nothing; the last piece of a file without a delimiter at its end
is read, and sets `eofbit` alone.

* `InputFile`, `InputFile.opened`, `InputFile.getline` — the stream, `open`, one call.
* `InputFile.Good` — no call has failed, and at the end of the file nothing is left.
* `getline_cons`, `getline_nil` — **a call on a good stream gives the next of the pieces
  `getlines` cuts the rest of the file into**, and fails if there is none.
* `InputFile.getlineLoop` — `while (getline(stream, piece))`, which sees all of them.
-/

namespace InstantMessenger

open Lines

/-- An input stream on a file. -/
structure InputFile (α : Type*) where
  is_open : Bool := false
  /-- What has not been extracted. -/
  rest : List α := []
  eofbit : Bool := false
  failbit : Bool := false
  deriving DecidableEq, Repr

namespace InputFile

variable {α : Type*}

/-- `open` of a file, if it exists.  A stream that is opened has no flag set. -/
def opened : Option (List α) → InputFile α
  | some contents => { is_open := true, rest := contents }
  | none => { failbit := true }

variable [DecidableEq α] {d : α}

/-- `getline(stream, piece, d)`: the piece, and the stream.  A stream that is not good leaves
the piece as it was. -/
def getline (d : α) (f : InputFile α) (piece : List α) : List α × InputFile α :=
  if f.eofbit || f.failbit then (piece, { f with failbit := true })
  else
    let line := f.rest.takeWhile (· ≠ d)
    match f.rest.dropWhile (· ≠ d) with
    | [] => (line, { f with rest := [], eofbit := true, failbit := line.isEmpty })
    | _ :: rest => (line, { f with rest := rest })

/-- The pieces that at most so many rounds of `while (getline(stream, piece, d))` see. -/
def getlineLoop (d : α) : Nat → InputFile α → List α → List (List α)
  | 0, _, _ => []
  | rounds + 1, f, piece =>
    let (line, f) := f.getline d piece
    if f.failbit then [] else line :: getlineLoop d rounds f line

/-- A stream on which no call has failed. -/
structure Good (f : InputFile α) : Prop where
  noFail : f.failbit = false
  atEnd : f.eofbit = true → f.rest = []

omit [DecidableEq α] in
theorem good_opened (contents : List α) : (opened (some contents)).Good :=
  ⟨rfl, fun h => by cases h⟩

/-- The first piece of a text with a delimiter, and what is behind it. -/
theorem getlines_of_dropWhile {s rest : List α} {c : α} (h : s.dropWhile (· ≠ d) = c :: rest) :
    getlines d s = s.takeWhile (· ≠ d) :: getlines d rest := by
  have hc : c = d := by
    have hhead := List.head?_dropWhile_not (· ≠ d) s
    rw [h] at hhead
    simpa using hhead
  have hpiece : d ∉ s.takeWhile (· ≠ d) := by
    intro hmem
    simpa using List.mem_takeWhile_imp hmem
  have hsplit := List.takeWhile_append_dropWhile (p := (· ≠ d)) (l := s)
  rw [h, hc] at hsplit
  rw [← getlines_piece hpiece, hsplit]

/-- A text without a delimiter. -/
theorem getlines_of_dropWhile_nil {s : List α} (h : s.dropWhile (· ≠ d) = []) :
    s.takeWhile (· ≠ d) = s ∧ getlines d s = if s = [] then [] else [s] := by
  have hall := List.dropWhile_eq_nil_iff.1 h
  have hmem : d ∉ s := by
    intro hd
    simpa using hall d hd
  refine ⟨List.takeWhile_eq_self_iff.2 hall, ?_⟩
  split
  · rename_i hs
    rw [hs, getlines_nil]
  · rename_i hs
    exact getlines_of_not_mem hs hmem

/-- **A piece is left.** -/
theorem getline_cons {f : InputFile α} (hf : f.Good) {p : List α} {ps : List (List α)}
    (h : getlines d f.rest = p :: ps) (piece : List α) :
    ∃ g, f.getline d piece = (p, g) ∧ g.Good ∧ g.is_open = f.is_open ∧
      getlines d g.rest = ps := by
  have heof : f.eofbit = false := by
    by_contra hend
    rw [hf.atEnd (by simpa using hend), getlines_nil] at h
    cases h
  unfold getline
  rw [heof, hf.noFail]
  simp only [Bool.or_self, Bool.false_eq_true, if_false]
  split
  · rename_i hdrop
    obtain ⟨htake, hlines⟩ := getlines_of_dropWhile_nil hdrop
    rw [hlines] at h
    split at h
    · cases h
    · rename_i hne
      cases h
      refine ⟨_, congrArg (·, _) htake, ⟨?_, fun _ => rfl⟩, rfl, rfl⟩
      rw [htake]
      simpa using hne
  · rename_i c rest hdrop
    rw [getlines_of_dropWhile hdrop] at h
    cases h
    exact ⟨_, rfl, ⟨rfl, fun hend => by cases hend⟩, rfl, rfl⟩

/-- **No piece is left.** -/
theorem getline_nil {f : InputFile α} (h : getlines d f.rest = []) (piece : List α) :
    (f.getline d piece).2.failbit = true ∧ (f.getline d piece).2.is_open = f.is_open := by
  unfold getline
  split
  · exact ⟨rfl, rfl⟩
  · simp only
    split
    · rename_i hdrop
      obtain ⟨htake, hlines⟩ := getlines_of_dropWhile_nil hdrop
      rw [hlines] at h
      split at h
      · rename_i hs
        exact ⟨by simp [hs], rfl⟩
      · cases h
    · rename_i c rest hdrop
      rw [getlines_of_dropWhile hdrop] at h
      cases h

/-- **The loop sees every piece**, and ends. -/
theorem getlineLoop_eq {rounds : Nat} {f : InputFile α} (hf : f.Good)
    (hrounds : (getlines d f.rest).length < rounds) (piece : List α) :
    getlineLoop d rounds f piece = getlines d f.rest := by
  induction rounds generalizing f piece with
  | zero => cases hrounds
  | succ rounds ih =>
    cases hlines : getlines d f.rest with
    | nil =>
      simp only [getlineLoop, (getline_nil hlines piece).1, if_true]
    | cons p ps =>
      obtain ⟨g, hg, hgood, _, hrest⟩ := getline_cons hf hlines piece
      rw [hlines, List.length_cons, ← hrest] at hrounds
      simp only [getlineLoop, hg, hgood.noFail, Bool.false_eq_true, if_false]
      rw [ih hgood (by omega), hrest]

end InputFile
end InstantMessenger
