import InstantMessenger.Foundations.Slots
import InstantMessenger.Foundations.Transition
import InstantMessenger.Util.FileSystemManager

/-!
# Concurrent calls on one history file

The consumer of a group appends its messages one after another, any number of
joiners read at any time, and nothing orders the file operations of their calls.

* `Call`, `History`, `fileSteps` — the calls on one group's file as a transition
  system, one file operation a step.
* `History.undisturbed` — the condition: nothing is appended between the read in
  which a call finds the file above its limit and its rename, and no two calls use
  the temporary file at once.
* `History.Kept` — **the invariant**: what each call has read, written or put in
  place still ends with the last messages.
* `History.history_survives` — the file ends with the last messages whenever no
  call is in progress; `History.lostFile_counterexample` — two joiners on a file
  above its limit.
-/

namespace InstantMessenger

open FileSystemManager Recent Slots

/-- Where a call is: in the crop, or over.  After the crop a call appends or
reads. -/
inductive CallState where
  | crop (c : Crop)
  | returned
  deriving DecidableEq, Repr

/-- A call of `appendGroupMessageToHistory` with its message, or of
`readGroupHistoryMessages`. -/
structure Call where
  message : Option Message
  state : CallState
  deriving DecidableEq, Repr

namespace Call

def isWrite (c : Call) : Bool := c.message.isSome

/-- The temporary file is this call's. -/
def inTemp (c : Call) : Bool := c.state == .crop .written || c.state == .crop .removed

/-- The call has found the file above its limit and has not replaced it yet. -/
def replaces (c : Call) : Bool :=
  match c.state with
  | .crop (.above _) => true
  | _ => c.inTemp

/-- The call is not over. -/
def active (c : Call) : Bool := c.state != .returned

/-- `isWriteDiscount`. -/
def discount (c : Call) : Nat := if c.isWrite then 1 else 0

theorem active_of_crop {c : Call} {crop : Crop} (h : c.state = .crop crop) : c.active = true := by
  rw [active, h]
  rfl

end Call

/-- The files of a group, the calls on them, and the rows appended so far. -/
structure History where
  files : Files
  calls : List Call
  appended : List Str
  deriving DecidableEq, Repr

/-- A call begins, or takes its next step. -/
inductive FileStep where
  | append (m : Message)
  | read
  | next (call : Nat)
  deriving DecidableEq, Repr

namespace History

/-- The call with this number goes on to this state. -/
def setState (s : History) (i : Nat) (c : Call) (state : CallState) : List Call :=
  s.calls.set i { c with state }

/-- What a step does to the files.  The consumer begins a call only when its last
one is over, and a notification is not stored. -/
def step (limit : Nat) (s : History) : FileStep → Option History
  | .append m =>
    if s.calls.any fun c => c.isWrite && c.active then none
    else if m.isNotification then some s
    else some { s with calls := s.calls ++ [⟨some m, .crop .reading⟩] }
  | .read => some { s with calls := s.calls ++ [⟨none, .crop .reading⟩] }
  | .next i =>
    match s.calls[i]? with
    | none => none
    | some c =>
      match c.state with
      | .returned => none
      | .crop .cropped =>
        match c.message with
        | some m =>
          some { files := appendRow m s.files, calls := s.setState i c .returned,
                 appended := s.appended ++ [row m] }
        | none => some { s with calls := s.setState i c .returned }
      | .crop k =>
        (cropToFileHistoryLimit limit c.isWrite s.files k).map fun r =>
          { s with files := r.1, calls := s.setState i c (.crop r.2) }

/-- A group's file with anything in it, and no call. -/
def start (file : Option (List Str)) : History := ⟨{ file }, [], []⟩

/-- The calls on the file of a group. -/
def fileSteps (limit : Nat) : Transition.System History FileStep where
  init s := ∃ file, s = start file
  step := step limit

/-- No row is appended while a call is replacing the file, and the temporary file
is not written while it is another call's. -/
def undisturbed (s : History) : FileStep → Bool
  | .next i =>
    match s.calls[i]? with
    | some ⟨some _, .crop .cropped⟩ => s.calls.all fun c => !c.replaces
    | some ⟨_, .crop (.above _)⟩ => s.calls.all fun c => !c.inTemp
    | _ => true
  | _ => true

/-! ## The invariant -/

/-- The file ends with the last rows; once the consumer has cropped it, with one
fewer, and then it is not above the limit. -/
def FileTracks (limit : Nat) (s : History) : Prop :=
  Tracks limit s.files.lines s.appended ∨
    (∃ (i : Nat) (c : Call), s.calls[i]? = some c ∧ c.isWrite = true ∧ c.state = .crop .cropped) ∧
      Tracks (limit - 1) s.files.lines s.appended ∧ s.files.lines.length ≤ limit

/-- What the calls have in hand, and what is in the files. -/
structure Kept (limit : Nat) (s : History) : Prop where
  read : ∀ {i : Nat} {c : Call} {lines : List Str}, s.calls[i]? = some c →
    c.state = .crop (.above lines) → limit < lines.length ∧ Tracks limit lines s.appended
  temp : ∀ {i : Nat} {c : Call}, s.calls[i]? = some c → c.inTemp = true →
    ∃ t, s.files.temp = some t ∧ Tracks (limit - c.discount) t s.appended ∧ t.length ≤ limit
  exclusive : ∀ {i j : Nat} {c d : Call}, s.calls[i]? = some c → s.calls[j]? = some d →
    c.inTemp = true → d.inTemp = true → i = j
  noTemp : (∀ (i : Nat) (c : Call), s.calls[i]? = some c → c.inTemp = false) → s.files.temp = none
  oneWriter : ∀ {i j : Nat} {c d : Call}, s.calls[i]? = some c → s.calls[j]? = some d →
    (c.isWrite && c.active) = true → (d.isWrite && d.active) = true → i = j
  file : (∀ (i : Nat) (c : Call), s.calls[i]? = some c → c.state ≠ .crop .removed) →
    FileTracks limit s
  gone : ∀ {i : Nat} {c : Call}, s.calls[i]? = some c → c.state = .crop .removed →
    s.files.file = none

theorem kept_start (limit : Nat) (file : Option (List Str)) : Kept limit (start file) where
  read h := by cases h
  temp h := by cases h
  exclusive h := by cases h
  noTemp _ := rfl
  oneWriter h := by cases h
  file _ := .inl (tracks_nil limit _)
  gone h := by cases h

theorem not_inTemp_of_ne_removed {c : Call} (h : c.inTemp = false) : c.state ≠ .crop .removed := by
  intro hr
  rw [Call.inTemp, hr] at h
  cases h

/-! ## The calls after a step -/

/-- The writers were writers before the step. -/
theorem oneWriter_setState {limit : Nat} {s : History} {i : Nat} {c : Call} {state : CallState}
    (h : Kept limit s) (hi : s.calls[i]? = some c)
    (hactive : ({ c with state } : Call).active = true → c.active = true) {j k : Nat} {d e : Call}
    (hj : (s.setState i c state)[j]? = some d) (hk : (s.setState i c state)[k]? = some e)
    (hd : (d.isWrite && d.active) = true) (he : (e.isWrite && e.active) = true) : j = k := by
  have hwas : ∀ {j : Nat} {d : Call}, (s.setState i c state)[j]? = some d →
      (d.isWrite && d.active) = true →
      ∃ d', s.calls[j]? = some d' ∧ (d'.isWrite && d'.active) = true := by
    intro j d hj hd
    rcases getElem?_set_cases hi hj with ⟨rfl, rfl⟩ | ⟨-, hj'⟩
    · refine ⟨c, hi, ?_⟩
      rw [Bool.and_eq_true] at hd ⊢
      exact ⟨hd.1, hactive hd.2⟩
    · exact ⟨d, hj', hd⟩
  obtain ⟨d', hj', hd'⟩ := hwas hj hd
  obtain ⟨e', hk', he'⟩ := hwas hk he
  exact h.oneWriter hj' hk' hd' he'

/-- What the other calls have read is still what the file tracked. -/
theorem read_setState {limit : Nat} {s : History} {i : Nat} {c : Call} {state : CallState}
    (h : Kept limit s) (hi : s.calls[i]? = some c)
    (hread : ∀ lines, state = .crop (.above lines) →
      limit < lines.length ∧ Tracks limit lines s.appended) {j : Nat} {d : Call} {lines : List Str}
    (hj : (s.setState i c state)[j]? = some d) (hd : d.state = .crop (.above lines)) :
    limit < lines.length ∧ Tracks limit lines s.appended := by
  rcases getElem?_set_cases hi hj with ⟨-, rfl⟩ | ⟨-, hj'⟩
  · exact hread _ hd
  · exact h.read hj' hd

/-! ## Steps that leave the files alone -/

/-- A call that neither has the temporary file nor gets it moves on. -/
theorem Kept.move {limit : Nat} {s : History} {i : Nat} {c : Call} {state : CallState}
    (h : Kept limit s) (hi : s.calls[i]? = some c) (hold : c.inTemp = false)
    (hnew : ({ c with state } : Call).inTemp = false) (hactive : c.active = true)
    (hread : ∀ lines, state = .crop (.above lines) →
      limit < lines.length ∧ Tracks limit lines s.appended)
    (hfile : c.isWrite = true → c.state ≠ .crop .cropped) :
    Kept limit { s with calls := s.setState i c state } where
  read hj hd := read_setState h hi hread hj hd
  temp hj hd := by
    rcases getElem?_set_cases hi hj with ⟨-, rfl⟩ | ⟨-, hj'⟩
    · exact absurd hd (by simp [hnew])
    · exact h.temp hj' hd
  exclusive hj hk hd he := by
    rcases getElem?_set_cases hi hj with ⟨-, rfl⟩ | ⟨-, hj'⟩
    · exact absurd hd (by simp [hnew])
    · rcases getElem?_set_cases hi hk with ⟨-, rfl⟩ | ⟨-, hk'⟩
      · exact absurd he (by simp [hnew])
      · exact h.exclusive hj' hk' hd he
  noTemp hall := h.noTemp fun j d hj => by
    by_cases hji : j = i
    · subst hji
      cases hi.symm.trans hj
      exact hold
    · exact hall j d (getElem?_set_of_ne hji hj)
  oneWriter := oneWriter_setState h hi fun _ => hactive
  file hall := by
    have hfile' := h.file fun j d hj => by
      by_cases hji : j = i
      · subst hji
        cases hi.symm.trans hj
        exact not_inTemp_of_ne_removed hold
      · exact hall j d (getElem?_set_of_ne hji hj)
    refine hfile'.imp_right ?_
    rintro ⟨⟨j, d, hj, hw, hd⟩, htrack⟩
    have hji : j ≠ i := by
      rintro rfl
      cases hi.symm.trans hj
      exact hfile hw hd
    exact ⟨⟨j, d, getElem?_set_of_ne hji hj, hw, hd⟩, htrack⟩
  gone hj hd := by
    rcases getElem?_set_cases hi hj with ⟨-, rfl⟩ | ⟨-, hj'⟩
    · exact absurd hd (not_inTemp_of_ne_removed hnew)
    · exact h.gone hj' hd

/-- A call begins; the consumer's only when it has none. -/
theorem Kept.begin {limit : Nat} {s : History} {message : Option Message} (h : Kept limit s)
    (hone : message.isSome = true → ∀ (i : Nat) (c : Call), s.calls[i]? = some c →
      (c.isWrite && c.active) = false) :
    Kept limit { s with calls := s.calls ++ [⟨message, .crop .reading⟩] } where
  read hj hd := by
    rcases getElem?_concat_cases hj with hj' | ⟨-, rfl⟩
    · exact h.read hj' hd
    · cases hd
  temp hj hd := by
    rcases getElem?_concat_cases hj with hj' | ⟨-, rfl⟩
    · exact h.temp hj' hd
    · cases hd
  exclusive hj hk hd he := by
    rcases getElem?_concat_cases hj with hj' | ⟨-, rfl⟩
    · rcases getElem?_concat_cases hk with hk' | ⟨-, rfl⟩
      · exact h.exclusive hj' hk' hd he
      · cases he
    · cases hd
  noTemp hall := h.noTemp fun j d hj => hall j d (getElem?_concat_of_some hj)
  oneWriter hj hk hd he := by
    rcases getElem?_concat_cases hj with hj' | ⟨rfl, rfl⟩ <;>
      rcases getElem?_concat_cases hk with hk' | ⟨rfl, rfl⟩
    · exact h.oneWriter hj' hk' hd he
    · rw [hone (Bool.and_eq_true_iff.1 he).1 _ _ hj'] at hd
      cases hd
    · rw [hone (Bool.and_eq_true_iff.1 hd).1 _ _ hk'] at he
      cases he
    · rfl
  file hall := by
    refine (h.file fun j d hj => hall j d (getElem?_concat_of_some hj)).imp_right ?_
    rintro ⟨⟨j, d, hj, hd⟩, htrack⟩
    exact ⟨⟨j, d, getElem?_concat_of_some hj, hd⟩, htrack⟩
  gone hj hd := by
    rcases getElem?_concat_cases hj with hj' | ⟨-, rfl⟩
    · exact h.gone hj' hd
    · cases hd

/-- What a call reads is what the file tracks, unless another call has the file
removed, and then it reads nothing. -/
theorem Kept.reading {limit : Nat} {s : History} {i : Nat} {c : Call} (h : Kept limit s)
    (hi : s.calls[i]? = some c) (hc : c.state = .crop .reading) :
    Kept limit { s with
      calls := s.setState i c
        (.crop (if s.files.lines.length > limit then .above s.files.lines else .cropped)) } := by
  have hold : c.inTemp = false := by
    rw [Call.inTemp, hc]
    rfl
  have hactive : c.active = true := Call.active_of_crop hc
  refine h.move hi hold ?_ hactive ?_ (by simp [hc])
  · split <;> rfl
  · intro lines hlines
    by_cases hlen : s.files.lines.length > limit
    · rw [if_pos hlen] at hlines
      cases hlines
      refine ⟨hlen, ?_⟩
      by_cases hgone : ∃ (j : Nat) (d : Call), s.calls[j]? = some d ∧ d.state = .crop .removed
      · obtain ⟨j, d, hj, hd⟩ := hgone
        rw [Files.lines, h.gone hj hd] at hlen
        exact absurd hlen (Nat.not_lt_zero _)
      · have hfile := h.file fun j d hj hd => hgone ⟨j, d, hj, hd⟩
        rcases hfile with htrack | ⟨-, -, hle⟩
        · exact htrack
        · exact absurd hlen (by omega)
    · rw [if_neg hlen] at hlines
      cases hlines

/-! ## Replacing the file -/

/-- The temporary file is written while no other call has it. -/
theorem Kept.write {limit : Nat} {s : History} {i : Nat} {c : Call} {lines : List Str}
    (h : Kept limit s) (hi : s.calls[i]? = some c) (hc : c.state = .crop (.above lines))
    (hfree : ∀ (j : Nat) (d : Call), s.calls[j]? = some d → d.inTemp = false) :
    Kept limit { s with
      files := { s.files with
        temp := some (s.files.temp.getD [] ++ keptLines limit c.discount lines) }
      calls := s.setState i c (.crop .written) } := by
  obtain ⟨hlen, htrack⟩ := h.read hi hc
  have htemp : s.files.temp.getD [] ++ keptLines limit c.discount lines =
      lines.rtake (limit - c.discount) := by
    rw [h.noTemp hfree, keptLines_eq_rtake hlen]
    rfl
  have hactive : c.active = true := Call.active_of_crop hc
  have hothers : ∀ {j : Nat} {d : Call}, (s.setState i c (.crop .written))[j]? = some d →
      d.inTemp = true → j = i ∧ d = { c with state := .crop .written } := by
    intro j d hj hd
    rcases getElem?_set_cases hi hj with heq | ⟨-, hj'⟩
    · exact heq
    · rw [hfree j d hj'] at hd
      cases hd
  constructor
  · exact read_setState h hi fun _ hstate => by cases hstate
  · intro j d hj hd
    obtain ⟨-, rfl⟩ := hothers hj hd
    refine ⟨_, rfl, ?_, ?_⟩
    · rw [htemp]
      exact (htrack.mono (Nat.sub_le ..)).rtake (Nat.le_refl _)
    · rw [htemp, length_rtake]
      omega
  · intro j k d e hj hk hd he
    rw [(hothers hj hd).1, (hothers hk he).1]
  · intro hall
    have hself := hall i _ (getElem?_set_self_of_some hi)
    cases hself
  · exact oneWriter_setState h hi fun _ => hactive
  · intro _
    have hfile := h.file fun j d hj => not_inTemp_of_ne_removed (hfree j d hj)
    refine hfile.imp_right ?_
    rintro ⟨⟨j, d, hj, hw, hd⟩, hrest⟩
    have hji : j ≠ i := by
      rintro rfl
      cases hi.symm.trans hj
      rw [hc] at hd
      cases hd
    exact ⟨⟨j, d, getElem?_set_of_ne hji hj, hw, hd⟩, hrest⟩
  · intro j d hj hd
    obtain ⟨-, rfl⟩ := hothers hj (by rw [Call.inTemp, hd]; rfl)
    cases hd

/-- The file is removed by the call that has the temporary file. -/
theorem Kept.remove {limit : Nat} {s : History} {i : Nat} {c : Call}
    (h : Kept limit s) (hi : s.calls[i]? = some c) (hc : c.state = .crop .written) :
    Kept limit { s with
      files := { s.files with file := none }, calls := s.setState i c (.crop .removed) } := by
  have hin : c.inTemp = true := by
    rw [Call.inTemp, hc]
    rfl
  have hactive : c.active = true := Call.active_of_crop hc
  have hothers : ∀ {j : Nat} {d : Call}, (s.setState i c (.crop .removed))[j]? = some d →
      d.inTemp = true → j = i ∧ d = { c with state := .crop .removed } := by
    intro j d hj hd
    rcases getElem?_set_cases hi hj with heq | ⟨hji, hj'⟩
    · exact heq
    · exact absurd (h.exclusive hj' hi hd hin) hji
  constructor
  · exact read_setState h hi fun _ hstate => by cases hstate
  · intro j d hj hd
    obtain ⟨-, rfl⟩ := hothers hj hd
    obtain ⟨t, ht, hrest⟩ := h.temp hi hin
    exact ⟨t, ht, hrest⟩
  · intro j k d e hj hk hd he
    rw [(hothers hj hd).1, (hothers hk he).1]
  · intro hall
    have hself := hall i _ (getElem?_set_self_of_some hi)
    cases hself
  · exact oneWriter_setState h hi fun _ => hactive
  · intro hall
    exact absurd rfl (hall i _ (getElem?_set_self_of_some hi))
  · exact fun _ _ => rfl

/-- The temporary file takes the place of the file. -/
theorem Kept.rename {limit : Nat} {s : History} {i : Nat} {c : Call} {t : List Str}
    (h : Kept limit s) (hi : s.calls[i]? = some c) (hc : c.state = .crop .removed)
    (ht : s.files.temp = some t) :
    Kept limit { s with
      files := { file := some t, temp := none }, calls := s.setState i c (.crop .cropped) } := by
  have hin : c.inTemp = true := by
    rw [Call.inTemp, hc]
    rfl
  have hactive : c.active = true := Call.active_of_crop hc
  have hnone : ∀ {j : Nat} {d : Call}, (s.setState i c (.crop .cropped))[j]? = some d →
      d.inTemp = false := by
    intro j d hj
    rcases getElem?_set_cases hi hj with ⟨-, rfl⟩ | ⟨hji, hj'⟩
    · rfl
    · by_contra hd
      exact hji (h.exclusive hj' hi (by simpa using hd) hin)
  obtain ⟨t', ht', htrack, hlen⟩ := h.temp hi hin
  rw [ht, Option.some.injEq] at ht'
  subst ht'
  constructor
  · exact read_setState h hi fun _ hstate => by cases hstate
  · intro j d hj hd
    rw [hnone hj] at hd
    cases hd
  · intro j k d e hj _ hd
    rw [hnone hj] at hd
    cases hd
  · exact fun _ => rfl
  · exact oneWriter_setState h hi fun _ => hactive
  · intro _
    unfold Call.discount at htrack
    by_cases hw : c.isWrite = true
    · rw [if_pos hw] at htrack
      exact .inr ⟨⟨i, _, getElem?_set_self_of_some hi, hw, rfl⟩, htrack, hlen⟩
    · rw [if_neg hw] at htrack
      exact .inl htrack
  · intro j d hj hd
    exact absurd hd (not_inTemp_of_ne_removed (hnone hj))

/-- A row is appended while no call is replacing the file. -/
theorem Kept.append {limit : Nat} {s : History} {i : Nat} {c : Call} {m : Message}
    (hlimit : 0 < limit) (h : Kept limit s) (hi : s.calls[i]? = some c)
    (hfree : ∀ (j : Nat) (d : Call), s.calls[j]? = some d → d.replaces = false) :
    Kept limit { files := appendRow m s.files, calls := s.setState i c .returned,
                 appended := s.appended ++ [row m] } := by
  have hnone : ∀ {j : Nat} {d : Call}, (s.setState i c .returned)[j]? = some d →
      d.replaces = false := by
    intro j d hj
    rcases getElem?_set_cases hi hj with ⟨-, rfl⟩ | ⟨-, hj'⟩
    · rfl
    · exact hfree j d hj'
  have hnoTemp : ∀ {d : Call}, d.replaces = false → d.inTemp = false := by
    intro d hd
    unfold Call.replaces at hd
    split at hd
    · cases hd
    · exact hd
  have htrack : Tracks (limit - 1) s.files.lines s.appended := by
    rcases h.file fun j d hj => not_inTemp_of_ne_removed (hnoTemp (hfree j d hj)) with
      hall | ⟨-, hcropped, -⟩
    · exact hall.mono (Nat.sub_le ..)
    · exact hcropped
  constructor
  · intro j d ls hj hd
    have hrep := hnone hj
    unfold Call.replaces at hrep
    rw [hd] at hrep
    cases hrep
  · intro j d hj hd
    rw [hnoTemp (hnone hj)] at hd
    cases hd
  · intro j k d e hj _ hd
    rw [hnoTemp (hnone hj)] at hd
    cases hd
  · exact fun _ => h.noTemp fun j d hj => hnoTemp (hfree j d hj)
  · refine oneWriter_setState h hi ?_
    intro hreturned
    cases hreturned
  · intro _
    refine .inl ?_
    have hnext := htrack.concat (row m)
    rwa [Nat.sub_add_cancel hlimit] at hnext
  · intro j d hj hd
    exact absurd hd (not_inTemp_of_ne_removed (hnoTemp (hnone hj)))

/-! ## Runs -/

/-- **Every undisturbed step keeps the last rows.** -/
theorem Kept.step {limit : Nat} (hlimit : 0 < limit) {s t : History} {l : FileStep}
    (h : Kept limit s) (hok : s.undisturbed l = true) (hst : s.step limit l = some t) :
    Kept limit t := by
  cases l with
  | append m =>
    simp only [History.step] at hst
    split at hst
    · cases hst
    · rename_i hidle
      split at hst
      · cases hst
        exact h
      · cases hst
        refine h.begin ?_
        intro _ i c hi
        have hall := hidle
        simp only [Bool.not_eq_true, List.any_eq_false] at hall
        simpa using hall c (List.mem_of_getElem? hi)
  | read =>
    cases hst
    exact h.begin fun hsome => absurd hsome Bool.false_ne_true
  | next i =>
    simp only [History.step] at hst
    cases hi : s.calls[i]? with
    | none =>
      rw [hi] at hst
      cases hst
    | some c =>
      obtain ⟨message, state⟩ := c
      rw [hi] at hst
      simp only [undisturbed, hi] at hok
      cases state with
      | returned => cases hst
      | crop k =>
        cases k with
        | reading =>
          cases hst
          exact h.reading hi rfl
        | above lines =>
          cases hst
          have hfree : ∀ (j : Nat) (d : Call), s.calls[j]? = some d → d.inTemp = false := by
            intro j d hj
            have hall : s.calls.all (fun c => !c.inTemp) = true := by
              cases message <;> exact hok
            simpa using List.all_eq_true.1 hall d (List.mem_of_getElem? hj)
          exact h.write hi rfl hfree
        | written =>
          cases hst
          exact h.remove hi rfl
        | removed =>
          obtain ⟨t', ht', -⟩ := h.temp hi rfl
          simp only [cropToFileHistoryLimit, ht', Option.map_some, Option.some.injEq] at hst
          subst hst
          exact h.rename hi rfl ht'
        | cropped =>
          cases message with
          | none =>
            cases hst
            exact h.move hi rfl rfl rfl (by simp) fun hw => absurd hw Bool.false_ne_true
          | some m =>
            cases hst
            refine h.append hlimit hi ?_
            intro j d hj
            simpa using List.all_eq_true.1 hok d (List.mem_of_getElem? hj)

/-- **The stored history survives.**  For every file and every limit: in every run
in which no row is appended while a call replaces the file, and no call writes
the temporary file while it is another call's, the file ends with the last
`min k N` of the `k` rows appended so far whenever no call is in progress. -/
theorem history_survives {maxNumberOfMessagesInHistory : Int} {s : History}
    (hrun : (fileSteps (getMaxNumberOfMessagesInHistory maxNumberOfMessagesInHistory)).ReachesWhen
      (fun s l => s.undisturbed l = true) s)
    (hidle : ∀ c ∈ s.calls, c.state = .returned) :
    let k := s.appended.length
    let n := getMaxNumberOfMessagesInHistory maxNumberOfMessagesInHistory
    s.files.lines.rtake (min k n) = s.appended.rtake (min k n) := by
  intro k n
  have hkept : Kept n s := by
    refine hrun.invariant ?_ fun _ _ _ h hok hst =>
      h.step (getMaxNumberOfMessagesInHistory_pos _) hok hst
    rintro t ⟨file, rfl⟩
    exact kept_start n file
  have hover : ∀ (i : Nat) (c : Call), s.calls[i]? = some c → c.state = .returned :=
    fun i c hi => hidle c (List.mem_of_getElem? hi)
  have hfile := hkept.file fun i c hi hc => by
    rw [hover i c hi] at hc
    cases hc
  rw [Nat.min_comm]
  rcases hfile with htrack | ⟨⟨i, c, hi, -, hc⟩, -⟩
  · exact htrack
  · rw [hover i c hi] at hc
    cases hc

/-- The consumer appends two messages to a history of one; the file is above its
limit. -/
def twoAppended : List FileStep :=
  let m (text : String) : Message :=
    { text := text.toList, user := "u".toList, group := "g".toList, time := 0 }
  [.append (m "a"), .next 0, .next 0, .append (m "b"), .next 1, .next 1]

/-- A joiner crops the file on its own. -/
theorem history_survives_one_joiner :
    ∃ s : History, s.files.lines = s.appended.rtake 1 ∧ s.appended.length = 2 ∧
      s.files.lines.rtake (min 2 1) = s.appended.rtake (min 2 1) := by
  obtain ⟨s, hs⟩ : ∃ s, (fileSteps (getMaxNumberOfMessagesInHistory 1)).execWhen undisturbed
      (start none) (twoAppended ++ [.read, .next 2, .next 2, .next 2, .next 2, .next 2]) = some s :=
    Option.isSome_iff_exists.1 (by decide)
  have hrun : (fileSteps (getMaxNumberOfMessagesInHistory 1)).ReachesWhen
      (fun s l => s.undisturbed l = true) s :=
    Transition.System.reachesWhen_of_execWhen (fun _ _ h => h) (.start ⟨none, rfl⟩) hs
  have hkept := history_survives hrun
  cases hs
  exact ⟨_, by decide, rfl, hkept (by decide)⟩

/-- **Two joiners on a file above its limit.**  Both write the temporary file
before either renames it; the first rename moves it away, the second joiner
removes the file that has taken its place, and has nothing to rename. -/
theorem lostFile_counterexample :
    ¬ ∀ (n : Int) (s : History),
        (fileSteps (getMaxNumberOfMessagesInHistory n)).Reachable s →
        (∀ c ∈ s.calls, c.state = .returned) →
        let k := s.appended.length
        let n := getMaxNumberOfMessagesInHistory n
        s.files.lines.rtake (min k n) = s.appended.rtake (min k n) := by
  intro h
  obtain ⟨s, hs⟩ : ∃ s, (fileSteps (getMaxNumberOfMessagesInHistory 1)).exec (start none)
      (twoAppended ++ [.read, .read, .next 2, .next 3, .next 2, .next 3, .next 2, .next 2, .next 2,
        .next 3, .next 3, .next 3]) = some s :=
    Option.isSome_iff_exists.1 (by decide)
  have hreach : (fileSteps (getMaxNumberOfMessagesInHistory 1)).Reachable s :=
    Transition.System.reachable_of_exec ⟨none, rfl⟩ hs
  have hend := h 1 s hreach
  cases hs
  exact absurd (hend (by decide)) (by decide)

end History

end InstantMessenger
