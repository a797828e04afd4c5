import InstantMessenger.Foundations.Transition
import InstantMessenger.Util.GroupFile

/-!
# The history window

One group, and calls that append to its history and read it, one after another.  A
read crops the file to the limit, an append to one below the limit and then adds a
row, and neither does so before the file is above the limit; so the file holds
sometimes one row more than is shown.

* `HistoryRun`, `historyCalls` — the calls as a transition system, from any file of
  records.
* `HistoryRun.Window` — **the invariant**: the file holds a part of the end of
  everything that was ever stored, and enough of it.
* `HistoryRun.history_window` — while no call finds more than `INT_MAX` lines, every
  read returns the last messages and the file stays small.
* `HistoryRun.history_window_counterexample` — a file with `INT_MAX + 2` records is
  emptied by the first read.
-/

namespace InstantMessenger

open FileSystemManager Lines GroupFile

/-- The file of a group in the middle of a run.  `stored` is the records it began with
and every message appended since, and `appended` is the number of these. -/
structure HistoryRun where
  file : GroupFile
  stored : List Message
  appended : Nat
  deriving DecidableEq, Repr

/-- A call on the history of the group. -/
inductive HistoryCall where
  | append (message : Message)
  | read
  deriving DecidableEq, Repr

namespace HistoryRun

/-- What a call does.  A message that is stored can be carried by the file. -/
def step (maxN : Int) (groupName : Str) (s : HistoryRun) : HistoryCall → Option HistoryRun
  | .append m =>
    if m.isNotification then some { s with file := s.file.appendGroupMessageToHistory maxN m }
    else if Recordable groupName m then
      some {
        file := s.file.appendGroupMessageToHistory maxN m
        stored := s.stored ++ [m]
        appended := s.appended + 1 }
    else none
  | .read => some { s with file := (s.file.readGroupHistoryMessages maxN groupName).1 }

/-- A file of any number of records, which can be opened. -/
structure Start (groupName : Str) (s : HistoryRun) : Prop where
  holds : s.file.Holds groupName s.stored
  opens : s.file.opens = true
  appended : s.appended = 0

/-- The calls on the history of a group, one after another. -/
def historyCalls (maxN : Int) (groupName : Str) : Transition.System HistoryRun HistoryCall where
  init := Start groupName
  step := step maxN groupName

/-- The lines of the file can be counted with an `int`. -/
def InRange (s : HistoryRun) : Prop := s.file.lines.length ≤ Text.INT_MAX

instance (s : HistoryRun) : Decidable s.InRange := inferInstanceAs (Decidable (_ ≤ _))

/-! ## The invariant -/

/-- The file holds the end of what was stored, at least as much as is shown, and after
the first append at most one record more than that. -/
structure Window (limit : Nat) (groupName : Str) (s : HistoryRun) (ms : List Message) : Prop where
  holds : s.file.Holds groupName ms
  opens : s.file.opens = true
  suffix : ms <:+ s.stored
  enough : min limit s.stored.length ≤ ms.length
  small : 0 < s.appended → ms.length ≤ limit + 1

section Steps

variable {maxN : Int} {groupName : Str} {s t : HistoryRun} {ms : List Message}

theorem Window.append (h : Window (getMaxNumberOfMessagesInHistory maxN) groupName s ms)
    (hrange : s.InRange) {m : Message} (hm : Recordable groupName m) :
    Window (getMaxNumberOfMessagesInHistory maxN) groupName
      { file := s.file.appendGroupMessageToHistory maxN m
        stored := s.stored ++ [m]
        appended := s.appended + 1 }
      (FileSystemManager.appendGroupMessageToHistory (getMaxNumberOfMessagesInHistory maxN)
        m.isNotification m ms) := by
  have hpos := getMaxNumberOfMessagesInHistory_pos maxN
  rw [InRange, h.holds.length_lines] at hrange
  have hholds := h.holds.append hrange maxN h.opens hm
  have hcropped : (croppedRows (getMaxNumberOfMessagesInHistory maxN) 1 ms) <:+ ms ∧
      (croppedRows (getMaxNumberOfMessagesInHistory maxN) 1 ms).length ≤
        getMaxNumberOfMessagesInHistory maxN ∧
      min (getMaxNumberOfMessagesInHistory maxN - 1) ms.length ≤
        (croppedRows (getMaxNumberOfMessagesInHistory maxN) 1 ms).length := by
    rw [croppedRows]
    split
    · rename_i habove
      rw [keptLines_eq_rtake habove]
      refine ⟨Recent.rtake_suffix _ _, ?_⟩
      rw [Recent.length_rtake]
      omega
    · exact ⟨List.suffix_refl _, by omega, by omega⟩
  rw [FileSystemManager.appendGroupMessageToHistory, hm.stored] at hholds ⊢
  simp only [Bool.false_eq_true, if_false] at hholds ⊢
  refine ⟨hholds, ?_, ?_, ?_, ?_⟩
  · show (s.file.appendGroupMessageToHistory maxN m).opens = true
    rw [append_opens, h.opens]
  · obtain ⟨old, hold⟩ := hcropped.1.trans h.suffix
    exact ⟨old, by rw [← List.append_assoc, hold]⟩
  · have henough := h.enough
    rw [List.length_append, List.length_append, List.length_singleton]
    omega
  · intro _
    rw [List.length_append, List.length_singleton]
    omega

theorem Window.read (h : Window (getMaxNumberOfMessagesInHistory maxN) groupName s ms)
    (hrange : s.InRange) :
    Window (getMaxNumberOfMessagesInHistory maxN) groupName
        { s with file := (s.file.readGroupHistoryMessages maxN groupName).1 }
        (ms.rtake (getMaxNumberOfMessagesInHistory maxN)) ∧
      (s.file.readGroupHistoryMessages maxN groupName).2 =
        some (s.stored.rtake (getMaxNumberOfMessagesInHistory maxN)) := by
  rw [InRange, h.holds.length_lines] at hrange
  obtain ⟨hholds, hresult⟩ := h.holds.read hrange maxN
  have henough := h.enough
  refine ⟨⟨hholds, ?_, (Recent.rtake_suffix _ _).trans h.suffix, ?_, fun _ => ?_⟩, ?_⟩
  · exact (crop_opens maxN false s.file).trans h.opens
  · rw [Recent.length_rtake]
    dsimp only
    omega
  · rw [Recent.length_rtake]
    omega
  · rw [hresult, Recent.rtake_of_suffix h.suffix henough]

/-- **One call keeps the window.** -/
theorem Window.move {l : HistoryCall}
    (h : Window (getMaxNumberOfMessagesInHistory maxN) groupName s ms) (hrange : s.InRange)
    (hst : step maxN groupName s l = some t) :
    ∃ ms', Window (getMaxNumberOfMessagesInHistory maxN) groupName t ms' := by
  cases l with
  | append m =>
    simp only [step] at hst
    split at hst
    · rename_i hnotice
      cases hst
      refine ⟨ms, ?_⟩
      rw [GroupFile.appendGroupMessageToHistory, if_pos hnotice]
      exact h
    · split at hst
      · rename_i hm
        cases hst
        exact ⟨_, h.append hrange hm⟩
      · cases hst
  | read =>
    cases hst
    exact ⟨_, (h.read hrange).1⟩

end Steps

/-- What holds in every run whose calls find no more lines than an `int` counts. -/
theorem window_of_reachesWhen {maxN : Int} {groupName : Str} {s : HistoryRun}
    (h : (historyCalls maxN groupName).ReachesWhen (fun s _ => s.InRange) s) :
    ∃ ms, Window (getMaxNumberOfMessagesInHistory maxN) groupName s ms := by
  refine h.invariant
    (I := fun s => ∃ ms, Window (getMaxNumberOfMessagesInHistory maxN) groupName s ms) ?_ ?_
  · intro t ht
    refine ⟨t.stored, ht.holds, ht.opens, List.suffix_refl _, by omega, ?_⟩
    rw [ht.appended]
    exact fun hpos => absurd hpos (Nat.lt_irrefl 0)
  · rintro t l u ⟨ms, hms⟩ hrange hst
    exact hms.move hrange hst

/-! ## The results -/

/-- **The history window.**  In every run whose calls find no more than `INT_MAX` lines,
a read that does so too returns the last messages of everything stored, as many as the
limit says; and after the first append the file has at most one line more than that. -/
theorem history_window {maxN : Int} {groupName : Str} {s : HistoryRun}
    (h : (historyCalls maxN groupName).ReachesWhen (fun s _ => s.InRange) s) :
    (s.InRange → (s.file.readGroupHistoryMessages maxN groupName).2 =
        some (s.stored.rtake (getMaxNumberOfMessagesInHistory maxN))) ∧
      (0 < s.appended →
        s.file.lines.length ≤ getMaxNumberOfMessagesInHistory maxN + 1) := by
  obtain ⟨ms, hms⟩ := window_of_reachesWhen h
  refine ⟨fun hrange => (hms.read hrange).2, ?_⟩
  intro hpos
  rw [hms.holds.length_lines]
  exact hms.small hpos

/-- A file of three records. -/
def threeRecords : List Message :=
  ["a", "b", "c"].map fun text =>
    { text := text.toList, user := "u".toList, group := "g".toList, time := 7 }

def threeLines : HistoryRun where
  file := ⟨true, some (joinLines '\n' (threeRecords.map row)), none⟩
  stored := threeRecords
  appended := 0

theorem start_threeLines : Start "g".toList threeLines where
  holds := ⟨rfl, by decide, rfl, fun _ => rfl⟩
  opens := rfl
  appended := rfl

/-- The limit is two; a read, an append and a notice come before the read that is
looked at. -/
def mixedCalls : List HistoryCall :=
  [.read,
    .append { text := "d".toList, user := "v".toList, group := "g".toList, time := -8 },
    .append { text := JOINED_MESSAGE, user := "w".toList, group := "g".toList, time := 9,
              isNotification := true }]

theorem history_window_mixedCalls :
    ∃ s, (historyCalls 2 "g".toList).exec threeLines mixedCalls = some s ∧
      (s.file.readGroupHistoryMessages 2 "g".toList).2 = some (s.stored.rtake 2) ∧
      s.file.lines.length ≤ 3 := by
  obtain ⟨s, hs⟩ : ∃ s, (historyCalls 2 "g".toList).execWhen (fun s _ => decide s.InRange)
      threeLines mixedCalls = some s := Option.isSome_iff_exists.1 (by decide)
  have hreach : (historyCalls 2 "g".toList).ReachesWhen (fun s _ => s.InRange) s :=
    Transition.System.reachesWhen_of_execWhen (fun _ _ h => of_decide_eq_true h)
      (.start start_threeLines) hs
  obtain ⟨hread, hsmall⟩ := history_window hreach
  refine ⟨s, ?_, hread ?_, hsmall ?_⟩
  · cases hs
    decide
  · cases hs
    decide
  · cases hs
    decide

/-! ## More lines than an `int` counts -/

/-- A start index that is no `int` wraps to a negative one: the loop writes nothing,
and the file is emptied. -/
theorem read_of_wrapped {maxN : Int} {groupName : Str} {f : GroupFile} {ms : List Message}
    (h : f.Holds groupName ms) (habove : getMaxNumberOfMessagesInHistory maxN < ms.length)
    (hmax : (ms.length : Int) ≤ 2 ^ 63)
    (hneg : toInt (ms.length - getMaxNumberOfMessagesInHistory maxN) < 0) :
    (f.readGroupHistoryMessages maxN groupName).2 = some [] := by
  have hlen := h.length_lines
  have hcrop : (f.cropToFileHistoryLimit maxN false).contents = [] := by
    rw [GroupFile.cropToFileHistoryLimit, if_pos (by omega)]
    show f.temp.getD [] ++ joinLines '\n' (cropLoop f.lines (f.lines.length + 1) _) = []
    have hstart : toInt (f.lines.length - (getMaxNumberOfMessagesInHistory maxN -
        if false = true then 1 else 0)) < 0 := by
      rw [hlen]
      simpa using hneg
    rw [h.temp, cropLoop_of_neg (by omega) hstart (by unfold toInt; omega)]
    rfl
  show (getlines '\n' (f.cropToFileHistoryLimit maxN false).contents).mapM
    (parseLine groupName) = some []
  rw [hcrop]
  rfl

/-- Two records more than an `int` counts. -/
def manyRecords : List Message :=
  List.replicate (2 ^ 31 + 1)
    { text := "a".toList, user := "u".toList, group := "g".toList, time := 7 }

def manyLines : HistoryRun where
  file := ⟨true, some (joinLines '\n' (manyRecords.map row)), none⟩
  stored := manyRecords
  appended := 0

theorem start_manyLines : Start "g".toList manyLines where
  holds := by
    refine ⟨rfl, ?_, rfl, fun _ => rfl⟩
    intro m hm
    rw [List.eq_of_mem_replicate hm]
    decide
  opens := rfl
  appended := rfl

/-- The first read of that file returns nothing, where the limit is one. -/
theorem history_window_counterexample :
    (historyCalls 1 "g".toList).Reachable manyLines ∧
      (manyLines.file.readGroupHistoryMessages 1 "g".toList).2 ≠
        some (manyLines.stored.rtake (getMaxNumberOfMessagesInHistory 1)) := by
  refine ⟨.start start_manyLines, ?_⟩
  have hlen : manyLines.stored.length = 2 ^ 31 + 1 := List.length_replicate
  have hlimit : getMaxNumberOfMessagesInHistory 1 = 1 := rfl
  rw [read_of_wrapped start_manyLines.holds (by rw [hlen, hlimit]; decide)
    (by rw [hlen]; decide) (by rw [hlen, hlimit]; decide)]
  intro hsome
  have hwindow := congrArg List.length (Option.some.inj hsome)
  rw [Recent.length_rtake, hlen, hlimit] at hwindow
  simp at hwindow

end HistoryRun

end InstantMessenger
