import InstantMessenger.Foundations.Lines
import InstantMessenger.Util.FileSystemManager

/-!
# The bytes of a history file

`file_system_manager.cpp` once more, this time on the bytes of a group's file: the
rows are written with `operator<<` and read with `getline`, nothing is escaped, and
the loop that crops the file counts in an `int`.

* `GroupFile` — the file of a group: whether it can be opened, and what is in it.
* `GroupFile.cropLoop`, `GroupFile.cropToFileHistoryLimit` — the crop, with the
  conversions between `size_t` and `int` that it makes.
* `GroupFile.appendGroupMessageToHistory`, `GroupFile.readGroupHistoryMessages` — a
  whole call; the reader has no result where it indexes past the end of `parsedRow`.
* `GroupFile.lines_crop` — **up to `INT_MAX` lines a crop leaves the last lines**, as
  `FileSystemManager.croppedRows` says.
* `GroupFile.Holds` — the file holds these messages, a row each.
-/

namespace InstantMessenger

open FileSystemManager Lines

/-- The file of a group, and its temporary file. -/
structure GroupFile where
  /-- The directory of the path exists, so that the file can be made. -/
  opens : Bool
  file : Option Str
  temp : Option Str
  deriving DecidableEq, Repr

namespace GroupFile

/-- What is read from the file. -/
def contents (f : GroupFile) : Str := f.file.getD []

/-- The lines that are read from the file. -/
def lines (f : GroupFile) : List Str := getlines '\n' f.contents

/-! ## The crop -/

/-- The conversion of a `size_t`, or of a sum of `int`s, to `int`. -/
def toInt (n : Int) : Int := (n + 2 ^ 31) % 2 ^ 32 - 2 ^ 31

/-- The conversion of an `int` to `size_t`. -/
def toSize (i : Int) : Int := i % 2 ^ 64

/-- The loop of `cropToFileHistoryLimit`, at most so many rounds of it: the lines that
it writes from index `i` on.  Line 0 is left out. -/
def cropLoop {α : Type*} (lines : List α) : Nat → Int → List α
  | 0, _ => []
  | rounds + 1, i =>
    if toSize i < lines.length then
      (if i > 0 then (lines[i.toNat]?).toList else []) ++ cropLoop lines rounds (toInt (i + 1))
    else []

/-- `FileSystemManager::cropToFileHistoryLimit`. -/
def cropToFileHistoryLimit (maxNumberOfMessagesInHistory : Int) (isWrite : Bool)
    (f : GroupFile) : GroupFile :=
  let limit := getMaxNumberOfMessagesInHistory maxNumberOfMessagesInHistory
  let isWriteDiscount := if isWrite then 1 else 0
  if f.lines.length > limit then
    let newFile := f.temp.getD [] ++ joinLines '\n'
      (cropLoop f.lines (f.lines.length + 1)
        (toInt (f.lines.length - (limit - isWriteDiscount))))
    { f with file := some newFile, temp := none }
  else f

/-! ## The calls -/

/-- `FileSystemManager::appendGroupMessageToHistory`. -/
def appendGroupMessageToHistory (maxNumberOfMessagesInHistory : Int) (message : Message)
    (f : GroupFile) : GroupFile :=
  if message.isNotification then f
  else
    let g := f.cropToFileHistoryLimit maxNumberOfMessagesInHistory true
    if g.opens then { g with file := some (g.contents ++ (row message ++ ['\n'])) } else g

/-- One line of the file: `none` when `parsedRow` has less than three cells. -/
def parseLine (groupName line : Str) : Option Message :=
  match getlines FILE_SEPARATOR line with
  | user :: text :: time :: _ =>
    some { text, user, group := groupName, time := Text.extract_long time }
  | _ => none

/-- `FileSystemManager::readGroupHistoryMessages`: the file after the crop, and what
is read from it. -/
def readGroupHistoryMessages (maxNumberOfMessagesInHistory : Int) (groupName : Str)
    (f : GroupFile) : GroupFile × Option (List Message) :=
  let g := f.cropToFileHistoryLimit maxNumberOfMessagesInHistory false
  (g, g.lines.mapM (parseLine groupName))

/-! ## The crop, within the range of an `int` -/

theorem toInt_of_range {n : Int} (hmin : 0 ≤ n) (hmax : n ≤ Text.INT_MAX) : toInt n = n := by
  unfold toInt
  unfold Text.INT_MAX at hmax
  omega

/-- A negative index is a huge `size_t`. -/
theorem toSize_of_neg {i : Int} (hi : i < 0) (hmin : -2 ^ 31 ≤ i) : 2 ^ 63 ≤ toSize i := by
  unfold toSize
  omega

theorem toSize_of_nonneg {i : Int} (hi : 0 ≤ i) (hmax : i ≤ Text.INT_MAX) : toSize i = i := by
  unfold toSize
  unfold Text.INT_MAX at hmax
  omega

/-- The loop from a positive index, when every index is an `int`. -/
theorem cropLoop_eq_drop {α : Type*} {lines : List α} (hlen : lines.length ≤ Text.INT_MAX)
    {rounds : Nat} {i : Nat} (hi : 0 < i) (hle : i ≤ lines.length)
    (hrounds : lines.length - i < rounds) : cropLoop lines rounds i = lines.drop i := by
  induction rounds generalizing i with
  | zero => omega
  | succ rounds ih =>
    have hsize : toSize i = i := toSize_of_nonneg (by omega) (by omega)
    rw [cropLoop, hsize]
    rcases Nat.lt_or_ge i lines.length with hlt | hge
    · have hnext : toInt (i + 1) = ((i + 1 : Nat) : Int) := by
        unfold toInt
        unfold Text.INT_MAX at hlen
        omega
      rw [if_pos (by omega), if_pos (by omega), hnext, ih (by omega) (by omega) (by omega),
        Int.toNat_natCast, List.getElem?_eq_getElem hlt, Option.toList_some,
        List.singleton_append, ← List.drop_eq_getElem_cons hlt]
    · rw [if_neg (by omega), List.drop_of_length_le hge]

/-- The loop from a negative index does nothing. -/
theorem cropLoop_of_neg {α : Type*} {lines : List α} (hlen : (lines.length : Int) ≤ 2 ^ 63)
    {i : Int} (hi : i < 0) (hmin : -2 ^ 31 ≤ i) (rounds : Nat) : cropLoop lines rounds i = [] := by
  cases rounds with
  | zero => rfl
  | succ rounds =>
    have hsize := toSize_of_neg hi hmin
    rw [cropLoop, if_neg (by omega)]

theorem lines_of_file {f : GroupFile} {ls : List Str} (h : f.contents = joinLines '\n' ls)
    (hls : ∀ l ∈ ls, '\n' ∉ l) : f.lines = ls := by
  rw [lines, h, getlines_joinLines hls]

theorem newline_not_mem_lines {f : GroupFile} {l : Str} (h : l ∈ f.lines) : '\n' ∉ l :=
  not_mem_of_mem_getlines h

/-- **A crop leaves the last lines**, and ends each with a newline. -/
theorem contents_crop (maxN : Int) (isWrite : Bool) {f : GroupFile} (htemp : f.temp = none)
    (hfile : f.contents = joinLines '\n' f.lines) (hlen : f.lines.length ≤ Text.INT_MAX) :
    (f.cropToFileHistoryLimit maxN isWrite).contents =
      joinLines '\n' (croppedRows (getMaxNumberOfMessagesInHistory maxN)
        (if isWrite then 1 else 0) f.lines) := by
  have hpos := getMaxNumberOfMessagesInHistory_pos maxN
  rw [cropToFileHistoryLimit, croppedRows]
  by_cases habove : f.lines.length > getMaxNumberOfMessagesInHistory maxN
  · simp only [if_pos habove]
    set limit := getMaxNumberOfMessagesInHistory maxN with hlimit
    have hstart : toInt (f.lines.length - (limit - (if isWrite then 1 else 0 : Int))) =
        ((max (f.lines.length - (limit - if isWrite then 1 else 0)) 1 : Nat) : Int) := by
      rw [toInt_of_range]
      all_goals cases isWrite <;> simp only [if_true, if_false, Bool.false_eq_true] <;> omega
    have hloop : cropLoop f.lines (f.lines.length + 1)
        (toInt (f.lines.length - (limit - (if isWrite then 1 else 0 : Int)))) =
          keptLines limit (if isWrite then 1 else 0) f.lines := by
      rw [hstart, keptLines]
      exact cropLoop_eq_drop hlen (by omega) (by omega) (by omega)
    show f.temp.getD [] ++ joinLines '\n' (cropLoop f.lines (f.lines.length + 1) _) = _
    rw [htemp, hloop]
    rfl
  · rw [if_neg habove, if_neg habove]
    exact hfile

/-! ## A file of records -/

/-- A field that the file can carry. -/
def Clean (s : Str) : Prop := '\n' ∉ s ∧ FILE_SEPARATOR ∉ s

instance (s : Str) : Decidable (Clean s) := inferInstanceAs (Decidable (_ ∧ _))

/-- A message that the file of the group can carry. -/
structure Recordable (groupName : Str) (m : Message) : Prop where
  group : m.group = groupName
  stored : m.isNotification = false
  user : Clean m.user
  text : Clean m.text
  time : Text.LONG_MIN ≤ m.time ∧ m.time ≤ Text.LONG_MAX

instance (groupName : Str) (m : Message) : Decidable (Recordable groupName m) :=
  decidable_of_iff (m.group = groupName ∧ m.isNotification = false ∧ Clean m.user ∧ Clean m.text ∧
      Text.LONG_MIN ≤ m.time ∧ m.time ≤ Text.LONG_MAX)
    ⟨fun h => ⟨h.1, h.2.1, h.2.2.1, h.2.2.2.1, h.2.2.2.2⟩,
      fun h => ⟨h.1, h.2, h.3, h.4, h.5⟩⟩

theorem not_mem_row {c : Char} {m : Message} (huser : c ∉ m.user) (htext : c ∉ m.text)
    (hsep : c ≠ FILE_SEPARATOR) (hdigit : c.isDigit = false) (hminus : c ≠ '-') : c ∉ row m := by
  rw [row, List.mem_append, List.mem_cons, List.mem_append, List.mem_cons]
  rintro (h | h | h | h | h)
  · exact huser h
  · exact hsep h
  · exact htext h
  · exact hsep h
  · exact Text.not_mem_to_string hdigit hminus _ h

theorem newline_not_mem_row {m : Message} (huser : '\n' ∉ m.user) (htext : '\n' ∉ m.text) :
    '\n' ∉ row m :=
  not_mem_row huser htext (by decide) (by decide) (by decide)

theorem separator_not_mem_time (n : Int) : FILE_SEPARATOR ∉ Text.to_string n :=
  Text.not_mem_to_string (by decide) (by decide) n

/-- The cells of a row, when its fields are clean. -/
theorem getlines_row {m : Message} (huser : FILE_SEPARATOR ∉ m.user)
    (htext : FILE_SEPARATOR ∉ m.text) :
    getlines FILE_SEPARATOR (row m) = [m.user, m.text, Text.to_string m.time] := by
  rw [row, getlines_piece huser, getlines_piece htext,
    getlines_of_not_mem (Text.to_string_ne_nil _) (separator_not_mem_time _)]

/-- **A row is read back.** -/
theorem parseLine_row {groupName : Str} {m : Message} (h : Recordable groupName m) :
    parseLine groupName (row m) = some m := by
  rw [parseLine, getlines_row h.user.2 h.text.2]
  simp only [Text.extract_long_to_string h.time.1 h.time.2, ← h.group, ← h.stored]

theorem mapM_parseLine {groupName : Str} {ms : List Message}
    (h : ∀ m ∈ ms, Recordable groupName m) :
    (ms.map row).mapM (parseLine groupName) = some ms := by
  induction ms with
  | nil => rfl
  | cons m ms ih =>
    rw [List.map_cons, List.mapM_cons, parseLine_row (h m (List.mem_cons_self ..)),
      ih fun x hx => h x (List.mem_cons_of_mem _ hx)]
    rfl

/-- The file holds these messages. -/
structure Holds (groupName : Str) (f : GroupFile) (ms : List Message) : Prop where
  contents : f.contents = joinLines '\n' (ms.map row)
  recordable : ∀ m ∈ ms, Recordable groupName m
  temp : f.temp = none
  opens : f.file ≠ none → f.opens = true

namespace Holds

variable {groupName : Str} {f : GroupFile} {ms : List Message}

theorem newline_not_mem (h : Holds groupName f ms) : ∀ l ∈ ms.map row, '\n' ∉ l := by
  intro l hl
  obtain ⟨m, hm, rfl⟩ := List.mem_map.1 hl
  exact newline_not_mem_row (h.recordable m hm).user.1 (h.recordable m hm).text.1

theorem lines (h : Holds groupName f ms) : f.lines = ms.map row :=
  lines_of_file h.contents h.newline_not_mem

theorem length_lines (h : Holds groupName f ms) : f.lines.length = ms.length := by
  rw [h.lines, List.length_map]

end Holds

theorem croppedRows_map {α β : Type*} (g : α → β) (limit d : Nat) (rows : List α) :
    croppedRows limit d (rows.map g) = (croppedRows limit d rows).map g := by
  rw [croppedRows, croppedRows, List.length_map]
  split
  · rw [keptLines, keptLines, List.map_drop, List.length_map]
  · rfl

theorem crop_opens (maxN : Int) (isWrite : Bool) (f : GroupFile) :
    (f.cropToFileHistoryLimit maxN isWrite).opens = f.opens := by
  rw [cropToFileHistoryLimit]
  dsimp only
  split <;> rfl

theorem append_opens (maxN : Int) (m : Message) (f : GroupFile) :
    (f.appendGroupMessageToHistory maxN m).opens = f.opens := by
  rw [appendGroupMessageToHistory]
  dsimp only
  split
  · rfl
  · split <;> exact crop_opens maxN true f

/-- A crop leaves no temporary file, and a file only where there was one. -/
theorem crop_temp (maxN : Int) (isWrite : Bool) {f : GroupFile} (htemp : f.temp = none) :
    (f.cropToFileHistoryLimit maxN isWrite).temp = none ∧
      ((f.cropToFileHistoryLimit maxN isWrite).file ≠ none → f.file ≠ none) := by
  rw [cropToFileHistoryLimit]
  dsimp only
  split
  · rename_i habove
    refine ⟨rfl, ?_⟩
    intro _ hnone
    rw [GroupFile.lines, GroupFile.contents, hnone] at habove
    exact absurd habove (by simp)
  · exact ⟨htemp, id⟩

/-- **A crop of records** leaves the last records. -/
theorem Holds.crop {groupName : Str} {f : GroupFile} {ms : List Message}
    (h : Holds groupName f ms) (hlen : ms.length ≤ Text.INT_MAX) (maxN : Int) (isWrite : Bool) :
    Holds groupName (f.cropToFileHistoryLimit maxN isWrite)
      (croppedRows (getMaxNumberOfMessagesInHistory maxN) (if isWrite then 1 else 0) ms) where
  contents := by
    rw [contents_crop maxN isWrite h.temp (by rw [h.lines]; exact h.contents)
      (by rwa [h.length_lines]), h.lines, croppedRows_map]
  recordable m hm := h.recordable m ((croppedRows_sublist _ _ _).subset hm)
  temp := (crop_temp maxN isWrite h.temp).1
  opens hfile := by
    rw [crop_opens]
    exact h.opens ((crop_temp maxN isWrite h.temp).2 hfile)

/-- **An append** puts the message behind the records that the crop leaves. -/
theorem Holds.append {groupName : Str} {f : GroupFile} {ms : List Message} {m : Message}
    (h : Holds groupName f ms) (hlen : ms.length ≤ Text.INT_MAX) (maxN : Int)
    (hopens : f.opens = true) (hm : Recordable groupName m) :
    Holds groupName (f.appendGroupMessageToHistory maxN m)
      (FileSystemManager.appendGroupMessageToHistory (getMaxNumberOfMessagesInHistory maxN)
        m.isNotification m ms) := by
  have hcrop := h.crop hlen maxN true
  have hwrite : (f.cropToFileHistoryLimit maxN true).opens = true := by
    rw [crop_opens, hopens]
  rw [appendGroupMessageToHistory, FileSystemManager.appendGroupMessageToHistory, hm.stored]
  simp only [Bool.false_eq_true, if_false, hwrite, if_true]
  constructor
  · show (f.cropToFileHistoryLimit maxN true).contents ++ (row m ++ ['\n']) = _
    rw [hcrop.contents, List.map_append, joinLines_append, List.map_singleton, joinLines_cons,
      joinLines_nil]
    rfl
  · intro x hx
    rcases List.mem_append.1 hx with hx | hx
    · exact hcrop.recordable x hx
    · rwa [List.mem_singleton.1 hx]
  · exact hcrop.temp
  · exact fun _ => rfl

/-- **A read** returns the records that it leaves in the file. -/
theorem Holds.read {groupName : Str} {f : GroupFile} {ms : List Message}
    (h : Holds groupName f ms) (hlen : ms.length ≤ Text.INT_MAX) (maxN : Int) :
    Holds groupName (f.readGroupHistoryMessages maxN groupName).1
        (ms.rtake (getMaxNumberOfMessagesInHistory maxN)) ∧
      (f.readGroupHistoryMessages maxN groupName).2 =
        some (ms.rtake (getMaxNumberOfMessagesInHistory maxN)) := by
  have hcrop := h.crop hlen maxN false
  have hrows : croppedRows (getMaxNumberOfMessagesInHistory maxN) (if false then 1 else 0) ms =
      ms.rtake (getMaxNumberOfMessagesInHistory maxN) := readGroupHistoryMessages_eq_rtake _ ms
  rw [hrows] at hcrop
  refine ⟨hcrop, ?_⟩
  show (f.cropToFileHistoryLimit maxN false).lines.mapM (parseLine groupName) = _
  rw [hcrop.lines]
  exact mapM_parseLine hcrop.recordable

end GroupFile

end InstantMessenger
