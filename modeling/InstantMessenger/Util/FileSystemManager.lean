import Mathlib.Logic.Relation
import InstantMessenger.Foundations.Recent
import InstantMessenger.Foundations.Text
import InstantMessenger.Util.Definitions

/-!
# The stored history of a group

`file_system_manager.cpp`: a group's history is a file with one row for each
message.  Appending and reading first crop the file: all lines are read, and when
there are more than the limit the last ones are written to a temporary file,
opened in append mode, which then takes the place of the file.

* `Files` — the group's file and its temporary file.  A file is the list of its
  lines; the texts of the messages come from lines typed at a terminal, so a row
  is one line.
* `Crop`, `cropToFileHistoryLimit` — the crop, one file operation at a time.
* `row`, `appendRow` — what is appended.
* `appendGroupMessageToHistory`, `readGroupHistoryMessages` — a whole call that
  nothing interferes with; `crop_alone` says that the file operations of a crop
  then amount to it.
-/

namespace InstantMessenger
namespace FileSystemManager

/-- The file of a group, and its temporary file. -/
structure Files where
  file : Option (List Str)
  temp : Option (List Str) := none
  deriving DecidableEq, Repr

/-- The lines that are read from a file; one that cannot be opened has none. -/
def Files.lines (f : Files) : List Str := f.file.getD []

/-- `FILE_SEPARATOR`. -/
def FILE_SEPARATOR : Char := '\x1f'

/-- The line that `appendGroupMessageToHistory` writes for a message. -/
def row (m : Message) : Str :=
  m.user ++ FILE_SEPARATOR :: (m.text ++ FILE_SEPARATOR :: Text.to_string m.time)

/-- `FileSystemManager::getMaxNumberOfMessagesInHistory`. -/
def getMaxNumberOfMessagesInHistory (maxNumberOfMessagesInHistory : Int) : Nat :=
  if maxNumberOfMessagesInHistory ≤ 0 then DEFAULT_NUMBER_OF_RECORDED_MESSAGES
  else maxNumberOfMessagesInHistory.toNat

/-- A limit is never zero. -/
theorem getMaxNumberOfMessagesInHistory_pos (n : Int) :
    0 < getMaxNumberOfMessagesInHistory n := by
  unfold getMaxNumberOfMessagesInHistory DEFAULT_NUMBER_OF_RECORDED_MESSAGES
  split <;> omega

/-- And it is an `int`, as the one that was set. -/
theorem getMaxNumberOfMessagesInHistory_le {n : Int} (h : n ≤ Text.INT_MAX) :
    getMaxNumberOfMessagesInHistory n ≤ Text.INT_MAX := by
  unfold getMaxNumberOfMessagesInHistory DEFAULT_NUMBER_OF_RECORDED_MESSAGES
  unfold Text.INT_MAX at h ⊢
  split <;> omega

/-- Where a call is in `cropToFileHistoryLimit`. -/
inductive Crop where
  /-- About to read all lines. -/
  | reading
  /-- These lines are more than the limit, and the temporary file is not written. -/
  | above (lines : List Str)
  /-- About to remove the file. -/
  | written
  /-- About to rename the temporary file. -/
  | removed
  /-- The crop is over. -/
  | cropped
  deriving DecidableEq, Repr

/-- The lines that the loop writes to the temporary file.  It starts at
`lines.size() - (limit - isWriteDiscount)` and leaves line 0 out. -/
def keptLines {α : Type*} (limit isWriteDiscount : Nat) (lines : List α) : List α :=
  lines.drop (max (lines.length - (limit - isWriteDiscount)) 1)

/-- The next file operation of `FileSystemManager::cropToFileHistoryLimit`. -/
def cropToFileHistoryLimit (limit : Nat) (isWrite : Bool) (f : Files) : Crop → Option (Files × Crop)
  | .reading => some (f, if f.lines.length > limit then .above f.lines else .cropped)
  | .above lines =>
    let isWriteDiscount := if isWrite then 1 else 0
    some ({ f with temp := some (f.temp.getD [] ++ keptLines limit isWriteDiscount lines) },
      .written)
  | .written => some ({ f with file := none }, .removed)
  | .removed =>
    -- there is nothing to rename when another call has renamed it
    some (match f.temp with
      | some t => { file := some t, temp := none }
      | none => f, .cropped)
  | .cropped => none

/-- The append at the end of `appendGroupMessageToHistory`. -/
def appendRow (m : Message) (f : Files) : Files := { f with file := some (f.lines ++ [row m]) }

/-- Above the limit the loop keeps the last lines. -/
theorem keptLines_eq_rtake {α : Type*} {limit d : Nat} {lines : List α} (h : limit < lines.length) :
    keptLines limit d lines = lines.rtake (limit - d) := by
  rw [keptLines, List.rtake, Nat.max_eq_left (by omega)]

/-! ## A call on its own -/

section Alone

variable {α : Type*} (limit : Nat)

/-- What a crop leaves of the rows. -/
def croppedRows (isWriteDiscount : Nat) (rows : List α) : List α :=
  if rows.length > limit then keptLines limit isWriteDiscount rows else rows

/-- `FileSystemManager::readGroupHistoryMessages`: the rows that are left in the
file, which are the ones that are read. -/
def readGroupHistoryMessages (rows : List α) : List α := croppedRows limit 0 rows

/-- `FileSystemManager::appendGroupMessageToHistory`: a notification is not stored. -/
def appendGroupMessageToHistory (isNotification : Bool) (newRow : α) (rows : List α) : List α :=
  if isNotification then rows else croppedRows limit 1 rows ++ [newRow]

end Alone

theorem croppedRows_sublist {α : Type*} (limit d : Nat) (rows : List α) :
    (croppedRows limit d rows).Sublist rows := by
  rw [croppedRows]
  split
  · exact List.drop_sublist _ _
  · exact List.Sublist.refl _

/-- **The last rows are read**, or all of them. -/
theorem readGroupHistoryMessages_eq_rtake {α : Type*} (limit : Nat) (rows : List α) :
    readGroupHistoryMessages limit rows = rows.rtake limit := by
  rw [readGroupHistoryMessages, croppedRows]
  split
  · rename_i h
    exact keptLines_eq_rtake h
  · rename_i h
    exact (Recent.rtake_of_length_le (not_lt.1 h)).symm

/-- **A crop on its own** leaves the last rows, and no temporary file. -/
theorem crop_alone (limit : Nat) (isWrite : Bool) {f : Files} (hf : f.temp = none) :
    ∃ g : Files, Relation.ReflTransGen
        (fun x y => cropToFileHistoryLimit limit isWrite x.1 x.2 = some y)
        (f, .reading) (g, .cropped) ∧
      g.lines = croppedRows limit (if isWrite then 1 else 0) f.lines ∧ g.temp = none := by
  by_cases hlen : f.lines.length > limit
  · refine ⟨⟨some (keptLines limit (if isWrite then 1 else 0) f.lines), none⟩, ?_, ?_, rfl⟩
    · refine .head (b := (f, .above f.lines)) (by simp [cropToFileHistoryLimit, hlen]) ?_
      refine .head rfl (.head rfl (.single ?_))
      simp [cropToFileHistoryLimit, hf]
    · exact (if_pos hlen).symm
  · refine ⟨f, .single (by simp [cropToFileHistoryLimit, hlen]), ?_, hf⟩
    rw [croppedRows, if_neg hlen]

end FileSystemManager
end InstantMessenger
