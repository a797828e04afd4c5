import Mathlib.Data.List.DropRight
import InstantMessenger.Foundations.Lines

/-!
# Path names

POSIX path resolution on a tree of directories without links: `/` separates names,
empty names and `.` stay where they are, `..` goes to the parent and stays at the root,
any other name before the last `/` must be a directory.

* `dirName`, `fileName` — a path up to its last `/`, and what follows it.
* `Tree`, `Tree.walk`, `Tree.resolve` — the directories, and where a path leads.
* `dirName_append`, `fileName_append` — text without a `/` belongs to the file name;
  `dirName_cons`, `fileName_cons` — a directory in front belongs to the other part.
-/

namespace InstantMessenger
namespace Paths

open Lines

/-- A path name, and a name in it. -/
abbrev Name := List Char

/-- The path up to its last `/`. -/
def dirName (path : Name) : Name := path.rdropWhile (· != '/')

/-- What follows the last `/`. -/
def fileName (path : Name) : Name := path.rtakeWhile (· != '/')

/-- The directories of a machine, each by the names that lead to it from the root, and
the directory that a process runs in. -/
structure Tree where
  isDir : List Name → Bool
  cwd : List Name

namespace Tree

variable (T : Tree)

/-- Follow names from a directory. -/
def walk : List Name → List Name → Option (List Name)
  | d, [] => some d
  | d, name :: names =>
    if name = [] ∨ name = ['.'] then walk d names
    else if name = ['.', '.'] then walk d.dropLast names
    else if T.isDir (d ++ [name]) then walk (d ++ [name]) names
    else none

/-- The directory that a path names its file in. -/
def directory (path : Name) : Option (List Name) :=
  T.walk (if path.head? = some '/' then [] else T.cwd) (getlines '/' (dirName path))

/-- The file that a path leads to. -/
def resolve (path : Name) : Option (List Name) :=
  if fileName path = [] ∨ fileName path = ['.'] ∨ fileName path = ['.', '.'] then none
  else (T.directory path).map fun d => d ++ [fileName path]

end Tree

/-! ## The two parts of a path -/

theorem bne_slash {text : Name} (h : '/' ∉ text) : ∀ c ∈ text.reverse, (c != '/') = true := by
  intro c hc
  rw [bne_iff_ne]
  rintro rfl
  exact h (List.mem_reverse.1 hc)

theorem dirName_append {text : Name} (h : '/' ∉ text) (path : Name) :
    dirName (path ++ text) = dirName path := by
  rw [dirName, dirName, List.rdropWhile, List.rdropWhile, List.reverse_append,
    List.dropWhile_append_of_pos (bne_slash h)]

theorem fileName_append {text : Name} (h : '/' ∉ text) (path : Name) :
    fileName (path ++ text) = fileName path ++ text := by
  rw [fileName, fileName, List.rtakeWhile, List.rtakeWhile, List.reverse_append,
    List.takeWhile_append_of_pos (bne_slash h), List.reverse_append, List.reverse_reverse]

theorem dirName_cons (name path : Name) :
    dirName (name ++ '/' :: path) = name ++ '/' :: dirName path := by
  unfold dirName
  induction path using List.reverseRecOn with
  | nil => rw [List.rdropWhile_concat_neg _ _ _ (by simp), List.rdropWhile_nil]
  | append_singleton path c ih =>
    rw [← List.cons_append, ← List.append_assoc]
    by_cases hc : c = '/'
    · subst hc
      rw [List.rdropWhile_concat_neg _ _ _ (by simp), List.rdropWhile_concat_neg _ _ _ (by simp),
        List.append_assoc, List.cons_append]
    · rw [List.rdropWhile_concat_pos _ _ _ (by simpa using hc),
        List.rdropWhile_concat_pos _ _ _ (by simpa using hc), ih]

theorem fileName_cons (name path : Name) : fileName (name ++ '/' :: path) = fileName path := by
  unfold fileName
  induction path using List.reverseRecOn with
  | nil => rw [List.rtakeWhile_concat_neg _ _ _ (by simp), List.rtakeWhile_nil]
  | append_singleton path c ih =>
    rw [← List.cons_append, ← List.append_assoc]
    by_cases hc : c = '/'
    · subst hc
      rw [List.rtakeWhile_concat_neg _ _ _ (by simp), List.rtakeWhile_concat_neg _ _ _ (by simp)]
    · rw [List.rtakeWhile_concat_pos _ _ _ (by simpa using hc),
        List.rtakeWhile_concat_pos _ _ _ (by simpa using hc), ih]

/-- A path without a `/` is a file name. -/
theorem dirName_of_not_mem {path : Name} (h : '/' ∉ path) : dirName path = [] := by
  rw [← List.nil_append path, dirName_append h]
  rfl

theorem fileName_of_not_mem {path : Name} (h : '/' ∉ path) : fileName path = path := by
  rw [← List.nil_append path, fileName_append h]
  rfl

end Paths
end InstantMessenger
