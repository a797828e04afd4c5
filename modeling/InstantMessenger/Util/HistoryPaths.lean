import Mathlib.Data.Set.Lattice
import Mathlib.Logic.Function.Basic
import InstantMessenger.Client.BuildPacket
import InstantMessenger.Foundations.Paths
import InstantMessenger.Util.GroupFile

/-!
# The files of the groups

`file_system_manager.cpp` once more, on a disk: the path of a group's history is put
together from the group's name, which may be any string, and every operation resolves
the path it is given.

* `Disk` — the regular files, and which of them were opened for writing, read, removed or
  renamed so far.
* `Histories.groupFile`, `Histories.tempGroupFile` — the two paths of a group.
* `Histories.appendGroupMessageToHistory`, `Histories.readGroupHistoryMessages` — the two
  calls, one file operation after another; `Histories.view_append` and
  `Histories.view_read` say that they are those of `GroupFile`.
* `Histories.Isolated` — no sequence of calls on a group changes the file of another one, or
  touches a file elsewhere than directly under the messages directory.
* `Histories.isolated_iff` — **when that holds**, and `Histories.isolated_of_validateName`:
  it does for any two names that a client would accept.
-/

namespace InstantMessenger

open Paths Lines FileSystemManager

/-- The regular files of a machine.  The directories are those of a `Tree`: the program
makes none, and none has the name of one of its files. -/
structure Disk where
  files : List Name → Option Str
  /-- The files that were acted on so far. -/
  touched : List (List Name) := []

namespace Disk

variable (T : Tree)

/-- What an `ifstream` on this path reads. -/
def contents (path : Str) (d : Disk) : Str := ((T.resolve path).bind d.files).getD []

/-- Opening an `ifstream`. -/
def openRead (path : Str) (d : Disk) : Disk :=
  match T.resolve path with
  | none => d
  | some p => if d.files p = none then d else { d with touched := p :: d.touched }

/-- An `ofstream` opened with `app`, and what is written to it. -/
def append (path text : Str) (d : Disk) : Disk :=
  match T.resolve path with
  | none => d
  | some p =>
    { files := Function.update d.files p (some ((d.files p).getD [] ++ text))
      touched := p :: d.touched }

/-- `remove`. -/
def remove (path : Str) (d : Disk) : Disk :=
  match T.resolve path with
  | none => d
  | some p =>
    if d.files p = none then d
    else { files := Function.update d.files p none, touched := p :: d.touched }

/-- `rename`. -/
def rename (old new : Str) (d : Disk) : Disk :=
  match T.resolve old, T.resolve new with
  | some p, some q =>
    match d.files p with
    | none => d
    | some text =>
      { files := Function.update (Function.update d.files p none) q (some text)
        touched := q :: p :: d.touched }
  | _, _ => d

/-- Nothing outside these files has changed or was touched. -/
structure Within (S : Set (List Name)) (d d' : Disk) : Prop where
  files : ∀ p ∉ S, d'.files p = d.files p
  touched : ∀ p ∈ d'.touched, p ∈ d.touched ∨ p ∈ S

variable {T} {S : Set (List Name)}

theorem Within.refl (d : Disk) : Within S d d := ⟨fun _ _ => rfl, fun _ hp => Or.inl hp⟩

theorem Within.trans {d d' d'' : Disk} (h : Within S d d') (h' : Within S d' d'') :
    Within S d d'' := by
  refine ⟨?_, ?_⟩
  · intro p hp
    exact (h'.files p hp).trans (h.files p hp)
  · intro p hp
    rcases h'.touched p hp with hp | hp
    · exact h.touched p hp
    · exact Or.inr hp

/-- A file that was written is one of these. -/
theorem Within.update {d : Disk} {p : List Name} (hp : p ∈ S) (text : Option Str) :
    Within S d { files := Function.update d.files p text, touched := p :: d.touched } := by
  refine ⟨?_, ?_⟩
  · intro q hq
    refine Function.update_of_ne ?_ _ _
    rintro rfl
    exact hq hp
  · intro q hq
    rcases List.mem_cons.1 hq with rfl | hq
    · exact Or.inr hp
    · exact Or.inl hq

theorem within_openRead {path : Str} (h : ∀ p, T.resolve path = some p → p ∈ S) (d : Disk) :
    Within S d (d.openRead T path) := by
  unfold openRead
  split
  · exact .refl d
  · rename_i p hp
    split
    · exact .refl d
    · refine ⟨fun _ _ => rfl, ?_⟩
      intro q hq
      rcases List.mem_cons.1 hq with rfl | hq
      · exact Or.inr (h q hp)
      · exact Or.inl hq

theorem files_openRead (path : Str) (d : Disk) : (d.openRead T path).files = d.files := by
  unfold openRead
  split
  · rfl
  · split <;> rfl

theorem within_append {path : Str} (h : ∀ p, T.resolve path = some p → p ∈ S) (text : Str)
    (d : Disk) : Within S d (d.append T path text) := by
  unfold append
  split
  · exact .refl d
  · rename_i p hp
    exact .update (h p hp) _

theorem within_remove {path : Str} (h : ∀ p, T.resolve path = some p → p ∈ S) (d : Disk) :
    Within S d (d.remove T path) := by
  unfold remove
  split
  · exact .refl d
  · rename_i p hp
    split
    · exact .refl d
    · exact .update (h p hp) _

theorem within_rename {old new : Str} (hold : ∀ p, T.resolve old = some p → p ∈ S)
    (hnew : ∀ p, T.resolve new = some p → p ∈ S) (d : Disk) :
    Within S d (d.rename T old new) := by
  unfold rename
  split
  · rename_i p q hp hq
    split
    · exact .refl d
    · rename_i text _
      exact (Within.update (hold p hp) none).trans (Within.update (hnew q hq) (some text))
  · exact .refl d

end Disk

namespace Histories

def MESSAGES_BASE_PATH : Str := "messages".toList

def FILE_EXTENSION : Str := ".csv".toList

def PATH_SEPARATOR : Str := "/".toList

/-- The path of a group's history. -/
def groupFile (group : Str) : Str :=
  MESSAGES_BASE_PATH ++ PATH_SEPARATOR ++ group ++ FILE_EXTENSION

def tempGroupFile (group : Str) : Str := groupFile group ++ "_temp".toList

/-! ## The calls -/

variable (T : Tree) (maxNumberOfMessagesInHistory : Int)

/-- `FileSystemManager::cropToFileHistoryLimit`. -/
def cropToFileHistoryLimit (group : Str) (isWrite : Bool) (d : Disk) : Disk :=
  let limit := getMaxNumberOfMessagesInHistory maxNumberOfMessagesInHistory
  let isWriteDiscount := if isWrite then 1 else 0
  let lines := getlines '\n' (d.contents T (groupFile group))
  let opened := d.openRead T (groupFile group)
  if lines.length > limit then
    let kept := GroupFile.cropLoop lines (lines.length + 1)
      (GroupFile.toInt (lines.length - (limit - isWriteDiscount)))
    ((opened.append T (tempGroupFile group) (joinLines '\n' kept)).remove T
      (groupFile group)).rename T (tempGroupFile group) (groupFile group)
  else opened

/-- `FileSystemManager::appendGroupMessageToHistory`. -/
def appendGroupMessageToHistory (message : Message) (d : Disk) : Disk :=
  if message.isNotification then d
  else
    (cropToFileHistoryLimit T maxNumberOfMessagesInHistory message.group true d).append T
      (groupFile message.group) (row message ++ ['\n'])

/-- `FileSystemManager::readGroupHistoryMessages`: the disk, and what is read. -/
def readGroupHistoryMessages (groupName : Str) (d : Disk) : Disk × Option (List Message) :=
  let cropped := cropToFileHistoryLimit T maxNumberOfMessagesInHistory groupName false d
  (cropped.openRead T (groupFile groupName),
    (getlines '\n' (cropped.contents T (groupFile groupName))).mapM
      (GroupFile.parseLine groupName))

/-- A call on a group. -/
inductive Call where
  | append (user text : Str) (time : Int) (isNotification : Bool)
  | read

def call (group : Str) (d : Disk) : Call → Disk
  | .append user text time isNotification =>
    appendGroupMessageToHistory T maxNumberOfMessagesInHistory
      { text, user, group, time, isNotification } d
  | .read => (readGroupHistoryMessages T maxNumberOfMessagesInHistory group d).1

/-- Calls on one group, one after another. -/
def run (group : Str) (calls : List Call) (d : Disk) : Disk :=
  calls.foldl (call T maxNumberOfMessagesInHistory group) d

/-! ## Where the paths lead -/

variable {T}

/-- The directory that the files of a group are in, if there is one. -/
def folder (T : Tree) (group : Str) : Option (List Name) :=
  T.walk T.cwd (MESSAGES_BASE_PATH :: getlines '/' (dirName group))

theorem head?_path (rest : Str) : (MESSAGES_BASE_PATH ++ rest).head? = some 'm' := rfl

/-- A path under the messages directory, with an ending of its own. -/
theorem resolve_path (group : Str) {ending : Str} (hslash : '/' ∉ ending)
    (hlen : 2 < ending.length) :
    T.resolve (MESSAGES_BASE_PATH ++ PATH_SEPARATOR ++ group ++ ending) =
      (folder T group).map fun d => d ++ [fileName group ++ ending] := by
  have hpath : MESSAGES_BASE_PATH ++ PATH_SEPARATOR ++ group ++ ending =
      MESSAGES_BASE_PATH ++ '/' :: (group ++ ending) := by
    rw [List.append_assoc, List.append_assoc]
    rfl
  have hfile : fileName (MESSAGES_BASE_PATH ++ '/' :: (group ++ ending)) =
      fileName group ++ ending := by
    rw [fileName_cons, fileName_append hslash]
  have hdir : T.directory (MESSAGES_BASE_PATH ++ '/' :: (group ++ ending)) = folder T group := by
    have hstart : (MESSAGES_BASE_PATH ++ '/' :: (group ++ ending)).head? ≠ some '/' := by
      rw [head?_path]
      decide
    have hmessages : '/' ∉ MESSAGES_BASE_PATH := by decide
    rw [Tree.directory, if_neg hstart, dirName_cons, dirName_append hslash,
      getlines_piece hmessages, folder]
  have hname : ∀ name : Name, name.length ≤ 2 → fileName group ++ ending ≠ name := by
    rintro _ hle rfl
    rw [List.length_append] at hle
    omega
  rw [hpath, Tree.resolve, hfile, hdir, if_neg]
  rintro (h | h | h)
  · exact hname _ (by decide) h
  · exact hname _ (by decide) h
  · exact hname _ (by decide) h

theorem resolve_groupFile (group : Str) :
    T.resolve (groupFile group) =
      (folder T group).map fun d => d ++ [fileName group ++ FILE_EXTENSION] :=
  resolve_path group (by decide) (by decide)

theorem resolve_tempGroupFile (group : Str) :
    T.resolve (tempGroupFile group) =
      (folder T group).map fun d =>
        d ++ [fileName group ++ (FILE_EXTENSION ++ "_temp".toList)] := by
  rw [tempGroupFile, groupFile, List.append_assoc]
  exact resolve_path group (by decide) (by decide)

/-- The two files of a group. -/
def own (T : Tree) (group : Str) : Set (List Name) :=
  { p | T.resolve (groupFile group) = some p ∨ T.resolve (tempGroupFile group) = some p }

/-! ## What a call acts on -/

open Disk

theorem within_crop (maxN : Int) (group : Str) (isWrite : Bool) (d : Disk) :
    Within (own T group) d (cropToFileHistoryLimit T maxN group isWrite d) := by
  have hfile : ∀ p, T.resolve (groupFile group) = some p → p ∈ own T group :=
    fun p hp => Or.inl hp
  have htemp : ∀ p, T.resolve (tempGroupFile group) = some p → p ∈ own T group :=
    fun p hp => Or.inr hp
  have hopen := within_openRead hfile d
  unfold cropToFileHistoryLimit
  simp only
  split
  · refine ((hopen.trans ?_).trans (within_remove hfile _)).trans (within_rename htemp hfile _)
    exact within_append htemp _ _
  · exact hopen

theorem within_appendGroupMessageToHistory (maxN : Int) (m : Message) (d : Disk) :
    Within (own T m.group) d (appendGroupMessageToHistory T maxN m d) := by
  unfold appendGroupMessageToHistory
  split
  · exact .refl d
  · exact (within_crop maxN m.group true d).trans (within_append (fun p hp => Or.inl hp) _ _)

theorem within_call (maxN : Int) (group : Str) (d : Disk) (c : Call) :
    Within (own T group) d (call T maxN group d c) := by
  cases c with
  | append user text time isNotification =>
    exact within_appendGroupMessageToHistory maxN { text, user, group, time, isNotification } d
  | read => exact (within_crop maxN group false d).trans (within_openRead (fun p hp => Or.inl hp) _)

/-- **Calls on a group act on its two files only.** -/
theorem within_run (maxN : Int) (group : Str) (calls : List Call) (d : Disk) :
    Within (own T group) d (run T maxN group calls d) := by
  induction calls generalizing d with
  | nil => exact .refl d
  | cons c calls ih => exact (within_call maxN group d c).trans (ih _)

/-- A temporary file is no group's history. -/
theorem temp_ne (name name' : Name) :
    name ++ (FILE_EXTENSION ++ "_temp".toList) ≠ name' ++ FILE_EXTENSION := by
  intro h
  rw [← List.append_assoc] at h
  have hlast := congrArg List.getLast? h
  rw [List.getLast?_append_of_ne_nil (name ++ FILE_EXTENSION) (by decide),
    List.getLast?_append_of_ne_nil name' (by decide)] at hlast
  exact absurd hlast (by decide)

theorem temp_file_ne (dir : List Name) (name name' : Name) :
    dir ++ [name ++ (FILE_EXTENSION ++ "_temp".toList)] ≠ dir ++ [name' ++ FILE_EXTENSION] := by
  intro heq
  have hname := (List.append_inj' heq rfl).2
  rw [List.cons.injEq] at hname
  exact temp_ne _ _ hname.1

/-- The files of a group are in its directory. -/
theorem folder_of_own {group : Str} {p : List Name} (h : p ∈ own T group) :
    ∃ d name, folder T group = some d ∧ p = d ++ [name] := by
  rcases h with h | h
  · rw [resolve_groupFile, Option.map_eq_some_iff] at h
    obtain ⟨d, hd, rfl⟩ := h
    exact ⟨d, _, hd, rfl⟩
  · rw [resolve_tempGroupFile, Option.map_eq_some_iff] at h
    obtain ⟨d, hd, rfl⟩ := h
    exact ⟨d, _, hd, rfl⟩

/-- The files of two groups are the same only in the same directory, under the same name. -/
theorem folder_of_mem_own {group other : Str} {p : List Name} (h : p ∈ own T group)
    (hother : T.resolve (groupFile other) = some p) :
    folder T group = folder T other ∧ fileName group = fileName other := by
  rw [resolve_groupFile, Option.map_eq_some_iff] at hother
  obtain ⟨d', hd', rfl⟩ := hother
  rcases h with h | h
  · rw [resolve_groupFile, Option.map_eq_some_iff] at h
    obtain ⟨d, hd, heq⟩ := h
    obtain ⟨rfl, hname⟩ := List.append_inj' heq rfl
    rw [List.cons.injEq] at hname
    exact ⟨hd.trans hd'.symm, List.append_cancel_right hname.1⟩
  · rw [resolve_tempGroupFile, Option.map_eq_some_iff] at h
    obtain ⟨d, hd, heq⟩ := h
    have hname := (List.append_inj' heq rfl).2
    rw [List.cons.injEq] at hname
    exact absurd hname.1 (temp_ne _ _)

/-! ## Isolation -/

/-- The directory `messages` that the program runs beside. -/
def messages (T : Tree) : List Name := T.cwd ++ [MESSAGES_BASE_PATH]

/-- No sequence of calls on `group` creates, changes or removes the file that the history of
`other` is read from, and every file it touches is directly under the messages directory. -/
def Isolated (T : Tree) (group other : Str) : Prop :=
  ∀ (maxN : Int) (calls : List Call) (d : Disk),
    (∀ p, T.resolve (groupFile other) = some p →
      (run T maxN group calls d).files p = d.files p) ∧
    ∀ p ∈ (run T maxN group calls d).touched, p ∈ d.touched ∨ ∃ name, p = messages T ++ [name]

/-- The files of `group` are nowhere, or directly under the messages directory and not those
of `other`. -/
def Apart (T : Tree) (group other : Str) : Prop :=
  folder T group = none ∨ folder T group = some (messages T) ∧
    ¬ (folder T other = some (messages T) ∧ fileName other = fileName group)

theorem isolated_of_apart {group other : Str} (h : Apart T group other) :
    Isolated T group other := by
  intro maxN calls d
  have hwithin := within_run (T := T) maxN group calls d
  refine ⟨?_, ?_⟩
  · intro p hp
    refine hwithin.files p ?_
    intro hown
    obtain ⟨hfolder, hname⟩ := folder_of_mem_own hown hp
    rcases h with h | ⟨h, hnot⟩
    · rw [resolve_groupFile, ← hfolder, h] at hp
      cases hp
    · exact hnot ⟨hfolder ▸ h, hname.symm⟩
  · intro p hp
    rcases hwithin.touched p hp with hp | hown
    · exact Or.inl hp
    · obtain ⟨dir, name, hdir, rfl⟩ := folder_of_own hown
      rcases h with h | ⟨h, _⟩
      · rw [h] at hdir
        cases hdir
      · rw [h] at hdir
        cases hdir
        exact Or.inr ⟨name, rfl⟩

/-- A machine without files. -/
def noFiles : Disk := { files := fun _ => none }

/-- A first message makes the group's file, wherever its path leads. -/
theorem append_noFiles {group : Str} {p : List Name} (hp : T.resolve (groupFile group) = some p)
    (maxN : Int) :
    ((run T maxN group [.append [] [] 0 false] noFiles).files p).isSome = true ∧
      p ∈ (run T maxN group [.append [] [] 0 false] noFiles).touched := by
  have hopened : noFiles.openRead T (groupFile group) = noFiles := by
    unfold Disk.openRead
    rw [hp]
    rfl
  have hempty : noFiles.contents T (groupFile group) = [] := by
    rw [Disk.contents, hp]
    rfl
  have hcrop : cropToFileHistoryLimit T maxN group true noFiles = noFiles := by
    unfold cropToFileHistoryLimit
    simp only [hempty, hopened, getlines_nil, List.length_nil]
    exact if_neg (Nat.not_lt_zero _)
  have hrun : run T maxN group [.append [] [] 0 false] noFiles =
      (cropToFileHistoryLimit T maxN group true noFiles).append T (groupFile group)
        (row { text := [], user := [], group, time := 0 } ++ ['\n']) := rfl
  rw [hrun, hcrop, Disk.append, hp]
  simp

/-- **When the histories of two groups are isolated.** -/
theorem isolated_iff (T : Tree) (group other : Str) :
    Isolated T group other ↔ Apart T group other := by
  refine ⟨?_, isolated_of_apart⟩
  intro h
  cases hfolder : folder T group with
  | none => exact Or.inl hfolder
  | some dir =>
    have hp : T.resolve (groupFile group) = some (dir ++ [fileName group ++ FILE_EXTENSION]) := by
      rw [resolve_groupFile, hfolder]
      rfl
    obtain ⟨hfile, htouched⟩ := append_noFiles hp 1
    obtain ⟨hunchanged, hunder⟩ := h 1 [.append [] [] 0 false] noFiles
    have hdir : dir = messages T := by
      rcases hunder _ htouched with hp | ⟨name, heq⟩
      · cases hp
      · exact (List.append_inj' heq rfl).1
    refine Or.inr ⟨by rw [hfolder, hdir], ?_⟩
    rintro ⟨hother, hname⟩
    have hsame := hunchanged (dir ++ [fileName group ++ FILE_EXTENSION])
      (by rw [resolve_groupFile, hother, hdir, hname]; rfl)
    rw [hsame] at hfile
    cases hfile

/-! ## Names that a client accepts -/

/-- A name without a `/` is a file of the messages directory. -/
theorem folder_of_not_mem {name : Str} (h : '/' ∉ name) :
    folder T name = none ∨ folder T name = some (messages T) := by
  have hnames : folder T name = if T.isDir (messages T) then some (messages T) else none := by
    rw [folder, dirName_of_not_mem h, getlines_nil, Tree.walk, if_neg (by decide),
      if_neg (by decide)]
    rfl
  rw [hnames]
  split
  · exact Or.inr rfl
  · exact Or.inl rfl

/-- **Names that a client accepts are isolated**: the check that the server does not make
would be enough. -/
theorem isolated_of_validateName {group other : Str} (hgroup : validateName group = .ok ())
    (hother : validateName other = .ok ()) (hne : group ≠ other) : Isolated T group other := by
  have hslash := @not_mem_of_validator _ (validator_of_validateName hgroup) '/' (by decide)
  have hslash' := @not_mem_of_validator _ (validator_of_validateName hother) '/' (by decide)
  refine isolated_of_apart ?_
  rcases folder_of_not_mem (T := T) hslash with h | h
  · exact Or.inl h
  · refine Or.inr ⟨h, ?_⟩
    rintro ⟨_, hname⟩
    rw [fileName_of_not_mem hslash, fileName_of_not_mem hslash'] at hname
    exact hne hname.symm

/-! ## The files of one group -/

/-- What `GroupFile` keeps of a disk. -/
def view (T : Tree) (group : Str) (d : Disk) : GroupFile where
  opens := (folder T group).isSome
  file := (T.resolve (groupFile group)).bind d.files
  temp := (T.resolve (tempGroupFile group)).bind d.files

/-- **A crop on the disk** is the crop of the group's file. -/
theorem view_crop (maxN : Int) (group : Str) (isWrite : Bool) (d : Disk) :
    view T group (cropToFileHistoryLimit T maxN group isWrite d) =
      (view T group d).cropToFileHistoryLimit maxN isWrite := by
  have hcontents : d.contents T (groupFile group) = (view T group d).contents := rfl
  have hopen := files_openRead (T := T) (groupFile group) d
  unfold cropToFileHistoryLimit GroupFile.cropToFileHistoryLimit GroupFile.lines
  simp only [hcontents]
  split
  case isFalse => simp only [view, hopen]
  case isTrue habove =>
    cases hfolder : folder T group with
    | none =>
      have hnone : (view T group d).contents = [] := by
        rw [← hcontents, Disk.contents, resolve_groupFile, hfolder]
        rfl
      rw [hnone] at habove
      exact absurd habove (by simp)
    | some dir =>
      have hp := resolve_groupFile (T := T) group
      have hq := resolve_tempGroupFile (T := T) group
      rw [hfolder, Option.map_some] at hp hq
      set p := dir ++ [fileName group ++ FILE_EXTENSION] with hpdef
      set q := dir ++ [fileName group ++ (FILE_EXTENSION ++ "_temp".toList)] with hqdef
      have hne : q ≠ p := temp_file_ne dir (fileName group) (fileName group)
      have hexists : d.files p ≠ none := by
        intro hnone
        have hempty : (view T group d).contents = [] := by
          rw [← hcontents, Disk.contents, hp, Option.bind_some, hnone]
          rfl
        rw [hempty] at habove
        exact absurd habove (by simp)
      simp only [view, Disk.append, Disk.remove, Disk.rename, hp, hq, hopen, hfolder,
        Option.bind_some, Function.update_self, Function.update_of_ne hne,
        Function.update_of_ne hne.symm, hexists, if_false]

/-- **An append on the disk** is the append to the group's file. -/
theorem view_append (maxN : Int) (m : Message) (d : Disk) :
    view T m.group (appendGroupMessageToHistory T maxN m d) =
      (view T m.group d).appendGroupMessageToHistory maxN m := by
  unfold appendGroupMessageToHistory GroupFile.appendGroupMessageToHistory
  split
  · rfl
  · have hcrop := view_crop (T := T) maxN m.group true d
    generalize cropToFileHistoryLimit T maxN m.group true d = cropped at hcrop ⊢
    rw [← hcrop]
    cases hfolder : folder T m.group with
    | none =>
      have hp := resolve_groupFile (T := T) m.group
      rw [hfolder, Option.map_none] at hp
      simp [view, Disk.append, hp, hfolder]
    | some dir =>
      have hp := resolve_groupFile (T := T) m.group
      have hq := resolve_tempGroupFile (T := T) m.group
      rw [hfolder, Option.map_some] at hp hq
      have hne := temp_file_ne dir (fileName m.group) (fileName m.group)
      simp only [view, Disk.append, hp, hq, hfolder, GroupFile.contents, Option.bind_some,
        Function.update_self, Function.update_of_ne hne, Option.isSome_some, if_true]

/-- **A read on the disk** is the read of the group's file. -/
theorem view_read (maxN : Int) (groupName : Str) (d : Disk) :
    view T groupName (readGroupHistoryMessages T maxN groupName d).1 =
        ((view T groupName d).readGroupHistoryMessages maxN groupName).1 ∧
      (readGroupHistoryMessages T maxN groupName d).2 =
        ((view T groupName d).readGroupHistoryMessages maxN groupName).2 := by
  have hcrop := view_crop (T := T) maxN groupName false d
  refine ⟨?_, ?_⟩
  · unfold readGroupHistoryMessages GroupFile.readGroupHistoryMessages
    rw [← hcrop]
    simp only [view, files_openRead]
  · unfold readGroupHistoryMessages GroupFile.readGroupHistoryMessages
    simp only [← hcrop]
    rfl

/-! ## Names with a `/` -/

/-- A server in `/srv`, with its messages directory. -/
def srv : Tree where
  isDir d := d ∈ [[], ["srv".toList], ["srv".toList, "messages".toList]]
  cwd := ["srv".toList]

/-- **Names from the network.**  The history of `../x` is a file beside the messages
directory, and that of `./x` is the one of `x`. -/
theorem isolated_counterexample :
    ¬ Isolated srv "../x".toList "x".toList ∧ ¬ Isolated srv "./x".toList "x".toList := by
  refine ⟨?_, ?_⟩
  · intro h
    have hp : srv.resolve (groupFile "../x".toList) = some ["srv".toList, "x.csv".toList] := by
      decide
    rcases (h 1 [.append [] [] 0 false] noFiles).2 _ (append_noFiles hp 1).2 with hp | ⟨name, heq⟩
    · cases hp
    · exact absurd (congrArg List.length heq) (by simp [messages, srv])
  · intro h
    have hp : srv.resolve (groupFile "./x".toList) =
        some ["srv".toList, "messages".toList, "x.csv".toList] := by decide
    have hfile := (append_noFiles hp 1).1
    rw [(h 1 [.append [] [] 0 false] noFiles).1 _ (by decide)] at hfile
    cases hfile

end Histories

end InstantMessenger
