import Mathlib.Logic.Function.Basic
import InstantMessenger.Util.HistoryWindow

/-!
# The history limit of a server

`app_server.cpp` reads a limit from the command line, `server_group_manager.cpp` keeps one
and hands it to every group it makes, and `Server::configureFilesystemManager` would carry
the first to the second.  Nobody calls it, so that the manager's limit is whatever the
memory held before.

* `read_args` — the limit of the command line.
* `HistoryService` — the limit of the manager, the groups made so far with theirs, and the
  queue and the history of each; `HistoryService.service` — JOINs, MESSAGEs and the
  consumers of the groups, one call on the file of a group after another.
* `HistoryService.Kept` — **the invariant**: every limit is the manager's, and every history
  keeps a window of that size.
* `HistoryService.limit_honoured_iff` — **every joiner is sent what the command line asks
  for, if and only if the memory happens to stand for the same limit**; and
  `HistoryService.configured_honoured`: so they would be after the missing call.
-/

namespace InstantMessenger

open FileSystemManager GroupFile Transition Lines

/-- `read_args` of `app_server.cpp`: the limit, and the number of the replica where it is
set.  `none` where `stoi` throws an `out_of_range`, which ends the program. -/
def read_args (argv : List Str) : Option (Int × Option Int) :=
  let default : Int := DEFAULT_NUMBER_OF_RECORDED_MESSAGES
  match argv with
  | [_, limit, number] =>
    match Text.stoi limit with
    | none => if Text.isInvalidArgument limit then some (default, none) else none
    | some n =>
      match Text.stoi number with
      | none => if Text.isInvalidArgument number then some (n, none) else none
      | some k => some (n, some k)
  | _ => some (default, none)

/-- A limit is an `int`. -/
theorem le_of_read_args {argv : List Str} {n : Int} {number : Option Int}
    (h : read_args argv = some (n, number)) : n ≤ Text.INT_MAX := by
  unfold read_args at h
  have hdefault : (DEFAULT_NUMBER_OF_RECORDED_MESSAGES : Int) ≤ Text.INT_MAX := by decide
  simp only at h
  split at h
  · split at h
    · split at h
      · cases h
        exact hdefault
      · cases h
    · rename_i hn
      split at h
      · split at h
        · cases h
          exact Text.le_of_stoi hn
        · cases h
      · cases h
        exact Text.le_of_stoi hn
  · cases h
    exact hdefault

/-- What the history of a group depends on. -/
structure HistoryService where
  /-- The field of `ServerGroupManager`. -/
  maxNumberOfMessagesOnHistory : Int
  /-- The groups made so far, each with the limit of its `FileSystemManager`. -/
  groupMap : Str → Option Int
  /-- The messages of a group that its consumer has not taken. -/
  queue : Str → List Message
  /-- The file of a group, and everything stored in it. -/
  histories : Str → HistoryRun

/-- An append to a history, whatever the message. -/
def HistoryRun.append (maxN : Int) (m : Message) (r : HistoryRun) : HistoryRun where
  file := r.file.appendGroupMessageToHistory maxN m
  stored := if m.isNotification then r.stored else r.stored ++ [m]
  appended := if m.isNotification then r.appended else r.appended + 1

/-- It is the call of a run, when the file can carry the message. -/
theorem HistoryRun.step_append (maxN : Int) {groupName : Str} (r : HistoryRun) {m : Message}
    (h : m.isNotification = true ∨ Recordable groupName m) :
    HistoryRun.step maxN groupName r (.append m) = some (r.append maxN m) := by
  rcases h with h | h
  · simp [HistoryRun.step, HistoryRun.append, h]
  · simp [HistoryRun.step, HistoryRun.append, h, h.stored]

/-- A read of a history. -/
def HistoryRun.read (maxN : Int) (groupName : Str) (r : HistoryRun) : HistoryRun :=
  { r with file := (r.file.readGroupHistoryMessages maxN groupName).1 }

namespace HistoryService

/-! ## The calls -/

/-- `Server::configureFilesystemManager`, which hands the limit on to the manager. -/
def configureFilesystemManager (maxNumberOfMessagesInHistory : Int) (s : HistoryService) :
    HistoryService :=
  { s with maxNumberOfMessagesOnHistory := maxNumberOfMessagesInHistory }

/-- The limit of a group, which is made with the manager's when it does not exist. -/
def limitOf (s : HistoryService) (group : Str) : Int :=
  (s.groupMap group).getD s.maxNumberOfMessagesOnHistory

/-- What `Group::sendHistoryToUser` sends to a client that joins. -/
def sendHistoryToUser (s : HistoryService) (group : Str) : Option (List Message) :=
  ((s.histories group).file.readGroupHistoryMessages (s.limitOf group) group).2

/-- `ServerGroupManager::registerUserToGroup`, with what `Group::registerNewSession` does to
the history and the queue; a user that is new to the group is announced. -/
def registerUserToGroup (s : HistoryService) (username group : Str) (isNew : Bool) (now : Int) :
    HistoryService :=
  { s with
    groupMap := Function.update s.groupMap group (some (s.limitOf group))
    histories := Function.update s.histories group
      ((s.histories group).read (s.limitOf group) group)
    queue := if isNew then
        Function.update s.queue group (s.queue group ++
          [{ text := JOINED_MESSAGE, user := username, group, time := now,
             isNotification := true }])
      else s.queue }

/-- `ServerGroupManager::processReceivedPacket`. -/
def processReceivedPacket (s : HistoryService) (username group text : Str) (now : Int) :
    HistoryService :=
  if s.groupMap group = none then s
  else
    { s with
      queue := Function.update s.queue group
        (s.queue group ++ [{ text, user := username, group, time := now }]) }

/-- `Group::consumeMessageQueue` takes a message and stores it. -/
def consumeMessageQueue (s : HistoryService) (group : Str) : Option HistoryService :=
  match s.groupMap group, s.queue group with
  | some limit, m :: rest =>
    some
      { s with
        queue := Function.update s.queue group rest
        histories := Function.update s.histories group ((s.histories group).append limit m) }
  | _, _ => none

/-- Who moves. -/
inductive Label where
  | join (username group : Str) (isNew : Bool) (now : Int)
  | message (username group text : Str) (now : Int)
  | consume (group : Str)

def step (s : HistoryService) : Label → Option HistoryService
  | .join username group isNew now => some (s.registerUserToGroup username group isNew now)
  | .message username group text now => some (s.processReceivedPacket username group text now)
  | .consume group => s.consumeMessageQueue group

/-- The server as `main` starts it: the manager's limit is what the memory held, no group
exists, and there may be files of records from before. -/
structure Started (memory : Int) (s : HistoryService) : Prop where
  limit : s.maxNumberOfMessagesOnHistory = memory
  groups : ∀ group, s.groupMap group = none
  queues : ∀ group, s.queue group = []
  histories : ∀ group, HistoryRun.Start group (s.histories group)

/-- A server that was started with this command line, in this memory.  `main` keeps the
limit in a variable of its own. -/
def service (argv : List Str) (memory : Int) : System HistoryService Label where
  init s := (∃ limit number, read_args argv = some (limit, number)) ∧ Started memory s
  step := step

/-- The calls that a file of records carries: it has no more than `INT_MAX` lines, and the
fields of a stored message have no newline and no separator. -/
def Carried (s : HistoryService) : Label → Prop
  | .join _ group _ _ => (s.histories group).InRange
  | .message .. => True
  | .consume group => (s.histories group).InRange ∧
      ∀ m ∈ (s.queue group).head?, m.isNotification = true ∨ Recordable group m

/-! ## The invariant -/

/-- Every limit is the manager's, and every history keeps a window of that size. -/
structure Kept (memory : Int) (s : HistoryService) : Prop where
  limit : s.maxNumberOfMessagesOnHistory = memory
  groups : ∀ group limit, s.groupMap group = some limit → limit = memory
  windows : ∀ group, ∃ ms, HistoryRun.Window (getMaxNumberOfMessagesInHistory memory) group
    (s.histories group) ms

variable {memory : Int} {s t : HistoryService}

theorem Kept.limitOf (h : Kept memory s) (group : Str) : s.limitOf group = memory := by
  rw [HistoryService.limitOf]
  cases hg : s.groupMap group with
  | none => exact h.limit
  | some limit => exact h.groups group limit hg

theorem kept_of_started (h : Started memory s) : Kept memory s := by
  refine ⟨h.limit, ?_, ?_⟩
  · intro group limit hg
    rw [h.groups group] at hg
    cases hg
  · intro group
    have hstart := h.histories group
    refine ⟨(s.histories group).stored, hstart.holds, hstart.opens, List.suffix_refl _,
      Nat.min_le_right .., ?_⟩
    rw [hstart.appended]
    exact fun hpos => absurd hpos (Nat.lt_irrefl 0)

theorem kept_registerUserToGroup (h : Kept memory s) {group : Str}
    (hrange : (s.histories group).InRange) (username : Str) (isNew : Bool) (now : Int) :
    Kept memory (s.registerUserToGroup username group isNew now) := by
  refine ⟨h.limit, ?_, ?_⟩
  · refine (Function.forall_update_iff s.groupMap fun g l => ∀ limit, l = some limit →
      limit = memory).2 ⟨?_, fun g _ => h.groups g⟩
    intro limit hlimit
    rw [← Option.some.inj hlimit, h.limitOf]
  · refine (Function.forall_update_iff s.histories fun g r => ∃ ms,
      HistoryRun.Window (getMaxNumberOfMessagesInHistory memory) g r ms).2
        ⟨?_, fun g _ => h.windows g⟩
    obtain ⟨ms, hms⟩ := h.windows group
    rw [h.limitOf]
    exact ⟨_, (hms.read hrange).1⟩

theorem kept_processReceivedPacket (h : Kept memory s) (username group text : Str) (now : Int) :
    Kept memory (s.processReceivedPacket username group text now) := by
  unfold processReceivedPacket
  split
  · exact h
  · exact ⟨h.limit, h.groups, h.windows⟩

theorem kept_consumeMessageQueue (h : Kept memory s) {group : Str}
    (hok : Carried s (.consume group)) (hst : s.consumeMessageQueue group = some t) :
    Kept memory t := by
  obtain ⟨hrange, hclean⟩ := hok
  unfold consumeMessageQueue at hst
  split at hst
  · rename_i limit m rest hgroup hqueue
    cases hst
    refine ⟨h.limit, h.groups, ?_⟩
    refine (Function.forall_update_iff s.histories fun g r => ∃ ms,
      HistoryRun.Window (getMaxNumberOfMessagesInHistory memory) g r ms).2
        ⟨?_, fun g _ => h.windows g⟩
    obtain ⟨ms, hms⟩ := h.windows group
    rw [h.groups group limit hgroup]
    rw [hqueue] at hclean
    have hmove := HistoryRun.step_append memory (s.histories group) (hclean m rfl)
    exact hms.move hrange hmove
  · cases hst

/-- **One call keeps the invariant.** -/
theorem Kept.step (h : Kept memory s) {l : Label} (hok : Carried s l)
    (hst : s.step l = some t) : Kept memory t := by
  cases l with
  | join username group isNew now =>
    cases hst
    exact kept_registerUserToGroup h hok username isNew now
  | message username group text now =>
    cases hst
    exact kept_processReceivedPacket h username group text now
  | consume group => exact kept_consumeMessageQueue h hok hst

theorem kept {argv : List Str} (h : (service argv memory).ReachesWhen Carried s) :
    Kept memory s := by
  refine h.invariant ?_ ?_
  · intro s hs
    exact kept_of_started hs.2
  · intro s l t hs hok hst
    exact hs.step hok hst

/-- **What a joiner is sent**: the last stored messages, as many as the memory stands for. -/
theorem sendHistoryToUser_eq (h : Kept memory s) {group : Str}
    (hrange : (s.histories group).InRange) :
    s.sendHistoryToUser group =
      some ((s.histories group).stored.rtake (getMaxNumberOfMessagesInHistory memory)) := by
  obtain ⟨ms, hms⟩ := h.windows group
  rw [sendHistoryToUser, h.limitOf]
  exact (hms.read hrange).2

/-! ## The result -/

/-- Every joiner is sent the last messages stored for its group, as many as `limit`. -/
def Honours (limit : Nat) (s : HistoryService) : Prop :=
  ∀ group, (s.histories group).InRange →
    s.sendHistoryToUser group = some ((s.histories group).stored.rtake limit)

/-- The messages of a group with so many records. -/
def records (k : Nat) (group : Str) : List Message :=
  List.replicate k { text := "a".toList, user := "u".toList, group, time := 7 }

/-- A server that finds so many records for every group. -/
def withRecords (memory : Int) (k : Nat) : HistoryService where
  maxNumberOfMessagesOnHistory := memory
  groupMap _ := none
  queue _ := []
  histories group :=
    { file := ⟨true, some (joinLines '\n' ((records k group).map row)), none⟩
      stored := records k group
      appended := 0 }

theorem recordable_records {k : Nat} {group : Str} :
    ∀ m ∈ records k group, Recordable group m := by
  intro m hm
  have huser : Clean "u".toList := by decide
  have htext : Clean "a".toList := by decide
  have htime : Text.LONG_MIN ≤ 7 ∧ 7 ≤ Text.LONG_MAX := by decide
  rw [List.eq_of_mem_replicate hm]
  exact ⟨rfl, rfl, huser, htext, htime⟩

theorem started_withRecords (memory : Int) (k : Nat) : Started memory (withRecords memory k) where
  limit := rfl
  groups _ := rfl
  queues _ := rfl
  histories _ := ⟨⟨rfl, recordable_records, rfl, fun _ => rfl⟩, rfl, rfl⟩

theorem inRange_withRecords (memory : Int) {k : Nat} (hk : k ≤ Text.INT_MAX) (group : Str) :
    ((withRecords memory k).histories group).InRange := by
  have hlen := ((started_withRecords memory k).histories group).holds.length_lines
  rw [HistoryRun.InRange, hlen]
  exact le_of_eq_of_le (congrArg Nat.cast List.length_replicate) hk

/-- A joiner is not sent what another limit asks for, when there is one record more than the
smaller limit. -/
theorem not_honours_withRecords {memory : Int} {limit k : Nat}
    (hne : getMaxNumberOfMessagesInHistory memory ≠ limit)
    (hk : k = min (getMaxNumberOfMessagesInHistory memory) limit + 1) (hmax : k ≤ Text.INT_MAX) :
    ¬ Honours limit (withRecords memory k) := by
  intro h
  have hrange := inRange_withRecords memory hmax "g".toList
  have hsent := h "g".toList hrange
  rw [sendHistoryToUser_eq (kept_of_started (started_withRecords memory k)) hrange] at hsent
  have hlen := congrArg List.length (Option.some.inj hsent)
  have hstored : ((withRecords memory k).histories "g".toList).stored.length = k :=
    List.length_replicate
  rw [Recent.length_rtake, Recent.length_rtake, hstored] at hlen
  omega

theorem getMaxNumberOfMessagesInHistory_of_pos {n : Int} (h : 0 < n) :
    getMaxNumberOfMessagesInHistory n = n.toNat := if_neg (not_le.2 h)

theorem honours_of_kept {memory : Int} {s : HistoryService} (h : Kept memory s) :
    Honours (getMaxNumberOfMessagesInHistory memory) s :=
  fun _ hrange => sendHistoryToUser_eq h hrange

/-- **When the configured limit is honoured.**  For a server that was started with a limit of
`n`, in every run of calls that the files carry, every joiner is sent the last `n` messages
stored for its group, if and only if the memory of the manager stands for `n` as well. -/
theorem limit_honoured_iff {argv : List Str} {n : Int} {number : Option Int}
    (hargs : read_args argv = some (n, number)) (hn : 0 < n) {memory : Int}
    (hmemory : memory ≤ Text.INT_MAX) :
    (∀ s, (service argv memory).ReachesWhen Carried s → Honours n.toNat s) ↔
      getMaxNumberOfMessagesInHistory memory = n.toNat := by
  constructor
  · intro h
    by_contra hne
    have hn' := le_of_read_args hargs
    have hmemory' := getMaxNumberOfMessagesInHistory_le hmemory
    refine not_honours_withRecords hne rfl ?_ (h _ (.start ⟨⟨n, number, hargs⟩,
      started_withRecords memory _⟩))
    omega
  · intro heq s hs
    rw [← heq]
    exact honours_of_kept (kept hs)

/-- The memory stands for three, which is what the command line asks for. -/
theorem limit_honoured_iff_three :
    (withRecords 3 4).sendHistoryToUser "g".toList = some (records 3 "g".toList) :=
  (@limit_honoured_iff ["server".toList, "3".toList, "1".toList] 3 (some 1) (by decide +kernel)
    (by decide) 3 (by decide)).2 rfl (withRecords 3 4)
      (.start ⟨⟨3, some 1, by decide +kernel⟩, started_withRecords 3 4⟩) "g".toList
      (inRange_withRecords 3 (by decide) _)

/-- **A limit that gets lost.**  The command line asks for three messages, the memory was
zero, and with four records a joiner is sent all of them. -/
theorem limit_honoured_counterexample :
    read_args ["server".toList, "3".toList, "1".toList] = some (3, some 1) ∧
      ∃ s, (service ["server".toList, "3".toList, "1".toList] 0).Reachable s ∧ ¬ Honours 3 s :=
  ⟨by decide +kernel, withRecords 0 4,
    .start ⟨⟨3, some 1, by decide +kernel⟩, started_withRecords 0 4⟩,
    not_honours_withRecords (by decide) rfl (by decide)⟩

/-! ## With the missing call -/

/-- The server as it would be if `main` handed its limit on before it did anything else. -/
def configuredService (argv : List Str) : System HistoryService Label where
  init s := ∃ limit number memory t, read_args argv = some (limit, number) ∧
    Started memory t ∧ s = t.configureFilesystemManager limit
  step := step

/-- What the call would leave. -/
theorem started_configureFilesystemManager {memory : Int} {s : HistoryService}
    (h : Started memory s) (n : Int) : Started n (s.configureFilesystemManager n) :=
  ⟨rfl, h.groups, h.queues, h.histories⟩

/-- **After the missing call** every joiner is sent what was asked for, whatever the memory
held. -/
theorem configured_honoured {argv : List Str} {n : Int} {number : Option Int}
    (hargs : read_args argv = some (n, number)) (hn : 0 < n) {s : HistoryService}
    (h : (configuredService argv).ReachesWhen Carried s) : Honours n.toNat s := by
  have hkept : Kept n s := by
    refine h.invariant ?_ fun _ _ _ hs hok hst => hs.step hok hst
    rintro _ ⟨limit, number', memory, t, hlimit, ht, rfl⟩
    rw [hargs] at hlimit
    cases hlimit
    exact kept_of_started (started_configureFilesystemManager ht n)
  rw [← getMaxNumberOfMessagesInHistory_of_pos hn]
  exact honours_of_kept hkept

end HistoryService

end InstantMessenger
