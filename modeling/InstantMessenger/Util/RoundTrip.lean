import InstantMessenger.Util.GroupFile

/-!
# A record goes through the file

`appendGroupMessageToHistory` writes the user, the text and the time with separators
between them and a newline behind them; `readGroupHistoryMessages` cuts the file into
lines and the lines into cells.  The server hands over whatever bytes a packet had, so a
file may hold lines that are no records, and a line may be only a part of one.

* `StoredFile` — the file between two calls: whole lines, whatever they are.  The absent file
  is one, and the calls lead from such files to such files.
* `GroupFile.clean_of_parseLine` — **what is read is clean**: no field of a message read
  from a file has a newline or a separator in it, whatever was written.
* `GroupFile.overflows` — the counter of the crop goes beyond `INT_MAX`.
* `GroupFile.RoundTrips` — a message that was appended is the last one that is read, and
  the records before it are what the lines of the file say.
* `GroupFile.roundTrips_iff` — **this is so exactly for** clean fields, a file that can be
  opened, lines that are records and few enough of them;
  `GroupFile.roundTrips_counterexample` — a text of two lines, and the next message.
-/

namespace InstantMessenger

open FileSystemManager Lines

/-- The file of a group between two calls of the program: it consists of whole lines, its
temporary file is gone, and it is where a file can be opened. -/
structure StoredFile extends GroupFile where
  whole : toGroupFile.contents = joinLines '\n' toGroupFile.lines
  noTemp : temp = none
  placed : file ≠ none → opens = true

namespace GroupFile

/-- A text of lines is whole. -/
theorem whole_of_contents {f : GroupFile} {ls : List Str} (h : f.contents = joinLines '\n' ls)
    (hls : ∀ l ∈ ls, '\n' ∉ l) : f.contents = joinLines '\n' f.lines := by
  rw [lines_of_file h hls, h]

theorem mem_of_mem_cropLoop {α : Type*} {lines : List α} {x : α} {rounds : Nat} {i : Int}
    (h : x ∈ cropLoop lines rounds i) : x ∈ lines := by
  induction rounds generalizing i with
  | zero => cases h
  | succ rounds ih =>
    rw [cropLoop] at h
    split at h
    · rcases List.mem_append.1 h with hfirst | hrest
      · split at hfirst
        · exact List.mem_of_getElem? (Option.mem_toList.1 hfirst)
        · cases hfirst
      · exact ih hrest
    · cases h

end GroupFile

namespace StoredFile

variable (maxN : Int)

/-- No message was stored yet. -/
def absent (opens : Bool) : StoredFile where
  opens := opens
  file := none
  temp := none
  whole := rfl
  noTemp := rfl
  placed h := absurd rfl h

/-- A crop writes whole lines. -/
def crop (isWrite : Bool) (f : StoredFile) : StoredFile where
  toGroupFile := f.toGroupFile.cropToFileHistoryLimit maxN isWrite
  whole := by
    rw [GroupFile.cropToFileHistoryLimit]
    dsimp only
    split
    · have hnew : ∀ ls : List Str, f.temp.getD [] ++ joinLines '\n' ls = joinLines '\n' ls := by
        intro ls
        rw [f.noTemp]
        rfl
      exact GroupFile.whole_of_contents (hnew _) fun l hl =>
        GroupFile.newline_not_mem_lines (GroupFile.mem_of_mem_cropLoop hl)
    · exact f.whole
  noTemp := (GroupFile.crop_temp maxN isWrite f.noTemp).1
  placed hfile := by
    rw [GroupFile.crop_opens]
    exact f.placed ((GroupFile.crop_temp maxN isWrite f.noTemp).2 hfile)

/-- And so does an append, of any message. -/
def append (m : Message) (f : StoredFile) : StoredFile where
  toGroupFile := f.toGroupFile.appendGroupMessageToHistory maxN m
  whole := by
    rw [GroupFile.appendGroupMessageToHistory]
    dsimp only
    split
    · exact f.whole
    · split
      · have hold := (f.crop maxN true).whole
        have hnew := joinLines_getlines_concat (d := '\n') (row m)
        have htext : (f.crop maxN true).contents ++ (row m ++ ['\n']) = joinLines '\n'
            ((f.crop maxN true).lines ++ getlines '\n' (row m ++ ['\n'])) := by
          rw [joinLines_append, hnew, ← hold]
        refine GroupFile.whole_of_contents htext ?_
        intro l hl
        rcases List.mem_append.1 hl with hl | hl
        · exact GroupFile.newline_not_mem_lines hl
        · exact not_mem_of_mem_getlines hl
      · exact (f.crop maxN true).whole
  noTemp := by
    rw [GroupFile.appendGroupMessageToHistory]
    dsimp only
    split
    · exact f.noTemp
    · split <;> exact (f.crop maxN true).noTemp
  placed hfile := by
    rw [GroupFile.append_opens]
    by_contra hclosed
    refine hclosed (f.placed fun hnone => hfile ?_)
    rw [GroupFile.appendGroupMessageToHistory]
    dsimp only
    have hcrop : (f.toGroupFile.cropToFileHistoryLimit maxN true).file = none := by
      by_contra hsome
      exact (GroupFile.crop_temp maxN true f.noTemp).2 hsome hnone
    split
    · exact hnone
    · rw [GroupFile.crop_opens, if_neg hclosed]
      exact hcrop

/-- A read leaves what its crop leaves. -/
def read (groupName : Str) (f : StoredFile) : StoredFile where
  toGroupFile := (f.toGroupFile.readGroupHistoryMessages maxN groupName).1
  whole := (f.crop maxN false).whole
  noTemp := (f.crop maxN false).noTemp
  placed := (f.crop maxN false).placed

end StoredFile

namespace GroupFile

/-- Every field of a message that is read is clean. -/
theorem clean_of_parseLine {groupName line : Str} {m : Message}
    (h : parseLine groupName line = some m) (hline : '\n' ∉ line) :
    Clean m.user ∧ Clean m.text := by
  have hcell : ∀ cell ∈ getlines FILE_SEPARATOR line, Clean cell := fun cell hcell =>
    ⟨fun hmem => hline (subset_of_mem_getlines hcell hmem), not_mem_of_mem_getlines hcell⟩
  rw [parseLine] at h
  split at h
  · rename_i user text time rest hcells
    rw [hcells] at hcell
    cases h
    exact ⟨hcell user (by simp), hcell text (by simp)⟩
  · cases h

/-- All lines are records. -/
theorem mapM_eq_some {α β : Type*} {p : α → Option β} {ls : List α} {rs : List β} :
    ls.mapM p = some rs ↔ ls.map p = rs.map some := by
  induction ls generalizing rs with
  | nil => cases rs <;> simp
  | cons l ls ih =>
    rw [List.mapM_cons]
    cases hl : p l with
    | none => cases rs <;> simp [hl]
    | some r =>
      cases rs with
      | nil => cases ls.mapM p <;> simp
      | cons r' rs =>
        have hrest : ls.mapM p = some rs ↔ ls.map p = rs.map some := ih
        cases hm : ls.mapM p <;> rw [hm] at hrest <;> simp_all

theorem exists_map_some {α β : Type*} {p : α → Option β} {ls : List α}
    (h : ∀ l ∈ ls, (p l).isSome = true) : ∃ rs : List β, ls.map p = rs.map some := by
  induction ls with
  | nil => exact ⟨[], rfl⟩
  | cons l ls ih =>
    obtain ⟨r, hr⟩ := Option.isSome_iff_exists.1 (h l List.mem_cons_self)
    obtain ⟨rs, hrs⟩ := ih fun k hk => h k (List.mem_cons_of_mem _ hk)
    exact ⟨r :: rs, by rw [List.map_cons, List.map_cons, hr, hrs]⟩

/-! ## The counter of the crop -/

/-- The loop of `cropToFileHistoryLimit`, over so many lines, makes `INT_MAX + 1` out of its
counter, at most so many rounds: what happens then is not defined. -/
def loopOverflows (size : Nat) : Nat → Int → Prop
  | 0, _ => False
  | rounds + 1, i => toSize i < size ∧ (i = Text.INT_MAX ∨ loopOverflows size rounds (i + 1))

/-- A crop of the file does. -/
def overflows (maxN : Int) (isWrite : Bool) (f : GroupFile) : Prop :=
  let limit := getMaxNumberOfMessagesInHistory maxN
  let isWriteDiscount := if isWrite then 1 else 0
  f.lines.length > limit ∧ loopOverflows f.lines.length (f.lines.length + 1)
    (toInt (f.lines.length - (limit - isWriteDiscount)))

theorem not_loopOverflows {size : Nat} (hsize : (size : Int) ≤ Text.INT_MAX) {rounds : Nat}
    {i : Int} (hi : 0 ≤ i) (hmax : i ≤ Text.INT_MAX) : ¬loopOverflows size rounds i := by
  induction rounds generalizing i with
  | zero => exact id
  | succ rounds ih =>
    rintro ⟨hlt, hover⟩
    rw [toSize_of_nonneg hi hmax] at hlt
    rcases hover with rfl | hover
    · omega
    · exact ih (by omega) (by omega) hover

theorem loopOverflows_of_lt {size : Nat} (hsize : Text.INT_MAX < size) {rounds : Nat}
    {i : Int} (hi : 0 ≤ i) (hmax : i ≤ Text.INT_MAX) (hrounds : Text.INT_MAX - i < rounds) :
    loopOverflows size rounds i := by
  induction rounds generalizing i with
  | zero => omega
  | succ rounds ih =>
    refine ⟨by rw [toSize_of_nonneg hi hmax]; omega, ?_⟩
    rcases Int.lt_or_eq_of_le hmax with hlt | heq
    · exact .inr (ih (by omega) (by omega) (by push_cast at hrounds; omega))
    · exact .inl heq

/-- A start that has become negative ends the loop at once. -/
theorem not_loopOverflows_of_neg {size : Nat} (hsize : (size : Int) ≤ 2 ^ 63) {i : Int}
    (hi : i < 0) (hmin : -2 ^ 31 ≤ i) (rounds : Nat) : ¬loopOverflows size rounds i := by
  cases rounds with
  | zero => exact id
  | succ rounds =>
    rintro ⟨hlt, -⟩
    have hge := toSize_of_neg hi hmin
    omega

theorem toInt_range (n : Int) : -2 ^ 31 ≤ toInt n ∧ toInt n ≤ Text.INT_MAX := by
  unfold toInt Text.INT_MAX
  omega

/-- The limit and the number of lines are such that the counter of the crop, an `int`, gets
along: of a longer file nothing is kept, which is right only where nothing is asked for. -/
def IntCounts (limit size : Nat) : Prop :=
  size < Text.INT_MAX ∨ size = Text.INT_MAX ∧ limit < Text.INT_MAX ∨ limit = 1 ∧ toInt size < 0

/-! ## The round trip -/

/-- The message is appended and the file is read: the reader finds three cells in every line,
the message is the last one, and the records before it are what the last lines of the file
say, as many as the limit leaves room for.  No counter overflows. -/
def RoundTrips (maxN : Int) (f : GroupFile) (m : Message) : Prop :=
  ¬overflows maxN true f ∧ ¬overflows maxN false (f.appendGroupMessageToHistory maxN m) ∧
  ∃ records last,
    ((f.appendGroupMessageToHistory maxN m).readGroupHistoryMessages maxN m.group).2 =
      some (records ++ [last]) ∧
    records.map some = (f.lines.map (parseLine m.group)).rtake
      (getMaxNumberOfMessagesInHistory maxN - 1) ∧
    last.user = m.user ∧ last.text = m.text ∧ last.group = m.group ∧ last.time = m.time

section

variable {maxN : Int} {m : Message}

/-- In a file that is short enough the counter gets along. -/
theorem not_overflows {f : GroupFile} (hlen : (f.lines.length : Int) ≤ Text.INT_MAX)
    (isWrite : Bool) : ¬overflows maxN isWrite f := by
  rintro ⟨habove, hover⟩
  have hpos := getMaxNumberOfMessagesInHistory_pos maxN
  refine not_loopOverflows hlen ?_ (toInt_range _).2 hover
  rw [toInt_of_range] <;> cases isWrite <;>
    simp only [if_true, if_false, Bool.false_eq_true] <;> omega

/-- And the crop leaves the last lines. -/
theorem lines_crop (maxN : Int) (f : StoredFile)
    (hlen : (f.lines.length : Int) ≤ Text.INT_MAX) (isWrite : Bool) : (f.crop maxN isWrite).lines =
      croppedRows (getMaxNumberOfMessagesInHistory maxN) (if isWrite then 1 else 0) f.lines :=
  lines_of_file (contents_crop maxN isWrite f.noTemp f.whole hlen) fun _ hl =>
    newline_not_mem_lines ((croppedRows_sublist _ _ _).subset hl)

/-- A longer file is emptied. -/
theorem lines_crop_of_lt (f : StoredFile) (hmax : maxN ≤ Text.INT_MAX)
    (hlen : Text.INT_MAX < f.lines.length) (hsize : (f.lines.length : Int) ≤ 2 ^ 63)
    (hstart : toInt (f.lines.length - (getMaxNumberOfMessagesInHistory maxN - 1)) < 0) :
    ¬overflows maxN true f.toGroupFile ∧ (f.crop maxN true).lines = [] := by
  have hlimit := getMaxNumberOfMessagesInHistory_le hmax
  have habove : f.lines.length > getMaxNumberOfMessagesInHistory maxN := by omega
  refine ⟨fun hover => not_loopOverflows_of_neg hsize hstart (toInt_range _).1 _ hover.2, ?_⟩
  have hcrop : (f.crop maxN true).contents = [] := by
    show (f.toGroupFile.cropToFileHistoryLimit maxN true).contents = []
    rw [GroupFile.cropToFileHistoryLimit]
    simp only [if_pos habove, if_true]
    show f.temp.getD [] ++ joinLines '\n' (cropLoop f.lines _ _) = []
    rw [f.noTemp, cropLoop_of_neg hsize hstart (toInt_range _).1]
    rfl
  rw [GroupFile.lines, hcrop, getlines_nil]

/-- Otherwise its counter does not stop in time. -/
theorem overflows_of_lt (f : GroupFile) (hmax : maxN ≤ Text.INT_MAX)
    (hlen : Text.INT_MAX < f.lines.length)
    (hstart : 0 ≤ toInt (f.lines.length - (getMaxNumberOfMessagesInHistory maxN - 1))) :
    overflows maxN true f := by
  have hlimit := getMaxNumberOfMessagesInHistory_le hmax
  refine ⟨by omega, ?_⟩
  simp only [if_true]
  exact loopOverflows_of_lt hlen hstart (toInt_range _).2 (by push_cast; omega)

/-- A message with clean fields is one line more. -/
theorem lines_append (maxN : Int) (f : StoredFile) (hopens : f.opens = true)
    (hm : m.isNotification = false) (huser : Clean m.user) (htext : Clean m.text) :
    (f.append maxN m).lines = (f.crop maxN true).lines ++ [row m] := by
  have hopens' : (f.toGroupFile.cropToFileHistoryLimit maxN true).opens = true := by
    rw [crop_opens, hopens]
  refine lines_of_file ?_ fun l hl => ?_
  · show (f.toGroupFile.appendGroupMessageToHistory maxN m).contents = _
    rw [GroupFile.appendGroupMessageToHistory, hm]
    simp only [Bool.false_eq_true, if_false, if_pos hopens']
    rw [joinLines_append, ← (f.crop maxN true).whole, joinLines_cons, joinLines_nil]
    rfl
  · rcases List.mem_append.1 hl with hl | hl
    · exact newline_not_mem_lines hl
    · rw [List.mem_singleton.1 hl]
      exact newline_not_mem_row huser.1 htext.1

/-- A file that is not above the limit is read as it is. -/
theorem crop_of_le (f : GroupFile) (isWrite : Bool)
    (h : f.lines.length ≤ getMaxNumberOfMessagesInHistory maxN) :
    f.cropToFileHistoryLimit maxN isWrite = f := if_neg (not_lt.2 h)

theorem not_overflows_of_le {f : GroupFile} {isWrite : Bool}
    (h : f.lines.length ≤ getMaxNumberOfMessagesInHistory maxN) : ¬overflows maxN isWrite f :=
  fun hover => absurd hover.1 (not_lt.2 h)

/-! ### What a round trip needs -/

/-- A message that comes back has clean fields. -/
theorem RoundTrips.clean {f : GroupFile} (h : RoundTrips maxN f m) :
    Clean m.user ∧ Clean m.text := by
  obtain ⟨-, -, records, last, hread, -, huser, htext, -⟩ := h
  have hmap := mapM_eq_some.1 hread
  have hlast : some last ∈ ((records ++ [last]).map some : List (Option Message)) := by simp
  rw [← hmap] at hlast
  obtain ⟨line, hline, hparse⟩ := List.mem_map.1 hlast
  have hclean := clean_of_parseLine hparse (newline_not_mem_lines hline)
  rwa [huser, htext] at hclean

/-- It was written. -/
theorem RoundTrips.opens {f : StoredFile} (h : RoundTrips maxN f.toGroupFile m)
    (hm : m.isNotification = false) : f.opens = true := by
  by_contra hclosed
  obtain ⟨-, -, records, last, hread, -⟩ := h
  have hnone : f.file = none := by
    by_contra hfile
    exact hclosed (f.placed hfile)
  have hlines : f.lines = [] := by
    rw [GroupFile.lines, GroupFile.contents, hnone]
    rfl
  have hcrop : ∀ isWrite, f.toGroupFile.cropToFileHistoryLimit maxN isWrite = f.toGroupFile :=
    fun isWrite => crop_of_le _ _ (by rw [hlines]; exact Nat.zero_le _)
  have happend : f.toGroupFile.appendGroupMessageToHistory maxN m = f.toGroupFile := by
    rw [GroupFile.appendGroupMessageToHistory, hm, hcrop]
    exact if_neg hclosed
  rw [happend, GroupFile.readGroupHistoryMessages, hcrop] at hread
  dsimp only at hread
  rw [hlines] at hread
  have hnil := Option.some.inj hread
  simp at hnil

/-- The lines before it are records. -/
theorem RoundTrips.parsed {f : GroupFile} (h : RoundTrips maxN f m) :
    ∀ l ∈ f.lines.rtake (getMaxNumberOfMessagesInHistory maxN - 1),
      (parseLine m.group l).isSome = true := by
  obtain ⟨-, -, records, last, -, hrecords, -⟩ := h
  intro l hl
  have hmem : parseLine m.group l ∈ records.map some := by
    rw [hrecords, List.rtake, List.length_map, ← List.map_drop]
    exact List.mem_map_of_mem hl
  obtain ⟨r, -, hr⟩ := List.mem_map.1 hmem
  rw [← hr]
  rfl

/-- There are not too many of them. -/
theorem RoundTrips.intCounts {f : StoredFile} (h : RoundTrips maxN f.toGroupFile m)
    (hmax : maxN ≤ Text.INT_MAX) (hsize : (f.lines.length : Int) ≤ 2 ^ 63)
    (hm : m.isNotification = false) :
    IntCounts (getMaxNumberOfMessagesInHistory maxN) f.lines.length := by
  have hlimit := getMaxNumberOfMessagesInHistory_le hmax
  have hpos := getMaxNumberOfMessagesInHistory_pos maxN
  obtain ⟨huser, htext⟩ := h.clean
  have hlines := lines_append maxN f (h.opens hm) hm huser htext
  obtain ⟨hwrite, hread, records, last, hresult, hrecords, -⟩ := h
  rcases lt_trichotomy (f.lines.length : Int) Text.INT_MAX with hlt | heq | hgt
  · exact .inl hlt
  · -- with the limit `INT_MAX` the crop of the reader has one line too many
    refine .inr (.inl ⟨heq, lt_of_le_of_ne hlimit fun hfull => hread ?_⟩)
    have hlength : (f.append maxN m).lines.length = f.lines.length + 1 := by
      rw [hlines]
      show ((f.toGroupFile.cropToFileHistoryLimit maxN true).lines ++ [row m]).length = _
      rw [crop_of_le f.toGroupFile true (by omega), List.length_append, List.length_singleton]
    have hlength' : (f.toGroupFile.appendGroupMessageToHistory maxN m).lines.length =
        f.lines.length + 1 := hlength
    have hone : toInt ((f.lines.length + 1 : Nat) -
        ((getMaxNumberOfMessagesInHistory maxN : Int) - 0)) = 1 := by
      rw [toInt_of_range] <;> omega
    unfold overflows
    simp only [hlength', Bool.false_eq_true, if_false, hone]
    refine ⟨by omega, loopOverflows_of_lt (by omega) (by omega) (by omega) (by omega)⟩
  · -- nothing of the file is left
    have hstart : toInt (f.lines.length - (getMaxNumberOfMessagesInHistory maxN - 1)) < 0 := by
      by_contra hge
      exact hwrite (overflows_of_lt f.toGroupFile hmax hgt (not_lt.1 hge))
    have hempty := (lines_crop_of_lt f hmax hgt hsize hstart).2
    rw [hempty, List.nil_append] at hlines
    have hlength : (f.toGroupFile.appendGroupMessageToHistory maxN m).lines = [row m] := hlines
    rw [GroupFile.readGroupHistoryMessages, crop_of_le _ _ (by rw [hlength]; exact hpos)] at hresult
    dsimp only at hresult
    rw [hlength] at hresult
    have hnone : records = [] := by
      have hcount := congrArg List.length (mapM_eq_some.1 hresult)
      simp only [List.length_map, List.length_append, List.length_singleton] at hcount
      exact List.eq_nil_of_length_eq_zero (by omega)
    have hlast : getMaxNumberOfMessagesInHistory maxN = 1 := by
      rw [hnone, List.map_nil] at hrecords
      have hcount := congrArg List.length hrecords
      rw [Recent.length_rtake, List.length_map, List.length_nil] at hcount
      omega
    rw [hlast] at hstart ⊢
    exact .inr (.inr ⟨rfl, by simpa using hstart⟩)

/-! ### When it comes back -/

/-- What an append and a read make of the lines before. -/
theorem croppedRows_append {α : Type*} {limit : Nat} (hpos : 0 < limit) (rows : List α) (r : α) :
    croppedRows limit 0 (croppedRows limit 1 rows ++ [r]) = rows.rtake (limit - 1) ++ [r] := by
  obtain ⟨n, rfl⟩ : ∃ n, limit = n + 1 := ⟨limit - 1, by omega⟩
  have hcropped : (croppedRows (n + 1) 1 rows).rtake n = rows.rtake n := by
    rw [croppedRows]
    split
    · rename_i habove
      rw [keptLines_eq_rtake habove, Nat.add_sub_cancel, Recent.rtake_rtake rows (le_refl n)]
    · rfl
  have hread : croppedRows (n + 1) 0 (croppedRows (n + 1) 1 rows ++ [r]) =
      (croppedRows (n + 1) 1 rows ++ [r]).rtake (n + 1) := readGroupHistoryMessages_eq_rtake _ _
  rw [hread, List.rtake_concat_succ, hcropped, Nat.add_sub_cancel]

theorem length_croppedRows_one {α : Type*} (limit : Nat) (rows : List α) :
    (croppedRows limit 1 rows).length =
      if rows.length > limit then limit - 1 else rows.length := by
  rw [croppedRows]
  split
  · rename_i habove
    rw [keptLines_eq_rtake habove, Recent.length_rtake]
    omega
  · rfl

/-- Lines that are read, with the message behind them. -/
theorem roundTrips_of_lines {f : StoredFile} (hm : Recordable m.group m)
    (hwrite : ¬overflows maxN true f.toGroupFile)
    (hread : ¬overflows maxN false (f.append maxN m).toGroupFile)
    (hlines : ((f.append maxN m).crop maxN false).lines =
      f.lines.rtake (getMaxNumberOfMessagesInHistory maxN - 1) ++ [row m])
    (hparsed : ∀ l ∈ f.lines.rtake (getMaxNumberOfMessagesInHistory maxN - 1),
      (parseLine m.group l).isSome = true) : RoundTrips maxN f.toGroupFile m := by
  obtain ⟨records, hrecords⟩ := exists_map_some hparsed
  refine ⟨hwrite, hread, records, m, ?_, ?_, rfl, rfl, rfl, rfl⟩
  · show (((f.append maxN m).crop maxN false).lines).mapM (parseLine m.group) = _
    rw [hlines, mapM_eq_some, List.map_append, List.map_append, hrecords, List.map_singleton,
      parseLine_row hm]
    rfl
  · rw [← hrecords, List.rtake, List.rtake, List.length_map, ← List.map_drop]

/-- A message that the file can carry comes back. -/
theorem roundTrips_of_counts {f : StoredFile} (hmax : maxN ≤ Text.INT_MAX)
    (hsize : (f.lines.length : Int) ≤ 2 ^ 63) (hopens : f.opens = true)
    (hm : Recordable m.group m)
    (hparsed : ∀ l ∈ f.lines.rtake (getMaxNumberOfMessagesInHistory maxN - 1),
      (parseLine m.group l).isSome = true)
    (hcounts : IntCounts (getMaxNumberOfMessagesInHistory maxN) f.lines.length) :
    RoundTrips maxN f.toGroupFile m := by
  have hlimit := getMaxNumberOfMessagesInHistory_le hmax
  have hpos := getMaxNumberOfMessagesInHistory_pos maxN
  have happend := lines_append maxN f hopens hm.stored hm.user hm.text
  rcases le_or_gt (f.lines.length : Int) Text.INT_MAX with hlen | hlen
  · have hcrop := lines_crop maxN f hlen true
    rw [if_pos rfl] at hcrop
    rw [hcrop] at happend
    have hnew : ((f.append maxN m).lines.length : Int) ≤ Text.INT_MAX := by
      rw [happend, List.length_append, length_croppedRows_one, List.length_singleton]
      unfold IntCounts at hcounts
      rw [toInt_of_range (by omega) hlen] at hcounts
      split <;> omega
    refine roundTrips_of_lines hm (not_overflows hlen true) (not_overflows hnew false) ?_ hparsed
    rw [lines_crop maxN _ hnew, happend]
    exact croppedRows_append hpos f.lines (row m)
  · -- of a file that is too long nothing is left, and nothing is asked for
    obtain ⟨hone, hneg⟩ : getMaxNumberOfMessagesInHistory maxN = 1 ∧ toInt f.lines.length < 0 := by
      rcases hcounts with hlt | ⟨heq, -⟩ | hlast
      · omega
      · omega
      · exact hlast
    have hstart : toInt (f.lines.length - (getMaxNumberOfMessagesInHistory maxN - 1)) < 0 := by
      rw [hone]
      simpa using hneg
    obtain ⟨hwrite, hempty⟩ := lines_crop_of_lt f hmax hlen hsize hstart
    rw [hempty, List.nil_append] at happend
    have hshort : (f.append maxN m).lines.length ≤ getMaxNumberOfMessagesInHistory maxN := by
      rw [happend]
      exact hpos
    refine roundTrips_of_lines hm hwrite (not_overflows_of_le hshort) ?_ hparsed
    show ((f.append maxN m).toGroupFile.cropToFileHistoryLimit maxN false).lines = _
    rw [crop_of_le _ _ hshort, happend, hone]
    simp [List.rtake]

end

/-- **The record round trip.**  A message that is no notification comes back, behind the
records of the lines before it, exactly when the file of its group can be opened, its user
and its text have neither a newline nor a separator in them, the lines that the limit leaves
room for have three cells each, and the counter of the crop gets along with the number of
lines. -/
theorem roundTrips_iff {maxN : Int} (hmax : maxN ≤ Text.INT_MAX) (f : StoredFile)
    (hsize : (f.lines.length : Int) ≤ 2 ^ 63) {m : Message} (hm : m.isNotification = false)
    (htime : Text.LONG_MIN ≤ m.time ∧ m.time ≤ Text.LONG_MAX) :
    RoundTrips maxN f.toGroupFile m ↔ f.opens = true ∧ Clean m.user ∧ Clean m.text ∧
      (∀ l ∈ f.lines.rtake (getMaxNumberOfMessagesInHistory maxN - 1),
        (parseLine m.group l).isSome = true) ∧
      IntCounts (getMaxNumberOfMessagesInHistory maxN) f.lines.length := by
  constructor
  · intro h
    exact ⟨h.opens hm, h.clean.1, h.clean.2, h.parsed, h.intCounts hmax hsize hm⟩
  · rintro ⟨hopens, huser, htext, hparsed, hcounts⟩
    exact roundTrips_of_counts hmax hsize hopens ⟨rfl, hm, huser, htext, htime⟩ hparsed hcounts

/-- A file with one record, and an empty text from an empty user. -/
def oneRecord : Message :=
  { text := "hi".toList, user := "ana".toList, group := "g".toList, time := 1700000000 }

def oneLine : StoredFile where
  opens := true
  file := some (joinLines '\n' [row oneRecord])
  temp := none
  whole := by decide
  noTemp := rfl
  placed _ := rfl

def emptyFields : Message := { text := [], user := [], group := "g".toList, time := -1 }

theorem roundTrips_emptyFields : RoundTrips 3 oneLine.toGroupFile emptyFields :=
  (roundTrips_iff (by decide) oneLine (by decide) rfl (by decide)).2
    ⟨rfl, by decide, by decide, by decide, .inl (by decide)⟩

/-- A text of two lines. -/
def twoLineText : Message :=
  { text := "a\nb".toList, user := "u".toList, group := "g".toList, time := 7 }

/-- Its first line has two cells, and the reader indexes a third: when the message is read,
and when the next one is, whatever that one is. -/
theorem roundTrips_counterexample :
    ((oneLine.append 10 twoLineText).readGroupHistoryMessages 10 "g".toList).2 = none ∧
      ¬RoundTrips 10 oneLine.toGroupFile twoLineText ∧
      ¬RoundTrips 10 (oneLine.append 10 twoLineText).toGroupFile oneRecord := by
  have hread : ((oneLine.append 10 twoLineText).readGroupHistoryMessages 10
      "g".toList).2 = none := by decide
  have hnext : (((oneLine.append 10 twoLineText).append 10 oneRecord).readGroupHistoryMessages 10
      "g".toList).2 = none := by decide
  refine ⟨hread, ?_, ?_⟩
  · rintro ⟨-, -, records, last, hlast, -⟩
    have hsome := hread.symm.trans hlast
    cases hsome
  · rintro ⟨-, -, records, last, hlast, -⟩
    have hsome := hnext.symm.trans hlast
    cases hsome

end GroupFile
end InstantMessenger
