import InstantMessenger.Foundations.CharArray
import InstantMessenger.Foundations.InputFile
import InstantMessenger.Util.Definitions

/-!
# The addresses of the front ends

A client reads `addresses.txt`, whose lines are an address and a port in turn, and draws the
front end it connects to.  `setupConnection` copies a line without its last character, which
is the carriage return of a line that has one.

* `readFEAddressesFile`, `chooseFE`, `setupConnection` — the calls of the constructor; no
  result where what the source does is undefined.
* `AddressesFile` — a file whose lines end in a newline, with or without a carriage return in
  front of it; the last one may lack its end.
* `getlines_contents` — what `getline` sees of it.
* `setsUp_iff` — **when the strings passed to `setupSocket` are the lines**: both lines of the
  front end that is drawn are there, and have their carriage returns.
-/

namespace InstantMessenger
namespace FrontEndAddresses

open Text CharArray Lines InputFile

/-! ## The client -/

/-- The variable `i` and the two vectors after a line was read. -/
def pushLine : Nat × List Str × List Str → Str → Nat × List Str × List Str
  | (i, addresses, ports), line =>
    if i = 0 then ((i + 1) % 2, addresses ++ [line], ports)
    else ((i + 1) % 2, addresses, ports ++ [line])

/-- `Client::readFEAddressesFile`: `addresses` and `ports`. -/
def readFEAddressesFile (file : Option Str) : List Str × List Str :=
  let myfile := opened file
  if myfile.is_open then
    ((getlineLoop '\n' (myfile.rest.length + 1) myfile []).foldl pushLine (0, [], [])).2
  else ([], [])

/-- `Client::chooseFE`, with what `rand` returns; a division by zero when there is no
address. -/
def chooseFE (addresses : List Str) (rand : Nat) : Option Nat :=
  if addresses.length = 0 then none else some (rand % addresses.length)

/-- What is read from an array into which a line was copied without its last character; the
array has the size of the line, and holds something already.  For an empty line the bound of
the copy is `-1`. -/
def copyLine (memory : ∀ n, CharArray n) (line : Str) : Option Str :=
  if line.length = 0 then none
  else some (cstr (((memory line.length).strncpy line (line.length - 1) (Nat.sub_le ..)).set
    (line.length - 1) '\x00').bytes)

/-- `Client::setupConnection`: the front end that is drawn, and the strings that are passed
to `setupSocket`. -/
def setupConnection (memory : ∀ n, CharArray n) (addresses ports : List Str) (rand : Nat) :
    Option (Nat × Str × Str) := do
  let chosenFE ← chooseFE addresses rand
  let address ← copyLine memory (← addresses[chosenFE]?)
  let port ← copyLine memory (← ports[chosenFE]?)
  return (chosenFE, address, port)

/-! ## The file -/

/-- How a line ends. -/
inductive LineEnding where
  | newline
  | carriageReturn
  /-- With the file. -/
  | endOfFile
  deriving DecidableEq, Repr

/-- What `getline` leaves of the end of a line. -/
def LineEnding.left : LineEnding → Str
  | .carriageReturn => ['\r']
  | _ => []

theorem LineEnding.not_mem_left (e : LineEnding) {c : Char} (hc : c ≠ '\r') : c ∉ e.left := by
  cases e <;> simp [left, hc]

/-- A text that can stand in a line. -/
def Clean (line : Str) : Prop := '\n' ∉ line ∧ '\r' ∉ line ∧ '\x00' ∉ line

instance (line : Str) : Decidable (Clean line) := inferInstanceAs (Decidable (_ ∧ _ ∧ _))

/-- A file: its lines with a newline, and what is behind the last one. -/
structure AddressesFile where
  ended : List (Str × Bool)
  last : Str
  clean : ∀ line ∈ ended, Clean line.1
  cleanLast : Clean last

namespace AddressesFile

/-- The end of a line that has a newline; the flag says whether it has a carriage return. -/
def ending (carriageReturn : Bool) : LineEnding :=
  if carriageReturn then .carriageReturn else .newline

/-- The lines of the file, and how they end. -/
def lines (f : AddressesFile) : List (Str × LineEnding) :=
  f.ended.map (fun line => (line.1, ending line.2)) ++
    if f.last = [] then [] else [(f.last, .endOfFile)]

/-- The bytes of the file. -/
def contents (f : AddressesFile) : Str :=
  joinLines '\n' (f.ended.map fun line => line.1 ++ (ending line.2).left) ++ f.last

end AddressesFile

/-- What the connection is set up with: a front end that both vectors have, and its two lines
as they stand in the file. -/
def SetsUp (memory : ∀ n, CharArray n) (f : AddressesFile) (rand : Nat) : Prop :=
  let read := readFEAddressesFile (some f.contents)
  ∃ chosenFE address port,
    setupConnection memory read.1 read.2 rand = some (chosenFE, address, port) ∧
      chosenFE < read.1.length ∧ chosenFE < read.2.length ∧
      (f.lines.map Prod.fst)[2 * chosenFE]? = some address ∧
      (f.lines.map Prod.fst)[2 * chosenFE + 1]? = some port

/-- The front end that is drawn from so many lines. -/
def drawn (lines rand : Nat) : Nat := rand % ((lines + 1) / 2)

/-- Both lines of the front end that is drawn end in a carriage return and a newline. -/
def BothEnded (f : AddressesFile) (rand : Nat) : Prop :=
  ∃ address port, f.lines[2 * drawn f.lines.length rand]? = some (address, .carriageReturn) ∧
    f.lines[2 * drawn f.lines.length rand + 1]? = some (port, .carriageReturn)

/-! ## Every second line -/

/-- The lines at even places, and those at odd ones. -/
def alternate {α : Type*} : List α → List α × List α
  | [] => ([], [])
  | [a] => ([a], [])
  | a :: b :: l => (a :: (alternate l).1, b :: (alternate l).2)

theorem getElem?_alternate {α : Type*} (l : List α) (k : Nat) :
    (alternate l).1[k]? = l[2 * k]? ∧ (alternate l).2[k]? = l[2 * k + 1]? := by
  induction l using alternate.induct generalizing k with
  | case1 => exact ⟨rfl, rfl⟩
  | case2 a =>
    cases k with
    | zero => exact ⟨rfl, rfl⟩
    | succ k => exact ⟨rfl, rfl⟩
  | case3 a b l ih =>
    cases k with
    | zero => exact ⟨rfl, rfl⟩
    | succ k => exact ih k

theorem length_alternate {α : Type*} (l : List α) :
    (alternate l).1.length = (l.length + 1) / 2 ∧ (alternate l).2.length = l.length / 2 := by
  induction l using alternate.induct with
  | case1 => simp [alternate]
  | case2 a => simp [alternate]
  | case3 a b l ih =>
    simp only [alternate, List.length_cons, ih.1, ih.2]
    omega

/-- The loop distributes the lines. -/
theorem foldl_pushLine (lines addresses ports : List Str) :
    (lines.foldl pushLine (0, addresses, ports)).2 =
      (addresses ++ (alternate lines).1, ports ++ (alternate lines).2) := by
  induction lines using alternate.induct generalizing addresses ports with
  | case1 => simp [alternate]
  | case2 a => simp [alternate, pushLine]
  | case3 a b l ih =>
    simp only [List.foldl_cons, pushLine, if_true, Nat.zero_add, Nat.one_mod, one_ne_zero, if_false]
    rw [ih]
    simp [alternate]

/-! ## What is read -/

/-- A line as `getline` gives it. -/
def seen (line : Str × LineEnding) : Str := line.1 ++ line.2.left

theorem AddressesFile.clean_of_mem (f : AddressesFile) {line : Str × LineEnding}
    (h : line ∈ f.lines) : Clean line.1 ∧ (line.2 = .endOfFile → line.1 ≠ []) := by
  rcases List.mem_append.1 h with h | h
  · obtain ⟨entry, hentry, rfl⟩ := List.mem_map.1 h
    refine ⟨f.clean entry hentry, fun hend => ?_⟩
    rcases entry with ⟨_, _ | _⟩ <;> cases hend
  · split at h
    · cases h
    · rename_i hlast
      obtain rfl := List.mem_singleton.1 h
      exact ⟨f.cleanLast, fun _ => hlast⟩

/-- **What `getline` sees**: every line, with its carriage return. -/
theorem getlines_contents (f : AddressesFile) : getlines '\n' f.contents = f.lines.map seen := by
  have hended : ∀ p ∈ f.ended.map (fun line => line.1 ++ (AddressesFile.ending line.2).left),
      '\n' ∉ p := by
    intro p hp
    obtain ⟨line, hline, rfl⟩ := List.mem_map.1 hp
    rw [List.mem_append, not_or]
    exact ⟨(f.clean line hline).1, LineEnding.not_mem_left _ (by decide)⟩
  rw [AddressesFile.contents, getlines_joinLines_append hended, AddressesFile.lines,
    List.map_append, List.map_map]
  refine congrArg₂ (· ++ ·) rfl ?_
  split
  · rename_i hlast
    rw [hlast]
    rfl
  · rename_i hlast
    rw [getlines_of_not_mem hlast f.cleanLast.1]
    simp [seen, LineEnding.left]

theorem readFEAddressesFile_eq (f : AddressesFile) :
    readFEAddressesFile (some f.contents) = alternate (f.lines.map seen) := by
  have hloop : getlineLoop '\n' (f.contents.length + 1) (opened (some f.contents)) [] =
      f.lines.map seen := by
    rw [← getlines_contents]
    exact getlineLoop_eq (good_opened f.contents)
      (Nat.lt_succ_of_le (length_getlines_le '\n' f.contents)) []
  have hread : readFEAddressesFile (some f.contents) =
      ((getlineLoop '\n' (f.contents.length + 1) (opened (some f.contents)) []).foldl pushLine
        (0, [], [])).2 := rfl
  rw [hread, hloop, foldl_pushLine, List.nil_append, List.nil_append]

/-- The last character of a line is not copied. -/
theorem copyLine_eq (memory : ∀ n, CharArray n) {line : Str} (hline : '\x00' ∉ line) :
    copyLine memory line = if line = [] then none else some line.dropLast := by
  unfold copyLine
  by_cases hne : line = []
  · rw [if_pos (by rw [hne]; rfl), if_pos hne]
  · have hlen := List.length_pos_iff.2 hne
    rw [if_neg (by omega), if_neg hne]
    have hcopied : copied line (line.length - 1) = line.dropLast := by
      rw [copied_of_le hline (Nat.sub_le ..), List.dropLast_eq_take]
    have hrest : ((memory line.length).bytes.drop (line.length - 1)).length = 1 := by
      rw [List.length_drop, (memory line.length).size]
      omega
    obtain ⟨c, hc⟩ := List.length_eq_one_iff.1 hrest
    have hnul : '\x00' ∉ line.dropLast := fun hmem => hline (List.dropLast_subset line hmem)
    rw [bytes_set, bytes_strncpy, hc, hcopied, List.set_append_right _ _
      (by rw [List.length_dropLast]), List.length_dropLast, Nat.sub_self]
    exact congrArg some (cstr_append_cons hnul [])

/-- **A line is passed as it stands in the file** when it has its carriage return, and only
then. -/
theorem copyLine_seen_iff (memory : ∀ n, CharArray n) {line : Str × LineEnding}
    (hclean : Clean line.1) (hlast : line.2 = .endOfFile → line.1 ≠ []) :
    copyLine memory (seen line) = some line.1 ↔ line.2 = .carriageReturn := by
  have hnul : '\x00' ∉ seen line := by
    rw [seen, List.mem_append, not_or]
    exact ⟨hclean.2.2, LineEnding.not_mem_left _ (by decide)⟩
  have hdrop : ∀ text : Str, text ≠ [] → text.dropLast ≠ text := by
    intro text hne heq
    have hlen := congrArg List.length heq
    rw [List.length_dropLast] at hlen
    have hpos := List.length_pos_iff.2 hne
    omega
  rw [copyLine_eq memory hnul]
  rcases line with ⟨text, _ | _ | _⟩
  · -- a newline alone: the last character of the text is lost
    refine iff_of_false ?_ (fun h => by cases h)
    simp only [seen, LineEnding.left, List.append_nil]
    split
    · exact fun h => by cases h
    · rename_i hne
      exact fun h => hdrop text hne (Option.some_inj.1 h)
  · refine iff_of_true ?_ rfl
    simp [seen, LineEnding.left]
  · refine iff_of_false ?_ (fun h => by cases h)
    simp only [seen, LineEnding.left, List.append_nil]
    rw [if_neg (hlast rfl)]
    exact fun h => hdrop text (hlast rfl) (Option.some_inj.1 h)

/-! ## The result -/

theorem setupConnection_eq_some_iff {memory : ∀ n, CharArray n} {addresses ports : List Str}
    {rand chosenFE : Nat} {address port : Str} :
    setupConnection memory addresses ports rand = some (chosenFE, address, port) ↔
      chooseFE addresses rand = some chosenFE ∧
      (∃ a, addresses[chosenFE]? = some a ∧ copyLine memory a = some address) ∧
      ∃ p, ports[chosenFE]? = some p ∧ copyLine memory p = some port := by
  simp only [setupConnection, Option.bind_eq_bind, Option.bind_eq_some_iff, Option.pure_def,
    Option.some_inj, Prod.mk.injEq]
  constructor
  · rintro ⟨_, hc, a, ha, _, hcopy, p, hp, _, hcopy', rfl, rfl, rfl⟩
    exact ⟨hc, ⟨a, ha, hcopy⟩, p, hp, hcopy'⟩
  · rintro ⟨hc, ⟨a, ha, hcopy⟩, p, hp, hcopy'⟩
    exact ⟨_, hc, a, ha, _, hcopy, p, hp, _, hcopy', rfl, rfl, rfl⟩

/-- **When the strings passed to `setupSocket` are the lines.**  For every file and every
number drawn: if and only if the two lines of the front end that is drawn are there, and both
end in a carriage return and a newline. -/
theorem setsUp_iff (memory : ∀ n, CharArray n) (f : AddressesFile) (rand : Nat) :
    SetsUp memory f rand ↔ BothEnded f rand := by
  have hlength := length_alternate (f.lines.map seen)
  rw [List.length_map] at hlength
  have hget := getElem?_alternate (f.lines.map seen)
  simp only [SetsUp, readFEAddressesFile_eq, setupConnection_eq_some_iff, hget, hlength,
    List.getElem?_map, Option.map_eq_some_iff]
  constructor
  · rintro ⟨c, address, port, ⟨hc, ⟨_, ⟨a, ha, rfl⟩, hcopy⟩, _, ⟨p, hp, rfl⟩, hcopy'⟩, _, _,
      ⟨a', ha', rfl⟩, p', hp', rfl⟩
    have hdrawn : c = drawn f.lines.length rand := by
      unfold chooseFE at hc
      split at hc
      · cases hc
      · rw [hlength.1] at hc
        exact (Option.some_inj.1 hc).symm
    obtain rfl : a' = a := Option.some_inj.1 (ha'.symm.trans ha)
    obtain rfl : p' = p := Option.some_inj.1 (hp'.symm.trans hp)
    obtain ⟨hclean, hlast⟩ := f.clean_of_mem (List.mem_of_getElem? ha)
    obtain ⟨hclean', hlast'⟩ := f.clean_of_mem (List.mem_of_getElem? hp)
    have hend := (copyLine_seen_iff memory hclean hlast).1 hcopy
    have hend' := (copyLine_seen_iff memory hclean' hlast').1 hcopy'
    rw [hdrawn] at ha hp
    exact ⟨_, _, ha.trans (congrArg some (Prod.ext rfl hend)),
      hp.trans (congrArg some (Prod.ext rfl hend'))⟩
  · rintro ⟨address, port, ha, hp⟩
    have hlt := (List.getElem?_eq_some_iff.1 hp).1
    obtain ⟨hclean, hlast⟩ := f.clean_of_mem (List.mem_of_getElem? ha)
    obtain ⟨hclean', hlast'⟩ := f.clean_of_mem (List.mem_of_getElem? hp)
    refine ⟨drawn f.lines.length rand, address, port, ⟨?_, ⟨_, ⟨_, ha, rfl⟩, ?_⟩,
      _, ⟨_, hp, rfl⟩, ?_⟩, by omega, by omega, ⟨_, ha, rfl⟩, _, hp, rfl⟩
    · rw [chooseFE, hlength.1, if_neg (by omega)]
      rfl
    · exact (copyLine_seen_iff memory hclean hlast).2 rfl
    · exact (copyLine_seen_iff memory hclean' hlast').2 rfl

/-- A file with newlines alone. -/
def newlines : AddressesFile where
  ended := [("127.0.0.1".toList, false), ("4039".toList, false)]
  last := []
  clean := by
    intro line hline
    rcases List.mem_cons.1 hline with rfl | hline
    · decide
    · rw [List.mem_singleton.1 hline]
      decide
  cleanLast := by decide

/-- **A file with newlines alone.**  The only front end is drawn, and the client connects to
port 403 of 127.0.0. -/
theorem setsUp_counterexample :
    newlines.contents = "127.0.0.1\n4039\n".toList ∧
      setupConnection zeroed (readFEAddressesFile (some newlines.contents)).1
          (readFEAddressesFile (some newlines.contents)).2 5 =
        some (0, "127.0.0.".toList, "403".toList) ∧
      ¬ SetsUp zeroed newlines 5 := by
  have hrun : setupConnection zeroed (readFEAddressesFile (some newlines.contents)).1
      (readFEAddressesFile (some newlines.contents)).2 5 =
      some (0, "127.0.0.".toList, "403".toList) := by decide +kernel
  refine ⟨rfl, hrun, ?_⟩
  rintro ⟨c, address, port, hsetup, _, _, haddress, _⟩
  rw [hrun] at hsetup
  cases hsetup
  exact absurd haddress (by decide)

end FrontEndAddresses
end InstantMessenger
