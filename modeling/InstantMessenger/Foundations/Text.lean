import Mathlib.Data.List.Basic
import Mathlib.Data.List.TakeWhile
import Mathlib.Algebra.Order.Ring.Int

/-!
# Words and numbers in C++ text

The few functions of the C and C++ libraries that turn a number into text, put
the text into a `char` array, and read words and the number back.

* `cstr`, `strncpy` — what is read from an array, and what a copy leaves in an
  array that was zero before and is longer than the bound.
* `extract` — `operator>>` on a stream and a `std::string`.
* `to_string`, `stoi` — decimal numbers; `stoi` has no result where it throws.
* `extract_long` — `operator>>` on a stream and a `long`.
* `extract_word`, `stoi_to_string`, `extract_long_to_string` — **a word is read back,
  and so are an `int` and a `long`**.
-/

namespace InstantMessenger
namespace Text

/-! ## Arrays -/

/-- What an array is read as: everything up to its first NUL. -/
def cstr (s : List Char) : List Char := s.takeWhile (· != '\x00')

/-- `strncpy(buffer, s, n)`, read from a zeroed buffer of more than `n` bytes. -/
def strncpy (s : List Char) (n : Nat) : List Char := (cstr s).take n

theorem cstr_eq_self {s : List Char} (h : '\x00' ∉ s) : cstr s = s := by
  refine List.takeWhile_eq_self_iff.2 ?_
  intro c hc
  rw [bne_iff_ne]
  rintro rfl
  exact h hc

theorem strncpy_eq_self {s : List Char} {n : Nat} (h : '\x00' ∉ s) (hn : s.length ≤ n) :
    strncpy s n = s := by
  rw [strncpy, cstr_eq_self h, List.take_of_length_le hn]

/-! ## Words -/

/-- `isspace` in the C locale. -/
def isspace (c : Char) : Bool :=
  c == ' ' || c == '\t' || c == '\n' || c == '\x0b' || c == '\x0c' || c == '\r'

/-- `stream >> word`: the word, and what is left in the stream. -/
def extract (stream : List Char) : List Char × List Char :=
  let s := stream.dropWhile isspace
  (s.takeWhile (!isspace ·), s.dropWhile (!isspace ·))

/-- A word that ends at a space or at the end is read back. -/
theorem extract_word {w rest : List Char} (hw : w ≠ []) (hspace : ∀ c ∈ w, isspace c = false)
    (hrest : rest.head?.all isspace = true) : extract (w ++ rest) = (w, rest) := by
  have hskip : (w ++ rest).dropWhile isspace = w ++ rest := by
    cases w with
    | nil => exact absurd rfl hw
    | cons c w =>
      rw [List.cons_append, List.dropWhile_cons_of_neg]
      simpa using hspace c (List.mem_cons_self ..)
  have hall : ∀ c ∈ w, (!isspace c) = true := fun c hc => by rw [hspace c hc]; rfl
  have htake : rest.takeWhile (!isspace ·) = [] ∧ rest.dropWhile (!isspace ·) = rest := by
    cases rest with
    | nil => exact ⟨rfl, rfl⟩
    | cons c rest =>
      have hc : isspace c = true := hrest
      exact ⟨List.takeWhile_cons_of_neg (by simp [hc]), List.dropWhile_cons_of_neg (by simp [hc])⟩
  unfold extract
  rw [hskip]
  simp only [List.takeWhile_append_of_pos hall, List.dropWhile_append_of_pos hall, htake.1,
    htake.2, List.append_nil]

/-- The spaces in front of a word are skipped. -/
theorem extract_space {c : Char} (hc : isspace c = true) (s : List Char) :
    extract (c :: s) = extract s := by
  unfold extract
  rw [List.dropWhile_cons_of_pos hc]

/-! ## Numbers -/

def INT_MAX : Int := 2147483647

def INT_MIN : Int := -2147483648

def LONG_MAX : Int := 9223372036854775807

def LONG_MIN : Int := -9223372036854775808

/-- `to_string` of an `int`. -/
def to_string (n : Int) : List Char :=
  if n < 0 then '-' :: Nat.toDigits 10 n.natAbs else Nat.toDigits 10 n.natAbs

/-- The sign in front of a number, and what follows it. -/
def sign : List Char → Int × List Char
  | '-' :: s => (-1, s)
  | '+' :: s => (1, s)
  | s => (1, s)

/-- `stoi`.  It throws when there is no digit, and when the number is no `int`. -/
def stoi (s : List Char) : Option Int :=
  let r := sign (s.dropWhile isspace)
  let digits := r.2.takeWhile Char.isDigit
  let n : Int := r.1 * Nat.ofDigitChars 10 digits 0
  if digits ≠ [] ∧ INT_MIN ≤ n ∧ n ≤ INT_MAX then some n else none

/-- `stoi` throws an `invalid_argument`, not an `out_of_range`: there is no digit. -/
def isInvalidArgument (s : List Char) : Bool :=
  ((sign (s.dropWhile isspace)).2.takeWhile Char.isDigit).isEmpty

theorem le_of_stoi {s : List Char} {n : Int} (h : stoi s = some n) : n ≤ INT_MAX := by
  unfold stoi at h
  simp only [Option.ite_none_right_eq_some, Option.some.injEq] at h
  obtain ⟨⟨_, _, hle⟩, rfl⟩ := h
  exact hle

theorem isDigit_of_mem_toDigits {n : Nat} {c : Char} (hc : c ∈ Nat.toDigits 10 n) :
    c.isDigit = true := Nat.isDigit_of_mem_toDigits (by decide) (by decide) hc

theorem isspace_of_isDigit {c : Char} (hc : c.isDigit = true) : isspace c = false := by
  have hne : ∀ d : Char, d.isDigit = false → (c == d) = false := by
    intro d hd
    refine beq_eq_false_iff_ne.2 ?_
    rintro rfl
    rw [hc] at hd
    cases hd
  rw [isspace, hne ' ' (by decide), hne '\t' (by decide), hne '\n' (by decide),
    hne '\x0b' (by decide), hne '\x0c' (by decide), hne '\r' (by decide)]
  rfl

/-- No digit is taken for a sign. -/
theorem sign_of_isDigit {c : Char} (hc : c.isDigit = true) (s : List Char) :
    sign (c :: s) = (1, c :: s) := by
  unfold sign
  split
  · rename_i heq
    rw [List.cons.injEq] at heq
    rw [heq.1] at hc
    cases hc
  · rename_i heq
    rw [List.cons.injEq] at heq
    rw [heq.1] at hc
    cases hc
  · rfl

/-- The characters of a nonnegative number are digits, and there is one. -/
theorem to_string_digits {n : Int} (hn : 0 ≤ n) :
    to_string n ≠ [] ∧ ∀ c ∈ to_string n, c.isDigit = true := by
  rw [to_string, if_neg (by omega)]
  exact ⟨Nat.toDigits_ne_nil, fun c hc => isDigit_of_mem_toDigits hc⟩

/-- A digit in front stops the search for spaces and a sign. -/
theorem dropWhile_isspace_toDigits (n : Nat) :
    (Nat.toDigits 10 n).dropWhile isspace = Nat.toDigits 10 n ∧
      sign (Nat.toDigits 10 n) = (1, Nat.toDigits 10 n) := by
  have hne : Nat.toDigits 10 n ≠ [] := Nat.toDigits_ne_nil
  cases htext : Nat.toDigits 10 n with
  | nil => exact absurd htext hne
  | cons c s =>
    have hc : c.isDigit = true :=
      isDigit_of_mem_toDigits (n := n) (by rw [htext]; exact List.mem_cons_self ..)
    exact ⟨List.dropWhile_cons_of_neg (by simp [isspace_of_isDigit hc]), sign_of_isDigit hc s⟩

/-- **A nonnegative `int` is read back.** -/
theorem stoi_to_string {n : Int} (hn : 0 ≤ n) (hmax : n ≤ INT_MAX) :
    stoi (to_string n) = some n := by
  obtain ⟨hne, hdigits⟩ := to_string_digits hn
  have hvalue : (Nat.ofDigitChars 10 (to_string n) 0 : Int) = n := by
    rw [to_string, if_neg (by omega), Nat.ofDigitChars_ten_toDigits]
    omega
  have hsign : sign ((to_string n).dropWhile isspace) = (1, to_string n) := by
    obtain ⟨hspace, hsign⟩ := dropWhile_isspace_toDigits n.natAbs
    rw [to_string, if_neg (by omega), hspace, hsign]
  have htake : (to_string n).takeWhile Char.isDigit = to_string n :=
    List.takeWhile_eq_self_iff.2 hdigits
  unfold stoi
  rw [hsign]
  simp only [htake, hvalue, one_mul]
  rw [if_pos]
  refine ⟨hne, ?_, hmax⟩
  unfold INT_MIN
  omega

/-- `stream >> n` for a `long` that was zero: zero when there is no number, and the
nearest `long` when the number is too large. -/
def extract_long (s : List Char) : Int :=
  let r := sign (s.dropWhile isspace)
  let digits := r.2.takeWhile Char.isDigit
  if digits = [] then 0
  else max LONG_MIN (min LONG_MAX (r.1 * Nat.ofDigitChars 10 digits 0))

/-- **A `long` is read back.** -/
theorem extract_long_to_string {n : Int} (hmin : LONG_MIN ≤ n) (hmax : n ≤ LONG_MAX) :
    extract_long (to_string n) = n := by
  have htake : (Nat.toDigits 10 n.natAbs).takeWhile Char.isDigit = Nat.toDigits 10 n.natAbs :=
    List.takeWhile_eq_self_iff.2 fun c hc => isDigit_of_mem_toDigits hc
  obtain ⟨hspace, hsign⟩ := dropWhile_isspace_toDigits n.natAbs
  by_cases hn : n < 0
  · have hminus : ('-' :: Nat.toDigits 10 n.natAbs).dropWhile isspace =
        '-' :: Nat.toDigits 10 n.natAbs := List.dropWhile_cons_of_neg (by decide)
    have hstrip : sign ('-' :: Nat.toDigits 10 n.natAbs) = (-1, Nat.toDigits 10 n.natAbs) := rfl
    rw [to_string, if_pos hn, extract_long]
    simp only [hminus, hstrip, htake, Nat.toDigits_ne_nil, if_false, Nat.ofDigitChars_ten_toDigits]
    omega
  · rw [to_string, if_neg hn, extract_long]
    simp only [hspace, hsign, htake, Nat.toDigits_ne_nil, if_false, Nat.ofDigitChars_ten_toDigits]
    omega

/-- The characters of a number are digits and a sign. -/
theorem not_mem_to_string {c : Char} (hd : c.isDigit = false) (hc : c ≠ '-') (n : Int) :
    c ∉ to_string n := by
  intro hmem
  have hdigits : c ∉ Nat.toDigits 10 n.natAbs := by
    intro h
    rw [isDigit_of_mem_toDigits h] at hd
    cases hd
  rw [to_string] at hmem
  split at hmem
  · rcases List.mem_cons.1 hmem with h | h
    · exact hc h
    · exact hdigits h
  · exact hdigits hmem

theorem to_string_ne_nil (n : Int) : to_string n ≠ [] := by
  rw [to_string]
  split
  · exact List.cons_ne_nil _ _
  · exact Nat.toDigits_ne_nil

theorem length_to_string_le {n : Int} (hn : 0 ≤ n) (hmax : n ≤ INT_MAX) :
    (to_string n).length ≤ 10 := by
  rw [to_string, if_neg (by omega), Nat.length_toDigits_le_iff (by decide) (by decide)]
  unfold INT_MAX at hmax
  omega

end Text
end InstantMessenger
