import InstantMessenger.Foundations.Text

/-!
# `char` arrays and `strncpy`

A C array of `char` keeps what was in it before where nothing is written, so that
whether a copied string can be read back depends on the old content too.

* `CharArray n` — an array of exactly `n` bytes.
* `CharArray.strncpy`, `CharArray.strcpy` — the two copies of `<string.h>`, into an
  array that they fit into.
* `CharArray.Reads` — the array has a NUL, and holds this C string before it.
* `CharArray.reads_strncpy` — **a string that `strncpy` copied is read back if and
  only if it is shorter than the bound, or the old content completes it**.
* `CharArray.reads_strncpy_last` — the same for a bound that leaves out one byte.
-/

namespace InstantMessenger

open Text

/-- An array of `n` bytes. -/
@[ext]
structure CharArray (n : Nat) where
  bytes : List Char
  size : bytes.length = n
  deriving DecidableEq

namespace CharArray

variable {n : Nat}

/-- `char a[n] = {0}`. -/
def zeroed (n : Nat) : CharArray n := ⟨List.replicate n '\x00', List.length_replicate ..⟩

/-- The bytes that `strncpy` writes: at most `bound` of the string, filled up with NULs. -/
def copied (s : List Char) (bound : Nat) : List Char :=
  (cstr s).take bound ++ List.replicate (bound - (cstr s).length) '\x00'

theorem length_copied (s : List Char) (bound : Nat) : (copied s bound).length = bound := by
  rw [copied, List.length_append, List.length_take, List.length_replicate]
  omega

/-- `strncpy(a, s, bound)`. -/
def strncpy (a : CharArray n) (s : List Char) (bound : Nat) (h : bound ≤ n) : CharArray n :=
  ⟨copied s bound ++ a.bytes.drop bound, by
    rw [List.length_append, length_copied, List.length_drop, a.size]
    omega⟩

/-- `strcpy(a, s)`. -/
def strcpy (a : CharArray n) (s : List Char) (h : (cstr s).length < n) : CharArray n :=
  ⟨cstr s ++ '\x00' :: a.bytes.drop ((cstr s).length + 1), by
    rw [List.length_append, List.length_cons, List.length_drop, a.size]
    omega⟩

/-- `a[i] = c`. -/
def set (a : CharArray n) (i : Nat) (c : Char) : CharArray n :=
  ⟨a.bytes.set i c, (List.length_set ..).trans a.size⟩

theorem bytes_strncpy (a : CharArray n) (s : List Char) {bound : Nat} (h : bound ≤ n) :
    (a.strncpy s bound h).bytes = copied s bound ++ a.bytes.drop bound := rfl

theorem bytes_set (a : CharArray n) (i : Nat) (c : Char) : (a.set i c).bytes = a.bytes.set i c :=
  rfl

theorem bytes_strcpy (a : CharArray n) {s : List Char} (h : (cstr s).length < n) :
    (a.strcpy s h).bytes = cstr s ++ '\x00' :: a.bytes.drop ((cstr s).length + 1) := rfl

/-- The array holds the C string `s`, and a NUL that ends it. -/
def Reads (a : CharArray n) (s : List Char) : Prop := '\x00' ∈ a.bytes ∧ cstr a.bytes = s

instance (a : CharArray n) (s : List Char) : Decidable (a.Reads s) :=
  inferInstanceAs (Decidable (_ ∧ _))

/-! ## What is read from an array -/

theorem not_mem_cstr (s : List Char) : '\x00' ∉ cstr s := by
  intro h
  have hne := List.mem_takeWhile_imp (p := (· != '\x00')) h
  simp at hne

theorem cstr_append_cons {s : List Char} (h : '\x00' ∉ s) (rest : List Char) :
    cstr (s ++ '\x00' :: rest) = s := by
  have hs : ∀ c ∈ s, (c != '\x00') = true := by
    intro c hc
    rw [bne_iff_ne]
    rintro rfl
    exact h hc
  rw [cstr, List.takeWhile_append_of_pos hs, List.takeWhile_cons_of_neg (by simp),
    List.append_nil]

theorem terminated_prefix (s rest : List Char) : s ++ ['\x00'] <+: s ++ '\x00' :: rest :=
  ⟨rest, by rw [List.append_assoc, List.singleton_append]⟩

/-- An array is read as `s` when it begins with `s` and a NUL. -/
theorem reads_iff {a : CharArray n} {s : List Char} (hs : '\x00' ∉ s) :
    a.Reads s ↔ s ++ ['\x00'] <+: a.bytes := by
  constructor
  · rintro ⟨hmem, rfl⟩
    obtain ⟨front, rest, hsplit, hfront⟩ := List.eq_append_cons_of_mem hmem
    rw [hsplit, cstr_append_cons hfront]
    exact terminated_prefix front rest
  · rintro ⟨rest, hrest⟩
    rw [List.append_assoc, List.singleton_append] at hrest
    refine ⟨?_, ?_⟩
    · rw [← hrest]
      exact List.mem_append_right s (List.mem_cons_self ..)
    · rw [← hrest, cstr_append_cons hs]

theorem reads_strcpy (a : CharArray n) {s : List Char} (hs : '\x00' ∉ s)
    (h : (cstr s).length < n) : (a.strcpy s h).Reads s := by
  refine (reads_iff hs).2 ?_
  rw [bytes_strcpy, cstr_eq_self hs]
  exact terminated_prefix s _

/-! ## What `strncpy` leaves -/

/-- Only the C string at the source is copied. -/
theorem strncpy_congr (a : CharArray n) {s t : List Char} (hst : cstr s = t) (ht : '\x00' ∉ t)
    {bound : Nat} (h : bound ≤ n) : a.strncpy s bound h = a.strncpy t bound h := by
  refine CharArray.ext ?_
  rw [bytes_strncpy, bytes_strncpy, copied, copied, hst, cstr_eq_self ht]

theorem copied_of_lt {s : List Char} (hs : '\x00' ∉ s) {bound : Nat} (h : s.length < bound) :
    s ++ ['\x00'] <+: copied s bound := by
  obtain ⟨k, hk⟩ : ∃ k, bound - s.length = k + 1 := ⟨bound - s.length - 1, by omega⟩
  rw [copied, cstr_eq_self hs, List.take_of_length_le h.le, hk, List.replicate_succ]
  exact terminated_prefix s _

theorem copied_of_le {s : List Char} (hs : '\x00' ∉ s) {bound : Nat} (h : bound ≤ s.length) :
    copied s bound = s.take bound := by
  rw [copied, cstr_eq_self hs, Nat.sub_eq_zero_of_le h, List.replicate_zero, List.append_nil]

/-- **What can be read back.**  A string of at least `bound` bytes gets no NUL of its
own: it is read back only where the old content goes on with its rest and a NUL. -/
theorem reads_strncpy (a : CharArray n) {s : List Char} (hs : '\x00' ∉ s) {bound : Nat}
    (h : bound ≤ n) :
    (a.strncpy s bound h).Reads s ↔
      s.length < bound ∨
        bound ≤ s.length ∧ s.drop bound ++ ['\x00'] <+: a.bytes.drop bound := by
  rw [reads_iff hs, bytes_strncpy]
  rcases Nat.lt_or_ge s.length bound with hlt | hge
  · have hcopied := (copied_of_lt hs hlt).trans (List.prefix_append _ (a.bytes.drop bound))
    exact iff_of_true hcopied (Or.inl hlt)
  · have hsplit : s ++ ['\x00'] = s.take bound ++ (s.drop bound ++ ['\x00']) := by
      rw [← List.append_assoc, List.take_append_drop]
    rw [copied_of_le hs hge, hsplit, List.prefix_append_right_inj]
    constructor
    · intro hrest
      exact Or.inr ⟨hge, hrest⟩
    · rintro (hlt | ⟨_, hrest⟩)
      · omega
      · exact hrest

/-- `s` goes into the array and the array has a NUL for it: room for one, or an old one
in the last byte. -/
def Fits (s : List Char) (a : CharArray n) : Prop :=
  s.length + 1 < n ∨ s.length + 1 = n ∧ a.bytes[s.length]? = some '\x00'

instance (s : List Char) (a : CharArray n) : Decidable (Fits s a) :=
  inferInstanceAs (Decidable (_ ∨ _))

/-- A string that has no room for its NUL fits into no array. -/
theorem not_fits_of_le {s : List Char} (h : n ≤ s.length) (a : CharArray n) : ¬ Fits s a := by
  rintro (hlt | ⟨heq, _⟩) <;> omega

/-- With a bound that leaves out only the last byte of the array, the rest of the string
is empty and the NUL is that byte. -/
theorem reads_strncpy_last (a : CharArray n) (hn : 0 < n) {s : List Char} (hs : '\x00' ∉ s) :
    (a.strncpy s (n - 1) (Nat.sub_le n 1)).Reads s ↔ Fits s a := by
  have hlast : (a.bytes.drop (n - 1)).length = 1 := by
    rw [List.length_drop, a.size]
    omega
  obtain ⟨c, hc⟩ := List.length_eq_one_iff.1 hlast
  have hget : a.bytes[n - 1]? = some c := by
    have hdrop := @List.getElem?_drop _ a.bytes (n - 1) 0
    rw [hc] at hdrop
    exact hdrop.symm
  rw [reads_strncpy a hs, hc, Fits]
  refine or_congr (by omega) ?_
  constructor
  · rintro ⟨hge, hrest⟩
    have hlen := hrest.length_le
    simp only [List.length_append, List.length_drop, List.length_singleton] at hlen
    have heq : s.length = n - 1 := by omega
    rw [← heq, List.drop_length, List.nil_append, List.cons_prefix_cons] at hrest
    rw [heq, hget, ← hrest.1]
    exact ⟨by omega, rfl⟩
  · rintro ⟨heq, hbyte⟩
    have hlen : n - 1 = s.length := by omega
    rw [hlen, hbyte, Option.some.injEq] at hget
    rw [hlen, List.drop_length, List.nil_append, ← hget]
    exact ⟨le_rfl, List.prefix_rfl⟩

/-! ## Copies through a zeroed buffer -/

/-- A zeroed buffer that is longer than the bound ends what was copied into it. -/
theorem cstr_zeroed_strncpy (s : List Char) {bound : Nat} (h : bound < n) :
    cstr ((zeroed n).strncpy s bound h.le).bytes = (cstr s).take bound := by
  have hnul : '\x00' ∉ (cstr s).take bound := fun hmem =>
    not_mem_cstr s (List.mem_of_mem_take hmem)
  obtain ⟨k, hk⟩ : ∃ k, bound - (cstr s).length + (n - bound) = k + 1 :=
    ⟨bound - (cstr s).length + (n - bound) - 1, by omega⟩
  rw [bytes_strncpy, copied, zeroed, List.drop_replicate, List.append_assoc,
    List.replicate_append_replicate, hk, List.replicate_succ, cstr_append_cons hnul]

/-- The NUL that is put behind the copied bytes is there already. -/
theorem zeroed_strncpy_set (s : List Char) {bound i : Nat} (hi : bound ≤ i) (hn : bound ≤ n) :
    ((zeroed n).strncpy s bound hn).set i '\x00' = (zeroed n).strncpy s bound hn := by
  refine CharArray.ext ?_
  rw [bytes_set, bytes_strncpy, zeroed, List.set_append_right _ _ (by rw [length_copied]; exact hi),
    List.drop_replicate, List.set_replicate_self]

theorem copied_take (s : List Char) {short bound : Nat} {t : List Char}
    (ht : cstr t = (cstr s).take short) :
    copied t bound = (cstr s).take (min bound short) ++
      List.replicate (bound - min short (cstr s).length) '\x00' := by
  rw [copied, ht, List.take_take, List.length_take]

/-- Copying by way of such a buffer with the same bound changes nothing. -/
theorem strncpy_zeroed_strncpy (a : CharArray n) (s : List Char) {bound : Nat} (h : bound < n) :
    a.strncpy ((zeroed n).strncpy s bound h.le).bytes bound h.le = a.strncpy s bound h.le := by
  refine CharArray.ext ?_
  rw [bytes_strncpy, copied_take s (cstr_zeroed_strncpy s h), min_self, bytes_strncpy, copied]
  congr 3
  omega

end CharArray

end InstantMessenger
