import Mathlib.Algebra.BigOperators.Group.List.Basic
import InstantMessenger.Util.Socket

/-!
# One packet, however it is cut

`Socket::readPacket` on any stream and any results of `read`.  A `read` gets at least one
byte and at most those that are missing, or it fails, or the connection has ended; where the
transport cuts the stream is not up to the reader.

* `progress` — how many bytes are there for each `read`, before the first that gets none.
* `Arrives` — so many bytes arrive before the end of the connection or an error.
* `readPacket_eq` — **what the loop makes of any results**, from any offset.
* `readPacket_returns` — a call returns after at most `sizeof(Packet)` reads, and reports a
  connected client if and only if a packet arrives; then it is the next one of the stream.
-/

namespace InstantMessenger

/-- The bytes that are there for each `read`, before the first that gets none. -/
def progress : List (Option Nat) → List Nat
  | some (n + 1) :: reads => (n + 1) :: progress reads
  | _ => []

/-- So many bytes arrive before the end of the connection, an error, or a `read` that gets
nothing. -/
def Arrives (reads : Nat → Option Nat) (stream : List UInt8) (count : Nat) : Prop :=
  count ≤ stream.length ∧ ∃ m, count ≤ (progress ((List.range m).map reads)).sum

/-! ## The results -/

/-- Each `read` that gets something gets a byte. -/
theorem length_progress_le_sum (reads : List (Option Nat)) :
    (progress reads).length ≤ (progress reads).sum := by
  induction reads with
  | nil => exact le_rfl
  | cons n reads ih =>
    rcases n with _ | _ | n
    · exact le_rfl
    · exact le_rfl
    · simp only [progress, List.length_cons, List.sum_cons]
      omega

/-- Further results count only when all so far got something. -/
theorem progress_append (reads later : List (Option Nat)) :
    progress (reads ++ later) = progress reads ∨ (progress reads).length = reads.length := by
  induction reads with
  | nil => exact .inr rfl
  | cons n reads ih =>
    rcases n with _ | _ | n
    · exact .inl rfl
    · exact .inl rfl
    · rcases ih with h | h
      · exact .inl (congrArg ((n + 1) :: ·) h)
      · exact .inr (congrArg (· + 1) h)

theorem sum_progress_le_append (reads later : List (Option Nat)) :
    (progress reads).sum ≤ (progress (reads ++ later)).sum := by
  induction reads with
  | nil => exact Nat.zero_le _
  | cons n reads ih =>
    rcases n with _ | _ | n
    · exact le_rfl
    · exact le_rfl
    · exact Nat.add_le_add_left ih _

/-- As many results as bytes are enough to see whether the bytes arrive. -/
theorem arrives_iff {reads : Nat → Option Nat} {stream : List UInt8} {count : Nat} :
    Arrives reads stream count ↔
      count ≤ stream.length ∧ count ≤ (progress ((List.range count).map reads)).sum := by
  refine and_congr_right fun _ => ⟨?_, fun h => ⟨count, h⟩⟩
  rintro ⟨m, hm⟩
  rcases le_total m count with hle | hle
  · obtain ⟨k, rfl⟩ := Nat.exists_eq_add_of_le hle
    apply hm.trans
    rw [List.range_add, List.map_append]
    exact sum_progress_le_append _ _
  · obtain ⟨k, rfl⟩ := Nat.exists_eq_add_of_le hle
    rw [List.range_add, List.map_append] at hm
    rcases progress_append ((List.range count).map reads) (((List.range k).map (count + ·)).map
      reads) with h | h
    · rwa [h] at hm
    · rw [List.length_map, List.length_range] at h
      exact h.symm.le.trans (length_progress_le_sum _)

/-! ## The loop -/

/-- A `read` that fails or gets nothing ends the call. -/
theorem readPacket_ends {n : Option Nat} {reads : List (Option Nat)}
    {incomingData stream : List UInt8}
    (h : read n (sizeofPacket - incomingData.length) stream = none ∨
      read n (sizeofPacket - incomingData.length) stream = some []) :
    readPacket (n :: reads) incomingData stream = some ⟨incomingData, false, stream, reads⟩ := by
  rcases h with h | h <;> rw [readPacket, h]

/-- A `read` that gets something. -/
theorem readPacket_progresses {n : Nat} {reads : List (Option Nat)}
    {incomingData stream : List UInt8} (hstream : stream ≠ [])
    (hlen : incomingData.length < sizeofPacket) :
    let got := min (min (n + 1) (sizeofPacket - incomingData.length)) stream.length
    readPacket (some (n + 1) :: reads) incomingData stream =
      if incomingData.length + got ≠ sizeofPacket then
        readPacket reads (incomingData ++ stream.take got) (stream.drop got)
      else some ⟨incomingData ++ stream.take got, true, stream.drop got, reads⟩ := by
  intro got
  have htake : stream.take (min (n + 1) (sizeofPacket - incomingData.length)) =
      stream.take got := by
    rw [List.take_eq_take_iff]
    exact (Nat.min_eq_left (Nat.min_le_right ..)).symm
  have hgot : (stream.take got).length = got := by
    rw [List.length_take]
    exact Nat.min_eq_left (Nat.min_le_right ..)
  have hpos : 0 < got := by
    have := List.length_pos_iff.2 hstream
    omega
  cases hchunk : stream.take got with
  | nil =>
    rw [hchunk, List.length_nil] at hgot
    omega
  | cons b chunk =>
    rw [hchunk, List.length_cons] at hgot
    rw [readPacket, read, Option.map_some, htake, hchunk]
    simp only [List.length_append, List.length_cons, hgot]

/-- The bytes that arrive, of those that are missing. -/
def arriving (missing : Nat) (stream : List UInt8) (reads : List (Option Nat)) : Nat :=
  min missing (min stream.length (progress reads).sum)

/-- **The loop**, from any offset: with as many results as bytes are missing it returns, and
has appended the bytes that arrive. -/
theorem readPacket_eq {reads : List (Option Nat)} {incomingData stream : List UInt8}
    {missing : Nat} (hmissing : incomingData.length + missing = sizeofPacket)
    (hpos : 0 < missing) (hreads : missing ≤ reads.length) :
    ∃ rest, readPacket reads incomingData stream =
      some ⟨incomingData ++ stream.take (arriving missing stream reads),
        decide (arriving missing stream reads = missing),
        stream.drop (arriving missing stream reads), rest⟩ := by
  have hrequest : sizeofPacket - incomingData.length = missing := by omega
  induction reads generalizing incomingData stream missing with
  | nil =>
    rw [List.length_nil] at hreads
    omega
  | cons n reads ih =>
    -- a `read` that gets nothing
    have hends : arriving missing stream (n :: reads) = 0 →
        (read n missing stream = none ∨ read n missing stream = some []) →
        ∃ rest, readPacket (n :: reads) incomingData stream =
          some ⟨incomingData ++ stream.take (arriving missing stream (n :: reads)),
            decide (arriving missing stream (n :: reads) = missing),
            stream.drop (arriving missing stream (n :: reads)), rest⟩ := by
      intro hzero hnothing
      refine ⟨reads, ?_⟩
      rw [readPacket_ends (by rw [hrequest]; exact hnothing), hzero]
      simp [hpos.ne]
    rcases n with _ | _ | n
    · exact hends (by simp [arriving, progress]) (.inl rfl)
    · exact hends (by simp [arriving, progress]) (.inr (by simp [read]))
    · by_cases hstream : stream = []
      · exact hends (by simp [arriving, hstream]) (.inr (by simp [read, hstream]))
      · have hlen := List.length_pos_iff.2 hstream
        rw [List.length_cons] at hreads
        rw [readPacket_progresses hstream (by omega), hrequest]
        generalize hgot : min (min (n + 1) missing) stream.length = got
        split
        · -- fewer bytes are missing
          have hdata : (incomingData ++ stream.take got).length = incomingData.length + got := by
            rw [List.length_append, List.length_take, Nat.min_eq_left (by omega)]
          have harriving : arriving missing stream (some (n + 1) :: reads) =
              got + arriving (missing - got) (stream.drop got) reads := by
            simp only [arriving, progress, List.sum_cons, List.length_drop]
            omega
          obtain ⟨rest, hrest⟩ := @ih (incomingData ++ stream.take got) (stream.drop got)
            (missing - got) (by omega) (by omega) (by omega) (by omega)
          refine ⟨rest, ?_⟩
          have hall : (got + arriving (missing - got) (stream.drop got) reads = missing) ↔
              arriving (missing - got) (stream.drop got) reads = missing - got := by omega
          rw [hrest, harriving, List.take_add, List.append_assoc, List.drop_drop]
          simp only [hall]
        · have harriving : arriving missing stream (some (n + 1) :: reads) = missing := by
            simp only [arriving, progress, List.sum_cons]
            omega
          obtain rfl : got = missing := by omega
          refine ⟨reads, ?_⟩
          rw [harriving, decide_eq_true rfl]

/-- **One call.**  Whatever the stream and the results are, `readPacket` returns after at
most `sizeof(Packet)` reads; it leaves `connectedClient` true if and only if that many bytes
arrive before the end of the connection or an error; and then it has read the next
`sizeof(Packet)` bytes of the stream, and no further byte. -/
theorem readPacket_returns (reads : Nat → Option Nat) (stream : List UInt8) :
    ∃ r, readPacket ((List.range sizeofPacket).map reads) [] stream = some r ∧
      (r.connectedClient = true ↔ Arrives reads stream sizeofPacket) ∧
      (r.connectedClient = true →
        r.incomingData = stream.take sizeofPacket ∧ r.stream = stream.drop sizeofPacket) := by
  obtain ⟨rest, hrest⟩ := @readPacket_eq ((List.range sizeofPacket).map reads) [] stream
    sizeofPacket (Nat.zero_add _) (by decide) (by rw [List.length_map, List.length_range])
  refine ⟨_, hrest, ?_, ?_⟩
  · apply decide_eq_true_iff.trans
    rw [arrives_iff, arriving]
    omega
  · intro hconnected
    rw [of_decide_eq_true hconnected]
    exact ⟨List.nil_append _, rfl⟩

end InstantMessenger
