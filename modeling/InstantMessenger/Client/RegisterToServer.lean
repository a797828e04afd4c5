import InstantMessenger.Foundations.Polling
import InstantMessenger.Util.Definitions
import InstantMessenger.Util.ReadPacket

/-!
# The registration of a client

`Client::registerToServer` reads packets until one has the type of an answer.  It passes
`connectedClient` to `readPacket` and never looks at it: when the connection has ended, each
call returns at once, with memory in which nothing was written.

* `PacketImage.type` — the type field of a packet in memory.
* `Reception` — what is received before the connection ends; `Reception.readPacket_eq` — the
  calls of `Socket::readPacket` on it.
* `registerToServer`, `Returns` — the loop, for any content of the memory.
* `endsRight_iff` — **when the registration ends as it should**: an answer is received, or a
  refusal is found in the memory before an acceptance is.
-/

namespace InstantMessenger

/-- Where `type` stands in a packet. -/
def typeOffset : Nat := 496

namespace PacketImage

/-- The type field, an `int` with its lowest byte first. -/
def type (p : PacketImage) : Int :=
  Int.bmod (((p.bytes.drop typeOffset).take 4).foldr (fun b n => b.toNat + 256 * n) 0) (2 ^ 32)

/-- The memory after the first bytes were received. -/
def receive (memory : PacketImage) (incomingData : List UInt8) : PacketImage where
  bytes := (incomingData ++ memory.bytes.drop incomingData.length).take sizeofPacket
  size := by
    rw [List.length_take, List.length_append, List.length_drop, memory.size]
    omega

theorem receive_whole (memory p : PacketImage) : memory.receive p.bytes = p := by
  cases p with
  | mk bytes size =>
    simp only [receive, PacketImage.mk.injEq]
    rw [List.take_left' size]

theorem receive_nil (memory : PacketImage) : memory.receive [] = memory := by
  cases memory with
  | mk bytes size =>
    simp only [receive, PacketImage.mk.injEq]
    exact List.take_of_length_le size.le

end PacketImage

/-- What is received on a connection until it ends: packets, and of one more the bytes in
front of the end. -/
structure Reception where
  packets : List PacketImage
  cut : List UInt8
  short : cut.length < sizeofPacket

namespace Reception

/-- The bytes that are received. -/
def stream (c : Reception) : List UInt8 := (c.packets.map PacketImage.bytes).flatten ++ c.cut

/-- A connection that has ended. -/
def ended : Reception := ⟨[], [], by decide⟩

/-- A call of `readPacket`: the bytes it receives, `connectedClient`, and what is left. -/
def readPacket (c : Reception) : List UInt8 × Bool × Reception :=
  match c.packets with
  | p :: packets => (p.bytes, true, { c with packets := packets })
  | [] => (c.cut, false, ended)

/-- **`Socket::readPacket` on this stream**, with results that deliver it and then an end or
an error. -/
theorem readPacket_eq (c : Reception) {reads : List (Option Nat)}
    (hreads : sizeofPacket ≤ reads.length)
    (hall : min sizeofPacket c.stream.length ≤ (progress reads).sum) :
    ∃ rest, InstantMessenger.readPacket reads [] c.stream =
      some ⟨c.readPacket.1, c.readPacket.2.1, c.readPacket.2.2.stream, rest⟩ := by
  obtain ⟨rest, hrest⟩ := @InstantMessenger.readPacket_eq reads [] c.stream sizeofPacket
    (Nat.zero_add _) (by decide) hreads
  have harriving : arriving sizeofPacket c.stream reads = min sizeofPacket c.stream.length := by
    rw [arriving]
    omega
  rw [harriving, List.nil_append] at hrest
  refine ⟨rest, hrest.trans ?_⟩
  rcases c with ⟨_ | ⟨p, packets⟩, cut, hshort⟩
  · have hlen : min sizeofPacket (stream ⟨[], cut, hshort⟩).length = cut.length :=
      Nat.min_eq_right hshort.le
    rw [hlen, decide_eq_false hshort.ne]
    simp [stream, readPacket, ended]
  · have hstream : stream ⟨p :: packets, cut, hshort⟩ =
        p.bytes ++ stream ⟨packets, cut, hshort⟩ := by
      simp [stream]
    have hlen : min sizeofPacket (stream ⟨p :: packets, cut, hshort⟩).length = sizeofPacket := by
      rw [hstream, List.length_append, p.size]
      omega
    rw [hlen, hstream, List.take_left' p.size, List.drop_left' p.size, decide_eq_true rfl]
    rfl

/-- What is left after so many calls. -/
def after (c : Reception) : Nat → Reception
  | 0 => c
  | calls + 1 => c.readPacket.2.2.after calls

/-- The packets that so many calls after the end of the connection find in memory: the first
begins with the bytes of the packet that was cut. -/
def afterEnd (c : Reception) (memory : Nat → PacketImage) : Nat → PacketImage
  | 0 => (memory c.packets.length).receive c.cut
  | calls + 1 => memory (c.packets.length + calls + 1)

end Reception

namespace Registration

open Polling

/-- The loop of `Client::registerToServer`, for at most so many calls of `readPacket`; the
memory is what `malloc` gives to each call. -/
def registerToServer (memory : Nat → PacketImage) : Nat → Nat → Reception → Option Int
  | 0, _, _ => none
  | calls + 1, call, c =>
    let (incomingData, _connectedClient, rest) := c.readPacket
    let receivedPacket := (memory call).receive incomingData
    if receivedPacket.type = PacketType.CONNECTION_REFUSED_PACKET.value then some (-1)
    else if receivedPacket.type = PacketType.ACCEPT_PACKET.value then some 0
    else registerToServer memory calls (call + 1) rest

/-- The call returns this. -/
def Returns (memory : Nat → PacketImage) (c : Reception) (result : Int) : Prop :=
  ∃ calls, registerToServer memory calls 0 c = some result

/-- **The registration ends as it should**: it returns, and 0 only if an ACCEPT packet was
received. -/
structure EndsRight (memory : Nat → PacketImage) (c : Reception) : Prop where
  returns : ∃ result, Returns memory c result
  accepted : Returns memory c 0 →
    ∃ p ∈ c.packets, p.type = PacketType.ACCEPT_PACKET.value

/-! ## The loop -/

/-- What the loop makes of a packet. -/
def answer (p : PacketImage) : Option Int :=
  if p.type = PacketType.CONNECTION_REFUSED_PACKET.value then some (-1)
  else if p.type = PacketType.ACCEPT_PACKET.value then some 0
  else none

theorem answer_eq_zero_iff {p : PacketImage} :
    answer p = some 0 ↔ p.type = PacketType.ACCEPT_PACKET.value := by
  unfold answer
  split
  · rename_i h
    rw [h]
    decide
  · split
    · rename_i h
      exact iff_of_true rfl h
    · rename_i h
      exact iff_of_false (by decide) h

theorem answer_eq_none_iff {p : PacketImage} :
    answer p = none ↔ p.type ≠ PacketType.CONNECTION_REFUSED_PACKET.value ∧
      p.type ≠ PacketType.ACCEPT_PACKET.value := by
  unfold answer
  split
  · rename_i h
    exact iff_of_false (by decide) fun hne => hne.1 h
  · rename_i hrefused
    split
    · rename_i h
      exact iff_of_false (by decide) fun hne => hne.2 h
    · rename_i h
      exact iff_of_true rfl ⟨hrefused, h⟩

theorem answer_of_refused {p : PacketImage}
    (h : p.type = PacketType.CONNECTION_REFUSED_PACKET.value) : answer p = some (-1) := by
  rw [answer, if_pos h]

/-- An answer that is not 0 is a refusal. -/
theorem refused_of_answer {p : PacketImage} {result : Int} (h : answer p = some result)
    (hne : result ≠ 0) : p.type = PacketType.CONNECTION_REFUSED_PACKET.value := by
  unfold answer at h
  split at h
  · assumption
  · split at h
    · exact absurd (Option.some_inj.1 h).symm hne
    · cases h

variable {memory : Nat → PacketImage} {c : Reception}

/-- The packet that a call returns. -/
def returned (memory : Nat → PacketImage) (c : Reception) (call : Nat) : PacketImage :=
  (memory call).receive (c.after call).readPacket.1

/-- What the loop makes of the packets, one call after another. -/
def answers (memory : Nat → PacketImage) (c : Reception) (call : Nat) : Option Int :=
  answer (returned memory c call)

/-- **The loop asks until it has an answer.** -/
theorem registerToServer_eq_poll (calls call : Nat) :
    registerToServer memory calls call c = poll (answers (fun k => memory (call + k)) c) calls := by
  induction calls generalizing call c with
  | zero => rfl
  | succ calls ih =>
    have hlater : ∀ k, answers (fun k => memory (call + k)) c (k + 1) =
        answers (fun k => memory (call + 1 + k)) c.readPacket.2.2 k := by
      intro k
      simp only [answers, returned, Reception.after, Nat.add_right_comm call 1 k, ← Nat.add_assoc]
    have hfirst : answers (fun k => memory (call + k)) c 0 =
        answer ((memory call).receive c.readPacket.1) := rfl
    rw [poll, funext hlater, ← ih, hfirst, registerToServer, answer]
    simp only
    split
    · rfl
    · split <;> rfl

/-- The call returns the first answer. -/
theorem returns_iff {result : Int} :
    Returns memory c result ↔ ∃ k, First (answers memory c) k result := by
  have hmemory : (fun k => memory (0 + k)) = memory := funext fun k => by rw [Nat.zero_add]
  simp only [Returns, registerToServer_eq_poll, hmemory, poll_eq_some_iff]
  constructor
  · rintro ⟨calls, k, _, hk⟩
    exact ⟨k, hk⟩
  · rintro ⟨k, hk⟩
    exact ⟨k + 1, k, Nat.lt_succ_self k, hk⟩

/-! ## The packets -/

/-- The first calls return the packets that are received. -/
theorem returned_of_lt {k : Nat} (hk : k < c.packets.length) :
    returned memory c k = c.packets[k] := by
  have hmem : ∀ (k : Nat) (m : PacketImage) (c : Reception) (hk : k < c.packets.length),
      m.receive (c.after k).readPacket.1 = c.packets[k] := by
    intro k m
    induction k with
    | zero =>
      rintro ⟨_ | ⟨p, packets⟩, cut, hshort⟩ hk
      · cases hk
      · exact PacketImage.receive_whole m p
    | succ k ih =>
      rintro ⟨_ | ⟨p, packets⟩, cut, hshort⟩ hk
      · cases hk
      · exact ih ⟨packets, cut, hshort⟩ (Nat.lt_of_succ_lt_succ hk)
  exact hmem k (memory k) c hk

/-- When the connection has ended, no call receives anything. -/
theorem after_ended (calls : Nat) : Reception.ended.after calls = Reception.ended := by
  induction calls with
  | zero => rfl
  | succ calls ih => exact ih

theorem after_length (c : Reception) (calls : Nat) :
    c.after (c.packets.length + calls) = (⟨[], c.cut, c.short⟩ : Reception).after calls := by
  rcases c with ⟨packets, cut, hshort⟩
  induction packets with
  | nil => rw [List.length_nil, Nat.zero_add]
  | cons p packets ih =>
    rw [List.length_cons, Nat.add_right_comm]
    exact ih

/-- The others return what is in memory. -/
theorem returned_length_add (calls : Nat) :
    returned memory c (c.packets.length + calls) = c.afterEnd memory calls := by
  rw [returned, after_length]
  cases calls with
  | zero => rfl
  | succ calls =>
    have hended : (⟨[], c.cut, c.short⟩ : Reception).after (calls + 1) = Reception.ended :=
      after_ended calls
    rw [hended]
    exact PacketImage.receive_nil _

/-! ## When the registration ends as it should -/

/-- An answer is received; or else, in the memory that is returned after the end, a refusal
is found and no acceptance before it. -/
def Answered (memory : Nat → PacketImage) (c : Reception) : Prop :=
  (∃ p ∈ c.packets, p.type = PacketType.ACCEPT_PACKET.value ∨
    p.type = PacketType.CONNECTION_REFUSED_PACKET.value) ∨
  ∃ k, (c.afterEnd memory k).type = PacketType.CONNECTION_REFUSED_PACKET.value ∧
    ∀ i < k, (c.afterEnd memory i).type ≠ PacketType.ACCEPT_PACKET.value

/-- An answer among the packets that were received. -/
theorem answered_of_lt {k : Nat} (hk : k < c.packets.length) (h : answers memory c k ≠ none) :
    ∃ p ∈ c.packets, p.type = PacketType.ACCEPT_PACKET.value ∨
      p.type = PacketType.CONNECTION_REFUSED_PACKET.value := by
  rw [answers, returned_of_lt hk, ne_eq, answer_eq_none_iff, not_and_or, not_not, not_not] at h
  exact ⟨_, List.getElem_mem hk, h.symm⟩

/-- An answer 0 among the packets is an ACCEPT packet that was received. -/
theorem accepted_of_lt {k : Nat} (hk : k < c.packets.length) (h : answers memory c k = some 0) :
    ∃ p ∈ c.packets, p.type = PacketType.ACCEPT_PACKET.value := by
  rw [answers, returned_of_lt hk, answer_eq_zero_iff] at h
  exact ⟨_, List.getElem_mem hk, h⟩

theorem answers_length_add (calls : Nat) :
    answers memory c (c.packets.length + calls) = answer (c.afterEnd memory calls) := by
  rw [answers, returned_length_add]

/-- A registration that ends as it should had an answer, or found a refusal. -/
theorem answered_of_endsRight (h : EndsRight memory c) : Answered memory c := by
  obtain ⟨result, hreturns⟩ := h.returns
  obtain ⟨k, hfirst⟩ := returns_iff.1 hreturns
  by_cases hlt : k < c.packets.length
  · exact .inl (answered_of_lt hlt (by rw [hfirst.answer]; exact Option.some_ne_none _))
  · obtain ⟨j, rfl⟩ := Nat.exists_eq_add_of_le (not_lt.1 hlt)
    by_cases hzero : result = 0
    · rw [hzero] at hreturns
      obtain ⟨p, hp, htype⟩ := h.accepted hreturns
      exact .inl ⟨p, hp, .inl htype⟩
    · -- the refusal is found in memory
      have hanswer := hfirst.answer
      rw [answers_length_add] at hanswer
      refine .inr ⟨j, refused_of_answer hanswer hzero, fun i hi => ?_⟩
      have hnone := hfirst.before (c.packets.length + i) (by omega)
      rw [answers_length_add, answer_eq_none_iff] at hnone
      exact hnone.2

/-- A first answer 0 is a packet that was received. -/
theorem lt_of_answered (h : Answered memory c) :
    (∃ k, answers memory c k ≠ none) ∧
      ∀ j, First (answers memory c) j 0 → j < c.packets.length := by
  rcases h with ⟨p, hp, htype⟩ | ⟨k, hrefused, hbefore⟩
  · obtain ⟨k, hk, rfl⟩ := List.getElem_of_mem hp
    have hanswer : answers memory c k ≠ none := by
      rw [answers, returned_of_lt hk, ne_eq, answer_eq_none_iff, not_and_or, not_not, not_not]
      exact htype.symm
    exact ⟨⟨k, hanswer⟩, fun j hfirst => (hfirst.le hanswer).trans_lt hk⟩
  · have hanswer : answers memory c (c.packets.length + k) = some (-1) := by
      rw [answers_length_add]
      exact answer_of_refused hrefused
    have hsome : answers memory c (c.packets.length + k) ≠ none := by
      rw [hanswer]
      exact Option.some_ne_none _
    refine ⟨⟨_, hsome⟩, fun j hfirst => ?_⟩
    by_contra hj
    obtain ⟨j, rfl⟩ := Nat.exists_eq_add_of_le (not_lt.1 hj)
    have hle := hfirst.le hsome
    have haccept := hfirst.answer
    rcases (show j ≤ k by omega).lt_or_eq with hlt | rfl
    · rw [answers_length_add, answer_eq_zero_iff] at haccept
      exact hbefore j hlt haccept
    · rw [hanswer] at haccept
      cases haccept

/-- **When the registration ends as it should**, for any packets, any end and any memory. -/
theorem endsRight_iff (memory : Nat → PacketImage) (c : Reception) :
    EndsRight memory c ↔ Answered memory c := by
  refine ⟨answered_of_endsRight, fun h => ?_⟩
  obtain ⟨hanswered, hfirst⟩ := lt_of_answered h
  refine ⟨?_, fun hzero => ?_⟩
  · obtain ⟨k, result, hk⟩ := exists_first hanswered
    exact ⟨result, returns_iff.2 ⟨k, hk⟩⟩
  · obtain ⟨j, hj⟩ := returns_iff.1 hzero
    exact accepted_of_lt (hfirst j hj) hj.answer

/-- A packet of zeros, but for its type. -/
def imageOfType (b : UInt8) : PacketImage where
  bytes := List.replicate typeOffset 0 ++ b :: List.replicate 7 0
  size := by
    rw [List.length_append, List.length_replicate, List.length_cons, List.length_replicate]
    rfl

/-- **The connection ends before any packet.**  With zeros in the memory the loop never ends;
with what was an ACCEPT packet in it the client takes itself for accepted. -/
theorem endsRight_counterexample :
    ¬ EndsRight (fun _ => zeroImage) Reception.ended ∧
      ¬ EndsRight (fun _ => imageOfType 3) Reception.ended := by
  constructor
  · rintro ⟨⟨result, hreturns⟩, _⟩
    obtain ⟨k, hk⟩ := returns_iff.1 hreturns
    have hanswer := hk.answer
    rw [answers, returned, after_ended, show Reception.ended.readPacket.1 = [] from rfl,
      PacketImage.receive_nil, show answer zeroImage = none from by decide +kernel] at hanswer
    cases hanswer
  · rintro ⟨_, haccepted⟩
    obtain ⟨p, hp, _⟩ := haccepted ⟨1, by decide +kernel⟩
    cases hp

end Registration

end InstantMessenger
