import InstantMessenger.Foundations.Framing

/-!
# Packets on a connection

`Socket.cpp`: `sendPacket` writes `sizeof(Packet)` bytes with one `write` and takes any
result that is not negative for success; `readPacket` reads until it has
`sizeof(Packet)` bytes, an error or the end of the connection.

* `Connection.sendPacket`, `Connection.sendPackets` — one call, and a sequence of calls
  with what each `write` answers.
* `readPacket`, `readPackets` — one call, and successive calls while `connectedClient` is
  true, with what each `read` gets.
* `readPackets_prefix_iff` — **whatever is sent and however it is read, the packets read
  are a prefix of those reported as sent, if and only if from every short write on fewer
  than `sizeof(Packet)` bytes are accepted**.
-/

namespace InstantMessenger

open Framing

/-- `sizeof(Packet)` where an `int` has four bytes and a `time_t` eight: the arrays of 20,
37, 20, 255, 37 and 100 bytes, four `int`s and a `time_t`, each field aligned. -/
def sizeofPacket : Nat := 504

/-- The bytes of a packet. -/
structure PacketImage where
  bytes : List UInt8
  size : bytes.length = sizeofPacket

/-- What `write` answers to `sizeof(Packet)` bytes: an error, or how many it accepts. -/
inductive WriteResult where
  | error
  | accepted (k : Nat) (pos : 1 ≤ k) (le : k ≤ sizeofPacket)

/-- A connection, seen from the sender. -/
structure Connection where
  /-- `shutdown` was called, so that `write` fails. -/
  isShutdown : Bool := false
  /-- The bytes accepted so far. -/
  stream : List UInt8 := []

namespace Connection

/-- `Socket::sendPacket`, and what it returns. -/
def sendPacket (c : Connection) (mypacket : PacketImage) (result : WriteResult) :
    Connection × Bool :=
  match if c.isShutdown then .error else result with
  | .error => ({ c with isShutdown := true }, false)
  | .accepted k _ _ => ({ c with stream := c.stream ++ mypacket.bytes.take k }, true)

/-- A sequence of calls: the connection after it, and the packets whose call reported
success. -/
def sendPackets (c : Connection) : List (PacketImage × WriteResult) → Connection × List PacketImage
  | [] => (c, [])
  | (p, result) :: calls =>
    let sent := c.sendPacket p result
    let later := sent.1.sendPackets calls
    (later.1, if sent.2 then p :: later.2 else later.2)

end Connection

/-! ## `readPacket` -/

/-- What `read` gets: an error, or at most so many bytes of those that were accepted. -/
def read (n : Option Nat) (count : Nat) (stream : List UInt8) : Option (List UInt8) :=
  n.map fun n => stream.take (min n count)

/-- What `readPacket` returns, and what is left. -/
structure ReadResult where
  incomingData : List UInt8
  connectedClient : Bool
  stream : List UInt8
  reads : List (Option Nat)

/-- `Socket::readPacket` with `incomingData` received so far, and a list of what each
`read` gets.  No result while the call waits. -/
def readPacket : List (Option Nat) → List UInt8 → List UInt8 → Option ReadResult
  | [], _, _ => none
  | n :: reads, incomingData, stream =>
    match read n (sizeofPacket - incomingData.length) stream with
    | none => some ⟨incomingData, false, stream, reads⟩
    | some [] => some ⟨incomingData, false, stream, reads⟩
    | some (b :: got) =>
      let received := incomingData ++ b :: got
      let left := stream.drop (got.length + 1)
      if received.length ≠ sizeofPacket then readPacket reads received left
      else some ⟨received, true, left, reads⟩

/-- The packets of at most so many calls, up to the first one that is not connected. -/
def readPackets : Nat → List (Option Nat) → List UInt8 → List (List UInt8)
  | 0, _, _ => []
  | calls + 1, reads, stream =>
    match readPacket reads [] stream with
    | none => []
    | some r =>
      if r.connectedClient then r.incomingData :: readPackets calls r.reads r.stream else []

/-! ## What is read -/

/-- A packet that is read whole is the next `sizeof(Packet)` bytes of the stream. -/
theorem readPacket_connected {reads : List (Option Nat)} {incomingData stream : List UInt8}
    {r : ReadResult} (h : readPacket reads incomingData stream = some r)
    (hr : r.connectedClient = true) :
    r.incomingData.length = sizeofPacket ∧ r.incomingData ++ r.stream = incomingData ++ stream := by
  induction reads generalizing incomingData stream with
  | nil => cases h
  | cons n reads ih =>
    unfold readPacket at h
    split at h
    · cases h
      cases hr
    · cases h
      cases hr
    · rename_i b got hread
      have hgot : b :: got ++ stream.drop (got.length + 1) = stream := by
        unfold read at hread
        rw [Option.map_eq_some_iff] at hread
        obtain ⟨k, _, htake⟩ := hread
        have hpre : b :: got <+: stream := by
          rw [← htake]
          exact List.take_prefix _ _
        obtain ⟨rest, rfl⟩ := hpre
        rw [← List.length_cons (a := b), List.drop_left]
      simp only at h
      split at h
      · have hrest := ih h
        refine ⟨hrest.1, ?_⟩
        rw [hrest.2, List.append_assoc, hgot]
      · rename_i hlen
        cases h
        refine ⟨not_not.1 hlen, ?_⟩
        simp only
        rw [List.append_assoc, hgot]

/-- What is read is cut from the stream. -/
theorem cut_readPackets (calls : Nat) (reads : List (Option Nat)) (stream : List UInt8) :
    Cut sizeofPacket stream (readPackets calls reads stream) := by
  induction calls generalizing reads stream with
  | zero => exact .nil _
  | succ calls ih =>
    unfold readPackets
    split
    · exact .nil _
    · rename_i r hread
      split
      · rename_i hr
        obtain ⟨hlen, hstream⟩ := readPacket_connected hread hr
        rw [List.nil_append] at hstream
        refine cut_cons_iff.2 ⟨hlen, ?_, ?_⟩
        · rw [← hstream]
          exact List.prefix_append _ _
        · rw [← hstream, List.drop_left' hlen]
          exact ih r.reads r.stream
      · exact .nil _

/-- And every cut is read, when each `read` gets all it asks for. -/
theorem readPackets_of_cut {stream : List UInt8} {out : List (List UInt8)}
    (h : Cut sizeofPacket stream out) :
    readPackets out.length (out.map fun _ => some sizeofPacket) stream = out := by
  induction out generalizing stream with
  | nil => rfl
  | cons f out ih =>
    obtain ⟨hlen, hpre, hrest⟩ := cut_cons_iff.1 h
    have htake : stream.take sizeofPacket = f := by
      rw [← hlen]
      exact (List.prefix_iff_eq_take.1 hpre).symm
    cases f with
    | nil => cases hlen
    | cons b got =>
      have hread : readPacket (some sizeofPacket :: out.map fun _ => some sizeofPacket) [] stream =
          some ⟨b :: got, true, stream.drop sizeofPacket, out.map fun _ => some sizeofPacket⟩ := by
        have hall : read (some sizeofPacket) (sizeofPacket - ([] : List UInt8).length) stream =
            some (b :: got) := by
          rw [read, List.length_nil, Nat.sub_zero, Option.map_some, Nat.min_self, htake]
        rw [List.length_cons] at hlen
        unfold readPacket
        rw [hall]
        simp [hlen]
      rw [List.length_cons, List.map_cons, readPackets, hread]
      simp only [↓reduceIte]
      rw [ih hrest]

/-! ## What is sent -/

/-- How many bytes of each packet are accepted, up to the first error. -/
def accepted : List WriteResult → List Nat
  | [] => []
  | .error :: _ => []
  | .accepted k _ _ :: results => k :: accepted results

theorem le_of_mem_accepted {results : List WriteResult} :
    ∀ k ∈ accepted results, k ≤ sizeofPacket := by
  intro k hk
  induction results with
  | nil => cases hk
  | cons result results ih =>
    cases result with
    | error => cases hk
    | accepted k' pos le =>
      rcases List.mem_cons.1 hk with rfl | hk
      · exact le
      · exact ih hk

/-- After a `shutdown` nothing is sent, and nothing is reported as sent. -/
theorem sendPackets_of_isShutdown {c : Connection} (h : c.isShutdown = true)
    (calls : List (PacketImage × WriteResult)) :
    (c.sendPackets calls).1.stream = c.stream ∧ (c.sendPackets calls).2 = [] := by
  induction calls generalizing c with
  | nil => exact ⟨rfl, rfl⟩
  | cons call calls ih =>
    have hcall : c.sendPacket call.1 call.2 = ({ c with isShutdown := true }, false) := by
      rw [Connection.sendPacket, if_pos h]
    rw [Connection.sendPackets, hcall]
    exact ih rfl

/-- The stream, and what is reported as sent: both end at the first error. -/
theorem sendPackets_eq {c : Connection} (h : c.isShutdown = false) {ps : List PacketImage}
    {results : List WriteResult} (hlen : ps.length = results.length) :
    (c.sendPackets (ps.zip results)).1.stream =
        c.stream ++ written (ps.map PacketImage.bytes) (accepted results) ∧
      (c.sendPackets (ps.zip results)).2 = ps.take (accepted results).length := by
  induction results generalizing c ps with
  | nil =>
    rw [List.length_eq_zero_iff.1 hlen]
    exact ⟨(List.append_nil _).symm, rfl⟩
  | cons result results ih =>
    obtain ⟨p, ps, rfl⟩ := List.exists_cons_of_length_eq_add_one hlen
    replace hlen : ps.length = results.length := Nat.succ.inj hlen
    rw [List.zip_cons_cons, Connection.sendPackets]
    cases result with
    | error =>
      have hcall : c.sendPacket p .error = ({ c with isShutdown := true }, false) := by
        rw [Connection.sendPacket, if_neg (by simp [h])]
      obtain ⟨hstream, hnone⟩ := sendPackets_of_isShutdown
        (c := { c with isShutdown := true }) rfl (ps.zip results)
      rw [hcall]
      exact ⟨hstream.trans (List.append_nil _).symm, hnone⟩
    | accepted k pos le =>
      have hcall : c.sendPacket p (.accepted k pos le) =
          ({ c with stream := c.stream ++ p.bytes.take k }, true) := by
        rw [Connection.sendPacket, if_neg (by simp [h])]
      obtain ⟨hstream, hreported⟩ :=
        ih (c := { c with stream := c.stream ++ p.bytes.take k }) h hlen
      rw [hcall]
      refine ⟨?_, ?_⟩
      · rw [hstream, List.append_assoc]
        rfl
      · simp only [hreported, ↓reduceIte]
        rfl

/-- Frames that are no longer part of the stream do not matter. -/
theorem written_take {α : Type*} (frames : List (List α)) (ks : List Nat) :
    written (frames.take ks.length) ks = written frames ks := by
  induction ks generalizing frames with
  | nil => rw [written_nil_right, written_nil_right]
  | cons k ks ih =>
    cases frames with
    | nil => rfl
    | cons f frames =>
      rw [List.length_cons, List.take_succ_cons, written_cons, written_cons, ih]

/-! ## The result -/

/-- The packets that calls of `readPacket` return are a prefix of those that `sendPacket`
reported as sent. -/
def Faithful (results : List WriteResult) (ps : List PacketImage) : Prop :=
  let sent := ({} : Connection).sendPackets (ps.zip results)
  ∀ calls reads, readPackets calls reads sent.1.stream <+: sent.2.map PacketImage.bytes

/-- What is read is any cut of the stream, and what is sent are the packets before the
first error. -/
theorem faithful_iff {results : List WriteResult} {ps : List PacketImage}
    (hlen : ps.length = results.length) :
    Faithful results ps ↔
      ∀ out, Cut sizeofPacket (written ((ps.take (accepted results).length).map
        PacketImage.bytes) (accepted results)) out →
        out <+: (ps.take (accepted results).length).map PacketImage.bytes := by
  obtain ⟨hstream, hreported⟩ := sendPackets_eq (c := {}) rfl hlen
  have hwritten : written ((ps.take (accepted results).length).map PacketImage.bytes)
      (accepted results) = written (ps.map PacketImage.bytes) (accepted results) := by
    rw [List.map_take, written_take]
  rw [List.nil_append] at hstream
  simp only [Faithful, hstream, hreported, hwritten]
  constructor
  · intro h out hcut
    rw [← readPackets_of_cut hcut]
    exact h _ _
  · intro h calls reads
    exact h _ (cut_readPackets calls reads _)

theorem length_accepted_le (results : List WriteResult) :
    (accepted results).length ≤ results.length := by
  induction results with
  | nil => exact le_rfl
  | cons result results ih =>
    cases result with
    | error => exact Nat.zero_le _
    | accepted => exact Nat.succ_le_succ ih

/-- Frames of the right size are packets. -/
theorem exists_images {frames : List (List UInt8)}
    (h : ∀ f ∈ frames, f.length = sizeofPacket) :
    ∃ ps : List PacketImage, ps.map PacketImage.bytes = frames := by
  refine ⟨frames.pmap PacketImage.mk h, ?_⟩
  rw [List.map_pmap]
  exact List.pmap_eq_self.2 fun _ _ => rfl

/-- A packet of zeros. -/
def zeroImage : PacketImage := ⟨List.replicate sizeofPacket 0, List.length_replicate ..⟩

/-- **When the framing holds.**  Whatever packets are sent and however they are read, the
packets read are a prefix of those reported as sent, if and only if from every short write
on fewer than `sizeof(Packet)` bytes are accepted. -/
theorem readPackets_prefix_iff (results : List WriteResult) :
    (∀ ps : List PacketImage, ps.length = results.length → Faithful results ps) ↔
      NoneCompleted sizeofPacket (accepted results) := by
  constructor
  · intro h
    by_contra hnot
    obtain ⟨frames, hlen, hframes, out, hcut, hout⟩ :=
      exists_cut_not_prefix (show (0 : UInt8) ≠ 1 by decide) le_of_mem_accepted hnot
    obtain ⟨sent, rfl⟩ := exists_images hframes
    rw [List.length_map] at hlen
    -- the packets after the first error are any packets
    have hle := length_accepted_le results
    have hall : (sent ++ List.replicate (results.length - sent.length) zeroImage).length =
        results.length := by
      rw [List.length_append, List.length_replicate]
      omega
    have hpre := (faithful_iff hall).1 (h _ hall)
    rw [← hlen, List.take_left] at hpre
    exact hout (hpre out hcut)
  · intro h ps hlen
    refine (faithful_iff hlen).2 ?_
    intro out hcut
    refine cut_prefix (by decide) ?_ le_of_mem_accepted h hcut
    intro f hf
    obtain ⟨p, _, rfl⟩ := List.mem_map.1 hf
    exact p.size

/-- A packet of ones. -/
def onesImage : PacketImage := ⟨List.replicate sizeofPacket 1, List.length_replicate ..⟩

/-- **A short write.**  Only the first byte of a packet of zeros is accepted, and the call
reports success; the packet that is read goes on with the bytes of the next one. -/
theorem readPackets_prefix_counterexample :
    ¬ Faithful [.accepted 1 (by decide) (by decide), .accepted sizeofPacket (by decide) le_rfl]
      [zeroImage, onesImage] := by
  intro h
  exact absurd (h 1 [some sizeofPacket]) (by decide +kernel)

end InstantMessenger
