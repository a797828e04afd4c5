import InstantMessenger.Foundations.Text
import InstantMessenger.Util.Definitions

/-!
# The messages of an election

`Election.cpp`: what a server writes to its successor when it starts an election,
and what it does with a message of its predecessor.  A message is the `message`
field of its packet, the only field that is read on the ring.

* `buildPacket`, `processElectionInfo` — writing and handling a message.  There is
  no result where `stoi` throws.
* `processElectionInfo_buildPacket` — **the status and the id that are written are
  the ones that are parsed back**, so a message can be thought of as a pair.
-/

namespace InstantMessenger
namespace Election

open Text

def ELECTION : Str := "ELECTION".toList

def ELECTED : Str := "ELECTED".toList

/-- `Election::buildPacket`, the `message` field: the text is copied into a zeroed
buffer, and from there into the packet. -/
def buildPacket (server_ID : Int) (status : Str) : Str :=
  let message := status ++ ' ' :: to_string server_ID
  let messageBuffer := strncpy message (MESSAGE_MAX_SIZE - 2)
  strncpy messageBuffer (MESSAGE_MAX_SIZE - 1)

/-- `Election::sendMessageToNextServer`: the messages written to the successor. -/
def sendMessageToNextServer (server_ID : Int) (status : Str := ELECTION) : List Str :=
  [buildPacket server_ID status]

/-- `Election::startElection`. -/
def startElection (server_ID : Int) : List Str := sendMessageToNextServer server_ID

/-- What handling a message leaves behind: the flag, what was sent, and the
result. -/
structure Processed where
  isParticipating : Bool
  sent : List Str
  result : Int
  deriving DecidableEq, Repr

/-- The branches of `processElectionInfo` on the parsed message. -/
def process (isParticipating : Bool) (status : Str) (client_ID server_ID : Int) : Processed :=
  if !isParticipating then
    if client_ID > server_ID then ⟨true, sendMessageToNextServer client_ID, 0⟩
    else ⟨true, sendMessageToNextServer server_ID, 0⟩
  else if status == ELECTION then
    if client_ID ≠ server_ID then ⟨isParticipating, sendMessageToNextServer client_ID, 0⟩
    else ⟨isParticipating, sendMessageToNextServer client_ID ELECTED, 0⟩
  else
    ⟨false, if client_ID ≠ server_ID then sendMessageToNextServer client_ID ELECTED else [],
      client_ID⟩

/-- `Election::processElectionInfo`. -/
def processElectionInfo (isParticipating : Bool) (Receivedmessage : Str) (server_ID : Int) :
    Option Processed :=
  let (status, message) := extract Receivedmessage
  let (receivedID, _) := extract message
  (stoi receivedID).map fun client_ID => process isParticipating status client_ID server_ID

/-! ## What is written is read back -/

/-- The two words an election message can start with. -/
def IsStatus (status : Str) : Prop := status = ELECTION ∨ status = ELECTED

theorem IsStatus.spec {status : Str} (h : IsStatus status) :
    status ≠ [] ∧ status.length ≤ 8 ∧ '\x00' ∉ status ∧ ∀ c ∈ status, isspace c = false := by
  have hword : ∀ w : Str, (w.all fun c => !isspace c) = true → ∀ c ∈ w, isspace c = false :=
    fun w hw c hc => by simpa using List.all_eq_true.1 hw c hc
  rcases h with rfl | rfl
  · exact ⟨by decide, by decide, by decide, hword _ (by decide)⟩
  · exact ⟨by decide, by decide, by decide, hword _ (by decide)⟩

/-- The buffers are long enough. -/
theorem buildPacket_eq {status : Str} {id : Int} (hs : IsStatus status) (hid : 0 ≤ id)
    (hmax : id ≤ INT_MAX) : buildPacket id status = status ++ ' ' :: to_string id := by
  obtain ⟨-, hlen, hnul, -⟩ := hs.spec
  have hdigits := (to_string_digits hid).2
  have hnul' : '\x00' ∉ status ++ ' ' :: to_string id := by
    intro hmem
    rcases List.mem_append.1 hmem with h | h
    · exact hnul h
    · rcases List.mem_cons.1 h with h' | h'
      · exact absurd h' (by decide)
      · exact absurd (hdigits _ h') (by decide)
  have hlen' : (status ++ ' ' :: to_string id).length ≤ 19 := by
    have := length_to_string_le hid hmax
    rw [List.length_append, List.length_cons]
    omega
  have hsize : MESSAGE_MAX_SIZE = 255 := rfl
  unfold buildPacket
  dsimp only
  rw [strncpy_eq_self hnul' (by omega), strncpy_eq_self hnul' (by omega)]

/-- **What is written is read back.** -/
theorem processElectionInfo_buildPacket {status : Str} {id : Int} (hs : IsStatus status)
    (hid : 0 ≤ id) (hmax : id ≤ INT_MAX) (isParticipating : Bool) (server_ID : Int) :
    processElectionInfo isParticipating (buildPacket id status) server_ID =
      some (process isParticipating status id server_ID) := by
  obtain ⟨hne, -, -, hspace⟩ := hs.spec
  obtain ⟨hne', hdigits⟩ := to_string_digits hid
  have hstatus : extract (status ++ ' ' :: to_string id) = (status, ' ' :: to_string id) :=
    extract_word hne hspace rfl
  have hnumber : extract (' ' :: to_string id) = (to_string id, []) := by
    have h := @extract_word (to_string id) [] hne'
      (fun c hc => isspace_of_isDigit (hdigits c hc)) rfl
    rwa [List.append_nil, ← extract_space (c := ' ') (by decide)] at h
  unfold processElectionInfo
  rw [buildPacket_eq hs hid hmax, hstatus]
  dsimp only
  rw [hnumber]
  dsimp only
  rw [stoi_to_string hid hmax, Option.map_some]

end Election
end InstantMessenger
