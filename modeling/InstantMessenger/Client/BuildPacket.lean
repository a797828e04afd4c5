import InstantMessenger.Foundations.CharArray
import InstantMessenger.Util.GroupFile

/-!
# The packets of a client

`app_client.cpp` accepts a username and a group, and `Client::buildPacket` puts them
into a `Packet` — three copies with three bounds: the validator's, that of the zeroed
buffers, and that of the constructor of `Packet`, whose arrays keep what was in the
memory before.

* `validateName` — what the client accepts, with the text it prints otherwise.
* `PacketBytes` — a `Packet` with the bytes of its arrays, and
  `PacketBytes.construct`, its constructor.
* `Client.buildPacket` — the packet of an input line.
* `Client.names_survive` — **the names are read back exactly when both fit**: a name of
  twenty characters never does, and one of nineteen only over an old NUL.
* `Client.buildPacket_holds` — what the other programs then read from the arrays.
-/

namespace InstantMessenger

open Text CharArray

/-! ## The validator -/

/-- `regex_match` with `[A-Za-z][A-Za-z0-9.]+`. -/
def validator : Str → Bool
  | [] => false
  | c :: rest => c.isAlpha && !rest.isEmpty && rest.all fun d => d.isAlphanum || d == '.'

def INVALID_SIZE : Str :=
  "Invalid user or group name -> Name must have between 4 and 20 characters".toList

def INVALID_STRING : Str :=
  "Invalid user or group name -> Name must start with letter and be formed with numbers, ".toList ++
    "letters and . only".toList

/-- `validateName`: the text is printed where it returns `-1`. -/
def validateName (name : Str) : Except Str Unit :=
  let nameLength := GroupFile.toInt name.length
  let isValidSize := 4 ≤ nameLength ∧ nameLength ≤ USERNAME_MAX_SIZE
  let isValidString := validator name
  if isValidSize ∧ isValidString then .ok ()
  else if ¬ isValidSize then .error INVALID_SIZE
  else .error INVALID_STRING

/-- An accepted name is made of letters, digits and dots. -/
theorem validator_of_validateName {name : Str} (h : validateName name = .ok ()) :
    validator name = true := by
  unfold validateName at h
  simp only at h
  split at h
  case isTrue hvalid => exact hvalid.2
  case isFalse => split at h <;> cases h

theorem not_mem_of_validator {name : Str} (h : validator name = true) {c : Char}
    (hc : (c.isAlphanum || c == '.') = false) : c ∉ name := by
  cases name with
  | nil => simp
  | cons d rest =>
    rw [validator, Bool.and_eq_true, Bool.and_eq_true, List.all_eq_true] at h
    intro hmem
    rcases List.mem_cons.1 hmem with rfl | hrest
    · rw [Char.isAlphanum, h.1.1] at hc
      cases hc
    · rw [h.2 c hrest] at hc
      cases hc

/-- The accepted names have no NUL, so that an array can hold them. -/
theorem not_mem_of_validateName {name : Str} (h : validateName name = .ok ()) :
    '\x00' ∉ name := not_mem_of_validator (validator_of_validateName h) (by decide)

/-! ## A packet in memory -/

/-- A string of `Uuid::generate_uuid_v4`. -/
structure Uuid where
  text : Str
  length_text : text.length = 36
  noNul : '\x00' ∉ text

theorem Uuid.fits (u : Uuid) : (cstr u.text).length < UUID_SIZE := by
  rw [cstr_eq_self u.noNul, u.length_text]
  decide

/-- The memory of a `Packet`. -/
structure PacketBytes where
  status : Int
  username : CharArray USERNAME_MAX_SIZE
  user_id : CharArray UUID_SIZE
  group : CharArray GROUP_MAX_SIZE
  message : CharArray MESSAGE_MAX_SIZE
  message_id : CharArray UUID_SIZE
  clientSocket : Int
  frontEndAddress : CharArray 100
  clientDispositiveIdentifier : Int
  timestamp : Int
  type : Int

namespace PacketBytes

/-- `Packet::Packet(username, group, message, timestamp, userId, packetType)` on memory
that holds something already; `message_id` is the generated uuid. -/
def construct (memory : PacketBytes) (username group message : Str) (timestamp : Int)
    (userId message_id : Uuid) (packetType : Int) : PacketBytes :=
  { memory with
    status := 1440
    username := memory.username.strncpy username (USERNAME_MAX_SIZE - 1) (Nat.sub_le ..)
    group := memory.group.strncpy group (GROUP_MAX_SIZE - 1) (Nat.sub_le ..)
    message := memory.message.strncpy message (MESSAGE_MAX_SIZE - 1) (Nat.sub_le ..)
    timestamp := timestamp
    message_id := memory.message_id.strcpy message_id.text message_id.fits
    user_id := memory.user_id.strcpy userId.text userId.fits
    clientDispositiveIdentifier := 17389
    type := packetType }

/-- A text that is shorter than the bound of its copy is read from the packet as it is. -/
theorem reads_message_construct (memory : PacketBytes) (username group : Str) {message t : Str}
    (timestamp : Int) (userId message_id : Uuid) (packetType : Int) (ht : '\x00' ∉ t)
    (htext : cstr message = t) (hlen : t.length < MESSAGE_MAX_SIZE - 1) :
    (memory.construct username group message timestamp userId message_id packetType).message.Reads
      t := by
  have hcopy : (memory.construct username group message timestamp userId message_id
      packetType).message =
        memory.message.strncpy t (MESSAGE_MAX_SIZE - 1) (Nat.sub_le ..) :=
    strncpy_congr memory.message htext ht _
  rw [hcopy]
  exact (reads_strncpy memory.message ht (Nat.sub_le ..)).2 (Or.inl hlen)

/-- The arrays that `buildPacket` writes hold the strings of `p`. -/
structure Holds (b : PacketBytes) (p : Packet) : Prop where
  username : b.username.Reads p.username
  user_id : b.user_id.Reads p.user_id
  group : b.group.Reads p.group
  message : b.message.Reads p.message
  timestamp : b.timestamp = p.timestamp

end PacketBytes

/-! ## `Client::buildPacket` -/

/-- The fields of a `Client` that its packets are built from. -/
structure Client where
  username : Str
  group : Str
  userId : Uuid

namespace Client

/-- `Client::buildPacket`.  The constructor runs on `memory`; `now` is `time(0)`. -/
def buildPacket (client : Client) (memory : PacketBytes) (message_id : Uuid) (now : Int)
    (input : Str) (packetType : Int) : PacketBytes :=
  let usernameBuffer := (zeroed USERNAME_MAX_SIZE).strncpy client.username
    (USERNAME_MAX_SIZE - 1) (Nat.sub_le ..)
  let groupBuffer := (zeroed GROUP_MAX_SIZE).strncpy client.group
    (GROUP_MAX_SIZE - 1) (Nat.sub_le ..)
  let messageBuffer := ((zeroed MESSAGE_MAX_SIZE).strncpy input
    (MESSAGE_MAX_SIZE - 2) (Nat.sub_le ..)).set (MESSAGE_MAX_SIZE - 1) '\x00'
  memory.construct usernameBuffer.bytes groupBuffer.bytes messageBuffer.bytes now
    client.userId message_id packetType

variable (client : Client) (memory : PacketBytes) (message_id : Uuid) (now : Int) (input : Str)
  (packetType : Int)

/-- Both names are read from the packet as they are. -/
def Survive (p : PacketBytes) : Prop :=
  p.username.Reads client.username ∧ p.group.Reads client.group

instance (p : PacketBytes) : Decidable (client.Survive p) := inferInstanceAs (Decidable (_ ∧ _))

theorem username_buildPacket :
    (client.buildPacket memory message_id now input packetType).username =
      memory.username.strncpy client.username (USERNAME_MAX_SIZE - 1) (Nat.sub_le ..) :=
  strncpy_zeroed_strncpy memory.username client.username (by decide)

theorem group_buildPacket :
    (client.buildPacket memory message_id now input packetType).group =
      memory.group.strncpy client.group (GROUP_MAX_SIZE - 1) (Nat.sub_le ..) :=
  strncpy_zeroed_strncpy memory.group client.group (by decide)

/-- The names fit into the arrays of the memory. -/
def Fitting (memory : PacketBytes) : Prop :=
  Fits client.username memory.username ∧ Fits client.group memory.group

instance (memory : PacketBytes) : Decidable (client.Fitting memory) :=
  inferInstanceAs (Decidable (_ ∧ _))

/-- Names without a NUL are read back from the packet exactly when they fit. -/
theorem survive_buildPacket (hu : '\x00' ∉ client.username) (hg : '\x00' ∉ client.group) :
    client.Survive (client.buildPacket memory message_id now input packetType) ↔
      client.Fitting memory := by
  rw [Survive, username_buildPacket, group_buildPacket]
  exact and_congr (reads_strncpy_last memory.username (by decide) hu)
    (reads_strncpy_last memory.group (by decide) hg)

/-- The line is cut to 253 bytes, and always ended by a NUL. -/
theorem message_buildPacket :
    (client.buildPacket memory message_id now input packetType).message.Reads
      ((cstr input).take (MESSAGE_MAX_SIZE - 2)) := by
  have hbuffer : ((zeroed MESSAGE_MAX_SIZE).strncpy input (MESSAGE_MAX_SIZE - 2)
      (Nat.sub_le ..)).set (MESSAGE_MAX_SIZE - 1) '\x00' =
        (zeroed MESSAGE_MAX_SIZE).strncpy input (MESSAGE_MAX_SIZE - 2) (Nat.sub_le ..) :=
    zeroed_strncpy_set input (by decide) _
  have hcut : cstr ((zeroed MESSAGE_MAX_SIZE).strncpy input (MESSAGE_MAX_SIZE - 2)
      (Nat.sub_le ..)).bytes = (cstr input).take (MESSAGE_MAX_SIZE - 2) :=
    cstr_zeroed_strncpy input (by decide)
  have hnul : '\x00' ∉ (cstr input).take (MESSAGE_MAX_SIZE - 2) := by
    intro hmem
    exact not_mem_cstr input (List.mem_of_mem_take hmem)
  have hlen : ((cstr input).take (MESSAGE_MAX_SIZE - 2)).length < MESSAGE_MAX_SIZE - 1 :=
    (List.length_take_le ..).trans_lt (by decide)
  rw [← hbuffer] at hcut
  exact memory.reads_message_construct _ _ now client.userId message_id packetType hnul hcut hlen

/-- What the server and the other clients read, when the names fit. -/
theorem buildPacket_holds (hu : '\x00' ∉ client.username) (hg : '\x00' ∉ client.group)
    (hfit : client.Fitting memory) (type : PacketType) :
    (client.buildPacket memory message_id now input packetType).Holds
      { type
        username := client.username
        user_id := client.userId.text
        group := client.group
        message := (cstr input).take (MESSAGE_MAX_SIZE - 2)
        timestamp := now } := by
  have hnames := (client.survive_buildPacket memory message_id now input packetType hu hg).2 hfit
  exact
    { username := hnames.1
      user_id := reads_strcpy memory.user_id client.userId.noNul client.userId.fits
      group := hnames.2
      message := client.message_buildPacket memory message_id now input packetType
      timestamp := rfl }

/-- **When the names survive the wire.**  Names that `validateName` accepts are read back
from the packet exactly when they fit into its arrays, and then distinct names stay
distinct. -/
theorem names_survive (hu : validateName client.username = .ok ())
    (hg : validateName client.group = .ok ()) :
    (client.Survive (client.buildPacket memory message_id now input packetType) ↔
      client.Fitting memory) ∧
    ∀ (other : Client) (memory' : PacketBytes) (message_id' : Uuid) (now' : Int) (input' : Str)
      (packetType' : Int), validateName other.username = .ok () →
      validateName other.group = .ok () → client.Fitting memory → other.Fitting memory' →
      let p := client.buildPacket memory message_id now input packetType
      let p' := other.buildPacket memory' message_id' now' input' packetType'
      (cstr p.username.bytes = cstr p'.username.bytes ↔ client.username = other.username) ∧
        (cstr p.group.bytes = cstr p'.group.bytes ↔ client.group = other.group) := by
  have hiff := client.survive_buildPacket memory message_id now input packetType
    (not_mem_of_validateName hu) (not_mem_of_validateName hg)
  refine ⟨hiff, ?_⟩
  intro other memory' message_id' now' input' packetType' hu' hg' hfit hfit'
  have hread := hiff.2 hfit
  have hread' := (other.survive_buildPacket memory' message_id' now' input' packetType'
    (not_mem_of_validateName hu') (not_mem_of_validateName hg')).2 hfit'
  exact ⟨by rw [hread.1.2, hread'.1.2], by rw [hread.2.2, hread'.2.2]⟩

/-! ## Names at the limit -/

/-- Memory that was never written. -/
def zeroedMemory : PacketBytes :=
  { status := 0
    username := zeroed _
    user_id := zeroed _
    group := zeroed _
    message := zeroed _
    message_id := zeroed _
    clientSocket := 0
    frontEndAddress := zeroed _
    clientDispositiveIdentifier := 0
    timestamp := 0
    type := 0 }

/-- A uuid of zeros. -/
def nilUuid : Uuid := ⟨"00000000-0000-4000-8000-000000000000".toList, by decide, by decide⟩

def named (username group : String) : Client :=
  { username := username.toList, group := group.toList, userId := nilUuid }

theorem names_survive_short :
    (named "alice" "room").Survive
      ((named "alice" "room").buildPacket zeroedMemory nilUuid 0 "hi".toList 0) :=
  ((names_survive (named "alice" "room") zeroedMemory nilUuid 0 "hi".toList 0
    (by decide +kernel) (by decide +kernel)).1).2 (by decide)

/-- **Names at the limit do not survive.**  A name of twenty characters is accepted and
loses its last one, even in zeroed memory, so that it can no longer be told from others. -/
theorem names_survive_counterexample :
    let client := named "abcdefghijklmnopqrst" "room"
    let other := named "abcdefghijklmnopqrsu" "room"
    let p := client.buildPacket zeroedMemory nilUuid 0 "hi".toList 0
    let p' := other.buildPacket zeroedMemory nilUuid 0 "hi".toList 0
    validateName client.username = .ok () ∧ validateName client.group = .ok () ∧
      validateName other.username = .ok () ∧
      ¬ client.Survive p ∧ client.username ≠ other.username ∧
      cstr p.username.bytes = cstr p'.username.bytes := by
  refine ⟨by decide +kernel, by decide +kernel, by decide +kernel, ?_, by decide +kernel,
    by decide +kernel⟩
  intro h
  exact not_fits_of_le (by decide) _
    ((survive_buildPacket _ _ _ _ _ _ (by decide) (by decide)).1 h).1

end Client

end InstantMessenger
