import InstantMessenger.Client.BuildPacket
import InstantMessenger.Server.Server

/-!
# The two hops of a message

A line is copied into the packet of the client, read from it as a `std::string` for the
`Message` of the group, and copied again into a packet for each recipient.  The bounds of
the copies are 253 bytes into a zeroed buffer and 254 bytes into arrays of 255 that keep
what was in them.

* `PacketBytes.packet` — a packet in memory, as the server reads it.
* `ServerMessageManager.sendMessageToSession`, `sendMessageToSocketId`,
  `broadcastMessageToUsers` — the packets the server builds from a message.
* `text_survives` — **the text of every recipient's packet is the line, cut by the first
  hop and by no other**, whatever was in the memory.
* `messagePacket_holds` — the whole packet, when the names fit.
-/

namespace InstantMessenger

open Text CharArray

/-- What the server reads from a packet in memory. -/
def PacketBytes.packet (b : PacketBytes) (type : PacketType) : Packet where
  type := type
  username := cstr b.username.bytes
  user_id := cstr b.user_id.bytes
  group := cstr b.group.bytes
  message := cstr b.message.bytes
  frontEndAddress := cstr b.frontEndAddress.bytes
  timestamp := b.timestamp

/-- A session a message is sent to, with the memory in which its packet is built and the
uuid that is drawn for it. -/
structure Recipient where
  clientID : Uuid
  feAddress : Str
  memory : PacketBytes
  message_id : Uuid

namespace ServerMessageManager

/-- The packet of a message for a recipient. -/
def messagePacket (message : Message) (r : Recipient) : PacketBytes :=
  r.memory.construct message.user message.group message.text message.time r.clientID
    r.message_id PacketType.MESSAGE_PACKET.value

/-- `ServerMessageManager::sendMessageToSocketId`: the socket, and what is sent. -/
def sendMessageToSocketId (message : Message) (r : Recipient) (feSocket : Int) :
    Int × PacketBytes :=
  (feSocket, messagePacket message r)

/-- `ServerMessageManager::sendMessageToSession`. -/
def sendMessageToSession (getSocketFromAddress : Str → Int) (message : Message) (r : Recipient) :
    Int × PacketBytes :=
  (getSocketFromAddress r.feAddress, messagePacket message r)

/-- `ServerMessageManager::broadcastMessageToUsers`. -/
def broadcastMessageToUsers (getSocketFromAddress : Str → Int) (message : Message)
    (connectionIds : List Recipient) : List (Int × PacketBytes) :=
  connectionIds.map (sendMessageToSession getSocketFromAddress message)

end ServerMessageManager

open ServerMessageManager Server

/-- The message that `Group::processReceivedMessage` puts into the queue. -/
def receivedMessage (p : Packet) (groupName : Str) (time : Int) : Message :=
  ⟨p.message, p.username, groupName, time, false⟩

variable (client : Client) (memory : PacketBytes) (message_id : Uuid) (now : Int) (input : Str)
  (packetType : Int)

/-- The text that leaves the client. -/
def sentText (input : Str) : Str := (cstr input).take (MESSAGE_MAX_SIZE - 2)

theorem not_mem_sentText : '\x00' ∉ sentText input := fun hmem =>
  not_mem_cstr input (List.mem_of_mem_take hmem)

/-- The copy for a recipient has room for it and its NUL. -/
theorem length_sentText_lt : (sentText input).length < MESSAGE_MAX_SIZE - 1 :=
  (List.length_take_le ..).trans_lt (by decide)

/-- The second hop copies a text of the first one whole. -/
theorem reads_messagePacket {message : Message} (h : message.text = sentText input)
    (r : Recipient) : (messagePacket message r).message.Reads (sentText input) :=
  r.memory.reads_message_construct _ _ _ _ _ _ (not_mem_sentText input)
    (by rw [h, cstr_eq_self (not_mem_sentText input)]) (length_sentText_lt input)

/-- **The text survives both hops.**  For every line, every memory and every recipient: the
text of the packet the server builds has its NUL inside the array and is read as the first
253 bytes of the line, cut at its first NUL; and it is what the packet of the client reads. -/
theorem text_survives (type : PacketType) (groupName : Str) (time : Int) :
    let sent := client.buildPacket memory message_id now input packetType
    let message := receivedMessage (sent.packet type) groupName time
    sent.message.Reads ((cstr input).take (MESSAGE_MAX_SIZE - 2)) ∧
      (∀ getSocketFromAddress connectionIds,
        ∀ p ∈ broadcastMessageToUsers getSocketFromAddress message connectionIds,
          p.2.message.Reads ((cstr input).take (MESSAGE_MAX_SIZE - 2))) ∧
      ∀ r feSocket, (sendMessageToSocketId message r feSocket).2.message.Reads
        ((cstr input).take (MESSAGE_MAX_SIZE - 2)) := by
  intro sent message
  have hfirst := client.message_buildPacket memory message_id now input packetType
  have htext : message.text = sentText input := hfirst.2
  refine ⟨hfirst, ?_, ?_⟩
  · intro getSocketFromAddress connectionIds p hp
    obtain ⟨r, _, rfl⟩ := List.mem_map.1 hp
    exact reads_messagePacket input htext r
  · intro r feSocket
    exact reads_messagePacket input htext r

/-- **The whole packet.**  When the names fit into the memory of both packets, a recipient
reads the sender's name and group, the text, the server's time and its own id. -/
theorem messagePacket_holds (hu : '\x00' ∉ client.username) (hg : '\x00' ∉ client.group)
    (hfit : client.Fitting memory) (time : Int) (r : Recipient)
    (hfit' : client.Fitting r.memory) :
    let sent := client.buildPacket memory message_id now input packetType
    (messagePacket (receivedMessage (sent.packet .MESSAGE_PACKET) client.group time) r).Holds
      { type := .MESSAGE_PACKET
        username := client.username
        user_id := r.clientID.text
        group := client.group
        message := (cstr input).take (MESSAGE_MAX_SIZE - 2)
        timestamp := time } := by
  intro sent
  have hsent := client.buildPacket_holds memory message_id now input packetType hu hg hfit
    .MESSAGE_PACKET
  have husername : (sent.packet .MESSAGE_PACKET).username = client.username := hsent.username.2
  exact
    { username := by
        simp only [messagePacket, PacketBytes.construct, receivedMessage, husername]
        exact (reads_strncpy_last r.memory.username (by decide) hu).2 hfit'.1
      user_id := reads_strcpy r.memory.user_id r.clientID.noNul r.clientID.fits
      group := (reads_strncpy_last r.memory.group (by decide) hg).2 hfit'.2
      message := reads_messagePacket input hsent.message.2 r
      timestamp := rfl }

/-- A short message, with all memory zeroed. -/
theorem messagePacket_holds_short :
    let client := Client.named "alice" "room"
    let sent := client.buildPacket Client.zeroedMemory Client.nilUuid 0 "hi".toList 0
    (messagePacket (receivedMessage (sent.packet .MESSAGE_PACKET) client.group 7)
        ⟨Client.nilUuid, "f".toList, Client.zeroedMemory, Client.nilUuid⟩).Holds
      { type := .MESSAGE_PACKET
        username := "alice".toList
        user_id := Client.nilUuid.text
        group := "room".toList
        message := "hi".toList
        timestamp := 7 } :=
  messagePacket_holds (Client.named "alice" "room") Client.zeroedMemory Client.nilUuid 0 "hi".toList
    0 (by decide) (by decide) (by decide) 7
    ⟨Client.nilUuid, "f".toList, Client.zeroedMemory, Client.nilUuid⟩ (by decide)

end InstantMessenger
