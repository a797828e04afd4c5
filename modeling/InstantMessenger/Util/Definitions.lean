import Mathlib.Data.List.Basic

/-!
# The constants, the packets and the messages

The data every program of the messenger shares: `definitions.hpp`, `Packet.hpp`,
`message.hpp` and `StringConstants.cpp`.

A `char` array of a packet is given by the C string it holds, since that is all
the programs read from it; a `std::string` is the list of its bytes.  The fields
of `Packet` that no modelled function reads (`status`, `message_id`,
`clientSocket`, `clientDispositiveIdentifier`) are left out.
-/

namespace InstantMessenger

/-- A `std::string`, or what a `char` array holds up to its first NUL. -/
abbrev Str := List Char

instance : LawfulBEq Str := inferInstance

/-! ## `definitions.hpp`, `exceptions.hpp`, `user.hpp` -/

def DEFAULT_NUMBER_OF_RECORDED_MESSAGES : Nat := 10

def USERNAME_MAX_SIZE : Nat := 20

def UUID_SIZE : Nat := 37

def GROUP_MAX_SIZE : Nat := 20

def MESSAGE_MAX_SIZE : Nat := 255

def MAX_NUMBER_OF_SIMULTANEOUS_CONNECTIONS : Nat := 2

def USER_SESSIONS_LIMIT_REACHED : Int := -2

def KEEP_ALIVE_TIMEOUT : Int := 10

def MAX_RM : Nat := 3

def JOINED_MESSAGE : Str := "<Joined the group>".toList

def LEFT_GROUP_MESSAGE : Str := "<Left the group>".toList

/-- The client id that stands for "every client of this front end".  The source
keeps a pointer into a temporary; the constant is the string it is initialised
from. -/
def FE_DISCONNECT : Str := "FE_DISCONNECT".toList

/-- The values of a packet's `type` field. -/
inductive PacketType where
  | MESSAGE_PACKET
  | ACK_PACKET
  | JOIN_PACKET
  | ACCEPT_PACKET
  | KEEP_ALIVE_PACKET
  | CONNECTION_REFUSED_PACKET
  | DISCONNECT_PACKET
  | ELECTION_PACKET
  | REPLICATION_PACKET
  | REPLICATION_CONFIRMATION_PACKET
  deriving DecidableEq, Repr

/-- The enumerators count from 0. -/
def PacketType.value : PacketType → Int
  | .MESSAGE_PACKET => 0
  | .ACK_PACKET => 1
  | .JOIN_PACKET => 2
  | .ACCEPT_PACKET => 3
  | .KEEP_ALIVE_PACKET => 4
  | .CONNECTION_REFUSED_PACKET => 5
  | .DISCONNECT_PACKET => 6
  | .ELECTION_PACKET => 7
  | .REPLICATION_PACKET => 8
  | .REPLICATION_CONFIRMATION_PACKET => 9

/-! ## `Packet.hpp` -/

/-- A packet, each array by the C string it holds. -/
structure Packet where
  type : PacketType
  username : Str := []
  user_id : Str := []
  group : Str := []
  message : Str := []
  frontEndAddress : Str := []
  timestamp : Int := 0
  deriving DecidableEq, Repr

namespace Packet

def isMessage (p : Packet) : Bool := p.type == .MESSAGE_PACKET

def isJoinMessage (p : Packet) : Bool := p.type == .JOIN_PACKET

def isDisconnect (p : Packet) : Bool := p.type == .DISCONNECT_PACKET

def isKeepAlive (p : Packet) : Bool := p.type == .KEEP_ALIVE_PACKET

end Packet

/-! ## `message.hpp` -/

/-- A message of a group. -/
structure Message where
  text : Str
  user : Str
  group : Str
  time : Int
  isNotification : Bool := false
  deriving DecidableEq, Repr

end InstantMessenger
