import InstantMessenger.Foundations.EraseLoop
import InstantMessenger.Util.Definitions

/-!
# Users and their sessions

`user.cpp`: a user of a group and the sessions it is connected with.  A session
is the pair (client id, front-end address).
-/

namespace InstantMessenger

/-- A session: the client's id and the address of its front end. -/
abbrev Session := Str × Str

/-- A user of a group. -/
structure User where
  username : Str
  clientIdentifiers : List Session
  deriving DecidableEq, Repr

namespace User

/-- `User::User`. -/
def new (username : Str) : User := ⟨username, []⟩

/-- `User::getActiveConnections`. -/
def getActiveConnections (u : User) : List Session := u.clientIdentifiers

/-- `User::registerSession`: 0, or -1 when the user has no slot left. -/
def registerSession (u : User) (clientID feAddress : Str) : User × Int :=
  if u.clientIdentifiers.length < MAX_NUMBER_OF_SIMULTANEOUS_CONNECTIONS then
    ({ u with clientIdentifiers := u.clientIdentifiers ++ [(clientID, feAddress)] }, 0)
  else (u, -1)

/-- The test of the loop in `User::releaseSession`.  Both comparisons are made
with the client id of the session, the second one without `== 0`. -/
def releaseTest (clientID feAddress : Str) (userSession : Session) : Bool :=
  userSession.1 == clientID && userSession.1 != feAddress

/-- `User::releaseSession`.  The strings of a destroyed slot have been moved out
of it and are empty. -/
def releaseSession (u : User) (clientID feAddress : Str) : User :=
  { u with
    clientIdentifiers :=
      EraseLoop.eraseLoop (releaseTest clientID feAddress) ([], []) u.clientIdentifiers }

theorem registerSession_of_lt {u : User} (c f : Str)
    (h : u.clientIdentifiers.length < MAX_NUMBER_OF_SIMULTANEOUS_CONNECTIONS) :
    u.registerSession c f =
      ({ u with clientIdentifiers := u.clientIdentifiers ++ [(c, f)] }, 0) := by
  rw [registerSession, if_pos h]

end User

end InstantMessenger
