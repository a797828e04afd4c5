import Mathlib.Logic.Function.Basic
import InstantMessenger.Util.Definitions

/-!
# The keep-alives of the connections

`ConnectionMonitor.cpp`: the time of the last keep-alive of every socket, and the
thread that watches one of them.  Times are what `time(NULL)` returns.

* `refresh`, `killSocket`, `lastKeepAlive` — the operations on the map.  The lookup is
  `operator[]`, which leaves an entry behind.
* `MonitorThread` — where a thread is in `monitor` and after it, in
  `monitorConnectionKeepAlive`.
-/

namespace InstantMessenger
namespace ConnectionMonitor

/-- `socketLastKeepAlive`. -/
abbrev KeepAlives := Nat → Option Int

/-- `ConnectionMonitor::refresh`, and the first step of `keepsMonitoringConnection`. -/
def refresh (m : KeepAlives) (socket : Nat) (now : Int) : KeepAlives :=
  Function.update m socket (some now)

/-- `ConnectionMonitor::killSocket`, and the last step of `monitor`. -/
def killSocket (m : KeepAlives) (socket : Nat) : KeepAlives := Function.update m socket none

/-- `socketLastKeepAlive[socket]`, the value. -/
def lastKeepAlive (m : KeepAlives) (socket : Nat) : Int := (m socket).getD 0

/-- `socketLastKeepAlive[socket]`, the map it leaves behind. -/
def lookedUp (m : KeepAlives) (socket : Nat) : KeepAlives :=
  Function.update m socket (some (lastKeepAlive m socket))

/-- The condition of the loop in `keepsMonitoringConnection`. -/
def connectionIsValid (now last : Int) : Bool := decide (now - last < KEEP_ALIVE_TIMEOUT)

/-- Where a monitor thread is. -/
inductive MonitorThread where
  | starting
  | sleeping
  /-- It has read the time, in front of the lookup. -/
  | woken (now : Int)
  /-- In front of the `erase`. -/
  | timedOut
  /-- In front of the `shutdown`. -/
  | erased
  | done
  deriving DecidableEq, Repr

/-- The thread after its lookup. -/
def MonitorThread.checked (now last : Int) : MonitorThread :=
  if connectionIsValid now last then .sleeping else .timedOut

end ConnectionMonitor
end InstantMessenger
