import Mathlib.Algebra.Order.Ring.Int
import InstantMessenger.Util.Definitions

/-!
# The replication loop over the backups

The loop of `listenFrontEndCommunication` over `rm_connect_sockets_fd`, a `std::map`: it
sends the packet to each socket, waits for the confirmation, and where the link has failed
erases the socket it is at.  The `++` at the end of the round then advances an iterator to
the erased element.

* `Sockets` — the keys of the map, in order, and `Sockets.next`, what `++` gives; an
  iterator to an element that is not in the map cannot be used.
* `SendLoop`, `SendLoop.round`, `SendLoop.rounds` — a round of the loop and the
  loop; no result where such an iterator is used.
* `SendLoop.Tolerates` — every backup is sent the packet once, and exactly the failing
  ones are gone.
* `SendLoop.tolerates_iff` — **that is so if and only if no link fails**.
-/

namespace InstantMessenger

/-- The keys of a `std::map<int, sockaddr_in>`, in the order of an iteration. -/
structure Sockets where
  keys : List Int
  sorted : keys.Pairwise (· < ·)

namespace Sockets

/-- `begin()`; `none` is `end()`. -/
def begin (s : Sockets) : Option Int := s.keys.head?

/-- `erase` of the element with this key. -/
def erase (s : Sockets) (socket : Int) : Sockets :=
  ⟨s.keys.erase socket, s.sorted.sublist List.erase_sublist⟩

/-- `++` on an iterator to the element with this key: the next one or `end()`.  No result
when the element has been erased. -/
def next (s : Sockets) (socket : Int) : Option (Option Int) :=
  if socket ∈ s.keys then some (s.keys.find? (socket < ·)) else none

end Sockets

/-- The loop between two rounds. -/
structure SendLoop where
  rm_connect_sockets_fd : Sockets
  /-- The iterator of the range-for. -/
  iterator : Option Int
  sent : List (Int × Packet) := []
  replicationError : Bool := false

namespace SendLoop

variable (feAddress : Str) (receivedPacket : Packet) (connectedRm : Int → Bool)

/-- What is sent to a backup. -/
def replica : Packet := { receivedPacket with frontEndAddress := feAddress }

/-- The body of the loop, for one socket; `connectedRm` is what `readPacket` finds. -/
def body (s : SendLoop) (socket : Int) : SendLoop :=
  let sent := s.sent ++ [(socket, replica feAddress receivedPacket)]
  if connectedRm socket then { s with sent }
  else
    { s with
      rm_connect_sockets_fd := s.rm_connect_sockets_fd.erase socket
      sent := sent
      replicationError := true }

/-- A round of the loop, and the `++` at its end. -/
def round (s : SendLoop) (socket : Int) : Option SendLoop :=
  if socket ∈ s.rm_connect_sockets_fd.keys then
    let t := s.body feAddress receivedPacket connectedRm socket
    (t.rm_connect_sockets_fd.next socket).map fun it => { t with iterator := it }
  else none

/-- At most so many rounds, up to `end()`. -/
def rounds : Nat → SendLoop → Option SendLoop
  | 0, s => some s
  | n + 1, s =>
    match s.iterator with
    | none => some s
    | some socket => (s.round feAddress receivedPacket connectedRm socket).bind (rounds n)

/-- The whole loop: no more rounds than there are sockets. -/
def replicate (sockets : Sockets) : Option SendLoop :=
  rounds feAddress receivedPacket connectedRm sockets.keys.length
    { rm_connect_sockets_fd := sockets, iterator := sockets.begin }

/-- The loop ends, every backup is sent the packet exactly once, exactly the failing
sockets are removed, and no iterator to an erased element is used. -/
def Tolerates (sockets : Sockets) : Prop :=
  ∃ s, replicate feAddress receivedPacket connectedRm sockets = some s ∧ s.iterator = none ∧
    s.sent.Perm (sockets.keys.map fun socket => (socket, replica feAddress receivedPacket)) ∧
    ∀ socket, socket ∈ s.rm_connect_sockets_fd.keys ↔
      socket ∈ sockets.keys ∧ connectedRm socket = true

variable {feAddress receivedPacket connectedRm}

/-! ## One round -/

/-- In a sorted list the next key is the one behind. -/
theorem find?_next {before behind : List Int} {socket : Int}
    (h : (before ++ socket :: behind).Pairwise (· < ·)) :
    (before ++ socket :: behind).find? (socket < ·) = behind.head? := by
  rw [List.pairwise_append, List.pairwise_cons] at h
  obtain ⟨_, ⟨hbehind, _⟩, hbefore⟩ := h
  have hnone : before.find? (socket < ·) = none := by
    rw [List.find?_eq_none]
    intro x hx
    have hlt := hbefore x hx socket (List.mem_cons_self ..)
    simp only [decide_eq_true_eq, not_lt]
    exact hlt.le
  rw [List.find?_append, hnone, Option.none_or, List.find?_cons_of_neg (by simp)]
  cases behind with
  | nil => rfl
  | cons x behind =>
    rw [List.find?_cons_of_pos (by simpa using hbehind x (List.mem_cons_self ..)), List.head?_cons]

/-- A round for a backup whose link works. -/
theorem round_connected {s : SendLoop} {before behind : List Int} {socket : Int}
    (hkeys : s.rm_connect_sockets_fd.keys = before ++ socket :: behind)
    (hconnected : connectedRm socket = true) :
    s.round feAddress receivedPacket connectedRm socket =
      some { s with
        iterator := behind.head?
        sent := s.sent ++ [(socket, replica feAddress receivedPacket)] } := by
  have hmem : socket ∈ s.rm_connect_sockets_fd.keys := by
    rw [hkeys]
    exact List.mem_append_right _ (List.mem_cons_self ..)
  have hsorted := s.rm_connect_sockets_fd.sorted
  rw [hkeys] at hsorted
  have hnext : s.rm_connect_sockets_fd.next socket = some behind.head? := by
    rw [Sockets.next, if_pos hmem, hkeys, find?_next hsorted]
  rw [round, if_pos hmem, body, if_pos hconnected]
  simp only [hnext, Option.map_some]

/-- A round for a backup whose link has failed ends with an iterator to what it erased. -/
theorem round_failed {s : SendLoop} {socket : Int} (hfailed : connectedRm socket = false) :
    s.round feAddress receivedPacket connectedRm socket = none := by
  have hnodup : s.rm_connect_sockets_fd.keys.Nodup :=
    s.rm_connect_sockets_fd.sorted.imp fun h => h.ne
  have hgone : socket ∉ (s.rm_connect_sockets_fd.erase socket).keys := hnodup.not_mem_erase
  rw [round, body, hfailed]
  split
  · simp only [Bool.false_eq_true, if_false, Sockets.next, if_neg hgone, Option.map_none]
  · rfl

/-! ## The loop -/

/-- While every link works, the loop goes from key to key. -/
theorem rounds_connected {s : SendLoop} {before behind : List Int}
    (hkeys : s.rm_connect_sockets_fd.keys = before ++ behind) (hit : s.iterator = behind.head?)
    (hconnected : ∀ socket ∈ behind, connectedRm socket = true) :
    rounds feAddress receivedPacket connectedRm behind.length s =
      some { s with
        iterator := none
        sent := s.sent ++ behind.map fun socket =>
          (socket, replica feAddress receivedPacket) } := by
  induction behind generalizing s before with
  | nil =>
    obtain ⟨sockets, iterator, sent, error⟩ := s
    cases hit
    simp [rounds]
  | cons socket behind ih =>
    rw [List.length_cons, rounds, hit, List.head?_cons]
    simp only
    rw [round_connected hkeys (hconnected socket (List.mem_cons_self ..)), Option.bind_some,
      @ih _ (before ++ [socket]) (by rw [List.append_assoc]; exact hkeys) rfl
        (fun x hx => hconnected x (List.mem_cons_of_mem _ hx))]
    simp

/-- The first link that has failed is the end of it. -/
theorem rounds_failed {s : SendLoop} {before behind : List Int}
    (hkeys : s.rm_connect_sockets_fd.keys = before ++ behind) (hit : s.iterator = behind.head?)
    (hfailed : ∃ socket ∈ behind, connectedRm socket = false) :
    rounds feAddress receivedPacket connectedRm behind.length s = none := by
  induction behind generalizing s before with
  | nil =>
    obtain ⟨_, hmem, _⟩ := hfailed
    cases hmem
  | cons socket behind ih =>
    rw [List.length_cons, rounds, hit, List.head?_cons]
    simp only
    cases hsocket : connectedRm socket with
    | false => rw [round_failed hsocket, Option.bind_none]
    | true =>
      rw [round_connected hkeys hsocket, Option.bind_some]
      refine @ih _ (before ++ [socket]) (by rw [List.append_assoc]; exact hkeys) rfl ?_
      obtain ⟨x, hx, hxfailed⟩ := hfailed
      rcases List.mem_cons.1 hx with rfl | hx
      · rw [hsocket] at hxfailed
        cases hxfailed
      · exact ⟨x, hx, hxfailed⟩

/-- **When replication tolerates failing backups.**  For every set of backups the loop does
what it should if and only if none of them fails. -/
theorem tolerates_iff (feAddress : Str) (receivedPacket : Packet) (connectedRm : Int → Bool)
    (sockets : Sockets) :
    Tolerates feAddress receivedPacket connectedRm sockets ↔
      ∀ socket ∈ sockets.keys, connectedRm socket = true := by
  constructor
  · rintro ⟨s, hs, _⟩ socket hsocket
    by_contra hfailed
    rw [Bool.not_eq_true] at hfailed
    have hnone := @rounds_failed feAddress receivedPacket connectedRm
      ⟨sockets, sockets.begin, [], false⟩ [] sockets.keys rfl rfl ⟨socket, hsocket, hfailed⟩
    cases hnone.symm.trans hs
  · intro h
    refine ⟨_, @rounds_connected feAddress receivedPacket connectedRm
      ⟨sockets, sockets.begin, [], false⟩ [] sockets.keys rfl rfl h, rfl, List.Perm.refl _, ?_⟩
    intro socket
    refine ⟨?_, And.left⟩
    intro hsocket
    exact ⟨hsocket, h socket hsocket⟩

/-- **A backup that dies.**  With one backup, on socket 7, whose link has failed, the loop
advances an iterator to the element it has just erased. -/
theorem tolerates_counterexample :
    replicate "fe".toList { type := .MESSAGE_PACKET } (fun _ => false)
      ⟨[7], List.pairwise_singleton _ _⟩ = none ∧
    ¬ Tolerates "fe".toList { type := .MESSAGE_PACKET } (fun _ => false)
      ⟨[7], List.pairwise_singleton _ _⟩ := by
  refine ⟨rfl, ?_⟩
  rintro ⟨s, hs, _⟩
  cases hs

end SendLoop

end InstantMessenger
