import InstantMessenger.Server.Server
import InstantMessenger.Util.ReleaseSession

/-!
# The loops that erase sessions and front ends

`User::releaseSession` takes the session of a client out of a vector, and
`Server::purgeFeConnection` the address of a front end; each erases inside a range-for
over that vector, with an index of its own that goes on after an erase.

* `User.releaseRun`, `Server.purgeRun` — the two loops with their reads and erases.
* `User.releasesExactly_iff`, `Server.purgesExactly_iff` — **exactly when a loop stays
  inside the vector and leaves, in order, what does not match its key**.  An element that
  is erased must be the last one; and as the test of `releaseSession` never reads the
  address of a session, a client id has to stand with the right one.
* `Server.feAddresses_purge_eq_filter_iff` — what is left, where a read past the end does
  no harm: the address is skipped when it follows itself.
* `eraseLoops_exact_iff` — both loops together.
-/

namespace InstantMessenger

open EraseLoop

/-! ## `User::releaseSession` -/

namespace User

variable {x : User} {clientID feAddress : Str}

/-- The loop of `releaseSession`, with its accesses. -/
def releaseRun (x : User) (clientID feAddress : Str) : Run Session :=
  tracedLoop (releaseTest clientID feAddress) ([], []) x.clientIdentifiers

/-- It is that loop. -/
theorem vector_releaseRun (x : User) (clientID feAddress : Str) :
    (x.releaseRun clientID feAddress).vector =
      (x.releaseSession clientID feAddress).clientIdentifiers :=
  vector_tracedLoop _

/-- Every access is inside the vector, and exactly the session `(clientID, feAddress)`
goes. -/
structure ReleasesExactly (x : User) (clientID feAddress : Str) : Prop where
  inRange : (x.releaseRun clientID feAddress).InRange
  sessions : (x.releaseSession clientID feAddress).clientIdentifiers =
    x.clientIdentifiers.filter (· != (clientID, feAddress))

/-- The client id is the address and there is no such session; or they differ, no session
before the last one has the client id, and none has it with another address. -/
def OnlyLast (x : User) (clientID feAddress : Str) : Prop :=
  if clientID = feAddress then (clientID, feAddress) ∉ x.clientIdentifiers
  else
    (∀ d ∈ x.clientIdentifiers.dropLast, d.1 ≠ clientID) ∧
      ∀ d ∈ x.clientIdentifiers, d.1 = clientID → d.2 = feAddress

theorem releasesExactly_iff_exact :
    x.ReleasesExactly clientID feAddress ↔
      (x.releaseRun clientID feAddress).Exact (· == (clientID, feAddress))
        x.clientIdentifiers := by
  constructor
  · rintro ⟨hin, hleft⟩
    exact ⟨hin, (vector_releaseRun ..).trans hleft⟩
  · rintro ⟨hin, hleft⟩
    exact ⟨hin, (vector_releaseRun ..).symm.trans hleft⟩

theorem releaseTest_eq_false_iff {d : Session} :
    releaseTest clientID feAddress d = false ↔ (clientID ≠ feAddress → d.1 ≠ clientID) := by
  rw [← Bool.not_eq_true, @releaseTest_iff (clientID, feAddress), not_and', ne_eq, ne_eq]

/-- When the test tells the session from another one: it never reads the address of `d`. -/
theorem releaseTest_eq_iff {d : Session} :
    releaseTest clientID feAddress d = (d == (clientID, feAddress)) ↔
      if clientID = feAddress then d ≠ (clientID, feAddress)
      else d.1 = clientID → d.2 = feAddress := by
  rw [Bool.eq_iff_iff, @releaseTest_iff (clientID, feAddress), beq_iff_eq, Prod.ext_iff]
  split
  · rename_i hsame
    simp [hsame, Prod.ext_iff]
  · rename_i hdiffer
    simp only [hdiffer, ne_eq, not_false_eq_true, and_true]
    exact ⟨fun h hid => (h.1 hid).2, fun h => ⟨fun hid => ⟨hid, h hid⟩, And.left⟩⟩

/-- **When `releaseSession` does what it is for.** -/
theorem releasesExactly_iff :
    x.ReleasesExactly clientID feAddress ↔ x.OnlyLast clientID feAddress := by
  rw [releasesExactly_iff_exact, releaseRun, exact_tracedLoop_iff, OnlyLast]
  simp only [releaseTest_eq_false_iff, releaseTest_eq_iff]
  by_cases hsame : clientID = feAddress
  · simp only [if_pos hsame]
    constructor
    · rintro ⟨-, hnone⟩ hmem
      exact hnone _ hmem rfl
    · intro hnone
      exact ⟨fun d _ hdiffer => absurd hsame hdiffer, fun d hd heq => hnone (heq ▸ hd)⟩
  · simp only [if_neg hsame]
    refine and_congr_left fun _ => ?_
    exact forall₂_congr fun d _ => ⟨fun h => h hsame, fun h _ => h⟩

end User

/-! ## `Server::purgeFeConnection` -/

namespace Server

variable {s : Server} {feAddress : Str}

/-- The loop of `purgeFeConnection`, with its accesses. -/
def purgeRun (s : Server) (feAddress : Str) : Run Str :=
  tracedLoop (· == feAddress) [] s.feAddresses

/-- It is that loop. -/
theorem vector_purgeRun (s : Server) (feAddress : Str) :
    (s.purgeRun feAddress).vector = (s.purgeFeConnection feAddress).feAddresses :=
  vector_tracedLoop _

/-- Every access is inside the vector, and exactly the address goes. -/
structure PurgesExactly (s : Server) (feAddress : Str) : Prop where
  inRange : (s.purgeRun feAddress).InRange
  addresses : (s.purgeFeConnection feAddress).feAddresses =
    s.feAddresses.filter (· != feAddress)

theorem purgesExactly_iff_exact :
    s.PurgesExactly feAddress ↔
      (s.purgeRun feAddress).Exact (· == feAddress) s.feAddresses := by
  constructor
  · rintro ⟨hin, hleft⟩
    exact ⟨hin, (vector_purgeRun ..).trans hleft⟩
  · rintro ⟨hin, hleft⟩
    exact ⟨hin, (vector_purgeRun ..).symm.trans hleft⟩

/-- **When `purgeFeConnection` does what it is for.** -/
theorem purgesExactly_iff : s.PurgesExactly feAddress ↔ feAddress ∉ s.feAddresses.dropLast := by
  rw [purgesExactly_iff_exact, purgeRun, exact_tracedLoop_iff]
  constructor
  · rintro ⟨hnone, -⟩ hmem
    exact absurd (hnone _ hmem) (by simp)
  · intro hnone
    refine ⟨?_, fun _ _ => rfl⟩
    intro a ha
    exact beq_eq_false_iff_ne.2 fun heq => hnone (heq ▸ ha)

/-- Reads past the end apart: the loop leaves the other addresses if and only if the
address never follows itself. -/
theorem feAddresses_purge_eq_filter_iff (hpos : feAddress ≠ []) :
    (s.purgeFeConnection feAddress).feAddresses = s.feAddresses.filter (· != feAddress) ↔
      s.feAddresses.IsChain fun a b => a = feAddress → b ≠ feAddress := by
  have hdead : (([] : Str) == feAddress) = false := beq_eq_false_iff_ne.2 (Ne.symm hpos)
  have h := eraseLoop_eq_filter_iff (p := (· == feAddress)) hdead s.feAddresses
  simp only [beq_iff_eq, beq_eq_false_iff_ne] at h
  exact h

end Server

/-! ## Both loops -/

/-- **The two loops.**  For every user, every server and every key: `releaseSession` and
`purgeFeConnection` stay inside their vectors and leave what does not match the key if and
only if what they erase comes last, and the session has the address it is looked for with. -/
theorem eraseLoops_exact_iff (x : User) (s : Server) (clientID feAddress a : Str) :
    (x.ReleasesExactly clientID feAddress ↔ x.OnlyLast clientID feAddress) ∧
      (s.PurgesExactly a ↔ a ∉ s.feAddresses.dropLast) :=
  ⟨User.releasesExactly_iff, Server.purgesExactly_iff⟩

/-- A user with a session at each of two front ends. -/
def twoSessions : User :=
  (((User.new "u".toList).registerSession "1".toList "f1".toList).1.registerSession "2".toList
    "f2".toList).1

/-- A server that is connected to them. -/
def twoFrontEnds : Server := Server.new true ["f1".toList, "f2".toList]

/-- The first of two goes: the last round reads slot 1 of a vector with one element. -/
theorem eraseLoops_exact_counterexample :
    (.read 1 1 ∈ (twoSessions.releaseRun "1".toList "f1".toList).accesses ∧
      ¬ twoSessions.ReleasesExactly "1".toList "f1".toList) ∧
      .read 1 1 ∈ (twoFrontEnds.purgeRun "f1".toList).accesses ∧
        ¬ twoFrontEnds.PurgesExactly "f1".toList := by
  have hsessions : .read 1 1 ∈ (twoSessions.releaseRun "1".toList "f1".toList).accesses := by
    decide
  have haddresses : .read 1 1 ∈ (twoFrontEnds.purgeRun "f1".toList).accesses := by
    decide
  refine ⟨⟨hsessions, fun h => ?_⟩, haddresses, fun h => ?_⟩
  · exact Nat.lt_irrefl 1 (h.inRange _ hsessions)
  · exact Nat.lt_irrefl 1 (h.inRange _ haddresses)

end InstantMessenger
