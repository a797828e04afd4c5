import InstantMessenger.Foundations.Descriptors
import InstantMessenger.Foundations.Transition
import InstantMessenger.Util.ConnectionMonitor

/-!
# The monitors of a front end

Every connection of a front end has a monitor thread.  It knows the number of its
socket, and it ends up to a polling interval later than the connection, or never.

* `Monitored`, `step`, `monitored` — connections, monitors and the map they share, as a
  transition system; every access to the map is a step, and time goes on by any
  amount.
* `Act`, `Act.OnOwn` — what a monitor erases or shuts down, with the connection that the
  number belongs to at that moment.
* `MonitorDone` — the condition on a run: no connection is given a number that an earlier
  monitor still watches.
* `acts_on_own` — **then a monitor only affects its own connection**, and after any accept
  against the condition an old monitor can time the new connection out.
-/

namespace InstantMessenger

open Descriptors ConnectionMonitor

/-- Where the thread that listens to a connection is. -/
inductive ListenerThread where
  | reading
  /-- In `handleSocketDisconnection`, after `killSocket`. -/
  | closing
  | closed
  deriving DecidableEq, Repr

/-- What a monitor has done: it has erased the entry of its number, or has shut it
down. -/
structure Act where
  monitor : Nat
  isShutdown : Bool
  owner : Option Nat
  deriving DecidableEq, Repr

/-- The number belonged to the connection of the monitor, or to none. -/
def Act.OnOwn (a : Act) : Prop := a.owner = none ∨ a.owner = some a.monitor

/-- The connections of a front end, numbered as they are accepted, and their
monitors. -/
structure Monitored where
  owner : Table Nat
  socketLastKeepAlive : KeepAlives
  now : Int
  connections : Nat
  socket : Nat → Nat
  listener : Nat → ListenerThread
  monitor : Nat → MonitorThread
  acts : List Act

/-- A step of the clock, of a connection or of a monitor. -/
inductive MonitorStep where
  | tick (seconds : Nat)
  | accept (socket : Nat)
  /-- A keep-alive is read. -/
  | refresh (c : Nat)
  | killSocket (c : Nat)
  | close (c : Nat)
  | start (c : Nat)
  | wake (c : Nat)
  | check (c : Nat)
  | erase (c : Nat)
  | shutdown (c : Nat)
  deriving DecidableEq, Repr

namespace Monitored

/-- `handleClientConnection` or `handleServerConnection`: a connection and its monitor. -/
def accept (s : Monitored) (d : Nat) : Monitored :=
  { s with
    owner := give s.owner d s.connections
    connections := s.connections + 1
    socket := Function.update s.socket s.connections d
    listener := Function.update s.listener s.connections .reading
    monitor := Function.update s.monitor s.connections .starting }

/-- The monitor goes on. -/
def setMonitor (s : Monitored) (c : Nat) (m : MonitorThread) : Monitored :=
  { s with monitor := Function.update s.monitor c m }

/-- The monitor affects its number. -/
def act (s : Monitored) (c : Nat) (isShutdown : Bool) : Monitored :=
  { s with acts := s.acts ++ [⟨c, isShutdown, s.owner (s.socket c)⟩] }

/-- What a step does. -/
def step (s : Monitored) : MonitorStep → Option Monitored
  | .tick seconds => some { s with now := s.now + seconds }
  | .accept d => if s.owner d = none then some (s.accept d) else none
  | .refresh c =>
    if s.listener c = .reading then
      some { s with socketLastKeepAlive := refresh s.socketLastKeepAlive (s.socket c) s.now }
    else none
  | .killSocket c =>
    if s.listener c = .reading then
      some { s with
        socketLastKeepAlive := killSocket s.socketLastKeepAlive (s.socket c)
        listener := Function.update s.listener c .closing }
    else none
  | .close c =>
    if s.listener c = .closing then
      some { s with
        owner := release s.owner (s.socket c)
        listener := Function.update s.listener c .closed }
    else none
  | .start c =>
    if s.monitor c = .starting then
      some { s.setMonitor c .sleeping with
        socketLastKeepAlive := refresh s.socketLastKeepAlive (s.socket c) s.now }
    else none
  | .wake c => if s.monitor c = .sleeping then some (s.setMonitor c (.woken s.now)) else none
  | .check c =>
    match s.monitor c with
    | .woken now =>
      some { s.setMonitor c
          (.checked now (lastKeepAlive s.socketLastKeepAlive (s.socket c))) with
        socketLastKeepAlive := lookedUp s.socketLastKeepAlive (s.socket c) }
    | _ => none
  | .erase c =>
    if s.monitor c = .timedOut then
      some { (s.act c false).setMonitor c .erased with
        socketLastKeepAlive := killSocket s.socketLastKeepAlive (s.socket c) }
    else none
  | .shutdown c =>
    if s.monitor c = .erased then some ((s.act c true).setMonitor c .done) else none

/-- No connection yet. -/
def start (now : Int) : Monitored where
  owner _ := none
  socketLastKeepAlive _ := none
  now := now
  connections := 0
  socket _ := 0
  listener _ := .closed
  monitor _ := .done
  acts := []

end Monitored

/-- The connections and monitors of a front end. -/
def monitored : Transition.System Monitored MonitorStep where
  init s := ∃ now, s = Monitored.start now
  step := Monitored.step

namespace Monitored

variable {s t : Monitored} {c d : Nat}

/-- No connection is given a number that is still watched. -/
def MonitorDone (s : Monitored) : MonitorStep → Prop
  | .accept d => ∀ c, s.socket c = d → s.monitor c = .done
  | _ => True

/-! ## What a step can do -/

/-- The steps of the monitor `c`. -/
inductive Advances (s : Monitored) (c : Nat) : Monitored → Prop
  | silent (m : MonitorThread) (k : KeepAlives) (hm : s.monitor c ≠ .done) :
      Advances s c { s.setMonitor c m with socketLastKeepAlive := k }
  | acts (m : MonitorThread) (k : KeepAlives) (isShutdown : Bool) (hm : s.monitor c ≠ .done) :
      Advances s c { (s.act c isShutdown).setMonitor c m with socketLastKeepAlive := k }

/-- The steps, by what they are about: a new connection, the end of one, a monitor, or
only the map, the clock and a listener. -/
inductive Moves (s : Monitored) : MonitorStep → Monitored → Prop
  | accept (d : Nat) (hfree : s.owner d = none) : Moves s (.accept d) (s.accept d)
  | close (c : Nat) (f : Nat → ListenerThread) :
      Moves s (.close c) { s with owner := release s.owner (s.socket c), listener := f }
  | advances (l : MonitorStep) (c : Nat) (t : Monitored) (h : Advances s c t) : Moves s l t
  | other (l : MonitorStep) (k : KeepAlives) (now : Int) (f : Nat → ListenerThread) :
      Moves s l { s with socketLastKeepAlive := k, now := now, listener := f }

theorem step_cases {l : MonitorStep} (h : step s l = some t) : Moves s l t := by
  cases l with
  | tick seconds =>
    obtain rfl := Option.some.inj h
    exact .other _ _ _ _
  | accept d =>
    simp only [step] at h
    split at h
    · exact Option.some.inj h ▸ .accept d ‹_›
    · cases h
  | refresh c | killSocket c =>
    simp only [step] at h
    split at h
    · exact Option.some.inj h ▸ .other _ _ _ _
    · cases h
  | close c =>
    simp only [step] at h
    split at h
    · exact Option.some.inj h ▸ .close c _
    · cases h
  | start c =>
    simp only [step] at h
    split at h
    · rename_i hm
      exact Option.some.inj h ▸ .advances _ c _ (.silent _ _ (by rw [hm]; simp))
    · cases h
  | wake c =>
    simp only [step] at h
    split at h
    · rename_i hm
      exact Option.some.inj h ▸
        .advances _ c _ (.silent _ s.socketLastKeepAlive (by rw [hm]; simp))
    · cases h
  | check c =>
    simp only [step] at h
    split at h
    · rename_i now hm
      exact Option.some.inj h ▸ .advances _ c _ (.silent _ _ (by rw [hm]; simp))
    · cases h
  | erase c =>
    simp only [step] at h
    split at h
    · rename_i hm
      exact Option.some.inj h ▸ .advances _ c _ (.acts _ _ _ (by rw [hm]; simp))
    · cases h
  | shutdown c =>
    simp only [step] at h
    split at h
    · rename_i hm
      exact Option.some.inj h ▸
        .advances _ c _ (.acts _ s.socketLastKeepAlive _ (by rw [hm]; simp))
    · cases h

/-! ## Every run -/

/-- A monitor that is not done knows a number of its connection, or of none. -/
structure Watched (s : Monitored) : Prop where
  watching : ∀ c, s.monitor c ≠ .done → RefersTo s.owner (s.socket c) c
  acts : ∀ a ∈ s.acts, a.OnOwn

theorem watched_start (now : Int) : Watched (start now) where
  watching _ hm := absurd rfl hm
  acts _ ha := absurd ha List.not_mem_nil

theorem Watched.accept (hs : Watched s) (hok : MonitorDone s (.accept d)) :
    Watched (s.accept d) := by
  refine ⟨?_, hs.acts⟩
  intro c hm
  simp only [Monitored.accept] at hm ⊢
  by_cases hnew : c = s.connections
  · rw [hnew, Function.update_self]
    exact .of_some (give_self ..)
  · rw [Function.update_of_ne hnew] at hm ⊢
    exact (hs.watching c hm).give fun hsocket => hm (hok c hsocket)

theorem Watched.advances (hs : Watched s) (h : Advances s c t) : Watched t := by
  have hwatching : ∀ m e, Function.update s.monitor c m e ≠ .done → s.monitor c ≠ .done →
      RefersTo s.owner (s.socket e) e := by
    intro m e he hm
    by_cases hec : e = c
    · rw [hec]
      exact hs.watching c hm
    · rw [Function.update_of_ne hec] at he
      exact hs.watching e he
  cases h with
  | silent m k hm => exact ⟨fun e he => hwatching m e he hm, hs.acts⟩
  | acts m k isShutdown hm =>
    refine ⟨fun e he => hwatching m e he hm, ?_⟩
    intro a ha
    rcases List.mem_append.1 ha with ha | ha
    · exact hs.acts a ha
    · rw [List.mem_singleton.1 ha]
      exact hs.watching c hm

theorem Watched.step (hs : Watched s) {l : MonitorStep} (hok : MonitorDone s l)
    (h : step s l = some t) : Watched t := by
  cases step_cases h with
  | accept d _ => exact hs.accept hok
  | close c f => exact ⟨fun e he => (hs.watching e he).release _, hs.acts⟩
  | advances _ c _ hadv => exact hs.advances hadv
  | other => exact ⟨hs.watching, hs.acts⟩

theorem watched_of_reachesWhen (h : monitored.ReachesWhen MonitorDone s) : Watched s :=
  Transition.System.ReachesWhen.invariant (I := Watched) h
    (fun _ ⟨now, hnow⟩ => hnow ▸ watched_start now)
    fun _ _ _ hs hok hst => hs.step hok hst

/-! ## A number that is watched twice -/

/-- Connections that are still to come have no monitor. -/
theorem fresh_of_reachable (h : monitored.Reachable s) (hc : s.connections ≤ c) :
    s.monitor c = .done := by
  have hfresh : ∀ c, s.connections ≤ c → s.monitor c = .done := by
    refine Transition.System.Reachable.invariant
      (I := fun s => ∀ c, s.connections ≤ c → s.monitor c = .done) h ?_ fun s l t hs hst => ?_
    · rintro s ⟨now, rfl⟩ c _
      rfl
    · have hadvances : ∀ {e m}, s.monitor e ≠ .done → ∀ c, s.connections ≤ c →
          Function.update s.monitor e m c = .done := by
        intro e m he c hc
        have hne : c ≠ e := by
          rintro rfl
          exact he (hs c hc)
        rw [Function.update_of_ne hne, hs c hc]
      cases step_cases hst with
      | accept d _ =>
        intro c hc
        simp only [Monitored.accept] at hc ⊢
        rw [Function.update_of_ne (by omega)]
        exact hs c (by omega)
      | close | other => exact hs
      | advances _ e _ hadv =>
        cases hadv with
        | silent m k hm => exact hadvances hm
        | acts m k isShutdown hm => exact hadvances hm
  exact hfresh c hc

/-- The number of the monitor `c` belongs to another connection. -/
def Stale (s : Monitored) (c : Nat) : Prop := ∃ e, e ≠ c ∧ s.owner (s.socket c) = some e

/-- Some monitor has affected another connection than its own. -/
def Harmed (s : Monitored) : Prop := ∃ a ∈ s.acts, ¬ a.OnOwn

theorem reaches_of_step {u : Monitored} {l : MonitorStep} (h : step s l = some t)
    (hu : monitored.Reaches t u) : monitored.Reaches s u :=
  @Transition.System.Reaches.cons _ _ monitored _ _ _ l h hu

theorem Stale.harmed (h : Stale s c) {isShutdown : Bool}
    (ht : t.acts = s.acts ++ [⟨c, isShutdown, s.owner (s.socket c)⟩]) : Harmed t := by
  obtain ⟨e, hne, howner⟩ := h
  refine ⟨_, ht ▸ List.mem_append_right _ (List.mem_singleton_self _), ?_⟩
  rintro (hnone | hsome)
  · rw [howner] at hnone
    cases hnone
  · rw [howner] at hsome
    exact hne (Option.some.inj hsome)

theorem Stale.reaches_erased (h : Stale s c) (hm : s.monitor c = .erased) :
    ∃ u, monitored.Reaches s u ∧ Harmed u := by
  have hstep : step s (.shutdown c) = some ((s.act c true).setMonitor c .done) := by
    simp only [step, if_pos hm]
  exact ⟨_, reaches_of_step hstep (.refl _), h.harmed rfl⟩

theorem Stale.reaches_timedOut (h : Stale s c) (hm : s.monitor c = .timedOut) :
    ∃ u, monitored.Reaches s u ∧ Harmed u := by
  have hstep : step s (.erase c) = some { (s.act c false).setMonitor c .erased with
      socketLastKeepAlive := killSocket s.socketLastKeepAlive (s.socket c) } := by
    simp only [step, if_pos hm]
  exact ⟨_, reaches_of_step hstep (.refl _), h.harmed rfl⟩

/-- The lookup, when the last keep-alive is long ago. -/
theorem Stale.reaches_woken (h : Stale s c) {now : Int} (hm : s.monitor c = .woken now)
    (hlate : lastKeepAlive s.socketLastKeepAlive (s.socket c) + KEEP_ALIVE_TIMEOUT ≤ now) :
    ∃ u, monitored.Reaches s u ∧ Harmed u := by
  have hstep : step s (.check c) = some { s.setMonitor c
      (.checked now (lastKeepAlive s.socketLastKeepAlive (s.socket c))) with
        socketLastKeepAlive := lookedUp s.socketLastKeepAlive (s.socket c) } := by
    simp only [step, hm]
  have hexpired : MonitorThread.checked now
      (lastKeepAlive s.socketLastKeepAlive (s.socket c)) = .timedOut := by
    refine if_neg ?_
    rw [connectionIsValid, decide_eq_true_eq]
    omega
  rw [hexpired] at hstep
  obtain ⟨u, hu, hharm⟩ := @Stale.reaches_timedOut
    { s.setMonitor c .timedOut with
      socketLastKeepAlive := lookedUp s.socketLastKeepAlive (s.socket c) }
    c h (Function.update_self ..)
  exact ⟨u, reaches_of_step hstep hu, hharm⟩

/-- The connection stays silent while the monitor sleeps. -/
theorem Stale.reaches_sleeping (h : Stale s c) (hm : s.monitor c = .sleeping) :
    ∃ u, monitored.Reaches s u ∧ Harmed u := by
  let last := lastKeepAlive s.socketLastKeepAlive (s.socket c)
  let wait := (last + KEEP_ALIVE_TIMEOUT - s.now).toNat
  have htick : step s (.tick wait) = some { s with now := s.now + wait } := rfl
  have hwake : step { s with now := s.now + wait } (.wake c) =
      some ({ s with now := s.now + wait : Monitored }.setMonitor c (.woken (s.now + wait))) := by
    simp only [step, if_pos hm]
  obtain ⟨u, hu, hharm⟩ := @Stale.reaches_woken
    ({ s with now := s.now + wait : Monitored }.setMonitor c (.woken (s.now + wait)))
    c h (s.now + wait) (Function.update_self ..) (by
      show last + KEEP_ALIVE_TIMEOUT ≤ s.now + wait
      omega)
  exact ⟨u, reaches_of_step htick (reaches_of_step hwake hu), hharm⟩

/-- **A monitor whose number belongs to another connection can affect it.** -/
theorem Stale.reaches_harmed (h : Stale s c) (hm : s.monitor c ≠ .done) :
    ∃ u, monitored.Reaches s u ∧ Harmed u := by
  cases hmonitor : s.monitor c with
  | done => exact absurd hmonitor hm
  | erased => exact h.reaches_erased hmonitor
  | timedOut => exact h.reaches_timedOut hmonitor
  | sleeping => exact h.reaches_sleeping hmonitor
  | starting =>
    have hstep : step s (.start c) = some { s.setMonitor c .sleeping with
        socketLastKeepAlive := refresh s.socketLastKeepAlive (s.socket c) s.now } := by
      simp only [step, if_pos hmonitor]
    obtain ⟨u, hu, hharm⟩ := @Stale.reaches_sleeping
      { s.setMonitor c .sleeping with
        socketLastKeepAlive := refresh s.socketLastKeepAlive (s.socket c) s.now }
      c h (Function.update_self ..)
    exact ⟨u, reaches_of_step hstep hu, hharm⟩
  | woken now =>
    by_cases hlate : lastKeepAlive s.socketLastKeepAlive (s.socket c) + KEEP_ALIVE_TIMEOUT ≤ now
    · exact h.reaches_woken hmonitor hlate
    · have hstep : step s (.check c) = some { s.setMonitor c
          (.checked now (lastKeepAlive s.socketLastKeepAlive (s.socket c))) with
            socketLastKeepAlive := lookedUp s.socketLastKeepAlive (s.socket c) } := by
        simp only [step, hmonitor]
      have hvalid : MonitorThread.checked now
          (lastKeepAlive s.socketLastKeepAlive (s.socket c)) = .sleeping := by
        refine if_pos ?_
        rw [connectionIsValid, decide_eq_true_eq]
        omega
      rw [hvalid] at hstep
      obtain ⟨u, hu, hharm⟩ := @Stale.reaches_sleeping
        { s.setMonitor c .sleeping with
          socketLastKeepAlive := lookedUp s.socketLastKeepAlive (s.socket c) }
        c h (Function.update_self ..)
      exact ⟨u, reaches_of_step hstep hu, hharm⟩

/-- **A keep-alive monitor only affects its own connection**, when no connection is given a
number that an earlier monitor has not finished with; and after any accept that does,
such a monitor can affect the new connection. -/
theorem acts_on_own (s : Monitored) :
    (monitored.ReachesWhen MonitorDone s → ∀ a ∈ s.acts, a.OnOwn) ∧
      ∀ d t, monitored.Reachable s → step s (.accept d) = some t → ¬ MonitorDone s (.accept d) →
        ∃ u, monitored.Reaches t u ∧ ∃ a ∈ u.acts, ¬ a.OnOwn := by
  refine ⟨fun hs => (watched_of_reachesWhen hs).acts, ?_⟩
  intro d t hs hst hnot
  obtain ⟨c, hc⟩ := not_forall.1 hnot
  obtain ⟨hsocket, hm⟩ := Classical.not_imp.1 hc
  have hne : c ≠ s.connections := by
    rintro rfl
    exact hm (fresh_of_reachable hs (Nat.le_refl _))
  have ht : t = s.accept d := by
    simp only [step] at hst
    split at hst
    · exact (Option.some.inj hst).symm
    · cases hst
  have hmonitor : (s.accept d).monitor c ≠ .done := by
    simp only [accept, Function.update_of_ne hne]
    exact hm
  have hstale : Stale (s.accept d) c := by
    refine ⟨s.connections, Ne.symm hne, ?_⟩
    simp only [accept, Function.update_of_ne hne, hsocket]
    exact give_self ..
  rw [ht]
  exact hstale.reaches_harmed hmonitor

/-- The monitor of a silent connection erases its entry and shuts it down; when the
connection ends first, its monitor can time the next one out. -/
theorem acts_on_own_one :
    (∃ s, monitored.Reachable s ∧ s.acts.length = 2 ∧ ∀ a ∈ s.acts, a.OnOwn) ∧
      ∃ u, monitored.Reachable u ∧ ∃ a ∈ u.acts, ¬ a.OnOwn := by
  have haccept : monitored.ReachesWhen MonitorDone ((start 1000).accept 6) :=
    @Transition.System.ReachesWhen.next _ _ monitored _ (start 1000) _ (.accept 6)
      (.start ⟨1000, rfl⟩) (fun _ _ => rfl) rfl
  obtain ⟨s, hs⟩ : ∃ s, monitored.exec ((start 1000).accept 6) [.start 0, .tick 3, .refresh 0,
      .wake 0, .check 0, .tick 12, .wake 0, .check 0, .erase 0, .shutdown 0] = some s := ⟨_, rfl⟩
  have hrun : monitored.ReachesWhen MonitorDone s := by
    refine haccept.exec (fun l hl u => ?_) hs
    cases l with
    | accept => simp at hl
    | _ => trivial
  obtain ⟨r, hr⟩ : ∃ r, monitored.exec ((start 1000).accept 6) [.start 0, .killSocket 0, .close 0] =
      some r := ⟨_, rfl⟩
  have hreach : monitored.Reachable r := Transition.System.Reachable.exec haccept.reachable hr
  have haccept' : step r (.accept 6) = some (r.accept 6) := by
    cases hr
    rfl
  have hnot : ¬ MonitorDone r (.accept 6) := by
    cases hr
    exact fun h => absurd (h 0 rfl) (by decide)
  obtain ⟨u, ⟨ls, hls⟩, hharm⟩ := (acts_on_own r).2 6 _ hreach haccept' hnot
  have hreach' : monitored.Reachable (r.accept 6) :=
    @Transition.System.Reachable.next _ _ monitored _ _ (.accept 6) hreach haccept'
  refine ⟨⟨s, hrun.reachable, ?_, (acts_on_own s).1 hrun⟩, u, hreach'.exec hls, hharm⟩
  cases hs
  rfl

/-- A connection ends, and its number is given to the next one; the old monitor wakes up
before the new one has started, finds no entry, erases what it finds and shuts the new
connection down. -/
theorem acts_on_own_counterexample :
    ∃ s, monitored.Reachable s ∧ s.acts = [⟨0, false, some 1⟩, ⟨0, true, some 1⟩] := by
  obtain ⟨s, hs⟩ : ∃ s, monitored.exec (start 1000) [.accept 6, .start 0, .killSocket 0, .close 0,
      .tick 2, .accept 6, .wake 0, .check 0, .erase 0, .shutdown 0] = some s := ⟨_, rfl⟩
  refine ⟨s, Transition.System.reachable_of_exec ⟨1000, rfl⟩ hs, ?_⟩
  cases hs
  rfl

end Monitored

end InstantMessenger
