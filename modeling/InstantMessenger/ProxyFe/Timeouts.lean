import InstantMessenger.ProxyFe.KeepAlive

/-!
# When a connection times out

A monitor only sees a map that all connections and monitors write to.  This file says what
its verdict means for its own connection, as long as no connection is given a number that an
earlier monitor still watches.

* `Watch`, `watch` — the front end, with the time of each connection's last keep-alive as the
  connection knows it.
* `Watch.Recorded` — **the invariant**: the map has this time for every connection that is
  read from and watched.
* `Watch.timedOut_iff_silent` — **a connection is timed out exactly after ten seconds of
  silence**, counted at the moment when the monitor read the clock.
* `Watch.kept_alive` — a connection whose keep-alives come in time is never timed out, and no
  other monitor has its number.
-/

namespace InstantMessenger

open Descriptors ConnectionMonitor Transition

/-- A front end's connections and monitors; `lastSeen` is not in the code. -/
structure Watch where
  memory : Monitored
  /-- When the last keep-alive of a connection was read, or its monitor was started. -/
  lastSeen : Nat → Int

namespace Watch

/-- The connection shows that it is alive, or its monitor starts to count. -/
def seen (now : Int) (lastSeen : Nat → Int) : MonitorStep → Nat → Int
  | .refresh c => Function.update lastSeen c now
  | .start c => Function.update lastSeen c now
  | _ => lastSeen

/-- A step of the front end. -/
def step (s : Watch) (l : MonitorStep) : Option Watch :=
  (s.memory.step l).map fun memory => ⟨memory, seen s.memory.now s.lastSeen l⟩

/-- No connection is given a number that is still watched. -/
def MonitorDone (s : Watch) (l : MonitorStep) : Prop := s.memory.MonitorDone l

end Watch

/-- The front ends. -/
def watch : System Watch MonitorStep where
  init s := monitored.init s.memory
  step := Watch.step

namespace Watch

variable {s t : Watch} {c d : Nat} {l : MonitorStep}

theorem step_eq_some (h : s.step l = some t) :
    s.memory.step l = some t.memory ∧ t.lastSeen = seen s.memory.now s.lastSeen l := by
  obtain ⟨memory, hmemory, rfl⟩ := Option.map_eq_some_iff.1 h
  exact ⟨hmemory, rfl⟩

/-- The monitor has started to count and has not given up. -/
def Counting : MonitorThread → Prop
  | .sleeping => True
  | .woken _ => True
  | .timedOut => True
  | _ => False

/-- **The invariant.** -/
structure Recorded (s : Watch) : Prop where
  watched : s.memory.Watched
  owns : ∀ c, s.memory.listener c ≠ .closed → s.memory.owner (s.memory.socket c) = some c
  recorded : ∀ c, s.memory.listener c = .reading → Counting (s.memory.monitor c) →
    s.memory.socketLastKeepAlive (s.memory.socket c) = some (s.lastSeen c)
  /-- No monitor has read a time that is still to come. -/
  past : ∀ c now, s.memory.monitor c = .woken now → now ≤ s.memory.now

theorem recorded_of_init (h : watch.init s) : Recorded s := by
  obtain ⟨now, hs⟩ := h
  refine ⟨hs ▸ Monitored.watched_start now, fun c hc => ?_, fun c hc => ?_, fun c now hc => ?_⟩
  · rw [hs] at hc
    exact absurd rfl hc
  · rw [hs] at hc
    cases hc
  · rw [hs] at hc
    cases hc

/-- The number of a connection that is read from is not that of another one that is used or
watched. -/
theorem Recorded.apart (h : Recorded s) (hc : s.memory.listener c = .reading)
    (hd : s.memory.listener d ≠ .closed ∨ s.memory.monitor d ≠ .done) (hcd : c ≠ d) :
    s.memory.socket c ≠ s.memory.socket d := by
  intro heq
  have howner : s.memory.owner (s.memory.socket d) = some c := by
    rw [← heq]
    exact h.owns c (by simp [hc])
  rcases hd with hd | hd
  · rw [h.owns d hd] at howner
    exact hcd (Option.some.inj howner).symm
  · exact hcd ((h.watched.watching d hd).eq howner)

theorem Recorded.lastKeepAlive_eq (h : Recorded s) (hc : s.memory.listener c = .reading)
    (hcount : Counting (s.memory.monitor c)) :
    lastKeepAlive s.memory.socketLastKeepAlive (s.memory.socket c) = s.lastSeen c := by
  rw [lastKeepAlive, h.recorded c hc hcount, Option.getD_some]

/-- What is written under another number leaves the entry alone. -/
theorem Recorded.keep (h : Recorded s) (k : KeepAlives) (e : Nat) {x : Option Int}
    (hx : k = Function.update s.memory.socketLastKeepAlive (s.memory.socket e) x)
    (hc : s.memory.listener c = .reading) (hcount : Counting (s.memory.monitor c))
    (he : s.memory.listener e ≠ .closed ∨ s.memory.monitor e ≠ .done) (hce : c ≠ e) :
    k (s.memory.socket c) = some (s.lastSeen c) := by
  rw [hx, Function.update_of_ne (h.apart hc he hce)]
  exact h.recorded c hc hcount

theorem Recorded.accept (h : Recorded s) (hok : s.MonitorDone (.accept d))
    (hfree : s.memory.owner d = none) : Recorded ⟨s.memory.accept d, s.lastSeen⟩ := by
  refine ⟨h.watched.accept hok, fun c hc => ?_, fun c hc hcount => ?_, fun c now hc => ?_⟩ <;>
    by_cases hnew : c = s.memory.connections
  · simp [Monitored.accept, hnew]
  · simp only [Monitored.accept, Function.update_of_ne hnew] at hc ⊢
    exact give_of_some hfree (h.owns c hc)
  · simp [Monitored.accept, hnew, Counting] at hcount
  · simp only [Monitored.accept, Function.update_of_ne hnew] at hc hcount ⊢
    exact h.recorded c hc hcount
  · simp [Monitored.accept, hnew] at hc
  · simp only [Monitored.accept, Function.update_of_ne hnew] at hc
    exact h.past c now hc

/-- A step of the monitor `e`, which writes at most under its own number. -/
theorem Recorded.advance (h : Recorded s) {e : Nat} {m : MonitorThread} {x : Option Int}
    (hwatched : t.memory.Watched) (howner : t.memory.owner = s.memory.owner)
    (hsocket : t.memory.socket = s.memory.socket)
    (hlistener : t.memory.listener = s.memory.listener)
    (hnow : t.memory.now = s.memory.now)
    (hmonitor : t.memory.monitor = Function.update s.memory.monitor e m)
    (hmap : t.memory.socketLastKeepAlive =
      Function.update s.memory.socketLastKeepAlive (s.memory.socket e) x)
    (hseen : ∀ c, c ≠ e → t.lastSeen c = s.lastSeen c) (hm : s.memory.monitor e ≠ .done)
    (hown : s.memory.listener e = .reading → Counting m → x = some (t.lastSeen e))
    (hpast : ∀ now, m = .woken now → now ≤ s.memory.now) : Recorded t := by
  refine ⟨hwatched, ?_, fun c hc hcount => ?_, fun c now hc => ?_⟩
  · rw [hlistener, howner, hsocket]
    exact h.owns
  · rw [hlistener] at hc
    rw [hmonitor] at hcount
    rw [hsocket]
    by_cases hce : c = e
    · subst hce
      rw [Function.update_self] at hcount
      rw [hmap, Function.update_self]
      exact hown hc hcount
    · rw [Function.update_of_ne hce] at hcount
      rw [hseen c hce]
      exact h.keep _ e hmap hc hcount (.inr hm) hce
  · rw [hmonitor] at hc
    rw [hnow]
    by_cases hce : c = e
    · subst hce
      rw [Function.update_self] at hc
      exact hpast now hc
    · rw [Function.update_of_ne hce] at hc
      exact h.past c now hc

theorem checked_cases (now last : Int) :
    MonitorThread.checked now last = .sleeping ∨ MonitorThread.checked now last = .timedOut := by
  unfold MonitorThread.checked
  split
  · exact .inl rfl
  · exact .inr rfl

/-- A listener that ends writes under its own number. -/
theorem Recorded.killSocket (h : Recorded s) {e : Nat} (he : s.memory.listener e = .reading)
    (hst : s.step (.killSocket e) = some t) (hwatched : t.memory.Watched) : Recorded t := by
  obtain ⟨hmemory, hseen⟩ := step_eq_some hst
  simp only [Monitored.step, if_pos he, Option.some.injEq] at hmemory
  refine ⟨hwatched, fun c hc => ?_, fun c hc hcount => ?_, fun c now hc => ?_⟩ <;>
    rw [← hmemory] at hc ⊢ <;> by_cases hce : c = e
  · rw [hce]
    exact h.owns e (by simp [he])
  · exact h.owns c (by simpa [hce] using hc)
  · simp [hce] at hc
  · rw [← hmemory] at hcount
    rw [hseen]
    exact h.keep _ e rfl (by simpa [hce] using hc) hcount (.inl (by simp [he])) hce
  · exact h.past c now hc
  · exact h.past c now hc

theorem Recorded.close (h : Recorded s) {e : Nat} (he : s.memory.listener e = .closing)
    (hst : s.step (.close e) = some t) (hwatched : t.memory.Watched) : Recorded t := by
  obtain ⟨hmemory, hseen⟩ := step_eq_some hst
  simp only [Monitored.step, if_pos he, Option.some.injEq] at hmemory
  have howner : s.memory.owner (s.memory.socket e) = some e := h.owns e (by simp [he])
  refine ⟨hwatched, fun c hc => ?_, fun c hc hcount => ?_, fun c now hc => ?_⟩ <;>
    rw [← hmemory] at hc ⊢
  · have hce : c ≠ e := by
      rintro rfl
      simp at hc
    exact release_of_some howner hce (h.owns c (by simpa [hce] using hc))
  · have hce : c ≠ e := by
      rintro rfl
      simp at hc
    rw [← hmemory] at hcount
    rw [hseen]
    exact h.recorded c (by simpa [hce] using hc) hcount
  · exact h.past c now hc

theorem Recorded.refresh (h : Recorded s) {e : Nat} (he : s.memory.listener e = .reading)
    (hst : s.step (.refresh e) = some t) (hwatched : t.memory.Watched) : Recorded t := by
  obtain ⟨hmemory, hseen⟩ := step_eq_some hst
  simp only [Monitored.step, if_pos he, Option.some.injEq] at hmemory
  refine ⟨hwatched, ?_, fun c hc hcount => ?_, ?_⟩
  · rw [← hmemory]
    exact h.owns
  · rw [← hmemory] at hc hcount ⊢
    rw [hseen]
    by_cases hce : c = e
    · subst hce
      simp [seen, ConnectionMonitor.refresh]
    · simp only [seen, Function.update_of_ne hce]
      exact h.keep _ e rfl hc hcount (.inl (by simp [he])) hce
  · rw [← hmemory]
    exact h.past

theorem Recorded.step (h : Recorded s) (hok : s.MonitorDone l) (hst : s.step l = some t) :
    Recorded t := by
  obtain ⟨hmemory, hseen⟩ := step_eq_some hst
  have hwatched := h.watched.step hok hmemory
  cases l with
  | tick seconds =>
    simp only [Monitored.step, Option.some.injEq] at hmemory
    refine ⟨hwatched, ?_, ?_, fun c now hc => ?_⟩ <;> rw [← hmemory]
    · exact h.owns
    · rw [hseen]
      exact h.recorded
    · rw [← hmemory] at hc
      have hpast := h.past c now hc
      show now ≤ s.memory.now + seconds
      omega
  | accept d =>
    simp only [Monitored.step, Option.ite_none_right_eq_some, Option.some.injEq] at hmemory
    have hacc := h.accept hok hmemory.1
    rw [hmemory.2] at hacc
    rwa [show s.lastSeen = t.lastSeen from hseen.symm] at hacc
  | refresh e =>
    refine h.refresh ?_ hst hwatched
    simp only [Monitored.step, Option.ite_none_right_eq_some] at hmemory
    exact hmemory.1
  | killSocket e =>
    refine h.killSocket ?_ hst hwatched
    simp only [Monitored.step, Option.ite_none_right_eq_some] at hmemory
    exact hmemory.1
  | close e =>
    refine h.close ?_ hst hwatched
    simp only [Monitored.step, Option.ite_none_right_eq_some] at hmemory
    exact hmemory.1
  | start e =>
    obtain ⟨memory, lastSeen⟩ := t
    simp only [Monitored.step, Option.ite_none_right_eq_some, Option.some.injEq] at hmemory
    obtain ⟨hm, rfl⟩ := hmemory
    obtain rfl : lastSeen = Function.update s.lastSeen e s.memory.now := hseen
    exact h.advance (e := e) (m := .sleeping) (x := some s.memory.now) hwatched rfl rfl rfl rfl rfl
      rfl (fun c hce => Function.update_of_ne hce _ _) (by simp [hm])
      (fun _ _ => by simp) (by simp)
  | wake e =>
    obtain ⟨memory, lastSeen⟩ := t
    simp only [Monitored.step, Option.ite_none_right_eq_some, Option.some.injEq] at hmemory
    obtain ⟨hm, rfl⟩ := hmemory
    cases hseen
    exact h.advance (e := e) (m := .woken s.memory.now) hwatched rfl rfl rfl rfl rfl
      (Function.update_eq_self _ _).symm (fun _ _ => rfl) (by simp [hm])
      (fun hreading _ => h.recorded e hreading (by simp [hm, Counting])) (by simp)
  | check e =>
    obtain ⟨memory, lastSeen⟩ := t
    simp only [Monitored.step] at hmemory
    split at hmemory
    case h_2 => cases hmemory
    case h_1 now hm =>
      cases hmemory
      cases hseen
      refine h.advance (e := e) hwatched rfl rfl rfl rfl rfl rfl (fun _ _ => rfl) (by simp [hm])
        (fun hreading _ => ?_) fun now' hnow' => ?_
      · rw [h.lastKeepAlive_eq hreading (by simp [hm, Counting])]
      · rcases checked_cases now
          (lastKeepAlive s.memory.socketLastKeepAlive (s.memory.socket e)) with h | h <;>
          cases h.symm.trans hnow'
  | erase e =>
    obtain ⟨memory, lastSeen⟩ := t
    simp only [Monitored.step, Option.ite_none_right_eq_some, Option.some.injEq] at hmemory
    obtain ⟨hm, rfl⟩ := hmemory
    cases hseen
    exact h.advance (e := e) (m := .erased) hwatched rfl rfl rfl rfl rfl rfl (fun _ _ => rfl)
      (by simp [hm]) (fun _ hcount => hcount.elim) (by simp)
  | shutdown e =>
    obtain ⟨memory, lastSeen⟩ := t
    simp only [Monitored.step, Option.ite_none_right_eq_some, Option.some.injEq] at hmemory
    obtain ⟨hm, rfl⟩ := hmemory
    cases hseen
    exact h.advance (e := e) (m := .done) hwatched rfl rfl rfl rfl rfl
      (Function.update_eq_self _ _).symm (fun _ _ => rfl) (by simp [hm])
      (fun _ hcount => hcount.elim) (by simp)

theorem recorded_of_reachesWhen (h : watch.ReachesWhen MonitorDone s) : Recorded s :=
  h.invariant (I := Recorded) (fun _ ht => recorded_of_init ht)
    fun _ _ _ hs hok hst => hs.step hok hst

theorem checked_eq_timedOut_iff {now last : Int} :
    MonitorThread.checked now last = .timedOut ↔ KEEP_ALIVE_TIMEOUT ≤ now - last := by
  unfold MonitorThread.checked connectionIsValid
  split
  case isTrue h => simpa using h
  case isFalse h => simpa using h

/-- **What a verdict means.**  The monitor of a connection that is read from times it out
exactly when it was silent for the time limit as the monitor read the clock; then it has been
silent for as long when the verdict falls, unless it was heard of in between. -/
theorem timedOut_iff_silent (h : watch.ReachesWhen MonitorDone s) {now : Int}
    (hc : s.memory.listener c = .reading) (hm : s.memory.monitor c = .woken now) :
    now ≤ s.memory.now ∧ ∃ t, s.step (.check c) = some t ∧
      (t.memory.monitor c = .timedOut ↔ KEEP_ALIVE_TIMEOUT ≤ now - s.lastSeen c) := by
  have hs := recorded_of_reachesWhen h
  have hlast := hs.lastKeepAlive_eq hc (by simp [hm, Counting])
  have hstep : s.memory.step (.check c) =
      some { s.memory.setMonitor c (.checked now (s.lastSeen c)) with
        socketLastKeepAlive := lookedUp s.memory.socketLastKeepAlive (s.memory.socket c) } := by
    simp only [Monitored.step, hm, hlast]
  refine ⟨hs.past c now hm, _, by rw [step, hstep, Option.map_some], ?_⟩
  show Function.update _ _ _ c = _ ↔ _
  rw [Function.update_self]
  exact checked_eq_timedOut_iff

/-- The front end has just been started. -/
def start : Watch := ⟨Monitored.start 1000, fun _ => 0⟩

/-- A connection is silent for twelve seconds. -/
theorem timedOut_iff_silent_twelve :
    ∃ s t, watch.exec start [.accept 6, .start 0, .tick 12, .wake 0] = some s ∧
      s.step (.check 0) = some t ∧ t.memory.monitor 0 = .timedOut := by
  obtain ⟨u, hu⟩ : ∃ u, watch.step start (.accept 6) = some u := ⟨_, rfl⟩
  obtain ⟨s, hs⟩ : ∃ s, watch.exec u [.start 0, .tick 12, .wake 0] = some s := by
    cases hu
    exact ⟨_, rfl⟩
  have hok : MonitorDone start (.accept 6) := fun _ _ => rfl
  have hfirst : watch.ReachesWhen MonitorDone u :=
    (System.ReachesWhen.start (S := watch) ⟨1000, rfl⟩).next hok hu
  have hrest : ∀ l ∈ [MonitorStep.start 0, .tick 12, .wake 0], ∀ u, MonitorDone u l := by
    simp [MonitorDone, Monitored.MonitorDone]
  have hstate : s.memory.listener 0 = .reading ∧ s.memory.monitor 0 = .woken 1012 ∧
      s.lastSeen 0 = 1000 := by
    cases hu
    cases hs
    decide
  obtain ⟨hc, hm, hseen⟩ := hstate
  obtain ⟨-, t, ht, hiff⟩ := timedOut_iff_silent (hfirst.exec hrest hs) hc hm
  refine ⟨s, t, ?_, ht, hiff.2 (by rw [hseen]; decide)⟩
  rw [System.exec_cons, hu]
  exact hs

/-! ## Keep-alives in time -/

/-- Time does not go on beyond the limit of a connection that is read from and watched. -/
def InTime (s : Watch) : MonitorStep → Prop
  | .tick seconds => ∀ c, s.memory.listener c = .reading → Counting (s.memory.monitor c) →
      s.memory.now + seconds - s.lastSeen c < KEEP_ALIVE_TIMEOUT
  | l => s.MonitorDone l

/-- What the monitor of a live connection does. -/
structure Alive (s : Watch) (c : Nat) : Prop where
  place : s.memory.monitor c = .starting ∨ s.memory.monitor c = .sleeping ∨
    ∃ now, s.memory.monitor c = .woken now
  inTime : Counting (s.memory.monitor c) → s.memory.now - s.lastSeen c < KEEP_ALIVE_TIMEOUT

/-- No connection that is read from is given up. -/
def AllAlive (s : Watch) : Prop := ∀ c, s.memory.listener c = .reading → Alive s c

/-- The monitor `e` goes on; it has not given up if its connection is read from. -/
theorem AllAlive.advance (h : AllAlive s) {e : Nat} {m : MonitorThread}
    (hlistener : t.memory.listener = s.memory.listener) (hnow : t.memory.now = s.memory.now)
    (hmonitor : t.memory.monitor = Function.update s.memory.monitor e m)
    (hseen : ∀ c, c ≠ e → t.lastSeen c = s.lastSeen c)
    (halive : s.memory.listener e = .reading → (m = .sleeping ∨ ∃ now, m = .woken now) ∧
      s.memory.now - t.lastSeen e < KEEP_ALIVE_TIMEOUT) : AllAlive t := by
  intro c hc
  rw [hlistener] at hc
  by_cases hce : c = e
  · subst hce
    have hm : t.memory.monitor c = m := by rw [hmonitor, Function.update_self]
    obtain ⟨hplace, htime⟩ := halive hc
    exact ⟨.inr (hm ▸ hplace), fun _ => hnow ▸ htime⟩
  · have hm : t.memory.monitor c = s.memory.monitor c := by
      rw [hmonitor, Function.update_of_ne hce]
    obtain ⟨hplace, htime⟩ := h c hc
    refine ⟨hm ▸ hplace, fun hcount => ?_⟩
    rw [hnow, hseen c hce]
    exact htime (hm ▸ hcount)

theorem AllAlive.step (h : AllAlive s) (hs : Recorded s) (hok : s.InTime l)
    (hst : s.step l = some t) : AllAlive t := by
  obtain ⟨hmemory, hseen⟩ := step_eq_some hst
  obtain ⟨memory, lastSeen⟩ := t
  cases l with
  | tick seconds =>
    cases hmemory
    cases hseen
    exact fun c hc => ⟨(h c hc).place, fun hcount => hok c hc hcount⟩
  | accept d =>
    simp only [Monitored.step, Option.ite_none_right_eq_some, Option.some.injEq] at hmemory
    obtain ⟨-, rfl⟩ := hmemory
    cases hseen
    intro c hc
    by_cases hnew : c = s.memory.connections
    · have hm : (s.memory.accept d).monitor c = .starting := by simp [Monitored.accept, hnew]
      refine ⟨.inl hm, fun hcount => ?_⟩
      rw [hm] at hcount
      exact hcount.elim
    · simp only [Monitored.accept, Function.update_of_ne hnew] at hc
      obtain ⟨hplace, htime⟩ := h c hc
      constructor <;> simp only [Monitored.accept, Function.update_of_ne hnew]
      · exact hplace
      · exact htime
  | refresh e =>
    simp only [Monitored.step, Option.ite_none_right_eq_some, Option.some.injEq] at hmemory
    obtain ⟨-, rfl⟩ := hmemory
    obtain rfl : lastSeen = Function.update s.lastSeen e s.memory.now := hseen
    refine fun c hc => ⟨(h c hc).place, fun hcount => ?_⟩
    have htime := (h c hc).inTime hcount
    by_cases hce : c = e
    · subst hce
      simp [KEEP_ALIVE_TIMEOUT]
    · simpa [hce] using htime
  | killSocket e | close e =>
    simp only [Monitored.step, Option.ite_none_right_eq_some, Option.some.injEq] at hmemory
    obtain ⟨-, rfl⟩ := hmemory
    cases hseen
    intro c hc
    have hce : c ≠ e := by
      rintro rfl
      simp at hc
    obtain ⟨hplace, htime⟩ := h c (by simpa [hce] using hc)
    exact ⟨hplace, htime⟩
  | start e =>
    simp only [Monitored.step, Option.ite_none_right_eq_some, Option.some.injEq] at hmemory
    obtain ⟨-, rfl⟩ := hmemory
    obtain rfl : lastSeen = Function.update s.lastSeen e s.memory.now := hseen
    exact h.advance (e := e) (m := .sleeping) rfl rfl rfl
      (fun c hce => Function.update_of_ne hce _ _)
      fun _ => ⟨.inl rfl, by simp [KEEP_ALIVE_TIMEOUT]⟩
  | wake e =>
    simp only [Monitored.step, Option.ite_none_right_eq_some, Option.some.injEq] at hmemory
    obtain ⟨hm, rfl⟩ := hmemory
    cases hseen
    exact h.advance (e := e) (m := .woken s.memory.now) rfl rfl rfl (fun _ _ => rfl)
      fun hc => ⟨.inr ⟨_, rfl⟩, (h e hc).inTime (by simp [hm, Counting])⟩
  | check e =>
    simp only [Monitored.step] at hmemory
    split at hmemory
    case h_2 => cases hmemory
    case h_1 now hm =>
      cases hmemory
      cases hseen
      refine h.advance (e := e) rfl rfl rfl (fun _ _ => rfl) fun hc => ?_
      have hcount : Counting (s.memory.monitor e) := by simp [hm, Counting]
      have htime := (h e hc).inTime hcount
      have hpast := hs.past e now hm
      refine ⟨.inl ?_, htime⟩
      rw [hs.lastKeepAlive_eq hc hcount]
      refine (checked_cases now (s.lastSeen e)).resolve_right fun hlate => ?_
      have hsilent := checked_eq_timedOut_iff.1 hlate
      omega
  | erase e | shutdown e =>
    simp only [Monitored.step, Option.ite_none_right_eq_some, Option.some.injEq] at hmemory
    obtain ⟨hm, rfl⟩ := hmemory
    cases hseen
    refine h.advance (e := e) rfl rfl rfl (fun _ _ => rfl) fun hc => ?_
    rcases (h e hc).place with hplace | hplace | ⟨now, hplace⟩ <;> cases hm.symm.trans hplace

/-- **A connection that is heard of in time lives.**  In a run in which the clock never goes
beyond the time limit of a connection that is read from, its own monitor does not give it up,
and no other monitor watches its number. -/
theorem kept_alive (h : watch.ReachesWhen InTime s) (hc : s.memory.listener c = .reading) :
    s.memory.monitor c ≠ .timedOut ∧ s.memory.monitor c ≠ .erased ∧
      s.memory.monitor c ≠ .done ∧
      ∀ d, d ≠ c → s.memory.monitor d ≠ .done → s.memory.socket d ≠ s.memory.socket c := by
  have hboth : Recorded s ∧ AllAlive s := by
    refine h.invariant (I := fun s => Recorded s ∧ AllAlive s) (fun t ht => ?_)
      fun t l u hI hok hst => ⟨hI.1.step ?_ hst, hI.2.step hI.1 hok hst⟩
    · refine ⟨recorded_of_init ht, fun c hc => ?_⟩
      obtain ⟨now, hmemory⟩ := ht
      rw [hmemory] at hc
      cases hc
    · cases l with
      | tick => exact trivial
      | _ => exact hok
  have hapart : ∀ d, d ≠ c → s.memory.monitor d ≠ .done →
      s.memory.socket d ≠ s.memory.socket c :=
    fun d hdc hd => (hboth.1.apart hc (.inr hd) hdc.symm).symm
  rcases (hboth.2 c hc).place with hplace | hplace | ⟨now, hplace⟩
  · exact ⟨by simp [hplace], by simp [hplace], by simp [hplace], hapart⟩
  · exact ⟨by simp [hplace], by simp [hplace], by simp [hplace], hapart⟩
  · exact ⟨by simp [hplace], by simp [hplace], by simp [hplace], hapart⟩

/-- A connection is checked nine seconds after its last keep-alive. -/
theorem kept_alive_nine :
    ∃ s, watch.exec start [.accept 6, .start 0, .refresh 0, .tick 9, .wake 0, .check 0] = some s ∧
      s.memory.listener 0 = .reading ∧ s.memory.monitor 0 ≠ .timedOut := by
  obtain ⟨u, hu⟩ : ∃ u, watch.step start (.accept 6) = some u := ⟨_, rfl⟩
  obtain ⟨v, hv⟩ : ∃ v, watch.exec u [.start 0, .refresh 0] = some v := by
    cases hu
    exact ⟨_, rfl⟩
  obtain ⟨w, hw⟩ : ∃ w, watch.step v (.tick 9) = some w := ⟨_, rfl⟩
  obtain ⟨s, hs⟩ : ∃ s, watch.exec w [.wake 0, .check 0] = some s := by
    cases hu
    cases hv
    cases hw
    exact ⟨_, rfl⟩
  have haccept : InTime start (.accept 6) := fun _ _ => rfl
  have htick : InTime v (.tick 9) := by
    intro c hc _
    cases hu
    cases hv
    by_cases hc0 : c = 0
    · subst hc0
      decide
    · change Function.update (fun _ => ListenerThread.closed) 0 .reading c = _ at hc
      rw [Function.update_of_ne hc0] at hc
      cases hc
  have hother : ∀ l ∈ [MonitorStep.start 0, .refresh 0, .wake 0, .check 0], ∀ u, InTime u l := by
    simp [InTime, MonitorDone, Monitored.MonitorDone]
  have hrun : watch.ReachesWhen InTime s := by
    refine System.ReachesWhen.exec ?_ (fun l hl => hother l (by simp at hl ⊢; tauto)) hs
    refine System.ReachesWhen.next ?_ htick hw
    refine System.ReachesWhen.exec ?_ (fun l hl => hother l (by simp at hl ⊢; tauto)) hv
    exact (System.ReachesWhen.start (S := watch) ⟨1000, rfl⟩).next haccept hu
  have hreading : s.memory.listener 0 = .reading := by
    cases hu
    cases hv
    cases hw
    cases hs
    decide
  refine ⟨s, ?_, hreading, (kept_alive hrun hreading).1⟩
  have hexec : watch.exec u ([.start 0, .refresh 0] ++ ([.tick 9] ++ [.wake 0, .check 0])) =
      some s := by
    rw [System.exec_append, hv, Option.bind_some, System.exec_append, System.exec_cons, hw]
    exact hs
  rw [System.exec_cons, hu]
  exact hexec

end Watch

end InstantMessenger
