import Mathlib.Data.List.Nodup
import InstantMessenger.Foundations.Transition
import InstantMessenger.Server.Server

/-!
# Closing a front end from two threads

The listener of a front end and its monitor both call `closeFrontEndConnection` when they
notice that it is gone.  The call tests whether the front end has been closed before,
disconnects its sessions, looks its descriptor up, closes it, and takes the address out of
`feAddresses` and of the address book; the test and the purge are sections of their own.

* `FeAddressBook` — the book; a look-up of a missing address inserts 0.
* `ClosingThreads.step` — the two threads of every front end, one section or one `close` at
  a time; `call_alone`: undisturbed, a call is `Server.closeFrontEndConnection`;
  `turns_le`: every call returns.
* `Life` — **the invariant**: before, during and after the one call that closes.
* `closed_once` — a front end is closed once, as long as no thread makes its test while
  the other one is between its test and its purge; wherever a thread does, the run can go
  on to a second close.
-/

namespace InstantMessenger

open Transition

/-! ## `FeAddressBook.cpp` -/

/-- The map `serverAddressToInternalSocket`. -/
abbrev FeAddressBook := Str → Option Int

namespace FeAddressBook

variable (b : FeAddressBook) (feAddress : Str)

/-- `getInternalSocketId`: `operator[]` inserts 0 when the address is missing. -/
def getInternalSocketId : Int × FeAddressBook :=
  ((b feAddress).getD 0, Function.update b feAddress (some ((b feAddress).getD 0)))

def removeServerSocket : FeAddressBook := Function.update b feAddress none

end FeAddressBook

/-! ## The threads -/

/-- The threads of a front end that call `closeFrontEndConnection`, at the end of
`listenFrontEndCommunication` and of `monitorConnection`. -/
inductive Caller where
  | listener
  | monitor
  deriving DecidableEq, Repr

/-- What a call has behind it. -/
inductive Closing where
  | calling
  /-- The address was found in `feAddresses`. -/
  | found
  /-- `closeClientConnection` has returned. -/
  | disconnected
  | lookedUp (socketId : Int)
  /-- `close` has returned. -/
  | closed
  | returned
  deriving DecidableEq, Repr

/-- Between a successful test and the purge. -/
def Closing.isInside : Closing → Bool
  | .found | .disconnected | .lookedUp _ | .closed => true
  | .calling | .returned => false

/-- How many turns a call still needs at most. -/
def Closing.turns : Closing → Nat
  | .calling => 5
  | .found => 4
  | .disconnected => 3
  | .lookedUp _ => 2
  | .closed => 1
  | .returned => 0

/-- The next thread, and the clock. -/
structure Turn where
  feAddress : Str
  caller : Caller
  time : Int := 0

/-- The server, the book and the threads. -/
structure ClosingThreads where
  server : Server
  feAddressBook : FeAddressBook
  thread : Str × Caller → Closing
  /-- Every `close`: for which front end, and of which descriptor. -/
  closed : List (Str × Int)

namespace ClosingThreads

/-- The thread of the turn goes on. -/
def move (s : ClosingThreads) (l : Turn) (c : Closing) : ClosingThreads :=
  { s with thread := Function.update s.thread (l.feAddress, l.caller) c }

/-- `purgeFeConnection`, one section of `feAddressesSemaphore`. -/
def purgeFeConnection (s : ClosingThreads) (feAddress : Str) : ClosingThreads :=
  { s with
    server := s.server.purgeFeConnection feAddress
    feAddressBook :=
      if s.server.feAddresses.contains feAddress then
        s.feAddressBook.removeServerSocket feAddress
      else s.feAddressBook }

/-- The next section, or the `close`, of a call of `closeFrontEndConnection`. -/
def step (s : ClosingThreads) (l : Turn) : Option ClosingThreads :=
  match s.thread (l.feAddress, l.caller) with
  | .calling =>
    if s.server.feAddresses.contains l.feAddress then some (s.move l .found)
    else some (s.move l .returned)
  | .found =>
    let server := s.server.closeClientConnection l.time (FE_DISCONNECT, l.feAddress)
    some ({ s with server := server }.move l .disconnected)
  | .disconnected =>
    let r := s.feAddressBook.getInternalSocketId l.feAddress
    some ({ s with feAddressBook := r.2 }.move l (.lookedUp r.1))
  | .lookedUp socketId =>
    some ({ s with closed := s.closed ++ [(l.feAddress, socketId)] }.move l .closed)
  | .closed => some ((s.purgeFeConnection l.feAddress).move l .returned)
  | .returned => none

/-- The runs from a state. -/
def closing (s₀ : ClosingThreads) : System ClosingThreads Turn := ⟨(· = s₀), step⟩

/-- The front ends have been connected, each with a descriptor of its own, and nobody has
called yet. -/
structure Start (s : ClosingThreads) : Prop where
  distinct : s.server.feAddresses.Nodup
  named : [] ∉ s.server.feAddresses
  socket : ∀ fe ∈ s.server.feAddresses, ∃ fd, s.feAddressBook fe = some fd
  own : ∀ fe ∈ s.server.feAddresses, ∀ fe' ∈ s.server.feAddresses,
    s.feAddressBook fe = s.feAddressBook fe' → fe = fe'
  thread : ∀ t, s.thread t = .calling
  closed : s.closed = []

/-- The descriptors closed for a front end. -/
def closesFor (s : ClosingThreads) (fe : Str) : List Int :=
  (s.closed.filter fun c => c.1 = fe).map Prod.snd

/-! ## What a step does -/

variable {s t : ClosingThreads} {l : Turn} {fe : Str} {fd : Int}

@[simp] theorem move_server (c : Closing) : (s.move l c).server = s.server := rfl

@[simp] theorem move_feAddressBook (c : Closing) :
    (s.move l c).feAddressBook = s.feAddressBook := rfl

@[simp] theorem move_closed (c : Closing) : (s.move l c).closed = s.closed := rfl

@[simp] theorem move_closesFor (c : Closing) : (s.move l c).closesFor fe = s.closesFor fe := rfl

@[simp] theorem move_self (c : Closing) :
    (s.move l c).thread (l.feAddress, l.caller) = c := Function.update_self ..

theorem move_of_ne {c : Closing} {k : Str × Caller} (h : k ≠ (l.feAddress, l.caller)) :
    (s.move l c).thread k = s.thread k := Function.update_of_ne h ..

/-- The steps, one by one. -/
inductive Took (s : ClosingThreads) (l : Turn) : ClosingThreads → Prop
  | found (hthread : s.thread (l.feAddress, l.caller) = .calling)
      (hmem : l.feAddress ∈ s.server.feAddresses) : Took s l (s.move l .found)
  | notFound (hthread : s.thread (l.feAddress, l.caller) = .calling)
      (hmem : l.feAddress ∉ s.server.feAddresses) : Took s l (s.move l .returned)
  | disconnect (hthread : s.thread (l.feAddress, l.caller) = .found) :
      Took s l ({ s with
        server := s.server.closeClientConnection l.time (FE_DISCONNECT, l.feAddress) }.move l
          .disconnected)
  | lookUp (hthread : s.thread (l.feAddress, l.caller) = .disconnected) :
      Took s l ({ s with
        feAddressBook := (s.feAddressBook.getInternalSocketId l.feAddress).2 }.move l
          (.lookedUp (s.feAddressBook.getInternalSocketId l.feAddress).1))
  | close (socketId : Int) (hthread : s.thread (l.feAddress, l.caller) = .lookedUp socketId) :
      Took s l ({ s with closed := s.closed ++ [(l.feAddress, socketId)] }.move l .closed)
  | purge (hthread : s.thread (l.feAddress, l.caller) = .closed) :
      Took s l ((s.purgeFeConnection l.feAddress).move l .returned)

theorem step_cases (h : step s l = some t) : Took s l t := by
  rw [step] at h
  split at h
  · rename_i hthread
    split at h
    · rename_i hmem
      cases h
      exact .found hthread (List.contains_iff_mem.1 hmem)
    · rename_i hmem
      cases h
      exact .notFound hthread fun hin => hmem (List.contains_iff_mem.2 hin)
  · rename_i hthread
    cases h
    exact .disconnect hthread
  · rename_i hthread
    cases h
    exact .lookUp hthread
  · rename_i socketId hthread
    cases h
    exact .close socketId hthread
  · rename_i hthread
    cases h
    exact .purge hthread
  · cases h

theorem Took.step (h : Took s l t) : step s l = some t := by
  cases h with
  | found hthread hmem => rw [ClosingThreads.step, hthread, if_pos (List.contains_iff_mem.2 hmem)]
  | notFound hthread hmem =>
    rw [ClosingThreads.step, hthread, if_neg fun hin => hmem (List.contains_iff_mem.1 hin)]
  | disconnect hthread | lookUp hthread | close _ hthread | purge hthread =>
    rw [ClosingThreads.step, hthread]

/-- Undisturbed, a call is what `Server.closeFrontEndConnection` says. -/
theorem call_alone {s₀ : ClosingThreads}
    (hthread : s.thread (l.feAddress, l.caller) = .calling) :
    ∃ t, (closing s₀).Reaches s t ∧ t.thread (l.feAddress, l.caller) = .returned ∧
      t.server = s.server.closeFrontEndConnection l.time l.feAddress := by
  rw [Server.closeFrontEndConnection]
  split
  · rename_i hmem
    refine ⟨_, .cons (Took.step (.found hthread (List.contains_iff_mem.1 hmem))) <|
      .cons (Took.step (.disconnect (move_self _))) <| .cons (Took.step (.lookUp (move_self _))) <|
      .cons (Took.step (.close _ (move_self _))) <| .cons (Took.step (.purge (move_self _))) <|
      .refl _, move_self _, rfl⟩
  · rename_i hmem
    exact ⟨_, .cons (Took.step (.notFound hthread fun hin => hmem (List.contains_iff_mem.2 hin)))
      (.refl _), move_self _, rfl⟩

/-- A call that has not returned can go on. -/
theorem exists_step (h : s.thread (l.feAddress, l.caller) ≠ .returned) :
    ∃ t, step s l = some t := by
  cases hthread : s.thread (l.feAddress, l.caller) with
  | calling =>
    by_cases hmem : l.feAddress ∈ s.server.feAddresses
    · exact ⟨_, Took.step (.found hthread hmem)⟩
    · exact ⟨_, Took.step (.notFound hthread hmem)⟩
  | found => exact ⟨_, Took.step (.disconnect hthread)⟩
  | disconnected => exact ⟨_, Took.step (.lookUp hthread)⟩
  | lookedUp d => exact ⟨_, Took.step (.close d hthread)⟩
  | closed => exact ⟨_, Took.step (.purge hthread)⟩
  | returned => exact absurd hthread h

theorem Took.turns_lt (h : Took s l t) :
    (t.thread (l.feAddress, l.caller)).turns < (s.thread (l.feAddress, l.caller)).turns := by
  cases h with
  | found hthread | notFound hthread | disconnect hthread | lookUp hthread | close _ hthread
  | purge hthread =>
    rw [hthread, move_self]
    simp [Closing.turns]

theorem Took.thread_of_ne (h : Took s l t) {k : Str × Caller} (hk : k ≠ (l.feAddress, l.caller)) :
    t.thread k = s.thread k := by
  cases h with
  | found | notFound | disconnect | lookUp | close | purge => exact move_of_ne hk

/-- **Every call returns**, after at most five turns of its thread. -/
theorem turns_le {s₀ : ClosingThreads} {ls : List Turn} (h : (closing s₀).exec s ls = some t)
    (k : Str × Caller) :
    (t.thread k).turns + ls.countP (fun l => (l.feAddress, l.caller) = k) ≤
      (s.thread k).turns := by
  induction ls generalizing s with
  | nil =>
    cases h
    exact Nat.le_refl _
  | cons l ls ih =>
    rw [System.exec_cons, Option.bind_eq_some_iff] at h
    obtain ⟨r, hr, hrest⟩ := h
    have htook := step_cases hr
    have hle := ih hrest
    rw [List.countP_cons]
    by_cases hk : (l.feAddress, l.caller) = k
    · subst hk
      have hlt := htook.turns_lt
      simp only [decide_true, if_true]
      omega
    · rw [htook.thread_of_ne (Ne.symm hk)] at hle
      simpa [hk] using hle

theorem closesFor_append (d : Int) (a : Str) :
    closesFor { s with closed := s.closed ++ [(a, d)] } fe =
      s.closesFor fe ++ if a = fe then [d] else [] := by
  rw [closesFor, closesFor, List.filter_append, List.map_append]
  by_cases ha : a = fe <;> simp [ha]

/-- The purge takes exactly the address out. -/
theorem purge_feAddresses (hdistinct : s.server.feAddresses.Nodup) {a : Str} (ha : a ≠ []) :
    (s.purgeFeConnection a).server.feAddresses =
      s.server.feAddresses.filter fun x => !(x == a) := by
  refine EraseLoop.eraseLoop_eq_filter ?_ (beq_eq_false_iff_ne.2 (Ne.symm ha))
  exact List.nodup_iff_count_le_one.1 hdistinct a

/-- What the step of one front end does not touch of another. -/
structure Unseen (fe : Str) (s t : ClosingThreads) : Prop where
  address : fe ∈ t.server.feAddresses ↔ fe ∈ s.server.feAddresses
  socket : t.feAddressBook fe = s.feAddressBook fe
  thread : ∀ w, t.thread (fe, w) = s.thread (fe, w)
  closes : t.closesFor fe = s.closesFor fe

theorem Took.unseen (h : Took s l t) (hdistinct : s.server.feAddresses.Nodup)
    (hnamed : s.thread (l.feAddress, l.caller) = .closed → l.feAddress ≠ [])
    (hne : fe ≠ l.feAddress) : Unseen fe s t := by
  have hthread : ∀ (r : ClosingThreads) c w, (r.move l c).thread (fe, w) = r.thread (fe, w) :=
    fun r c w => move_of_ne fun heq => hne (congrArg Prod.fst heq)
  cases h with
  | found | notFound | disconnect => exact ⟨Iff.rfl, rfl, hthread _ _, rfl⟩
  | lookUp =>
    refine ⟨Iff.rfl, ?_, hthread _ _, rfl⟩
    exact Function.update_of_ne hne ..
  | close socketId =>
    refine ⟨Iff.rfl, rfl, hthread _ _, ?_⟩
    rw [move_closesFor, closesFor_append, if_neg (Ne.symm hne), List.append_nil]
  | purge hclosed =>
    refine ⟨?_, ?_, hthread _ _, rfl⟩
    · rw [move_server, purge_feAddresses hdistinct (hnamed hclosed), List.mem_filter]
      simp [hne]
    · rw [move_feAddressBook, purgeFeConnection]
      dsimp only
      split
      · exact Function.update_of_ne hne ..
      · rfl

/-! ## The life of a front end -/

/-- It is not connected, and nobody is about to close anything for it. -/
structure Gone (fe : Str) (socket : Option Int) (closes : List Int) (s : ClosingThreads) :
    Prop where
  address : fe ∉ s.server.feAddresses
  socket : s.feAddressBook fe = socket
  closes : s.closesFor fe = closes
  thread : ∀ w, (s.thread (fe, w)).isInside = false

/-- Before, during and after the call that closes the descriptor `fd`. -/
inductive Life (fe : Str) (fd : Int) (s : ClosingThreads) : Prop
  | before (hmem : fe ∈ s.server.feAddresses) (hbook : s.feAddressBook fe = some fd)
      (hcloses : s.closesFor fe = []) (hthread : ∀ w, s.thread (fe, w) = .calling)
  | during (w : Caller) (hmem : fe ∈ s.server.feAddresses) (hbook : s.feAddressBook fe = some fd)
      (hinside : (s.thread (fe, w)).isInside = true)
      (hother : ∀ v, v ≠ w → s.thread (fe, v) = .calling)
      (hlooked : ∀ d, s.thread (fe, w) = .lookedUp d → d = fd)
      (hcloses : s.closesFor fe = if s.thread (fe, w) = .closed then [fd] else [])
  | after (h : Gone fe none [fd] s)

/-- No thread makes its test while another one of its front end is between its test and
its purge. -/
def Alone (s : ClosingThreads) (l : Turn) : Prop :=
  s.thread (l.feAddress, l.caller) = .calling →
    ∀ w, (s.thread (l.feAddress, w)).isInside = false

instance (s : ClosingThreads) (l : Turn) : Decidable (Alone s l) :=
  decidable_of_iff (s.thread (l.feAddress, l.caller) = .calling →
    (s.thread (l.feAddress, .listener)).isInside = false ∧
      (s.thread (l.feAddress, .monitor)).isInside = false) (by
    refine imp_congr_right fun _ => ⟨?_, fun h => ⟨h _, h _⟩⟩
    rintro ⟨hlistener, hmonitor⟩ (_ | _)
    · exact hlistener
    · exact hmonitor)

theorem Gone.of_unseen {socket : Option Int} {closes : List Int} (h : Gone fe socket closes s)
    (hu : Unseen fe s t) : Gone fe socket closes t where
  address := fun hmem => h.address (hu.address.1 hmem)
  socket := hu.socket.trans h.socket
  closes := hu.closes.trans h.closes
  thread w := by
    rw [hu.thread]
    exact h.thread w

theorem Life.of_unseen (h : Life fe fd s) (hu : Unseen fe s t) : Life fe fd t := by
  cases h with
  | before hmem hbook hcloses hthread =>
    exact .before (hu.address.2 hmem) (hu.socket.trans hbook) (hu.closes.trans hcloses)
      fun w => (hu.thread w).trans (hthread w)
  | during w hmem hbook hinside hother hlooked hcloses =>
    refine .during w (hu.address.2 hmem) (hu.socket.trans hbook) ?_
      (fun v hv => (hu.thread v).trans (hother v hv)) ?_ ?_
    · rwa [hu.thread]
    · intro d hd
      rw [hu.thread] at hd
      exact hlooked d hd
    · rw [hu.closes, hu.thread]
      exact hcloses
  | after h => exact .after (h.of_unseen hu)

/-- A front end that is gone stays so: the test fails. -/
theorem Gone.step {socket : Option Int} {closes : List Int}
    (h : Gone l.feAddress socket closes s) (htook : Took s l t) :
    Gone l.feAddress socket closes t := by
  have hout := h.thread l.caller
  cases htook with
  | found _ hmem => exact absurd hmem h.address
  | notFound hthread _ =>
    refine ⟨h.address, h.socket, h.closes, ?_⟩
    intro w
    by_cases hw : (l.feAddress, w) = (l.feAddress, l.caller)
    · rw [hw, move_self]
      rfl
    · rw [move_of_ne hw]
      exact h.thread w
  | disconnect hthread | lookUp hthread | close _ hthread | purge hthread =>
    rw [hthread] at hout
    cases hout

/-- The thread of the turn is inside, and the other one has not called. -/
theorem Life.inside {c : Closing} (hmem : l.feAddress ∈ s.server.feAddresses)
    (hbook : s.feAddressBook l.feAddress = some fd) (hinside : c.isInside = true)
    (hother : ∀ v, v ≠ l.caller → s.thread (l.feAddress, v) = .calling)
    (hlooked : ∀ d, c = .lookedUp d → d = fd)
    (hcloses : s.closesFor l.feAddress = if c = .closed then [fd] else []) :
    Life l.feAddress fd (s.move l c) := by
  refine .during l.caller hmem hbook ?_ ?_ ?_ ?_
  · rwa [move_self]
  · intro v hv
    rw [move_of_ne fun heq => hv (congrArg Prod.snd heq)]
    exact hother v hv
  · rwa [move_self]
  · rwa [move_self]

theorem Life.step (h : Life l.feAddress fd s) (htook : Took s l t) (halone : Alone s l)
    (hdistinct : s.server.feAddresses.Nodup) (hnamed : l.feAddress ≠ []) :
    Life l.feAddress fd t := by
  cases h with
  | after h => exact .after (h.step htook)
  | before hmem hbook hcloses hthread =>
    have hcalling := hthread l.caller
    cases htook with
    | found => exact .inside hmem hbook rfl (fun v _ => hthread v) (by simp) hcloses
    | notFound _ hnot => exact absurd hmem hnot
    | disconnect h | lookUp h | close _ h | purge h =>
      rw [h] at hcalling
      cases hcalling
  | during w hmem hbook hinside hother hlooked hcloses =>
    by_cases hw : l.caller = w
    · subst hw
      cases htook with
      | found hthread | notFound hthread =>
        rw [hthread] at hinside
        cases hinside
      | disconnect hthread =>
        rw [hthread] at hcloses
        exact .inside hmem hbook rfl hother (by simp) hcloses
      | lookUp hthread =>
        rw [hthread] at hcloses
        have hread : s.feAddressBook.getInternalSocketId l.feAddress =
            (fd, Function.update s.feAddressBook l.feAddress (some fd)) := by
          rw [FeAddressBook.getInternalSocketId, hbook]
          rfl
        rw [hread]
        refine .inside hmem (Function.update_self ..) rfl hother ?_ hcloses
        intro d hd
        exact (Closing.lookedUp.inj hd).symm
      | close socketId hthread =>
        rw [hthread] at hcloses
        refine .inside hmem hbook rfl hother (by simp) ?_
        rw [closesFor_append, hcloses, if_pos rfl, hlooked socketId hthread]
        rfl
      | purge hthread =>
        rw [hthread, if_pos rfl] at hcloses
        refine .after ⟨?_, ?_, hcloses, ?_⟩
        · rw [move_server, purge_feAddresses hdistinct hnamed, List.mem_filter]
          simp
        · rw [move_feAddressBook, purgeFeConnection]
          dsimp only
          rw [if_pos (List.contains_iff_mem.2 hmem)]
          exact Function.update_self ..
        · intro v
          by_cases hv : v = l.caller
          · rw [hv, move_self]
            rfl
          · have hcalling : (s.purgeFeConnection l.feAddress).thread (l.feAddress, v) = .calling :=
              hother v hv
            rw [move_of_ne fun heq => hv (congrArg Prod.snd heq), hcalling]
            rfl
    · -- the other thread has not called yet, and may not make its test now
      have hfree := halone (hother l.caller hw) w
      rw [hfree] at hinside
      cases hinside

/-! ## What holds of every run -/

/-- What holds of all front ends at once. -/
structure Sound (s₀ s : ClosingThreads) : Prop where
  addresses : s.server.feAddresses.Sublist s₀.server.feAddresses
  life : ∀ fe ∈ s₀.server.feAddresses, ∀ fd, s₀.feAddressBook fe = some fd → Life fe fd s
  stranger : ∀ fe ∉ s₀.server.feAddresses, Gone fe (s₀.feAddressBook fe) [] s

variable {s₀ : ClosingThreads}

theorem Start.sound (h : Start s₀) : Sound s₀ s₀ := by
  have hcloses : ∀ fe, s₀.closesFor fe = [] := by
    intro fe
    rw [closesFor, h.closed]
    rfl
  refine ⟨List.Sublist.refl _, ?_, ?_⟩
  · intro fe hmem fd hfd
    exact .before hmem hfd (hcloses fe) fun w => h.thread (fe, w)
  · intro fe hmem
    refine ⟨hmem, rfl, hcloses fe, ?_⟩
    intro w
    rw [h.thread]
    rfl

theorem Took.addresses (h : Took s l t) :
    t.server.feAddresses.Sublist s.server.feAddresses := by
  cases h with
  | purge => exact EraseLoop.eraseLoop_sublist _
  | found | notFound | disconnect | lookUp | close => exact List.Sublist.refl _

/-- Only threads of connected front ends get past the test. -/
theorem Sound.mem_of_isInside (hs : Sound s₀ s) {w : Caller}
    (h : (s.thread (fe, w)).isInside = true) : fe ∈ s₀.server.feAddresses := by
  by_contra hmem
  rw [(hs.stranger fe hmem).thread w] at h
  cases h

theorem Sound.step (h0 : Start s₀) (hs : Sound s₀ s) (h : step s l = some t)
    (halone : Alone s l) : Sound s₀ t := by
  have htook := step_cases h
  have hdistinct : s.server.feAddresses.Nodup := h0.distinct.sublist hs.addresses
  have hnamed : ∀ a ∈ s₀.server.feAddresses, a ≠ [] := fun a ha hnil => h0.named (hnil ▸ ha)
  have hunseen : ∀ fe, fe ≠ l.feAddress → Unseen fe s t := by
    intro fe hne
    refine htook.unseen hdistinct ?_ hne
    intro hclosed
    exact hnamed _ (hs.mem_of_isInside (w := l.caller) (by rw [hclosed]; rfl))
  refine ⟨htook.addresses.trans hs.addresses, ?_, ?_⟩
  · intro fe hmem fd hfd
    have hlife := hs.life fe hmem fd hfd
    by_cases hfe : fe = l.feAddress
    · subst hfe
      exact hlife.step htook halone hdistinct (hnamed _ hmem)
    · exact hlife.of_unseen (hunseen fe hfe)
  · intro fe hmem
    have hgone := hs.stranger fe hmem
    by_cases hfe : fe = l.feAddress
    · subst hfe
      exact hgone.step htook
    · exact hgone.of_unseen (hunseen fe hfe)

theorem sound_of_reaches (h0 : Start s₀) (h : (closing s₀).ReachesWhen Alone s) : Sound s₀ s := by
  refine h.invariant ?_ ?_
  · rintro t rfl
    exact h0.sound
  · intro r l t hr halone hstep
    exact hr.step h0 hstep halone

/-- A front end that was connected with the descriptor `fd` is closed once. -/
structure ClosedOnce (fe : Str) (fd : Int) (s : ClosingThreads) : Prop where
  /-- Nothing else is closed for it, and nothing twice. -/
  closes : s.closesFor fe = [] ∨ s.closesFor fe = [fd]
  /-- Its descriptor is closed for nobody else. -/
  own : ∀ c ∈ s.closed, c.2 = fd → c.1 = fe
  /-- Once a call has returned, it has been closed, and its address is nowhere. -/
  afterwards : ∀ w, s.thread (fe, w) = .returned → s.closesFor fe = [fd] ∧
    fe ∉ s.server.feAddresses ∧ s.feAddressBook fe = none

theorem Life.closes (h : Life fe fd s) : s.closesFor fe = [] ∨ s.closesFor fe = [fd] := by
  cases h with
  | before _ _ hcloses => exact .inl hcloses
  | during w _ _ _ _ _ hcloses =>
    rw [hcloses]
    split
    · exact .inr rfl
    · exact .inl rfl
  | after h => exact .inr h.closes

theorem mem_closesFor {c : Str × Int} (h : c ∈ s.closed) : c.2 ∈ s.closesFor c.1 :=
  List.mem_map_of_mem (List.mem_filter.2 ⟨h, by simp⟩)

/-- Runs in which no thread makes its test while the other one is inside. -/
theorem closedOnce_of_reaches (h0 : Start s₀) (h : (closing s₀).ReachesWhen Alone s)
    (hfe : fe ∈ s₀.server.feAddresses) (hfd : s₀.feAddressBook fe = some fd) :
    ClosedOnce fe fd s := by
  have hs := sound_of_reaches h0 h
  have hlife := hs.life fe hfe fd hfd
  refine ⟨hlife.closes, ?_, ?_⟩
  · rintro ⟨a, d⟩ hc rfl
    have hmem : d ∈ s.closesFor a := mem_closesFor hc
    have ha : a ∈ s₀.server.feAddresses := by
      by_contra hnot
      rw [(hs.stranger a hnot).closes] at hmem
      cases hmem
    obtain ⟨d', hd'⟩ := h0.socket a ha
    have hd : d = d' := by
      rcases (hs.life a ha d' hd').closes with hnone | hone
      · rw [hnone] at hmem
        cases hmem
      · rw [hone] at hmem
        exact List.mem_singleton.1 hmem
    exact h0.own a ha fe hfe (by rw [hd', hfd, hd])
  · intro w hw
    cases hlife with
    | before _ _ _ hthread =>
      rw [hthread w] at hw
      cases hw
    | during v _ _ hinside hother _ _ =>
      by_cases hv : w = v
      · rw [← hv, hw] at hinside
        cases hinside
      · rw [hother w hv] at hw
        cases hw
    | after h => exact ⟨h.closes, h.address, h.socket⟩

/-! ## Where the condition does not hold -/

/-- What a thread that is inside does up to its `close`. -/
structure GoesOn (s₀ s : ClosingThreads) (l : Turn) (t : ClosingThreads) : Prop where
  reaches : (closing s₀).Reaches s t
  thread : t.thread (l.feAddress, l.caller) = .closed
  others : ∀ k, k ≠ (l.feAddress, l.caller) → t.thread k = s.thread k
  closed : ∃ d, t.closed = s.closed ++ [(l.feAddress, d)]

theorem GoesOn.cons {r : ClosingThreads} (hstep : step s l = some r)
    (hothers : ∀ k, k ≠ (l.feAddress, l.caller) → r.thread k = s.thread k)
    (hclosed : r.closed = s.closed) (h : GoesOn s₀ r l t) : GoesOn s₀ s l t where
  reaches := .cons hstep h.reaches
  thread := h.thread
  others k hk := (h.others k hk).trans (hothers k hk)
  closed := hclosed ▸ h.closed

theorem exists_goesOn (hinside : (s.thread (l.feAddress, l.caller)).isInside = true)
    (hopen : s.thread (l.feAddress, l.caller) ≠ .closed) : ∃ t, GoesOn s₀ s l t := by
  have hlookedUp : ∀ r : ClosingThreads, ∀ d, r.thread (l.feAddress, l.caller) = .lookedUp d →
      ∃ t, GoesOn s₀ r l t := fun r d hr =>
    ⟨_, .cons (Took.step (.close d hr)) (.refl _), move_self _, fun _ hk => move_of_ne hk, d, rfl⟩
  have hdisconnected : ∀ r : ClosingThreads, r.thread (l.feAddress, l.caller) = .disconnected →
      ∃ t, GoesOn s₀ r l t := by
    intro r hr
    obtain ⟨t, ht⟩ := hlookedUp _ _ (move_self _)
    exact ⟨t, ht.cons (Took.step (.lookUp hr)) (fun _ hk => move_of_ne hk) rfl⟩
  cases hthread : s.thread (l.feAddress, l.caller) with
  | found =>
    obtain ⟨t, ht⟩ := hdisconnected _ (move_self _)
    exact ⟨t, ht.cons (Took.step (.disconnect hthread)) (fun _ hk => move_of_ne hk) rfl⟩
  | disconnected => exact hdisconnected s hthread
  | lookedUp d => exact hlookedUp s d hthread
  | closed => exact absurd hthread hopen
  | calling | returned =>
    rw [hthread] at hinside
    cases hinside

theorem GoesOn.length_closesFor (h : GoesOn s₀ s l t) :
    (t.closesFor l.feAddress).length = (s.closesFor l.feAddress).length + 1 := by
  obtain ⟨d, hd⟩ := h.closed
  simp [closesFor, hd]

/-- Between a test and a purge, another test of the same front end can be followed by a
second `close`. -/
theorem second_close (h0 : Start s₀) (h : (closing s₀).ReachesWhen Alone s)
    (hbad : ¬Alone s l) :
    ∃ t, (closing s₀).Reaches s t ∧ ∀ fd, ¬ClosedOnce l.feAddress fd t := by
  have hs := sound_of_reaches h0 h
  obtain ⟨hcalling, w, hinside⟩ : s.thread (l.feAddress, l.caller) = .calling ∧
      ∃ w, (s.thread (l.feAddress, w)).isInside = true := by
    simpa [Alone] using hbad
  have hne : ((l.feAddress, w) : Str × Caller) ≠ (l.feAddress, l.caller) := by
    intro heq
    rw [heq, hcalling] at hinside
    cases hinside
  obtain ⟨fd, hfd⟩ := h0.socket _ (hs.mem_of_isInside hinside)
  obtain ⟨hmem, hcloses⟩ : l.feAddress ∈ s.server.feAddresses ∧
      (s.thread (l.feAddress, w) = .closed → (s.closesFor l.feAddress).length = 1) := by
    cases hs.life _ (hs.mem_of_isInside hinside) fd hfd with
    | before _ _ _ hthread =>
      rw [hthread w] at hinside
      cases hinside
    | during v hmem _ _ hother _ hcloses =>
      refine ⟨hmem, ?_⟩
      intro hclosed
      have hv : w = v := by
        by_contra hv
        rw [hother w hv] at hclosed
        cases hclosed
      rw [hcloses, ← hv, if_pos hclosed]
      rfl
    | after h =>
      rw [h.thread w] at hinside
      cases hinside
  -- the thread of the turn passes its test, and now both threads are inside
  have htest := Took.step (.found hcalling hmem)
  have hthread : (s.move l .found).thread (l.feAddress, w) = s.thread (l.feAddress, w) :=
    move_of_ne hne
  obtain ⟨r, hr, hfound, hone⟩ : ∃ r, (closing s₀).Reaches (s.move l .found) r ∧
      r.thread (l.feAddress, l.caller) = .found ∧ 1 ≤ (r.closesFor l.feAddress).length := by
    by_cases hclosed : s.thread (l.feAddress, w) = .closed
    · exact ⟨_, .refl _, move_self _, Nat.le_of_eq (hcloses hclosed).symm⟩
    · obtain ⟨r, hr⟩ := @exists_goesOn (s.move l .found) ⟨l.feAddress, w, 0⟩ s₀
        (by rwa [hthread]) (by rwa [hthread])
      refine ⟨r, hr.reaches, (hr.others _ (Ne.symm hne)).trans (move_self _), ?_⟩
      rw [hr.length_closesFor]
      exact Nat.le_add_left ..
  obtain ⟨t, ht⟩ := @exists_goesOn r l s₀ (by rw [hfound]; rfl) (by rw [hfound]; simp)
  refine ⟨t, .cons htest (hr.trans ht.reaches), ?_⟩
  intro fd' honce
  have htwo := ht.length_closesFor
  rcases honce.closes with hnil | hsingle
  · rw [hnil] at htwo
    simp at htwo
  · rw [hsingle, List.length_singleton] at htwo
    omega

/-- **A front end is closed once.**  In every run in which no thread makes its test while
the other thread of its front end is between a successful test and its purge, the
descriptor of a front end is closed once, nothing else is closed for it, and once a call
has returned its address is neither in `feAddresses` nor in the book.  Any other test can
be followed by a second `close`. -/
theorem closed_once (h0 : Start s₀) :
    (∀ s, (closing s₀).ReachesWhen Alone s → ∀ fe ∈ s₀.server.feAddresses, ∀ fd,
        s₀.feAddressBook fe = some fd → ClosedOnce fe fd s) ∧
      ∀ s l, (closing s₀).ReachesWhen Alone s → ¬Alone s l →
        ∃ t, (closing s₀).Reaches s t ∧ ∀ fd, ¬ClosedOnce l.feAddress fd t :=
  ⟨fun _ h _ hfe _ hfd => closedOnce_of_reaches h0 h hfe hfd,
    fun _ _ h hbad => second_close h0 h hbad⟩

/-! ## Two runs -/

/-- One front end, on descriptor 7. -/
def oneFrontEnd : ClosingThreads where
  server := Server.new true ["127.0.0.1:6969".toList]
  feAddressBook := fun a => if a = "127.0.0.1:6969".toList then some 7 else none
  thread := fun _ => .calling
  closed := []

theorem oneFrontEnd_start : Start oneFrontEnd where
  distinct := List.nodup_singleton _
  named := by decide
  socket fe hfe := ⟨7, if_pos (List.mem_singleton.1 hfe)⟩
  own fe hfe fe' hfe' _ := (List.mem_singleton.1 hfe).trans (List.mem_singleton.1 hfe').symm
  thread _ := rfl
  closed := rfl

/-- A turn of the one front end. -/
def turn (caller : Caller) : Turn := ⟨"127.0.0.1:6969".toList, caller, 0⟩

/-- The listener closes, and then the monitor finds that it is done. -/
theorem closed_once_inTurn : ∃ s, ClosedOnce "127.0.0.1:6969".toList 7 s ∧
    ∀ w, s.thread ("127.0.0.1:6969".toList, w) = .returned := by
  obtain ⟨s, hs⟩ : ∃ s, (closing oneFrontEnd).execWhen (fun s l => decide (Alone s l)) oneFrontEnd
      (List.replicate 5 (turn .listener) ++ [turn .monitor]) = some s := ⟨_, rfl⟩
  have hrun := Transition.System.reachesWhen_of_execWhen (fun s l hl => of_decide_eq_true hl)
    (.start rfl) hs
  refine ⟨s, (closed_once oneFrontEnd_start).1 s hrun _ (List.mem_singleton_self _) 7 (by decide),
    ?_⟩
  cases hs
  rintro (_ | _)
  · decide
  · decide

/-- Both threads make their test before one of them has closed: when the second one looks
the descriptor up, the address is no longer in the book. -/
theorem closed_once_counterexample : ∃ s, (closing oneFrontEnd).Reachable s ∧
    ¬ClosedOnce "127.0.0.1:6969".toList 7 s ∧
      s.closesFor "127.0.0.1:6969".toList = [7, 0] ∧
        s.feAddressBook "127.0.0.1:6969".toList = some 0 ∧
          ∀ w, s.thread ("127.0.0.1:6969".toList, w) = .returned := by
  obtain ⟨s, hs⟩ : ∃ s, (closing oneFrontEnd).exec oneFrontEnd
      ([turn .listener, turn .monitor] ++ List.replicate 4 (turn .listener) ++
        List.replicate 4 (turn .monitor)) = some s := ⟨_, rfl⟩
  refine ⟨s, Transition.System.reachable_of_exec rfl hs, ?_⟩
  cases hs
  refine ⟨?_, by decide, by decide, ?_⟩
  · intro honce
    exact absurd honce.closes (by decide)
  · rintro (_ | _)
    · decide
    · decide

end ClosingThreads

end InstantMessenger
