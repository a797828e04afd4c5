import InstantMessenger.Client.BuildPacket

/-!
# What a client leaves behind

`ProxyFE::listenClientCommunication` on one connection, from its first packet to its end,
with the bytes of the packets: the id of the first packet is kept, every JOIN is passed on,
and at the end a DISCONNECT goes out for the id that was kept.

* `ClientListener`, `ClientListener.listenClientCommunication` — the local variables of the
  thread with what it passes to `sendToServer`, and the thread; no result where `strcpy` or
  a `std::string` would read an array that has no NUL.
* `ClientListener.NoGhosts` — a DISCONNECT went out for exactly the users of the JOINs, and
  after them.
* `ClientListener.noGhosts_iff` — **when that is so**: the connection ends without a packet,
  or it had a JOIN and each of them is by the user of the first packet.
-/

namespace InstantMessenger

open Text CharArray

/-- The local variables of the thread, what it has passed to `sendToServer`, and what it has
handed to the consumer of the messages. -/
structure ClientListener where
  userID : CharArray UUID_SIZE
  known_user_ID : Bool
  toServer : List PacketBytes
  toConsumer : List PacketBytes

namespace ClientListener

/-- A packet's type. -/
def isA (type : PacketType) (p : PacketBytes) : Bool := p.type == type.value

/-- The user that a packet is about, as a C string. -/
def user (p : PacketBytes) : Str := cstr p.user_id.bytes

/-- The array of the user has a NUL. -/
def Terminated (p : PacketBytes) : Prop := (user p).length < UUID_SIZE

instance (p : PacketBytes) : Decidable (Terminated p) := inferInstanceAs (Decidable (_ < _))

/-- `strcpy(userID, receivedPacket->user_id)`, for the first packet. -/
def know (s : ClientListener) (receivedPacket : PacketBytes) : Option ClientListener :=
  if s.known_user_ID then some s
  else if h : (cstr receivedPacket.user_id.bytes).length < UUID_SIZE then
    some { s with
      userID := s.userID.strcpy receivedPacket.user_id.bytes h
      known_user_ID := true }
  else none

/-- `ProxyFE::registerUserSocket`, without the maps. -/
def registerUserSocket (s : ClientListener) (receivedPacket : PacketBytes) (socket : Int) :
    Option ClientListener :=
  if Terminated receivedPacket then
    some { s with toServer := s.toServer ++ [{ receivedPacket with clientSocket := socket }] }
  else none

/-- `ProxyFE::processClientPacket`. -/
def processClientPacket (s : ClientListener) (receivedPacket : PacketBytes) (socket : Int) :
    Option ClientListener :=
  if isA .MESSAGE_PACKET receivedPacket then
    some { s with toConsumer := s.toConsumer ++ [receivedPacket] }
  else if isA .KEEP_ALIVE_PACKET receivedPacket then some s
  else if isA .JOIN_PACKET receivedPacket then s.registerUserSocket receivedPacket socket
  else some s

/-- A round of the loop. -/
def receive (socket : Int) (s : ClientListener) (receivedPacket : PacketBytes) :
    Option ClientListener :=
  (s.know receivedPacket).bind fun s => s.processClientPacket receivedPacket socket

/-- `Packet::Packet(type, userId)`. -/
def newPacket (memory : PacketBytes) (type : PacketType) (userId : CharArray UUID_SIZE)
    (message_id : Uuid) : Option PacketBytes :=
  if h : (cstr userId.bytes).length < UUID_SIZE then
    some { memory with
      type := type.value
      message_id := memory.message_id.strcpy message_id.text message_id.fits
      user_id := memory.user_id.strcpy userId.bytes h
      clientDispositiveIdentifier := 17389 }
  else none

/-- `ProxyFE::disconnectUser`. -/
def disconnectUser (s : ClientListener) (memory : PacketBytes) (message_id : Uuid) :
    Option ClientListener :=
  (newPacket memory .DISCONNECT_PACKET s.userID message_id).map fun disconnect_packet =>
    { s with toServer := s.toServer ++ [disconnect_packet] }

/-- `ProxyFE::listenClientCommunication`, up to `handleSocketDisconnection`: `userID` is what
was on the stack, and the DISCONNECT is built in `memory`. -/
def listenClientCommunication (userID : CharArray UUID_SIZE) (memory : PacketBytes)
    (message_id : Uuid) (socket : Int) (packets : List PacketBytes) : Option ClientListener :=
  (packets.foldlM (receive socket) ⟨userID, false, [], []⟩).bind fun s =>
    if s.known_user_ID then s.disconnectUser memory message_id else some s

/-! ## What goes to the server -/

/-- The users of the packets of a type. -/
def usersOf (type : PacketType) (ps : List PacketBytes) : List Str :=
  (ps.filter (isA type)).map user

/-- A DISCONNECT went out for exactly the users of the JOINs, and no JOIN after it. -/
structure NoGhosts (s : ClientListener) : Prop where
  same : ∀ u, u ∈ usersOf .DISCONNECT_PACKET s.toServer ↔ u ∈ usersOf .JOIN_PACKET s.toServer
  after : s.toServer.Pairwise fun p q => isA .DISCONNECT_PACKET p = true →
    isA .JOIN_PACKET q = false

/-- The connection ends without a packet; or its first packet names a user, it had a JOIN,
and every JOIN is by that user. -/
def OneUser : List PacketBytes → Prop
  | [] => True
  | first :: rest =>
    Terminated first ∧ (∃ p ∈ first :: rest, isA .JOIN_PACKET p = true) ∧
      ∀ p ∈ first :: rest, isA .JOIN_PACKET p = true → user p = user first

/-! ## The rounds of the loop -/

/-- What the loop passes to `sendToServer`. -/
def forwarded (socket : Int) (packets : List PacketBytes) : List PacketBytes :=
  (packets.filter (isA .JOIN_PACKET)).map fun p => { p with clientSocket := socket }

theorem isA_unique {type : PacketType} {p : PacketBytes} (h : isA type p = true)
    (type' : PacketType) (hne : type.value ≠ type'.value) : isA type' p = false := by
  rw [isA, eq_of_beq h]
  exact beq_eq_false_iff_ne.2 hne

/-- Only a JOIN that is not terminated has no result. -/
theorem processClientPacket_eq_none {s : ClientListener} {p : PacketBytes} {socket : Int} :
    s.processClientPacket p socket = none ↔ isA .JOIN_PACKET p = true ∧ ¬ Terminated p := by
  unfold processClientPacket registerUserSocket
  split
  · rename_i h
    simp [isA_unique h .JOIN_PACKET (by decide)]
  · split
    · rename_i h
      simp [isA_unique h .JOIN_PACKET (by decide)]
    · split
      · rename_i h
        simp [h]
      · rename_i h
        simp [h]

theorem processClientPacket_eq_some {s t : ClientListener} {p : PacketBytes} {socket : Int}
    (h : s.processClientPacket p socket = some t) :
    t.userID = s.userID ∧ t.known_user_ID = s.known_user_ID ∧
      t.toServer = s.toServer ++ forwarded socket [p] := by
  unfold processClientPacket registerUserSocket at h
  split at h
  · rename_i hmessage
    cases h
    simp [forwarded, isA_unique hmessage .JOIN_PACKET (by decide)]
  · split at h
    · rename_i halive
      cases h
      simp [forwarded, isA_unique halive .JOIN_PACKET (by decide)]
    · split at h
      · rename_i hjoin
        split at h
        · cases h
          simp [forwarded, hjoin]
        · cases h
      · rename_i hother
        cases h
        simp [forwarded, hother]

theorem forwarded_append (socket : Int) (ps qs : List PacketBytes) :
    forwarded socket (ps ++ qs) = forwarded socket ps ++ forwarded socket qs := by
  simp [forwarded]

theorem receive_of_known {s : ClientListener} (h : s.known_user_ID = true) (socket : Int)
    (p : PacketBytes) : receive socket s p = s.processClientPacket p socket := by
  rw [receive, know, if_pos h, Option.bind_some]

/-- **The rounds after the first.**  They come to an end if every JOIN is terminated, and
have passed on the JOINs. -/
theorem rounds_of_known {s : ClientListener} (h : s.known_user_ID = true) (socket : Int)
    (packets : List PacketBytes) :
    (packets.foldlM (receive socket) s = none ∧
        ∃ p ∈ packets, isA .JOIN_PACKET p = true ∧ ¬ Terminated p) ∨
      ∃ t, packets.foldlM (receive socket) s = some t ∧ t.userID = s.userID ∧
        t.known_user_ID = true ∧ t.toServer = s.toServer ++ forwarded socket packets := by
  induction packets generalizing s with
  | nil => exact .inr ⟨s, rfl, rfl, h, by simp [forwarded]⟩
  | cons p packets ih =>
    rw [List.foldlM_cons, receive_of_known h]
    cases hp : s.processClientPacket p socket with
    | none =>
      obtain ⟨hjoin, hterm⟩ := processClientPacket_eq_none.1 hp
      exact .inl ⟨rfl, p, List.mem_cons_self .., hjoin, hterm⟩
    | some r =>
      obtain ⟨huser, hknown, hsent⟩ := processClientPacket_eq_some hp
      rcases ih (hknown.trans h) with ⟨hnone, q, hq, hbad⟩ | ⟨t, ht, htuser, htknown, htsent⟩
      · exact .inl ⟨hnone, q, List.mem_cons_of_mem _ hq, hbad⟩
      · refine .inr ⟨t, ht, htuser.trans huser, htknown, ?_⟩
        rw [htsent, hsent, List.append_assoc, ← forwarded_append, List.singleton_append]

/-! ## The whole thread -/

theorem mem_usersOf_join (socket : Int) {packets : List PacketBytes} {u : Str} :
    u ∈ usersOf .JOIN_PACKET (forwarded socket packets) ↔
      ∃ p ∈ packets, isA .JOIN_PACKET p = true ∧ user p = u := by
  simp only [usersOf, forwarded, List.mem_map, List.mem_filter]
  constructor
  · rintro ⟨_, ⟨⟨p, ⟨hp, hjoin⟩, rfl⟩, -⟩, rfl⟩
    exact ⟨p, hp, hjoin, rfl⟩
  · rintro ⟨p, hp, hjoin, rfl⟩
    exact ⟨{ p with clientSocket := socket }, ⟨⟨p, ⟨hp, hjoin⟩, rfl⟩, hjoin⟩, rfl⟩

theorem isA_of_mem_forwarded {socket : Int} {packets : List PacketBytes} {p : PacketBytes}
    (h : p ∈ forwarded socket packets) : isA .JOIN_PACKET p = true := by
  obtain ⟨q, hq, rfl⟩ := List.mem_map.1 h
  exact (List.mem_filter.1 hq).2

/-- One DISCONNECT behind the JOINs is right exactly when it is for their user. -/
theorem noGhosts_concat_iff {s : ClientListener} {socket : Int} {packets : List PacketBytes}
    {d : PacketBytes} (hd : isA .DISCONNECT_PACKET d = true)
    (hsent : s.toServer = forwarded socket packets ++ [d]) :
    s.NoGhosts ↔ (∃ p ∈ packets, isA .JOIN_PACKET p = true) ∧
      ∀ p ∈ packets, isA .JOIN_PACKET p = true → user p = user d := by
  have hdisconnects : usersOf .DISCONNECT_PACKET s.toServer = [user d] := by
    have hnone : (forwarded socket packets).filter (isA .DISCONNECT_PACKET) = [] := by
      apply List.filter_eq_nil_iff.2
      intro p hp
      rw [isA_unique (isA_of_mem_forwarded hp) .DISCONNECT_PACKET (by decide)]
      exact Bool.false_ne_true
    rw [hsent, usersOf, List.filter_append, hnone, List.nil_append,
      List.filter_cons_of_pos hd, List.filter_nil, List.map_singleton]
  have hjoins : ∀ u, u ∈ usersOf .JOIN_PACKET s.toServer ↔
      ∃ p ∈ packets, isA .JOIN_PACKET p = true ∧ user p = u := by
    intro u
    have hnot : isA .JOIN_PACKET d = false :=
      isA_unique hd .JOIN_PACKET (by decide)
    rw [← mem_usersOf_join socket, hsent, usersOf, List.filter_append,
      List.filter_cons_of_neg (by simp [hnot]), List.filter_nil, List.append_nil, usersOf]
  have hafter : s.toServer.Pairwise fun p q => isA .DISCONNECT_PACKET p = true →
      isA .JOIN_PACKET q = false := by
    rw [hsent, List.pairwise_append]
    refine ⟨?_, List.pairwise_singleton .., ?_⟩
    · apply List.pairwise_of_forall_mem_list
      intro p hp q _ hpd
      rw [isA_unique (isA_of_mem_forwarded hp) .DISCONNECT_PACKET (by decide)] at hpd
      cases hpd
    · intro p _ q hq _
      rw [List.mem_singleton.1 hq]
      exact isA_unique hd .JOIN_PACKET (by decide)
  constructor
  · intro h
    have hsame := h.same
    simp only [hdisconnects, hjoins, List.mem_singleton] at hsame
    refine ⟨?_, ?_⟩
    · obtain ⟨p, hp, hjoin, -⟩ := (hsame (user d)).1 rfl
      exact ⟨p, hp, hjoin⟩
    · intro p hp hjoin
      exact (hsame (user p)).2 ⟨p, hp, hjoin, rfl⟩
  · rintro ⟨⟨p, hp, hjoin⟩, hall⟩
    refine ⟨?_, hafter⟩
    intro u
    rw [hdisconnects, hjoins, List.mem_singleton]
    constructor
    · rintro rfl
      exact ⟨p, hp, hjoin, hall p hp hjoin⟩
    · rintro ⟨q, hq, hqjoin, rfl⟩
      exact hall q hq hqjoin

/-- What `strcpy` copies is read back. -/
theorem cstr_strcpy {n : Nat} (a : CharArray n) {bytes : List Char}
    (h : (cstr bytes).length < n) : cstr (a.strcpy bytes h).bytes = cstr bytes := by
  rw [bytes_strcpy, cstr_append_cons (not_mem_cstr bytes)]

/-- `disconnectUser` sends one DISCONNECT, for the user that was kept. -/
theorem disconnectUser_eq_some {s : ClientListener} (memory : PacketBytes) (message_id : Uuid)
    (h : (cstr s.userID.bytes).length < UUID_SIZE) :
    ∃ d, isA .DISCONNECT_PACKET d = true ∧ user d = cstr s.userID.bytes ∧
      s.disconnectUser memory message_id = some { s with toServer := s.toServer ++ [d] } := by
  refine ⟨{ memory with
    type := PacketType.DISCONNECT_PACKET.value
    message_id := memory.message_id.strcpy message_id.text message_id.fits
    user_id := memory.user_id.strcpy s.userID.bytes h
    clientDispositiveIdentifier := 17389 }, beq_self_eq_true _, cstr_strcpy memory.user_id h, ?_⟩
  rw [disconnectUser, newPacket, dif_pos h, Option.map_some]

/-- The first packet names the user, and is then handled as the others are. -/
theorem foldlM_first (userID : CharArray UUID_SIZE) (socket : Int) {first : PacketBytes}
    (hterm : Terminated first) (rest : List PacketBytes) :
    (first :: rest).foldlM (receive socket) ⟨userID, false, [], []⟩ =
      (first :: rest).foldlM (receive socket)
        ⟨userID.strcpy first.user_id.bytes hterm, true, [], []⟩ := by
  have hfirst : know ⟨userID, false, [], []⟩ first =
      some ⟨userID.strcpy first.user_id.bytes hterm, true, [], []⟩ := by
    rw [know, if_neg Bool.false_ne_true]
    exact dif_pos hterm
  rw [List.foldlM_cons, List.foldlM_cons, receive, hfirst, Option.bind_some, receive_of_known rfl]

/-- The copy of the first packet's user does not end. -/
theorem listenClientCommunication_eq_none (userID : CharArray UUID_SIZE) (memory : PacketBytes)
    (message_id : Uuid) (socket : Int) {first : PacketBytes} (hterm : ¬ Terminated first)
    (rest : List PacketBytes) :
    listenClientCommunication userID memory message_id socket (first :: rest) = none := by
  have hfirst : know ⟨userID, false, [], []⟩ first = none := by
    rw [know, if_neg Bool.false_ne_true]
    exact dif_neg hterm
  rw [listenClientCommunication, List.foldlM_cons, receive, hfirst]
  rfl

/-- **When no ghost session is left.**  A DISCONNECT goes out for exactly the users of the
JOINs if and only if the connection ends without a packet, or it had a JOIN and all of them
are by the user of the first packet. -/
theorem noGhosts_iff (userID : CharArray UUID_SIZE) (memory : PacketBytes) (message_id : Uuid)
    (socket : Int) (packets : List PacketBytes) :
    (∃ s, listenClientCommunication userID memory message_id socket packets = some s ∧
      s.NoGhosts) ↔ OneUser packets := by
  cases packets with
  | nil =>
    refine iff_of_true ?_ trivial
    refine ⟨⟨userID, false, [], []⟩, rfl, ?_, List.Pairwise.nil⟩
    intro u
    exact Iff.rfl
  | cons first rest =>
    by_cases hterm : Terminated first
    · -- the first packet names the user
      set kept : ClientListener :=
        ⟨userID.strcpy first.user_id.bytes hterm, true, [], []⟩ with hkept
      have huser : cstr kept.userID.bytes = user first := cstr_strcpy userID hterm
      rw [listenClientCommunication, foldlM_first userID socket hterm rest, ← hkept]
      rcases rounds_of_known (s := kept) rfl socket (first :: rest) with
        ⟨hnone, p, hp, hjoin, hbad⟩ | ⟨t, ht, htuser, hknown, hsent⟩
      · rw [hnone]
        refine iff_of_false ?_ ?_
        · rintro ⟨s, hs, -⟩
          cases hs
        · rintro ⟨-, -, hall⟩
          rw [Terminated, hall p hp hjoin] at hbad
          exact hbad hterm
      · have htfits : (cstr t.userID.bytes).length < UUID_SIZE := by
          rw [htuser, huser]
          exact hterm
        obtain ⟨d, hd, hduser, hsome⟩ := disconnectUser_eq_some memory message_id htfits
        rw [ht, Option.bind_some, if_pos hknown, hsome]
        have hghosts := @noGhosts_concat_iff { t with toServer := t.toServer ++ [d] } socket
          (first :: rest) d hd (by rw [hsent, hkept, List.nil_append])
        have hsame : user d = user first := by rw [hduser, htuser, huser]
        rw [hsame] at hghosts
        constructor
        · rintro ⟨s, hs, hnone⟩
          cases hs
          exact ⟨hterm, hghosts.1 hnone⟩
        · rintro ⟨-, hone⟩
          exact ⟨_, rfl, hghosts.2 hone⟩
    · refine iff_of_false ?_ fun h => hterm h.1
      rintro ⟨s, hs, -⟩
      rw [listenClientCommunication_eq_none userID memory message_id socket hterm] at hs
      cases hs

/-- A packet of a user. -/
def packetOf (type : PacketType) (userID : Str) (h : (cstr userID).length < UUID_SIZE) :
    PacketBytes :=
  { Client.zeroedMemory with
    type := type.value
    user_id := (zeroed UUID_SIZE).strcpy userID h }

/-- **A keep-alive comes first.**  Its array happens to hold `"x"`, so that the DISCONNECT is
for `"x"`, and the session of `"u"` stays. -/
theorem noGhosts_counterexample :
    ¬ ∃ s, listenClientCommunication (zeroed UUID_SIZE) Client.zeroedMemory Client.nilUuid 7
        [packetOf .KEEP_ALIVE_PACKET "x".toList (by decide),
          packetOf .JOIN_PACKET "u".toList (by decide)] = some s ∧ s.NoGhosts := by
  rintro ⟨s, hs, hghosts⟩
  have hjoined : "u".toList ∈ usersOf .JOIN_PACKET s.toServer := by
    cases hs
    decide +kernel
  have hdisconnected := (hghosts.same _).2 hjoined
  cases hs
  exact absurd hdisconnected (by decide +kernel)

end ClientListener
end InstantMessenger
