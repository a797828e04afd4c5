import InstantMessenger.Foundations.Overtaking
import InstantMessenger.Server.Replica

/-!
# Which packets may change places

Two packets in a replica state whose order makes no difference, there and after
any further packets.  A listener thread that applies its packet out of turn does
no harm when it passes only such packets.

* `Replica.Independent` — the pairs: messages to different groups, a message and
  a disconnect, a message and a JOIN that does not make the group of the message,
  JOINs of different users into different groups, and a packet that is not
  replicated with any other.
* `Replica.independence` — **they commute, and they stay independent**.
-/

namespace InstantMessenger

/-- A packet, with the front end it came from. -/
structure Received where
  feAddress : Str
  packet : Packet
  deriving DecidableEq, Repr

namespace Replica

/-- There is a group with this name. -/
def groupExists (r : Replica) (groupName : Str) : Bool :=
  r.groups.any fun g => g.groupName == groupName

/-- What a received packet does to the replica state. -/
def receive (x : Received) (r : Replica) : Replica := r.apply x.packet x.feAddress

/-- The order of the two packets does not matter where these groups exist. -/
def independentIn (groupExists : Str → Bool) (p q : Packet) : Bool :=
  match p.type, q.type with
  | .MESSAGE_PACKET, .MESSAGE_PACKET =>
    p.group != q.group || (p.username == q.username && p.message == q.message)
  | .MESSAGE_PACKET, .JOIN_PACKET => p.group != q.group || groupExists p.group
  | .JOIN_PACKET, .MESSAGE_PACKET => p.group != q.group || groupExists q.group
  | .JOIN_PACKET, .JOIN_PACKET =>
    p.username != q.username && p.group != q.group && (groupExists p.group || groupExists q.group)
  | .JOIN_PACKET, .DISCONNECT_PACKET => false
  | .DISCONNECT_PACKET, .JOIN_PACKET => false
  | .DISCONNECT_PACKET, .DISCONNECT_PACKET => false
  | _, _ => true

/-- The order of the two packets does not matter in this replica state. -/
def Independent (r : Replica) (x y : Received) : Prop :=
  independentIn r.groupExists x.packet y.packet = true

theorem independentIn_mono {e e' : Str → Bool} (h : ∀ g, e g = true → e' g = true) {p q : Packet}
    (hind : independentIn e p q = true) : independentIn e' p q = true := by
  unfold independentIn at hind ⊢
  cases hp : p.type <;> cases hq : q.type <;>
    simp only [hp, hq, Bool.or_eq_true, Bool.and_eq_true, Bool.false_eq_true] at hind ⊢
  case MESSAGE_PACKET.MESSAGE_PACKET => exact hind
  case MESSAGE_PACKET.JOIN_PACKET => exact hind.imp_right (h _)
  case JOIN_PACKET.MESSAGE_PACKET => exact hind.imp_right (h _)
  case JOIN_PACKET.JOIN_PACKET => exact ⟨hind.1, hind.2.imp (h _) (h _)⟩

/-! ## Groups that are only added to -/

/-- The names of the groups. -/
def names (gs : List GroupReplica) : List Str := gs.map GroupReplica.groupName

theorem groupExists_iff {r : Replica} {n : Str} : r.groupExists n = true ↔ n ∈ names r.groups := by
  simp only [groupExists, names, List.any_eq_true, beq_iff_eq, List.mem_map]

/-- A change of a group that keeps its name. -/
def KeepsName (f : GroupReplica → GroupReplica) : Prop := ∀ g, (f g).groupName = g.groupName

theorem addSession_keepsName (c : Session) (user : Str) : KeepsName (addSession c user) :=
  fun _ => rfl

theorem hand_keepsName (user text : Str) : KeepsName (hand user text) := fun _ => rfl

theorem names_updateGroup {f : GroupReplica → GroupReplica} (hf : KeepsName f) (n : Str)
    (gs : List GroupReplica) : names (updateGroup n f gs) = names gs := by
  simp only [names, updateGroup, List.map_map]
  refine List.map_congr_left ?_
  intro g _
  show (if g.groupName = n then f g else g).groupName = g.groupName
  split
  · exact hf g
  · rfl

theorem withGroup_of_mem {gs : List GroupReplica} {n : Str} (h : n ∈ names gs) :
    withGroup gs n = gs := by
  rw [withGroup, if_pos]
  simpa [names] using h

theorem withGroup_of_not_mem {gs : List GroupReplica} {n : Str} (h : n ∉ names gs) :
    withGroup gs n = gs ++ [⟨n, [], []⟩] := by
  rw [withGroup, if_neg]
  simpa [names] using h

theorem names_withGroup_subset (gs : List GroupReplica) (n : Str) :
    names gs ⊆ names (withGroup gs n) := by
  by_cases h : n ∈ names gs
  · rw [withGroup_of_mem h]
    exact List.Subset.refl _
  · rw [withGroup_of_not_mem h, names, names, List.map_append]
    exact List.subset_append_left ..

theorem names_dropEverywhere (c : Session) (gs : List GroupReplica) (counts : Counts) :
    names (dropEverywhere c gs counts).1 = names gs := by
  induction gs generalizing counts with
  | nil => rfl
  | cons g gs ih => exact congrArg (g.groupName :: ·) (ih _)

/-- No packet removes a group. -/
theorem names_subset_receive (x : Received) (r : Replica) :
    names r.groups ⊆ names (receive x r).groups := by
  unfold receive apply
  split
  · rw [message, names_updateGroup (hand_keepsName _ _)]
    exact List.Subset.refl _
  · unfold join
    dsimp only
    split
    · exact List.Subset.refl _
    · rw [names_updateGroup (addSession_keepsName _ _)]
      exact names_withGroup_subset ..
  · rw [disconnect, names_dropEverywhere]
    exact List.Subset.refl _
  · exact List.Subset.refl _

/-! ## Changes that commute -/

theorem updateGroup_comm {f k : GroupReplica → GroupReplica} (hf : KeepsName f) (hk : KeepsName k)
    {m n : Str} (h : m ≠ n ∨ ∀ g, f (k g) = k (f g)) (gs : List GroupReplica) :
    updateGroup m f (updateGroup n k gs) = updateGroup n k (updateGroup m f gs) := by
  simp only [updateGroup, List.map_map]
  refine List.map_congr_left ?_
  intro g _
  simp only [Function.comp_apply]
  by_cases hm : g.groupName = m <;> by_cases hn : g.groupName = n
  · rcases h with h | h
    · exact absurd (hm.symm.trans hn) h
    · rw [if_pos hn, if_pos (by rw [hk, hm]), if_pos hm, if_pos (by rw [hf, hn]), h]
  · rw [if_neg hn, if_pos hm, if_neg (by rwa [hf])]
  · rw [if_pos hn, if_neg (by rwa [hk]), if_neg hm, if_pos hn]
  · rw [if_neg hn, if_neg hm, if_neg hn]

/-- A group is made independently of a change of another one, or of itself when it
exists already. -/
theorem withGroup_updateGroup {f : GroupReplica → GroupReplica} (hf : KeepsName f) {m n : Str}
    {gs : List GroupReplica} (h : m ≠ n ∨ n ∈ names gs) :
    withGroup (updateGroup m f gs) n = updateGroup m f (withGroup gs n) := by
  by_cases hn : n ∈ names gs
  · rw [withGroup_of_mem hn, withGroup_of_mem (by rwa [names_updateGroup hf])]
  · have hmn : m ≠ n := h.resolve_right hn
    rw [withGroup_of_not_mem hn, withGroup_of_not_mem (by rwa [names_updateGroup hf])]
    simp only [updateGroup, List.map_append, List.map_cons, List.map_nil]
    rw [if_neg hmn.symm]

/-- A JOIN that finds its group, and one that makes another group. -/
theorem joinGroup_comm {f k : GroupReplica → GroupReplica} (hf : KeepsName f) (hk : KeepsName k)
    {m n : Str} (hmn : m ≠ n) {gs : List GroupReplica} (hm : m ∈ names gs) :
    updateGroup n k (withGroup (updateGroup m f (withGroup gs m)) n) =
      updateGroup m f (withGroup (updateGroup n k (withGroup gs n)) m) := by
  have hm' : m ∈ names (updateGroup n k (withGroup gs n)) := by
    rw [names_updateGroup hk]
    exact names_withGroup_subset gs n hm
  rw [withGroup_of_mem hm, withGroup_of_mem hm', withGroup_updateGroup hf (.inl hmn),
    updateGroup_comm hk hf (.inl hmn.symm)]

theorem message_message {r : Replica} {u t g u' t' g' : Str}
    (h : g ≠ g' ∨ (u = u' ∧ t = t')) :
    (r.message u t g).message u' t' g' = (r.message u' t' g').message u t g := by
  refine Replica.ext rfl (updateGroup_comm (hand_keepsName _ _) (hand_keepsName _ _) ?_ _)
  rcases h with h | ⟨rfl, rfl⟩
  · exact .inl h.symm
  · exact .inr fun _ => rfl

theorem message_join {r : Replica} {u t g user g' : Str} {c : Session}
    (h : g ≠ g' ∨ r.groupExists g = true) :
    (r.message u t g).join user g' c = (r.join user g' c).message u t g := by
  have hmade : g ≠ g' ∨ g' ∈ names r.groups := by
    by_cases hg : g = g'
    · subst hg
      exact h.imp_right groupExists_iff.1
    · exact .inl hg
  unfold join
  dsimp only [message]
  split
  · rfl
  · refine Replica.ext rfl ?_
    rw [withGroup_updateGroup (hand_keepsName _ _) hmade]
    exact updateGroup_comm (addSession_keepsName _ _) (hand_keepsName _ _) (.inr fun _ => rfl) _

theorem dropEverywhere_hand (c : Session) (u t n : Str) (gs : List GroupReplica)
    (counts : Counts) :
    dropEverywhere c (updateGroup n (hand u t) gs) counts =
      (updateGroup n (hand u t) (dropEverywhere c gs counts).1,
        (dropEverywhere c gs counts).2) := by
  induction gs generalizing counts with
  | nil => rfl
  | cons g gs ih =>
    have husers : (if g.groupName = n then hand u t g else g).users = g.users := by
      split <;> rfl
    simp only [updateGroup, List.map_cons, dropEverywhere] at ih ⊢
    rw [husers, ih]
    refine Prod.ext ?_ rfl
    by_cases hn : g.groupName = n
    · simp only [if_pos hn, hand]
    · simp only [if_neg hn]

theorem message_disconnect {r : Replica} {u t g : Str} {c : Session} :
    (r.message u t g).disconnect c = (r.disconnect c).message u t g := by
  unfold disconnect
  dsimp only [message]
  rw [dropEverywhere_hand]

/-! ## Two JOINs -/

/-- What `incrementNumberOfConnectionsFromUser` does to the counter of the user. -/
theorem increment_get (counts : Counts) (user v : Str) (h : v ≠ user) :
    (Server.incrementNumberOfConnectionsFromUser counts user).1 v = counts v := by
  unfold Server.incrementNumberOfConnectionsFromUser
  split
  · split
    · rfl
    · exact if_neg h
  · exact if_neg h

/-- The counter of another user decides nothing. -/
theorem increment_congr {counts counts' : Counts} {user : Str} (h : counts user = counts' user) :
    (Server.incrementNumberOfConnectionsFromUser counts user).2 =
        (Server.incrementNumberOfConnectionsFromUser counts' user).2 ∧
      (Server.incrementNumberOfConnectionsFromUser counts user).1 user =
        (Server.incrementNumberOfConnectionsFromUser counts' user).1 user := by
  unfold Server.incrementNumberOfConnectionsFromUser
  rw [← h]
  cases hc : counts user with
  | none => exact ⟨rfl, by simp [Counts.set]⟩
  | some n =>
    dsimp only
    split
    · exact ⟨rfl, h⟩
    · exact ⟨rfl, by simp [Counts.set]⟩

theorem increment_comm {counts : Counts} {u v : Str} (h : u ≠ v) :
    (Server.incrementNumberOfConnectionsFromUser
        (Server.incrementNumberOfConnectionsFromUser counts u).1 v).1 =
      (Server.incrementNumberOfConnectionsFromUser
        (Server.incrementNumberOfConnectionsFromUser counts v).1 u).1 := by
  funext w
  have hu : (Server.incrementNumberOfConnectionsFromUser counts v).1 u = counts u :=
    increment_get counts v u h
  have hv : (Server.incrementNumberOfConnectionsFromUser counts u).1 v = counts v :=
    increment_get counts u v h.symm
  by_cases hwu : w = u
  · rw [hwu, increment_get _ v u h, (increment_congr hu).2]
  · by_cases hwv : w = v
    · rw [hwv, increment_get _ u v h.symm, (increment_congr hv).2]
    · rw [increment_get _ v w hwv, increment_get _ u w hwu, increment_get _ u w hwu,
        increment_get _ v w hwv]

/-- A refused JOIN does not even change a counter. -/
theorem increment_refused {counts : Counts} {user : Str}
    (h : (Server.incrementNumberOfConnectionsFromUser counts user).2 =
      USER_SESSIONS_LIMIT_REACHED) :
    (Server.incrementNumberOfConnectionsFromUser counts user).1 = counts := by
  unfold Server.incrementNumberOfConnectionsFromUser at h ⊢
  split at h
  · split at h
    · rename_i hle
      rw [if_pos hle]
    · exact absurd (show (0 : Int) = USER_SESSIONS_LIMIT_REACHED from h) (by decide)
  · exact absurd (show (0 : Int) = USER_SESSIONS_LIMIT_REACHED from h) (by decide)

theorem join_counts (r : Replica) (user g : Str) (c : Session) :
    (r.join user g c).connectionsCount =
      (Server.incrementNumberOfConnectionsFromUser r.connectionsCount user).1 := by
  unfold join
  dsimp only
  split
  · rename_i h
    exact (increment_refused h).symm
  · rfl

/-- The groups after a JOIN, by the answer of the counter. -/
theorem join_groups (r : Replica) (user g : Str) (c : Session) :
    (r.join user g c).groups =
      if (Server.incrementNumberOfConnectionsFromUser r.connectionsCount user).2 =
          USER_SESSIONS_LIMIT_REACHED then r.groups
      else updateGroup g (addSession c user) (withGroup r.groups g) := by
  unfold join
  dsimp only
  split <;> rfl

theorem join_join {r : Replica} {u v g g' : Str} {c d : Session} (huv : u ≠ v) (hg : g ≠ g')
    (hex : g ∈ names r.groups ∨ g' ∈ names r.groups) :
    (r.join u g c).join v g' d = (r.join v g' d).join u g c := by
  refine Replica.ext ?_ ?_
  · simp only [join_counts, increment_comm huv]
  · simp only [join_groups, join_counts]
    rw [(increment_congr (increment_get r.connectionsCount u v huv.symm)).1,
      (increment_congr (increment_get r.connectionsCount v u huv)).1]
    split_ifs
    · rfl
    · rfl
    · rfl
    · rcases hex with hex | hex
      · exact joinGroup_comm (addSession_keepsName _ _) (addSession_keepsName _ _) hg hex
      · exact (joinGroup_comm (addSession_keepsName _ _) (addSession_keepsName _ _) hg.symm
          hex).symm

/-! ## The relation -/

theorem Independent.commute {r : Replica} {x y : Received} (h : r.Independent x y) :
    receive y (receive x r) = receive x (receive y r) := by
  unfold Independent independentIn at h
  unfold receive apply
  cases hx : x.packet.type <;> cases hy : y.packet.type <;>
    simp only [hx, hy, Bool.or_eq_true, Bool.and_eq_true, Bool.false_eq_true, bne_iff_ne, ne_eq,
      beq_iff_eq] at h ⊢
  case MESSAGE_PACKET.MESSAGE_PACKET => exact message_message h
  case MESSAGE_PACKET.JOIN_PACKET => exact message_join h
  case JOIN_PACKET.MESSAGE_PACKET => exact (message_join (h.imp_left Ne.symm)).symm
  case JOIN_PACKET.JOIN_PACKET =>
    exact join_join h.1.1 h.1.2 (h.2.imp groupExists_iff.1 groupExists_iff.1)
  case MESSAGE_PACKET.DISCONNECT_PACKET => exact message_disconnect
  case DISCONNECT_PACKET.MESSAGE_PACKET => exact message_disconnect.symm

/-- **Independent packets commute and stay independent.** -/
theorem independence : Overtaking.Independence receive Independent where
  commute h := h.commute
  stable c h := independentIn_mono
    (fun _ hg => groupExists_iff.2 (names_subset_receive c _ (groupExists_iff.1 hg))) h

end Replica

end InstantMessenger
