import Mathlib.Data.List.OfFn
import InstantMessenger.Foundations.InputFile
import InstantMessenger.Foundations.Text
import InstantMessenger.Server.ServersRing

/-!
# How the ring is formed

Every server reads `config.txt` from its beginning: the constructor takes the first port for
the primary's, the `bind` loop goes on to the first port that is free, and `connectToServer`
takes the one behind it.  One stream serves all three; at the end of the file it is closed
and opened again.

* `getNewPortFromFile`, `prepareServerConnection`, `connectToServer` — the calls that read
  the file, on a server that is being started.
* `startServers` — servers started one after another on one host, where `bind` fails exactly
  on the ports that are bound.
* `ReadTo` — **the invariant of the stream**: which line is read next.
* `ring_formation` — the `k`-th server listens on the port of line `k` and connects to the
  next one, round the ring, and the first is the primary.
* `Started.agrees` — what `ServersRing` takes for the start of a server is what the file
  gives.
-/

namespace InstantMessenger
namespace RingFormation

open Cyclic Lines InputFile

/-- The members of a server that its start sets.  A port in an address is kept in the order
of the host; `client_addr` has none before `connectToServer`. -/
structure StartingServer where
  myfile : InputFile Char
  serv_port : Nat
  client_port : Option Nat := none
  primary : Int
  isPrimary : Bool
  server_ID : Nat := 0

/-- `htons`, whose argument is a `uint16_t`. -/
def htons (port : Int) : Nat := (port % 65536).toNat

/-- The next line of the file, or the first one at its end.  No result where `stoi` throws,
or where nothing is assigned. -/
def getNewPortFromFile (file : Str) (myfile : InputFile Char) : Option (Int × InputFile Char) :=
  if myfile.is_open then
    let (port, myfile) := myfile.getline '\n' []
    if !myfile.failbit then (Text.stoi port).map (·, myfile)
    else
      -- read file from the beginning
      let (port, myfile) := (opened (some file)).getline '\n' port
      (Text.stoi port).map (·, myfile)
  else none

/-- The constructor. -/
def construct (file : Str) : Option StartingServer := do
  let (serverPort, myfile) ← getNewPortFromFile file (opened (some file))
  return { myfile, serv_port := htons serverPort, primary := serverPort, isPrimary := true }

/-- The loop around `bind`, for at most so many rounds. -/
def bindLoop (file : Str) (bound : List Nat) : Nat → StartingServer → Option StartingServer
  | rounds, r =>
    if r.serv_port ∈ bound then
      match rounds with
      | 0 => none
      | rounds + 1 => do
        let (port, myfile) ← getNewPortFromFile file r.myfile
        bindLoop file bound rounds { r with myfile, serv_port := htons port }
    else some r

/-- The rest of `prepareServerConnection` behind the loop. -/
def prepareServerConnection (file : Str) (bound : List Nat) (rounds : Nat) (r : StartingServer) :
    Option StartingServer := do
  let r ← bindLoop file bound rounds r
  return { r with isPrimary := (r.serv_port : Int) == r.primary, server_ID := r.serv_port }

/-- `connectToServer`, in front of its first `connect`. -/
def connectToServer (file : Str) (r : StartingServer) : Option StartingServer := do
  let (port, myfile) ← getNewPortFromFile file r.myfile
  return { r with myfile, client_port := some (htons port) }

/-- The start of a server. -/
def startServer (file : Str) (rounds : Nat) (bound : List Nat) : Option StartingServer := do
  let r ← construct file
  let r ← prepareServerConnection file bound rounds r
  connectToServer file r

/-- So many servers are started, one after another. -/
def startServers (file : Str) (rounds : Nat) : Nat → Option (List StartingServer)
  | 0 => some []
  | n + 1 => do
    let started ← startServers file rounds n
    let r ← startServer file rounds (started.map StartingServer.serv_port)
    return started ++ [r]

variable {n : Nat} {port : Fin n → Int}

/-- The first connection of a server is to the port that the other one listens on. -/
def Links (servers : Fin n → StartingServer) (i j : Fin n) : Prop :=
  (servers i).client_port = some (servers j).serv_port

/-- **The ring is formed.** -/
structure Formed (port : Fin n → Int) (servers : Fin n → StartingServer) : Prop where
  listens : ∀ i, ((servers i).serv_port : Int) = port i
  links : ∀ i j, Links servers i j ↔ j = next i
  oneCycle : ∀ i j, Relation.ReflTransGen (Links servers) i j
  primary : ∀ i, (servers i).isPrimary = true ↔ (i : Nat) = 0

/-! ## The stream -/

/-- A file whose lines hold these ports. -/
structure Config (file : Str) (line : Fin n → Str) (port : Fin n → Int) : Prop where
  lines : getlines '\n' file = List.ofFn line
  stoi : ∀ i, Text.stoi (line i) = some (port i)
  valid : ∀ i, 1 ≤ port i ∧ port i ≤ 65535
  distinct : Function.Injective port

/-- **The invariant of the stream**: so many lines have been read since it was opened. -/
structure ReadTo (line : Fin n → Str) (k : Nat) (f : InputFile Char) : Prop where
  good : f.Good
  isOpen : f.is_open = true
  rest : getlines '\n' f.rest = (List.ofFn line).drop k

variable {file : Str} {line : Fin n → Str} {f : InputFile Char}

theorem readTo_opened (hc : Config file line port) : ReadTo line 0 (opened (some file)) :=
  ⟨good_opened file, rfl, hc.lines⟩

/-- A line is left. -/
theorem getline_of_readTo {i : Fin n} (hf : ReadTo line i f) (piece : Str) :
    ∃ g, f.getline '\n' piece = (line i, g) ∧ ReadTo line (i + 1) g := by
  have hlen : (i : Nat) < (List.ofFn line).length := by
    rw [List.length_ofFn]
    exact i.isLt
  have hrest := hf.rest
  rw [List.drop_eq_getElem_cons hlen, List.getElem_ofFn] at hrest
  obtain ⟨g, hg, hgood, hopen, hlines⟩ := getline_cons hf.good hrest piece
  exact ⟨g, hg, hgood, hopen.trans hf.isOpen, hlines⟩

/-- The next port, when a line is left. -/
theorem getNewPort_of_lt (hc : Config file line port) {i : Fin n} (hf : ReadTo line i f) :
    ∃ g, getNewPortFromFile file f = some (port i, g) ∧ ReadTo line (i + 1) g := by
  obtain ⟨g, hg, hread⟩ := getline_of_readTo hf []
  refine ⟨g, ?_, hread⟩
  simp only [getNewPortFromFile, hf.isOpen, hg, hread.good.noFail, hc.stoi i, if_true,
    Bool.not_false, Option.map_some]

/-- **The port behind line `i`**, which is the first one when there is no further line. -/
theorem getNewPort_next (hc : Config file line port) {i : Fin n} (hf : ReadTo line (i + 1) f) :
    ∃ g, getNewPortFromFile file f = some (port (next i), g) ∧
      ReadTo line (next i + 1) g := by
  by_cases hi : (i : Nat) + 1 < n
  · have hnext : ((next i : Fin n) : Nat) = i + 1 := Nat.mod_eq_of_lt hi
    rw [← hnext] at hf
    exact getNewPort_of_lt hc hf
  · have hnext : ((next i : Fin n) : Nat) = 0 := by
      show ((i : Nat) + 1) % n = 0
      have hlast : (i : Nat) + 1 = n := by omega
      rw [hlast, Nat.mod_self]
    have hnil : getlines '\n' f.rest = [] := by
      rw [hf.rest, List.drop_eq_nil_of_le]
      rw [List.length_ofFn]
      omega
    have hopened := readTo_opened hc
    rw [← hnext] at hopened
    obtain ⟨g, hg, hread⟩ := getline_of_readTo hopened (f.getline '\n' []).1
    refine ⟨g, ?_, hread⟩
    simp only [getNewPortFromFile, hf.isOpen, (getline_nil hnil []).1, hg, hc.stoi, if_true,
      Bool.not_true, Bool.false_eq_true, if_false, Option.map_some]

/-! ## The start of a server -/

theorem htons_of_valid (hc : Config file line port) (i : Fin n) :
    ((htons (port i) : Nat) : Int) = port i := by
  have hvalid := hc.valid i
  unfold htons
  omega

/-- The ports of the servers that were started before. -/
def boundBefore (port : Fin n → Int) (k : Nat) : List Nat :=
  (List.ofFn fun i => htons (port i)).take k

theorem mem_boundBefore_iff (hc : Config file line port) {i : Fin n} {k : Nat} :
    htons (port i) ∈ boundBefore port k ↔ (i : Nat) < k := by
  rw [boundBefore, List.mem_take_iff_getElem]
  constructor
  · rintro ⟨j, hj, heq⟩
    rw [List.length_ofFn] at hj
    rw [List.getElem_ofFn] at heq
    have hports : port i = port ⟨j, hj.trans_le (Nat.min_le_right ..)⟩ := by
      rw [← htons_of_valid hc i, ← heq, htons_of_valid hc]
    rw [hc.distinct hports]
    exact hj.trans_le (Nat.min_le_left ..)
  · intro hi
    refine ⟨i, lt_min hi ?_, List.getElem_ofFn _⟩
    rw [List.length_ofFn]
    exact i.isLt

/-- The loop is left when the port is free. -/
theorem bindLoop_of_free {bound : List Nat} {r : StartingServer} (h : r.serv_port ∉ bound)
    (rounds : Nat) : bindLoop file bound rounds r = some r := by
  cases rounds <;> rw [bindLoop, if_neg h]

/-- A server whose port is the first free one. -/
theorem not_mem_boundBefore (hc : Config file line port) (k : Fin n) :
    htons (port k) ∉ boundBefore port k := by
  rw [mem_boundBefore_iff hc]
  exact lt_irrefl _

/-- **The `bind` loop** of a server in front of which `k` ports are bound ends at line `k`. -/
theorem bindLoop_eq (hc : Config file line port) {i k : Fin n} {r : StartingServer}
    {rounds : Nat} (hi : (i : Nat) ≤ k) (hport : r.serv_port = htons (port i))
    (hread : ReadTo line (i + 1) r.myfile) (hrounds : (k : Nat) - i ≤ rounds) :
    ∃ r', bindLoop file (boundBefore port k) rounds r = some r' ∧
      r'.serv_port = htons (port k) ∧ ReadTo line (k + 1) r'.myfile ∧
      r'.primary = r.primary := by
  induction rounds generalizing i r with
  | zero =>
    obtain rfl : i = k := Fin.ext (by omega)
    have hfree := not_mem_boundBefore hc i
    rw [← hport] at hfree
    exact ⟨r, bindLoop_of_free hfree 0, hport, hread, rfl⟩
  | succ rounds ih =>
    by_cases hlt : (i : Nat) < k
    · have hbound : r.serv_port ∈ boundBefore port k := by
        rw [hport, mem_boundBefore_iff hc]
        exact hlt
      have hnext : ((next i : Fin n) : Nat) = i + 1 :=
        Nat.mod_eq_of_lt ((Nat.succ_le_of_lt hlt).trans_lt k.isLt)
      obtain ⟨g, hg, hreadg⟩ := getNewPort_next hc hread
      obtain ⟨r', hr', hrest⟩ := ih
        (r := { r with myfile := g, serv_port := htons (port (next i)) })
        (by omega) rfl hreadg (by omega)
      refine ⟨r', ?_, hrest⟩
      rw [bindLoop, if_pos hbound]
      simp only [hg, Option.bind_eq_bind, Option.bind_some]
      exact hr'
    · obtain rfl : i = k := Fin.ext (by omega)
      have hfree := not_mem_boundBefore hc i
      rw [← hport] at hfree
      exact ⟨r, bindLoop_of_free hfree _, hport, hread, rfl⟩

/-- A server that was started when `k` ports were bound. -/
structure Started (line : Fin n → Str) (port : Fin n → Int) (k : Fin n) (r : StartingServer) :
    Prop where
  serv_port : r.serv_port = htons (port k)
  client_port : r.client_port = some (htons (port (next k)))
  server_ID : r.server_ID = r.serv_port
  primary : r.primary = port ⟨0, k.pos⟩
  isPrimary : r.isPrimary = (port k == port ⟨0, k.pos⟩)
  readTo : ReadTo line (next k + 1) r.myfile

theorem startServer_eq (hc : Config file line port) (k : Fin n) {rounds : Nat}
    (hrounds : n ≤ rounds) :
    ∃ r, startServer file rounds (boundBefore port k) = some r ∧ Started line port k r := by
  obtain ⟨first, hfirst, hread⟩ :=
    getNewPort_of_lt (i := ⟨0, k.pos⟩) hc (readTo_opened hc)
  obtain ⟨r, hr, hport, hreadr, hprimary⟩ := bindLoop_eq hc (k := k)
    (r := { myfile := first, serv_port := htons (port ⟨0, k.pos⟩), primary := port ⟨0, k.pos⟩,
            isPrimary := true }) (Nat.zero_le _) rfl hread
    (show (k : Nat) - 0 ≤ rounds by omega)
  obtain ⟨g, hg, hreadg⟩ := getNewPort_next hc hreadr
  refine ⟨{ r with
    isPrimary := (r.serv_port : Int) == r.primary
    server_ID := r.serv_port
    myfile := g
    client_port := some (htons (port (next k))) }, ?_, ?_⟩
  · simp only [startServer, construct, prepareServerConnection, connectToServer, hfirst, hr, hg,
      Option.bind_eq_bind, Option.bind_some, Option.pure_def]
  · refine ⟨hport, rfl, rfl, hprimary, ?_, hreadg⟩
    simp only [hport, hprimary, htons_of_valid hc]

/-- What the run that starts the servers leaves. -/
theorem startServers_eq (hc : Config file line port) {rounds : Nat} (hrounds : n ≤ rounds) :
    ∃ servers : Fin n → StartingServer,
      startServers file rounds n = some (List.ofFn servers) ∧
      ∀ i, Started line port i (servers i) := by
  choose servers hstart hservers using fun i => startServer_eq hc i hrounds
  have hrun : ∀ k ≤ n, startServers file rounds k = some ((List.ofFn servers).take k) := by
    intro k hk
    induction k with
    | zero => rfl
    | succ k ih =>
      have hlen : k < (List.ofFn servers).length := by
        rw [List.length_ofFn]
        exact hk
      have hbound : ((List.ofFn servers).take k).map StartingServer.serv_port =
          boundBefore port k := by
        rw [List.map_take, List.map_ofFn, boundBefore]
        exact congrArg (List.take k) (congrArg List.ofFn (funext fun i => (hservers i).serv_port))
      rw [startServers, ih (Nat.le_of_succ_le hk)]
      simp only [Option.bind_eq_bind, Option.bind_some, Option.pure_def, hbound,
        hstart ⟨k, hk⟩]
      rw [List.take_succ_eq_append_getElem hlen, List.getElem_ofFn]
  refine ⟨servers, ?_, hservers⟩
  rw [hrun n le_rfl, List.take_of_length_le (by rw [List.length_ofFn])]

/-! ## The ring -/

/-- The servers that were started form the ring. -/
theorem formed_of_started (hc : Config file line port) {servers : Fin n → StartingServer}
    (h : ∀ i, Started line port i (servers i)) : Formed port servers := by
  have hlinks : ∀ i j, Links servers i j ↔ j = next i := by
    intro i j
    rw [Links, (h i).client_port, (h j).serv_port, Option.some_inj]
    constructor
    · intro heq
      refine (hc.distinct ?_).symm
      rw [← htons_of_valid hc (next i), heq, htons_of_valid hc j]
    · rintro rfl
      rfl
  refine ⟨?_, hlinks, ?_, ?_⟩
  · intro i
    rw [(h i).serv_port, htons_of_valid hc i]
  · exact reach_of_next fun i => (hlinks i _).2 rfl
  · intro i
    rw [(h i).isPrimary, beq_iff_eq, hc.distinct.eq_iff]
    exact Fin.ext_iff

/-- What `ServersRing` takes for the start of a server. -/
theorem Started.agrees {k : Fin n} {r : StartingServer} (h : Started line port k r) :
    let q := (ServersRing.prepareServerConnection port k).getNewPort
    r.primary = q.primary ∧ r.isPrimary = q.isPrimary ∧
      r.client_port = q.client_port.map (fun j => htons (port j)) ∧
      q.myfile = next (next k) ∧ ReadTo line (next k + 1) r.myfile :=
  ⟨h.primary, h.isPrimary, h.client_port, rfl, h.readTo⟩

/-- **Ring formation.**  Servers are started one after another on a host whose `config.txt`
holds as many distinct valid ports, with or without a final newline: each `bind` loop ends;
the `k`-th server listens on the port of line `k` and connects to that of the next line, the
first for the last; the links are one directed cycle; and exactly the first is the primary. -/
theorem ring_formation (hline : ∀ i, '\n' ∉ line i)
    (hfile : HasLines '\n' file (List.ofFn line)) (hstoi : ∀ i, Text.stoi (line i) = some (port i))
    (hvalid : ∀ i, 1 ≤ port i ∧ port i ≤ 65535) (hdistinct : Function.Injective port)
    {rounds : Nat} (hrounds : n ≤ rounds) :
    ∃ servers : Fin n → StartingServer,
      startServers file rounds n = some (List.ofFn servers) ∧ Formed port servers := by
  have hnonempty : ∀ i, line i ≠ [] := by
    intro i hempty
    have hnone := hstoi i
    rw [hempty] at hnone
    cases hnone
  have hlines : getlines '\n' file = List.ofFn line := by
    apply getlines_of_hasLines hfile (List.forall_mem_ofFn_iff.2 hline)
    intro p hp
    obtain ⟨i, rfl⟩ := List.mem_ofFn.1 (List.mem_of_getLast? hp)
    exact hnonempty i
  have hc : Config file line port := ⟨hlines, hstoi, hvalid, hdistinct⟩
  obtain ⟨servers, hstart, hstarted⟩ := startServers_eq hc hrounds
  exact ⟨servers, hstart, formed_of_started hc hstarted⟩

/-- A file without a newline at its end. -/
def threePorts : Str := "6660\n6661\n6662".toList

theorem ring_formation_threePorts :
    ∃ servers : Fin 3 → StartingServer,
      startServers threePorts 3 3 = some (List.ofFn servers) ∧
      Formed (fun i => 6660 + (i : Nat)) servers := by
  refine @ring_formation 3 _ threePorts (fun i => Text.to_string (6660 + (i : Nat)))
    (fun i => Text.not_mem_to_string (by decide) (by decide) _) (.inr (by decide)) ?_ ?_ ?_ _ le_rfl
  · intro i
    apply Text.stoi_to_string (by omega)
    unfold Text.INT_MAX
    omega
  · intro i
    omega
  · intro i j heq
    exact Fin.ext (by simpa using heq)

end RingFormation
end InstantMessenger
