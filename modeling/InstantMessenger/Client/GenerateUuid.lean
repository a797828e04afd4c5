import Mathlib.Data.List.Forall2
import Mathlib.Data.Set.Function
import InstantMessenger.Client.BuildPacket
import InstantMessenger.Foundations.Template
import InstantMessenger.Server.Accounting

/-!
# The ids of the clients

A client names itself by a text of `Uuid::generate_uuid_v4`: thirty draws of a digit, one of
the variant, and dashes between them.  The servers take for granted that these ids are
distinct, and that none is the address of a front end or the sentinel `FE_DISCONNECT`.

* `Draws`, `generate_uuid_v4` — the function, given what the generator draws.
* `Version4` — the texts of the form `xxxxxxxx-xxxx-4xxx-yxxx-xxxxxxxxxxxx`.
* `generate_uuid_v4_bijOn` — **each of them is what exactly one choice of draws gives**.  Which
  draws there are is up to the generator, whose seed has 32 bits.
* `Server.generatedIds_iff` — **what the servers take for granted holds exactly when no two
  clients have drawn the same**.
-/

namespace InstantMessenger

/-- A digit as `std::hex` prints it. -/
def hexDigit (d : Fin 16) : Char := Nat.digitChar d

/-- The results of `dis(gen)`, in their order, and the one of `dis2(gen)`. -/
@[ext]
structure Draws where
  dis : Fin 30 → Fin 16
  dis2 : Fin 16
  inRange : 8 ≤ dis2 ∧ dis2 ≤ 11

namespace Draws

/-- A loop that prints so many draws. -/
def digits (d : Draws) (first count : Nat) (h : first + count ≤ 30) : Str :=
  List.ofFn fun i : Fin count =>
    hexDigit (d.dis ⟨first + i, (Nat.add_lt_add_left i.isLt first).trans_le h⟩)

end Draws

/-- `Uuid::generate_uuid_v4`. -/
def generate_uuid_v4 (d : Draws) : Str :=
  d.digits 0 8 (by decide) ++ "-".toList ++ d.digits 8 4 (by decide) ++ "-4".toList ++
    d.digits 12 3 (by decide) ++ "-".toList ++ [hexDigit d.dis2] ++ d.digits 15 3 (by decide) ++
    "-".toList ++ d.digits 18 12 (by decide)

/-! ## The form of the texts -/

/-- What may stand for a character of the pattern. -/
def FitsPattern : Char → Char → Prop
  | 'x', c => c ∈ "0123456789abcdef".toList
  | 'y', c => c ∈ "89ab".toList
  | d, c => c = d

/-- A uuid of version 4. -/
def Version4 (s : Str) : Prop :=
  List.Forall₂ FitsPattern "xxxxxxxx-xxxx-4xxx-yxxx-xxxxxxxxxxxx".toList s

/-- Where a character of the text comes from. -/
inductive UuidPlace where
  | draw (k : Fin 30)
  | variant
  | dash
  | version
  deriving DecidableEq, Repr

namespace UuidPlace

/-- The character of the pattern. -/
def pattern : UuidPlace → Char
  | draw _ => 'x'
  | variant => 'y'
  | dash => '-'
  | version => '4'

/-- The places of the text, one after another. -/
def layout : List UuidPlace :=
  let draws := (List.finRange 30).map draw
  draws.take 8 ++ [dash] ++ (draws.drop 8).take 4 ++ [dash, version] ++
    (draws.drop 12).take 3 ++ [dash, variant] ++ (draws.drop 15).take 3 ++ [dash] ++ draws.drop 18

theorem map_pattern_layout :
    layout.map pattern = "xxxxxxxx-xxxx-4xxx-yxxx-xxxxxxxxxxxx".toList := by decide

theorem draw_mem_layout (k : Fin 30) : draw k ∈ layout := by
  revert k
  decide

theorem variant_mem_layout : variant ∈ layout := by decide

/-- Only the dash stands at several places. -/
theorem eq_dash_of_repeated : layout.Pairwise fun p q => p = q → p = dash := by decide

end UuidPlace

namespace Draws

/-- The character at a place. -/
def charAt (d : Draws) : UuidPlace → Char
  | .draw k => hexDigit (d.dis k)
  | .variant => hexDigit d.dis2
  | .dash => '-'
  | .version => '4'

theorem hexDigit_injective : Function.Injective hexDigit := by
  intro a b
  revert a b
  decide

theorem exists_hexDigit {c : Char} (h : c ∈ "0123456789abcdef".toList) :
    ∃ d, hexDigit d = c := by
  have hall : ("0123456789abcdef".toList.all fun c => decide (∃ d, hexDigit d = c)) = true := by
    decide
  exact of_decide_eq_true (List.all_eq_true.1 hall c h)

theorem exists_variant {c : Char} (h : c ∈ "89ab".toList) :
    ∃ d, (8 ≤ d ∧ d ≤ 11) ∧ hexDigit d = c := by
  have hall : ("89ab".toList.all fun c =>
      decide (∃ d, (8 ≤ d ∧ d ≤ 11) ∧ hexDigit d = c)) = true := by decide
  exact of_decide_eq_true (List.all_eq_true.1 hall c h)

theorem hexDigit_mem (d : Fin 16) : hexDigit d ∈ "0123456789abcdef".toList := by
  revert d
  decide

theorem variant_mem {d : Fin 16} (h : 8 ≤ d ∧ d ≤ 11) : hexDigit d ∈ "89ab".toList := by
  revert d
  decide

end Draws

/-- The loops of the function fill in the layout. -/
theorem generate_uuid_v4_eq_map (d : Draws) :
    generate_uuid_v4 d = UuidPlace.layout.map d.charAt := rfl

/-! ## What is generated -/

theorem version4_iff {s : Str} :
    Version4 s ↔ List.Forall₂ (fun p c => FitsPattern p.pattern c) UuidPlace.layout s := by
  rw [Version4, ← UuidPlace.map_pattern_layout, List.forall₂_map_left_iff]

theorem Draws.fitsPattern_charAt (d : Draws) (p : UuidPlace) :
    FitsPattern p.pattern (d.charAt p) := by
  cases p with
  | draw k => exact hexDigit_mem (d.dis k)
  | variant => exact variant_mem d.inRange
  | dash => rfl
  | version => rfl

theorem version4_generate_uuid_v4 (d : Draws) : Version4 (generate_uuid_v4 d) := by
  rw [version4_iff, generate_uuid_v4_eq_map, List.forall₂_map_right_iff, List.forall₂_same]
  exact fun p _ => d.fitsPattern_charAt p

/-- The draws can be read off the text. -/
theorem generate_uuid_v4_injective : Function.Injective generate_uuid_v4 := by
  intro d e h
  rw [generate_uuid_v4_eq_map, generate_uuid_v4_eq_map, List.map_inj_left] at h
  refine Draws.ext (funext fun k => ?_) ?_
  · exact Draws.hexDigit_injective (h _ (UuidPlace.draw_mem_layout k))
  · exact Draws.hexDigit_injective (h _ UuidPlace.variant_mem_layout)

/-- Every text of the form is the one of some draws. -/
theorem exists_generate_uuid_v4 {s : Str} (h : Version4 s) : ∃ d, generate_uuid_v4 d = s := by
  have hrepeated : UuidPlace.layout.Pairwise fun p q => p = q →
      ∀ b c, FitsPattern p.pattern b → FitsPattern p.pattern c → b = c := by
    refine UuidPlace.eq_dash_of_repeated.imp fun hdash heq b c hb hc => ?_
    rw [hdash heq] at hb hc
    exact hb.trans hc.symm
  obtain ⟨f, hf, hfits⟩ := Template.exists_map_of_forall₂ hrepeated (version4_iff.1 h)
  have hdraw : ∀ k, ∃ d, hexDigit d = f (.draw k) := fun k =>
    Draws.exists_hexDigit (hfits _ (UuidPlace.draw_mem_layout k))
  choose dis hdis using hdraw
  obtain ⟨dis2, hrange, hdis2⟩ := Draws.exists_variant (hfits _ UuidPlace.variant_mem_layout)
  refine ⟨⟨dis, dis2, hrange⟩, ?_⟩
  rw [generate_uuid_v4_eq_map, ← hf]
  refine List.map_congr_left fun p hp => ?_
  cases p with
  | draw k => exact hdis k
  | variant => exact hdis2
  | dash => exact (hfits _ hp).symm
  | version => exact (hfits _ hp).symm

/-- **What the draws give**: by some choice of them every uuid of version 4, each by one, and
nothing else. -/
theorem generate_uuid_v4_bijOn :
    Set.BijOn generate_uuid_v4 Set.univ {s | Version4 s} :=
  ⟨fun d _ => version4_generate_uuid_v4 d, generate_uuid_v4_injective.injOn,
    fun _ hs => (exists_generate_uuid_v4 hs).imp fun _ hd => ⟨Set.mem_univ _, hd⟩⟩

/-! ## What the other programs read -/

theorem length_of_version4 {s : Str} (h : Version4 s) : s.length = 36 := h.length_eq.symm

/-- A character of a generated text is a digit or a dash. -/
theorem mem_of_version4 {s : Str} (h : Version4 s) {c : Char} (hc : c ∈ s) :
    c ∈ "0123456789abcdef-".toList := by
  obtain ⟨d, rfl⟩ := exists_generate_uuid_v4 h
  rw [generate_uuid_v4_eq_map] at hc
  obtain ⟨p, -, rfl⟩ := List.mem_map.1 hc
  have hdigit : ∀ d : Fin 16, hexDigit d ∈ "0123456789abcdef-".toList := by decide
  cases p with
  | draw k => exact hdigit (d.dis k)
  | variant => exact hdigit d.dis2
  | dash =>
    show '-' ∈ _
    decide
  | version =>
    show '4' ∈ _
    decide

namespace Server

/-- `feIpPort` of `connectToFE`. -/
def feIpPort (feAddress : Str) (fePort : Int) : Str :=
  feAddress ++ ":".toList ++ Text.to_string fePort

theorem generate_uuid_v4_ne_feIpPort (d : Draws) (feAddress : Str) (fePort : Int) :
    generate_uuid_v4 d ≠ feIpPort feAddress fePort := by
  intro h
  have hcolon : ':' ∈ generate_uuid_v4 d := by
    rw [h, feIpPort]
    exact List.mem_append_left _ (List.mem_append_right _ (List.mem_singleton.2 rfl))
  exact absurd (mem_of_version4 (version4_generate_uuid_v4 d) hcolon) (by decide)

theorem generate_uuid_v4_ne_sentinel (d : Draws) : generate_uuid_v4 d ≠ FE_DISCONNECT := by
  intro h
  have hlen := length_of_version4 (version4_generate_uuid_v4 d)
  rw [h] at hlen
  revert hlen
  decide

/-- **What the servers take for granted about client ids.**  When the clients that join and
leave have generated their ids, and the front ends are named by `connectToFE`, the ids are
as the servers need them exactly when no two that join have drawn the same. -/
theorem generatedIds_iff {feAddresses : List Str} {es : List Event} {ds : List Draws}
    (hjoin : es.filterMap Event.joinId = ds.map generate_uuid_v4)
    (hleave : ∀ p fe, .packet p fe ∈ es → p.isDisconnect = true →
      ∃ d, p.user_id = generate_uuid_v4 d)
    (haddress : ∀ fe ∈ feAddresses ++ es.map Event.feAddress,
      ∃ feAddress fePort, fe = feIpPort feAddress fePort) :
    GeneratedIds feAddresses es ↔ ds.Nodup := by
  rw [← List.nodup_map_iff generate_uuid_v4_injective, ← hjoin]
  refine ⟨GeneratedIds.fresh, fun hfresh => ⟨hfresh, fun id hid => ⟨?_, ?_⟩, ?_⟩⟩
  · obtain ⟨d, -, rfl⟩ := List.mem_map.1 (hjoin ▸ hid)
    intro hnil
    have hlen := length_of_version4 (version4_generate_uuid_v4 d)
    rw [hnil] at hlen
    cases hlen
  · obtain ⟨d, -, rfl⟩ := List.mem_map.1 (hjoin ▸ hid)
    intro hmem
    obtain ⟨feAddress, fePort, heq⟩ := haddress _ hmem
    exact generate_uuid_v4_ne_feIpPort d feAddress fePort heq
  · intro p fe hmem hd
    obtain ⟨d, hid⟩ := hleave p fe hmem hd
    rw [hid]
    exact generate_uuid_v4_ne_sentinel d

/-- A generator that always draws the same digit. -/
def sameDraws (digit : Fin 16) : Draws := ⟨fun _ => digit, 8, by decide⟩

/-- Two clients join at one front end, and the first one leaves. -/
def twoGenerated : List Event :=
  let fe := feIpPort "127.0.0.1".toList 6969
  [.packet { type := .JOIN_PACKET, user_id := generate_uuid_v4 (sameDraws 0) } fe,
    .packet { type := .JOIN_PACKET, user_id := generate_uuid_v4 (sameDraws 1) } fe,
    .packet { type := .DISCONNECT_PACKET, user_id := generate_uuid_v4 (sameDraws 0) } fe]

theorem generatedIds_twoGenerated :
    GeneratedIds [feIpPort "127.0.0.1".toList 6969] twoGenerated := by
  refine (@generatedIds_iff _ _ [sameDraws 0, sameDraws 1] rfl ?_ ?_).2 ?_
  · intro p fe hmem hd
    simp only [twoGenerated, List.mem_cons, List.not_mem_nil, or_false] at hmem
    rcases hmem with h | h | h <;> cases h
    · cases hd
    · cases hd
    · exact ⟨sameDraws 0, rfl⟩
  · intro fe hmem
    refine ⟨"127.0.0.1".toList, 6969, ?_⟩
    revert fe
    decide
  · rw [← List.nodup_map_iff generate_uuid_v4_injective]
    decide

end Server

end InstantMessenger
