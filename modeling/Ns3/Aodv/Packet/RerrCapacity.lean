import Ns3.Aodv.Packet
import Ns3.Aodv.Protocol.Route

namespace Ns3.Aodv

namespace RerrHeader

open ByteFormat Destinations

variable {h h' : RerrHeader} {dst : Ipv4Address} {n seq_no : UInt32} {l : List (Ipv4Address × UInt32)}
  {unreachable : Destinations} {fuel : ℕ} {ms : List RerrHeader}

/-- The headers of the messages that the loops of `RecvError` and of
`SendRerrWhenBreaksLinkToNextHop` build, from the header `h` and the destinations left. A header
that is full is sent and cleared, and the destination tried again. -/
def build_messages : ℕ → RerrHeader → List (Ipv4Address × UInt32) → Option (List RerrHeader)
  | 0, _, _ => none
  | _ + 1, h, [] => some (if h.get_dest_count ≠ 0 then [h] else [])
  | fuel + 1, h, i :: rest =>
    match h.add_un_destination_result i.1 i.2 with
    | none => none
    | some (true, h) => build_messages fuel h rest
    | some (false, h) => (build_messages fuel h.clear (i :: rest)).map (h :: ·)

/-- A header names at most 255 destinations, and is read back as it is from the bytes it is
serialized to, of which there are as many as its size says. -/
structure Sendable (h : RerrHeader) : Prop where
  size : h.unreachable.size ≤ 255
  reads : Reads deserialize h.serialize h
  length : h.serialize.length = h.get_serialized_size.toNat

/-- The loop ends, and its messages are fit to be sent and name what they are to name. -/
def Delivers (h : RerrHeader) (unreachable : Destinations) : Prop :=
  ∃ fuel ms, build_messages fuel h unreachable.toList = some ms ∧ (∀ m ∈ ms, m.Sendable) ∧
    ∀ d, (∃ m ∈ ms, d ∈ m.unreachable) ↔ d ∈ h.unreachable ∨ d ∈ unreachable

/-- `AddUnDestination` returns, with false exactly when the header is full and does not name
the destination. -/
def Answers (h : RerrHeader) (dst : Ipv4Address) (seq_no : UInt32) : Prop :=
  ∃ answer h', h.add_un_destination_result dst seq_no = some (answer, h') ∧
    (answer = false ↔ 255 ≤ h.unreachable.size ∧ dst ∉ h.unreachable)

theorem get_dest_count_lt (hsize : h.unreachable.size ≤ 255) :
    h.get_dest_count < 255 ↔ h.unreachable.size < 255 := by
  rw [UInt8.lt_iff_toNat_lt, toNat_get_dest_count hsize]
  rfl

theorem get_dest_count_ne_zero (hsize : h.unreachable.size ≤ 255) :
    h.get_dest_count ≠ 0 ↔ h.unreachable.size ≠ 0 := by
  rw [ne_eq, ← UInt8.toNat_inj, toNat_get_dest_count hsize]
  rfl

theorem foldlM_add_un_destination (hsize : h.unreachable.size ≤ 255) :
    l.foldlM (fun h p => h.add_un_destination p.1 p.2) h =
      if (enter h.unreachable l).size ≤ 255 then some { h with unreachable := enter h.unreachable l } else none := by
  induction l generalizing h with
  | nil => exact (if_pos hsize).symm
  | cons p l ih =>
    have hcons : enter h.unreachable (p :: l) = enter (h.unreachable.insertIfNew p.1 p.2) l := rfl
    rw [List.foldlM_cons, hcons, add_un_destination]
    by_cases hmem : p.1 ∈ h.unreachable
    · rw [if_pos hmem, insertIfNew_of_mem hmem]
      exact ih hsize
    · have hnew : (h.unreachable.insertIfNew p.1 p.2).size = h.unreachable.size + 1 := by
        rw [Std.ExtTreeMap.size_insertIfNew, if_neg hmem]
      have hinsert : h.unreachable.insert p.1 p.2 = h.unreachable.insertIfNew p.1 p.2 := by
        apply Std.ExtTreeMap.ext_getElem?
        intro k
        rw [Std.ExtTreeMap.getElem?_insert, Std.ExtTreeMap.getElem?_insertIfNew]
        simp [hmem]
      rw [if_neg hmem, hinsert]
      by_cases hroom : h.unreachable.size < 255
      · rw [if_pos ((get_dest_count_lt hsize).mpr hroom)]
        exact ih (h := { h with unreachable := h.unreachable.insertIfNew p.1 p.2 }) (by simpa [hnew] using hroom)
      · rw [if_neg fun hlt => hroom ((get_dest_count_lt hsize).mp hlt), if_neg]
        · rfl
        · have hle := size_le_size_enter (m := h.unreachable.insertIfNew p.1 p.2) (l := l)
          omega

/-- `AddUnDestination` never answers false, so the loop is a plain iteration of it. -/
theorem build_messages_eq_some (hbuild : build_messages fuel h l = some ms) :
    ∃ h', l.foldlM (fun h p => h.add_un_destination p.1 p.2) h = some h' ∧
      ms = if h'.get_dest_count ≠ 0 then [h'] else [] := by
  induction fuel generalizing h l with
  | zero => cases hbuild
  | succ fuel ih =>
    cases l with
    | nil => exact ⟨h, rfl, (Option.some.inj hbuild).symm⟩
    | cons p rest =>
      rw [build_messages, add_un_destination_result] at hbuild
      cases hadd : h.add_un_destination p.1 p.2 with
      | none => simp [hadd] at hbuild
      | some h₁ =>
        simp only [hadd, Option.map_some] at hbuild
        obtain ⟨h', hfold, hms⟩ := ih hbuild
        refine ⟨h', ?_, hms⟩
        rw [List.foldlM_cons, hadd]
        exact hfold

theorem build_messages_of_foldlM (hfold : l.foldlM (fun h p => h.add_un_destination p.1 p.2) h = some h') :
    build_messages (l.length + 1) h l = some (if h'.get_dest_count ≠ 0 then [h'] else []) := by
  induction l generalizing h with
  | nil =>
    obtain rfl := Option.some.inj hfold
    rfl
  | cons p rest ih =>
    rw [List.foldlM_cons] at hfold
    obtain ⟨h₁, hadd, hrest⟩ := Option.bind_eq_some_iff.mp hfold
    rw [List.length_cons, build_messages, add_un_destination_result, hadd]
    exact ih hrest

theorem sendable (hsize : h.unreachable.size ≤ 255) : h.Sendable :=
  ⟨hsize, reads_serialize hsize, length_serialize hsize⟩

theorem delivers_iff (hsize : h.unreachable.size ≤ 255) :
    Delivers h unreachable ↔ (enter h.unreachable unreachable.toList).size ≤ 255 := by
  have hfold := foldlM_add_un_destination hsize (l := unreachable.toList)
  constructor
  · rintro ⟨fuel, ms, hbuild, -⟩
    obtain ⟨h', hall, -⟩ := build_messages_eq_some hbuild
    by_contra hover
    rw [hfold, if_neg hover] at hall
    cases hall
  · intro hfits
    rw [if_pos hfits] at hfold
    refine ⟨_, _, build_messages_of_foldlM hfold, ?_, ?_⟩
    · intro m hm
      split at hm
      · obtain rfl := List.mem_singleton.mp hm
        exact sendable hfits
      · exact absurd hm List.not_mem_nil
    · intro d
      have hmem : d ∈ enter h.unreachable unreachable.toList ↔ d ∈ h.unreachable ∨ d ∈ unreachable := by
        rw [mem_enter]
        simp
      rw [← hmem]
      split
      · simp
      next hzero =>
        have hempty : (enter h.unreachable unreachable.toList).size = 0 := by
          by_contra hne
          exact hzero ((get_dest_count_ne_zero hfits).mpr hne)
        have hnone : d ∉ enter h.unreachable unreachable.toList := by
          rw [Std.ExtTreeMap.eq_empty_iff_size_eq_zero.mpr hempty]
          exact Std.ExtTreeMap.not_mem_empty
        simp [hnone]

theorem answers_iff : Answers h dst seq_no ↔ ¬ (255 ≤ h.unreachable.size ∧ dst ∉ h.unreachable) := by
  unfold Answers add_un_destination_result
  constructor
  · rintro ⟨answer, h', hadd, hfalse⟩ hfull
    obtain ⟨h₁, -, heq⟩ := Option.map_eq_some_iff.mp hadd
    obtain ⟨htrue, -⟩ := Prod.mk.inj heq
    rw [hfalse.mpr hfull] at htrue
    cases htrue
  · intro hroom
    have hsome : (h.add_un_destination dst seq_no).isSome := by
      rw [add_un_destination]
      split
      · rfl
      next hmem =>
        have hsize : h.unreachable.size < 255 := by
          by_contra hnot
          exact hroom ⟨by omega, hmem⟩
        rw [if_pos ((get_dest_count_lt hsize.le).mpr hsize)]
        rfl
    obtain ⟨h', hadd⟩ := Option.isSome_iff_exists.mp hsome
    exact ⟨true, h', by rw [hadd]; rfl, by simp [hroom]⟩

/-- The capacity of a route error: the loops of `RecvError`, which starts with no destination,
and of `SendRerrWhenBreaksLinkToNextHop`, which starts with the next hop, deliver a set of
unreachable destinations exactly if it has at most 255. -/
theorem rerr_capacity (unreachable : Destinations) :
    (∀ (h : RerrHeader) (dst : Ipv4Address) (seq_no : UInt32),
      Answers h dst seq_no ↔ ¬ (255 ≤ h.unreachable.size ∧ dst ∉ h.unreachable)) ∧
    (∀ flag reserved : UInt8, Delivers { flag, reserved } unreachable ↔ unreachable.size ≤ 255) ∧
    ∀ (nextHop : Ipv4Address) (seq_no : UInt32),
      ∃ h, add_un_destination {} nextHop seq_no = some h ∧
        (Delivers h unreachable ↔ (unreachable.insertIfNew nextHop seq_no).size ≤ 255) := by
  refine ⟨fun h dst seq_no => answers_iff, ?_, ?_⟩
  · intro flag reserved
    rw [delivers_iff (by simp)]
    exact iff_of_eq (congrArg (fun m : Destinations => m.size ≤ 255) (enter_toList unreachable))
  · intro nextHop seq_no
    refine ⟨{ unreachable := Std.ExtTreeMap.insert ∅ nextHop seq_no }, ?_, ?_⟩
    · rw [add_un_destination, if_neg (by simp), if_pos]
      exact (get_dest_count_lt (by simp)).mpr (by simp)
    · rw [delivers_iff (by simp [Std.ExtTreeMap.size_insert])]
      refine iff_of_eq (congrArg (· ≤ 255) (size_congr ?_))
      intro d
      rw [mem_enter, Std.ExtTreeMap.mem_insertIfNew, Std.ExtTreeMap.mem_insert]
      simp

theorem not_answers {m : Destinations} (hfull : m.size = 255) (hnew : dst ∉ m) :
    ¬ Answers { unreachable := m } dst seq_no := by
  rw [answers_iff]
  exact fun hroom => hroom ⟨hfull.ge, hnew⟩

theorem not_delivers {unreachable : Destinations} (hover : 255 < unreachable.size) : ¬ Delivers {} unreachable := by
  rw [delivers_iff (by simp)]
  have hsize : (enter ∅ unreachable.toList).size = unreachable.size :=
    congrArg (fun m : Destinations => m.size) (enter_toList unreachable)
  exact fun hle => absurd (hsize ▸ hle) (not_le.mpr hover)

/-- The destinations 0.0.0.0, 0.0.0.1 and so on. -/
def destinations (k : ℕ) : Destinations := enter ∅ ((List.range k).map fun i => (UInt32.ofNat i, 0))

/-- A set of 256 destinations, and the header that is full when the last one comes. -/
theorem destinations_256_not_delivered : ¬ Delivers {} (destinations 256) ∧
    ¬ Answers { unreachable := destinations 255 } 255 0 := by
  have hmany : 255 < (destinations 256).size := by decide +kernel
  have hfull : (destinations 255).size = 255 := by decide +kernel
  have hlast : (255 : Ipv4Address) ∉ destinations 255 := by decide +kernel
  exact ⟨not_delivers hmany, not_answers hfull hlast⟩

end RerrHeader

namespace RoutingProtocol

end RoutingProtocol

end Ns3.Aodv
