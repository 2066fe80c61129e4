import Ns3.Network.Address
import Ns3.Foundation.Slice

namespace Ns3

/-- An IPv4 header without options, with the fields that fragmentation uses. -/
structure FragmentHeader extends Ipv4Header where
  calc_checksum : Bool := false
  payload_size : ℕ := 0
  identification : UInt16 := 0
  tos : UInt8 := 0
  dont_fragment : Bool := false
  more_fragments : Bool := false
  fragment_offset : ℕ := 0
deriving DecidableEq, Repr

namespace FragmentHeader

def get_serialized_size : ℕ := 5 * 4

def set_more_fragments (h : FragmentHeader) : FragmentHeader := { h with more_fragments := true }

def set_last_fragment (h : FragmentHeader) : FragmentHeader := { h with more_fragments := false }

def is_last_fragment (h : FragmentHeader) : Bool := !h.more_fragments

/-- `SetFragmentOffset`, which aborts on an offset that is no multiple of 8. -/
def set_fragment_offset (h : FragmentHeader) (offset_bytes : ℕ) : Option FragmentHeader :=
  if offset_bytes % 8 = 0 then some { h with fragment_offset := offset_bytes } else none

end FragmentHeader

namespace Ipv4L3Protocol

abbrev PayloadHeaderPair := List UInt8 × FragmentHeader

/-- The size of the fragments for an MTU: `(mtu - 20) & ~7` in 32 bits. -/
def fragment_size (out_iface_mtu : ℕ) : ℕ :=
  (out_iface_mtu + 2 ^ 32 - FragmentHeader.get_serialized_size) % 2 ^ 32 / 8 * 8

/-- The loop of `DoFragmentation` from an offset on, for a number of turns. -/
def fragment_turns (p : List UInt8) (header : FragmentHeader) (size : ℕ) (checksum_enabled : Bool) :
    ℕ → ℕ → Option (List PayloadHeaderPair)
  | 0, _ => none
  | turns + 1, offset => do
    let more_fragment := decide (p.length > (offset + size) % 2 ^ 32)
    let part_size := if more_fragment then size else p.length - offset
    let fragment_header :=
      if more_fragment then header.set_more_fragments
      else if !header.is_last_fragment then header.set_more_fragments
      else header.set_last_fragment
    let fragment := (p.drop offset).take part_size
    let fragment_header ← fragment_header.set_fragment_offset ((offset + header.fragment_offset) % 2 ^ 16)
    let fragment_header := { fragment_header with
      payload_size := part_size % 2 ^ 16
      calc_checksum := fragment_header.calc_checksum || checksum_enabled }
    if more_fragment then
      let rest ← fragment_turns p header size checksum_enabled turns ((offset + part_size) % 2 ^ 16)
      return (fragment, fragment_header) :: rest
    else return [(fragment, fragment_header)]

/-- `DoFragmentation`. A fragment of at least a byte is cut off in each turn but the last. -/
def do_fragmentation (packet : List UInt8) (header : FragmentHeader) (out_iface_mtu : ℕ) (checksum_enabled : Bool) :
    Option (List PayloadHeaderPair) :=
  fragment_turns packet header (fragment_size out_iface_mtu) checksum_enabled (packet.length + 1) 0

/-- The fragments of one datagram, with their offsets. -/
structure Fragments where
  more_fragment : Bool := false
  fragments : List (List UInt8 × ℕ) := []
deriving DecidableEq, Repr

namespace Fragments

/-- The list with a fragment put before the first one that has a larger offset. -/
def insert (fragment : List UInt8) (fragment_offset : ℕ) : List (List UInt8 × ℕ) → List (List UInt8 × ℕ)
  | [] => [(fragment, fragment_offset)]
  | x :: xs =>
    if x.2 > fragment_offset then (fragment, fragment_offset) :: x :: xs
    else x :: insert fragment fragment_offset xs

def add_fragment (f : Fragments) (fragment : List UInt8) (fragment_offset : ℕ) (more_fragment : Bool) :
    Fragments where
  more_fragment := if f.fragments.all fun x => x.2 ≤ fragment_offset then more_fragment else f.more_fragment
  fragments := insert fragment fragment_offset f.fragments

/-- The loop of `IsEntire`. -/
def connected (last_end_offset : ℕ) : List (List UInt8 × ℕ) → Bool
  | [] => true
  | x :: xs =>
    if last_end_offset < x.2 then false
    else connected (max last_end_offset ((x.1.length + x.2) % 2 ^ 16)) xs

def is_entire (f : Fragments) : Bool := !f.more_fragment && !f.fragments.isEmpty && connected 0 f.fragments

/-- The loop of `GetPacket`, over the fragments after the first one. -/
def merge (p : List UInt8) : List (List UInt8 × ℕ) → List UInt8
  | [] => p
  | x :: xs =>
    let last_end_offset := p.length % 2 ^ 16
    if last_end_offset > x.2 then
      let new_start := last_end_offset - x.2
      if x.1.length > new_start then merge (p ++ x.1.drop new_start) xs else merge p xs
    else merge (p ++ x.1) xs

def get_packet (f : Fragments) : List UInt8 :=
  match f.fragments with
  | [] => []
  | x :: xs => merge x.1 xs

end Fragments

/-- The key of a datagram's fragments: the combined addresses, and identification and protocol. -/
abbrev FragmentKey := ℕ × ℕ

def fragment_key (h : FragmentHeader) : FragmentKey :=
  (h.source.toNat <<< 32 ||| h.destination.toNat, h.identification.toNat <<< 16 ||| h.protocol.toNat)

abbrev MapFragments := FragmentKey → Option Fragments

/-- `ProcessFragment`: the map, the packet and the result. -/
def process_fragment (m_fragments : MapFragments) (packet : List UInt8) (header : FragmentHeader) :
    MapFragments × List UInt8 × Bool :=
  let key := fragment_key header
  let fragments := ((m_fragments key).getD {}).add_fragment packet header.fragment_offset
    (!header.is_last_fragment)
  if fragments.is_entire then (Function.update m_fragments key none, fragments.get_packet, true)
  else (Function.update m_fragments key (some fragments), packet, false)

end Ipv4L3Protocol

end Ns3

namespace Ns3

open Pieces Slice

namespace FragmentHeader

/-- Whether two headers agree on source, destination, identification and protocol. -/
def same_datagram (h h' : FragmentHeader) : Bool :=
  h.source = h'.source && h.destination = h'.destination && h.identification = h'.identification &&
    h.protocol = h'.protocol

theorem same_datagram_iff {h h' : FragmentHeader} : h.same_datagram h' = true ↔
    h.source = h'.source ∧ h.destination = h'.destination ∧ h.identification = h'.identification ∧
      h.protocol = h'.protocol := by
  simp [same_datagram, and_assoc]

end FragmentHeader

namespace Ipv4L3Protocol

/-- A datagram and what a chain of fragmentations with MTUs of at least 68 bytes can make of it. -/
inductive Chained (payload : List UInt8) (header : FragmentHeader) : PayloadHeaderPair → Prop
  | whole : Chained payload header (payload, header)
  | fragment {p : List UInt8} {h : FragmentHeader} {mtu : ℕ} {checksum_enabled : Bool}
      {fragments : List PayloadHeaderPair} {x : PayloadHeaderPair} :
      Chained payload header (p, h) → 68 ≤ mtu → mtu < 2 ^ 32 →
      do_fragmentation p h mtu checksum_enabled = some fragments → x ∈ fragments → Chained payload header x

/-- What a fragment of a datagram is, whichever fragmentations made it. -/
structure IsFragment (payload : List UInt8) (header : FragmentHeader) (x : PayloadHeaderPair) : Prop where
  piece : IsPiece payload (x.1, x.2.fragment_offset)
  aligned : x.2.fragment_offset % 8 = 0
  last : x.2.is_last_fragment = true ↔ x.2.fragment_offset + x.1.length = payload.length
  same : x.2.same_datagram header = true

variable {payload p : List UInt8} {header h : FragmentHeader} {x : PayloadHeaderPair} {mtu size offset turns : ℕ}
  {checksum_enabled : Bool}

theorem fragment_size_eq (hmtu : 68 ≤ mtu) (hword : mtu < 2 ^ 32) : fragment_size mtu = (mtu - 20) / 8 * 8 := by
  simp only [fragment_size, FragmentHeader.get_serialized_size]
  omega

theorem IsFragment.turn (hx : IsFragment payload header (p, h)) (s : ℕ) (more checksum : Bool)
    (halign : offset % 8 = 0) (hfits : offset + s ≤ p.length) (hmore : more = true ↔ offset + s < p.length) :
    IsFragment payload header ((p.drop offset).take s,
      { h with
        more_fragments := more || h.more_fragments
        fragment_offset := offset + h.fragment_offset
        payload_size := s % 2 ^ 16
        calc_checksum := checksum }) := by
  obtain ⟨hpiece, haligned, hlast, hsame⟩ := hx
  have hslice : (p.drop offset).take s = slice p offset (offset + s) := by rw [slice, Nat.add_sub_cancel_left]
  have hlength : (slice p offset (offset + s)).length = s := by rw [length_slice hfits, Nat.add_sub_cancel_left]
  have hbound := hpiece.1
  rw [hslice]
  constructor
  · rw [show offset + h.fragment_offset = h.fragment_offset + offset by omega]
    exact hpiece.piece (.slice (by omega) hfits)
  · simp only at haligned ⊢
    omega
  · simp only [FragmentHeader.is_last_fragment, Bool.not_eq_true', hlength, Bool.or_eq_false_iff] at hlast hbound ⊢
    rw [← Bool.not_eq_true more, hmore, hlast]
    omega
  · exact hsame

theorem fragment_turns_spec (hx : IsFragment payload header (p, h)) (hpayload : payload.length ≤ 65515)
    (hpos : 0 < size) (haligned : size % 8 = 0) (halign : offset % 8 = 0) (hfits : offset ≤ p.length)
    (hword : offset + size < 2 ^ 32) (hturns : p.length < offset + turns) :
    ∃ fragments, fragment_turns p h size checksum_enabled turns offset = some fragments ∧
      fragments.flatMap Prod.fst = p.drop offset ∧ ∀ x ∈ fragments, IsFragment payload header x := by
  induction turns generalizing offset with
  | zero => omega
  | succ turns ih =>
    have hbound := hx.piece.1
    have halignedHeader := hx.aligned
    simp only at hbound halignedHeader
    have hoffset : (offset + h.fragment_offset) % 2 ^ 16 = offset + h.fragment_offset := by omega
    have hcheck : (offset + h.fragment_offset) % 8 = 0 := by omega
    rw [fragment_turns]
    simp only [Nat.mod_eq_of_lt hword, hoffset, FragmentHeader.set_fragment_offset, if_pos hcheck]
    by_cases hmore : offset + size < p.length
    · have hnext : (offset + size) % 2 ^ 16 = offset + size := by omega
      obtain ⟨rest, hrest, hdata, hspec⟩ := ih (show (offset + size) % 8 = 0 by omega) (by omega) (by omega) (by omega)
      have hturn := hx.turn size true (h.calc_checksum || checksum_enabled) halign (by omega)
        (by simpa using hmore)
      simp only [gt_iff_lt, hmore, decide_true, if_true, hnext, hrest, FragmentHeader.set_more_fragments,
        Option.bind_eq_bind, Option.bind_some, Option.pure_def]
      refine ⟨_, rfl, ?_, ?_⟩
      · rw [List.flatMap_cons, hdata, ← List.drop_drop, List.take_append_drop]
      · intro x hx
        obtain rfl | hx := List.mem_cons.mp hx
        · simpa only [Bool.true_or] using hturn
        · exact hspec x hx
    · have hturn := hx.turn (p.length - offset) false (h.calc_checksum || checksum_enabled) halign (by omega)
        (by simp; omega)
      have hdata : (p.drop offset).take (p.length - offset) = p.drop offset :=
        List.take_of_length_le (by rw [List.length_drop])
      simp only [gt_iff_lt, hmore, decide_false, Bool.false_eq_true, if_false, Option.bind_eq_bind, Option.bind_some,
        Option.pure_def]
      refine ⟨_, rfl, by simp [hdata], fun x hx => ?_⟩
      obtain rfl := List.mem_singleton.mp hx
      cases hm : h.more_fragments <;>
        simpa [hm, FragmentHeader.is_last_fragment, FragmentHeader.set_more_fragments,
          FragmentHeader.set_last_fragment] using hturn

theorem do_fragmentation_spec (hx : IsFragment payload header (p, h)) (hpayload : payload.length ≤ 65515)
    (hmtu : 68 ≤ mtu) (hword : mtu < 2 ^ 32) :
    ∃ fragments, do_fragmentation p h mtu checksum_enabled = some fragments ∧
      fragments.flatMap Prod.fst = p ∧ ∀ x ∈ fragments, IsFragment payload header x := by
  have hsize := fragment_size_eq hmtu hword
  exact fragment_turns_spec hx hpayload (by omega) (by omega) (Nat.zero_mod 8) (Nat.zero_le _) (by omega) (by omega)

theorem Chained.isFragment (hx : Chained payload header x) (hpayload : payload.length ≤ 65515)
    (hoffset : header.fragment_offset = 0) (hlast : header.more_fragments = false) :
    IsFragment payload header x := by
  induction hx with
  | whole =>
    constructor
    · rw [hoffset]
      exact .whole
    · simp [hoffset]
    · simp [FragmentHeader.is_last_fragment, hoffset, hlast]
    · simp [FragmentHeader.same_datagram]
  | fragment hchain hmtu hword hmade hx ih =>
    obtain ⟨made, hmade', _, hspec⟩ := do_fragmentation_spec ih hpayload hmtu hword
    obtain rfl := Option.some.inj (hmade'.symm.trans hmade)
    exact hspec _ hx

end Ipv4L3Protocol

end Ns3
