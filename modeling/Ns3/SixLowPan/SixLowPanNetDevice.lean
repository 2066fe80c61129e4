import Ns3.SixLowPan.SixLowPanHc1

namespace Ns3.SixLowPanNetDevice

open ByteFormat Ipv6Address LowPanHc1Addr SixLowPanHc1

/-- How an address is compressed, given the one that its interface would make for itself. -/
def address_compression (addr my_addr : Ipv6Address) : LowPanHc1Addr :=
  let is_same := memcmp addr my_addr 8 8
  if addr.is_link_local && is_same then hc1_pcic
  else if addr.is_link_local then hc1_pcii
  else if is_same then hc1_piic
  else hc1_piii

/-- `CompressLowPanHc1` of the bytes of a packet, with the size that it returns. The new header holds `fresh` where it
is not set. -/
def compress_low_pan_hc1 (fresh : SixLowPanHc1) (packet : List UInt8) (src dst : LinkAddress) :
    Option (ℕ × List UInt8) := do
  let ((ipHeader, deserialized), _) ← (Ipv6Header.deserialize {}).run packet
  if deserialized ≠ 0 then do
    let packet := packet.drop deserialized
    let size := ipHeader.get_serialized_size
    let mySrcAddr ← make_autoconfigured_link_local_address src
    let src_compression := address_compression ipHeader.source_address mySrcAddr
    let myDstAddr ← make_autoconfigured_link_local_address dst
    let dst_compression := address_compression ipHeader.destination_address myDstAddr
    let tcfl_compression : Bool := ipHeader.get_flow_label = 0 ∧ ipHeader.traffic_class = 0
    let hc1Header := { fresh with
      hop_limit := ipHeader.hop_limit
      src_compression
      src_prefix := if inline_prefix src_compression then network ipHeader.source_address else fresh.src_prefix
      src_interface := if inline_interface src_compression then interface ipHeader.source_address else fresh.src_interface
      dst_compression
      dst_prefix := if inline_prefix dst_compression then network ipHeader.destination_address else fresh.dst_prefix
      dst_interface := if inline_interface dst_compression then interface ipHeader.destination_address
        else fresh.dst_interface
      tcfl_compression
      traffic_class := if tcfl_compression then fresh.traffic_class else ipHeader.traffic_class
      flow_label := if tcfl_compression then fresh.flow_label else ipHeader.get_flow_label }
    let hc1Header := { hc1Header.set_next_header ipHeader.next_header with hc2_header_present := false }
    let bytes ← hc1Header.serialize
    return (size, bytes ++ packet)
  else return (0, packet)

local instance address_length_ne_zero : NeZero 16 := ⟨by decide⟩

/-- The address that is made of what is inline and of the link-layer address, in an array that is not initialised. -/
def rebuild_address ( addr_prefix interface : Fin 8 → UInt8) (address : Fin 16 → UInt8) (link : LinkAddress) :
    LowPanHc1Addr → Option Ipv6Address
  | hc1_piii => some (memcpy (memcpy address 8 (get interface) 8) 0 (get addr_prefix) 8)
  | hc1_piic => make_autoconfigured_address link (memcpy (memcpy address 8 (fun _ => 0) 8) 0 (get addr_prefix) 8)
  -- only two of the eight bytes before the interface identifier are set
  | hc1_pcii => some (memcpy (Function.update (Function.update address 0 0xfe) 1 0x80) 8 (get interface) 8)
  | hc1_pcic => make_autoconfigured_link_local_address link

/-- What stands in memory that `DecompressLowPanHc1` does not initialise. -/
structure Uninitialised where
  encoding : SixLowPanHc1
  source : Fin 16 → UInt8
  destination : Fin 16 → UInt8

/-- The header that is made of the compressed one and two addresses. -/
def rebuild_header (encoding : SixLowPanHc1) (source_address destination_address : Ipv6Address) (payload_length : ℕ) :
    Ipv6Header :=
  let ipHeader : Ipv6Header := {
    hop_limit := encoding.hop_limit
    source_address
    destination_address
    next_header := encoding.next_header
    payload_length := UInt16.ofNat payload_length }
  if encoding.tcfl_compression = false then
    { ipHeader.set_flow_label encoding.flow_label with traffic_class := encoding.traffic_class }
  else { ipHeader.set_flow_label 0 with traffic_class := 0 }

def decompress_low_pan_hc1 (memory : Uninitialised) (packet : List UInt8) (src dst : LinkAddress) :
    Option (List UInt8) := do
  let ((encoding, ret), _) ← (deserialize memory.encoding).run packet
  let packet := packet.drop ret
  let source_address ← rebuild_address encoding.src_prefix encoding.src_interface memory.source src encoding.src_compression
  let destination_address ←
    rebuild_address encoding.dst_prefix encoding.dst_interface memory.destination dst encoding.dst_compression
  let ipHeader := rebuild_header encoding source_address destination_address packet.length
  if encoding.hc2_header_present = false then some (ipHeader.serialize ++ packet) else none

variable {address : Ipv6Address} {link : LinkAddress}

/-! ## One address -/

/-- The interface identifier is the one that the interface makes of its link-layer address. -/
def OwnIdentifier (address : Ipv6Address) (link : LinkAddress) : Prop :=
  interface address = interface (write_identifier link_local link)

instance : Decidable (OwnIdentifier address link) :=
  inferInstanceAs (Decidable (interface address = interface (write_identifier link_local link)))

/-- A link-local address has the identifier of its interface, and the address `::` is not the one of the zero 64-bit
link-layer address. -/
def Restorable (address : Ipv6Address) (link : LinkAddress) : Prop :=
  (address.is_link_local = true → OwnIdentifier address link) ∧ ¬(address = get_any ∧ link = .mac64 fun _ => 0)

theorem memcmp_iff {a b : Ipv6Address} : memcmp a b 8 8 = true ↔ interface a = interface b := by
  rw [memcmp, decide_eq_true_iff]
  constructor
  · intro h
    funext i
    exact h (Fin.natAdd 8 i) (Nat.le_add_right 8 i.val) (Nat.add_lt_add_left i.isLt 8)
  · intro h i hlow hhigh
    have hi := congrFun h ⟨i.val - 8, by omega⟩
    have heq : Fin.natAdd 8 (⟨i.val - 8, by omega⟩ : Fin 8) = i := Fin.ext (Nat.add_sub_of_le hlow)
    rwa [interface, interface, heq] at hi

theorem address_compression_eq (address : Ipv6Address) (link : LinkAddress) :
    address_compression address (write_identifier link_local link) =
      if address.is_link_local = true then if OwnIdentifier address link then hc1_pcic else hc1_pcii
      else if OwnIdentifier address link then hc1_piic else hc1_piii := by
  have hsame : memcmp address (write_identifier link_local link) 8 8 = decide (OwnIdentifier address link) :=
    Bool.eq_iff_iff.mpr (memcmp_iff.trans decide_eq_true_iff.symm)
  rw [address_compression, hsame]
  cases address.is_link_local <;> by_cases h : OwnIdentifier address link <;> simp [h]

theorem network_memcpy (a : Fin 16 → UInt8) (b : Fin 8 → UInt8) : network (memcpy a 0 (ByteFormat.get b) 8) = b := by
  funext i
  simp [network, memcpy, ByteFormat.get]

theorem interface_memcpy (a : Fin 16 → UInt8) (b : Fin 8 → UInt8) : interface (memcpy a 8 (ByteFormat.get b) 8) = b := by
  funext i
  have hi : i.val + 8 < 16 := by omega
  simp [interface, memcpy, ByteFormat.get, hi]

theorem interface_memcpy_network (a : Fin 16 → UInt8) (b : ℕ → UInt8) : interface (memcpy a 0 b 8) = interface a := by
  funext i
  simp [interface, memcpy]

theorem network_memcpy_interface (a : Fin 16 → UInt8) (b : ℕ → UInt8) : network (memcpy a 8 b 8) = network a := by
  funext i
  have hi : ¬8 ≤ i.val := by omega
  simp [network, memcpy, hi]

theorem rebuild_address_eq (P I : Fin 8 → UInt8) (leftover : Fin 16 → UInt8) (link : LinkAddress) (c : LowPanHc1Addr) :
    ∃ rebuilt : Ipv6Address,
      network rebuilt = (if c = hc1_pcic then network link_local
        else if c = hc1_pcii then network (Function.update (Function.update leftover 0 0xfe) 1 0x80) else P) ∧
      interface rebuilt = (if inline_interface c then I else interface (write_identifier link_local link)) ∧
      rebuild_address P I leftover link c = if c = hc1_piic ∧ rebuilt = get_any then none else some rebuilt := by
  cases c with
  | hc1_piii =>
    refine ⟨_, ?_, ?_, (if_neg (by rintro ⟨h, -⟩; cases h)).symm⟩
    · exact network_memcpy _ _
    · exact (interface_memcpy_network _ _).trans (interface_memcpy _ _)
  | hc1_piic =>
    refine ⟨write_identifier (memcpy (memcpy leftover 8 (fun _ => 0) 8) 0 (ByteFormat.get P) 8) link, ?_, ?_, ?_⟩
    · exact (network_write_identifier _ _).trans (network_memcpy _ _)
    · exact interface_write_identifier _ _ _
    · simp [rebuild_address, make_autoconfigured_address]
  | hc1_pcii =>
    refine ⟨_, ?_, ?_, (if_neg (by rintro ⟨h, -⟩; cases h)).symm⟩
    · exact network_memcpy_interface _ _
    · exact interface_memcpy _ _
  | hc1_pcic =>
    refine ⟨write_identifier link_local link, network_write_identifier _ _, rfl, ?_⟩
    rw [if_neg (by rintro ⟨h, -⟩; cases h)]
    exact make_autoconfigured_link_local_address_eq link

/-- The address `::` has the identifier of its interface exactly for the zero 64-bit link-layer address. -/
theorem ownIdentifier_any_iff : OwnIdentifier get_any link ↔ link = .mac64 fun _ => 0 := by
  rw [OwnIdentifier, ← interface_write_identifier_eq_any_iff link_local]
  exact eq_comm

theorem is_link_local_any : is_link_local get_any = false := by decide

/-- An address that was compressed and is made again, from what a header has that was not inline and an array. -/
def rebuilt (P I : Fin 8 → UInt8) (leftover : Fin 16 → UInt8) (address : Ipv6Address) (link : LinkAddress) :
    Option Ipv6Address :=
  let c := address_compression address (write_identifier link_local link)
  rebuild_address (if inline_prefix c then network address else P) (if inline_interface c then interface address else I)
    leftover link c

/-- An address comes back from every array exactly if it is restorable. -/
theorem rebuilt_iff (P I : Fin 8 → UInt8) :
    (∀ leftover, rebuilt P I leftover address link = some address) ↔ Restorable address link := by
  simp only [rebuilt]
  have hc := address_compression_eq address link
  generalize address_compression address (write_identifier link_local link) = c at hc
  by_cases hlocal : address.is_link_local = true <;> by_cases hown : OwnIdentifier address link
  · rw [if_pos hlocal, if_pos hown] at hc
    subst hc
    have haddress : write_identifier link_local link = address :=
      ext_halves ((network_write_identifier _ _).trans (is_link_local_iff.mp hlocal).symm) hown.symm
    refine iff_of_true (fun leftover => ?_) ⟨fun _ => hown, ?_⟩
    · exact (make_autoconfigured_link_local_address_eq link).trans (congrArg some haddress)
    · rintro ⟨rfl, -⟩
      exact absurd hlocal (by rw [is_link_local_any]; exact Bool.false_ne_true)
  · rw [if_pos hlocal, if_neg hown] at hc
    subst hc
    refine iff_of_false (fun h => ?_) fun h => hown (h.1 hlocal)
    obtain ⟨rebuilt, hnetwork, -, hrebuild⟩ := rebuild_address_eq (if inline_prefix hc1_pcii then network address else P)
      (if inline_interface hc1_pcii then interface address else I) (fun _ => 0xff) link hc1_pcii
    obtain rfl : rebuilt = address := Option.some_inj.mp (hrebuild.symm.trans (h _))
    rw [if_neg (by decide), if_pos rfl] at hnetwork
    -- the third byte is one that nothing was written to
    have hbyte := (congrFun hnetwork 2).symm.trans (congrFun (is_link_local_iff.mp hlocal) 2)
    exact absurd hbyte (by decide)
  · rw [if_neg hlocal, if_pos hown] at hc
    subst hc
    have hrebuild : ∀ leftover, rebuild_address (if inline_prefix hc1_piic then network address else P)
        (if inline_interface hc1_piic then interface address else I) leftover link hc1_piic =
        if address = get_any then none else some address := by
      intro leftover
      obtain ⟨rebuilt, hnetwork, hinterface, hrebuild⟩ :=
        rebuild_address_eq (if inline_prefix hc1_piic then network address else P)
          (if inline_interface hc1_piic then interface address else I) leftover link hc1_piic
      obtain rfl : rebuilt = address := ext_halves hnetwork (hinterface.trans hown.symm)
      rw [hrebuild]
      simp
    constructor
    · intro h
      refine ⟨fun h => absurd h hlocal, ?_⟩
      rintro ⟨hany, -⟩
      have hnone := (hrebuild 0).symm.trans (h 0)
      rw [if_pos hany] at hnone
      cases hnone
    · rintro ⟨-, hany⟩ leftover
      rw [hrebuild, if_neg]
      rintro rfl
      exact hany ⟨rfl, ownIdentifier_any_iff.mp hown⟩
  · rw [if_neg hlocal, if_neg hown] at hc
    subst hc
    refine iff_of_true (fun leftover => ?_) ⟨fun h => absurd h hlocal, ?_⟩
    · obtain ⟨rebuilt, hnetwork, hinterface, hrebuild⟩ :=
        rebuild_address_eq (if inline_prefix hc1_piii then network address else P)
          (if inline_interface hc1_piii then interface address else I) leftover link hc1_piii
      obtain rfl : rebuilt = address := ext_halves hnetwork hinterface
      exact hrebuild
    · rintro ⟨rfl, hlink⟩
      exact hown (ownIdentifier_any_iff.mpr hlink)

/-! ## The packet -/

variable {header : Ipv6Header} {payload : List UInt8} {src dst : LinkAddress} {fresh : SixLowPanHc1}

/-- The header that a compressed packet starts with. -/
def compressed (fresh : SixLowPanHc1) (header : Ipv6Header) (src dst : LinkAddress) : SixLowPanHc1 :=
  let src_compression := address_compression header.source_address (write_identifier link_local src)
  let dst_compression := address_compression header.destination_address (write_identifier link_local dst)
  let tcfl_compression : Bool := header.get_flow_label = 0 ∧ header.traffic_class = 0
  let hc1Header := { fresh with
    hop_limit := header.hop_limit
    src_compression
    src_prefix := if inline_prefix src_compression then network header.source_address else fresh.src_prefix
    src_interface := if inline_interface src_compression then interface header.source_address else fresh.src_interface
    dst_compression
    dst_prefix := if inline_prefix dst_compression then network header.destination_address else fresh.dst_prefix
    dst_interface := if inline_interface dst_compression then interface header.destination_address else fresh.dst_interface
    tcfl_compression
    traffic_class := if tcfl_compression then fresh.traffic_class else header.traffic_class
    flow_label := if tcfl_compression then fresh.flow_label else header.get_flow_label }
  { hc1Header.set_next_header header.next_header with hc2_header_present := false }

theorem compress_eq (fresh : SixLowPanHc1) (header : Ipv6Header) (payload : List UInt8) (src dst : LinkAddress) :
    ∃ bytes, (compressed fresh header src dst).serialize = some bytes ∧
      compress_low_pan_hc1 fresh (header.serialize ++ payload) src dst = some (40, bytes ++ payload) := by
  refine ⟨_, if_neg Bool.false_ne_true, ?_⟩
  have hread := Ipv6Header.reads_header header {} payload
  have hdrop : (header.serialize ++ payload).drop header.get_serialized_size = payload := by
    rw [← Ipv6Header.length_serialize, List.drop_left]
  rw [compress_low_pan_hc1, hread, make_autoconfigured_link_local_address_eq, make_autoconfigured_link_local_address_eq]
  simp only [Option.bind_eq_bind, Option.bind_some]
  rw [if_pos (show header.get_serialized_size ≠ 0 from Nat.succ_ne_zero 39), hdrop]
  rfl

theorem sendable_compressed (fresh : SixLowPanHc1) (header : Ipv6Header) (src dst : LinkAddress) :
    Sendable (compressed fresh header src dst) where
  next_header := rfl
  flow_label := by
    intro htcfl
    have hlabel : (compressed fresh header src dst).flow_label = header.get_flow_label :=
      if_neg (fun ht => Bool.false_ne_true (htcfl.symm.trans ht))
    rw [hlabel, Ipv6Header.get_flow_label]
    apply UInt32.toBitVec_inj.mp
    ext i hi
    interval_cases i <;> simp
  hc2_header_present := rfl

theorem rebuild_header_eq (hlength : header.payload_length.toNat = payload.length) (fresh memory : SixLowPanHc1)
    (s d : Ipv6Address) :
    rebuild_header (received (compressed fresh header src dst) memory) s d payload.length =
      { header with source_address := s, destination_address := d } := by
  have hpayload : UInt16.ofNat payload.length = header.payload_length := by
    rw [← hlength, UInt16.ofNat_toNat]
  have hlabel : header.get_flow_label.toBitVec.setWidth 20 = header.flow_label := by
    rw [Ipv6Header.get_flow_label]
    ext i hi
    simp
  by_cases hzero : header.get_flow_label = 0 ∧ header.traffic_class = 0
  · have htcfl : (compressed fresh header src dst).tcfl_compression = true := decide_eq_true hzero
    rw [hzero.1] at hlabel
    rw [rebuild_header, hpayload, if_neg (fun h => Bool.false_ne_true (h.symm.trans htcfl)), Ipv6Header.set_flow_label,
      hlabel, ← hzero.2]
    rfl
  · have htcfl : (compressed fresh header src dst).tcfl_compression = false := decide_eq_false hzero
    have hflow : (received (compressed fresh header src dst) memory).flow_label = header.get_flow_label :=
      (if_neg (fun h => Bool.false_ne_true (htcfl.symm.trans h))).trans
        (if_neg (fun h => Bool.false_ne_true (htcfl.symm.trans h)))
    have hclass : (received (compressed fresh header src dst) memory).traffic_class = header.traffic_class :=
      (if_neg (fun h => Bool.false_ne_true (htcfl.symm.trans h))).trans
        (if_neg (fun h => Bool.false_ne_true (htcfl.symm.trans h)))
    rw [rebuild_header, hpayload, if_pos (show (received (compressed fresh header src dst) memory).tcfl_compression = false
      from htcfl), Ipv6Header.set_flow_label, hflow, hlabel, hclass]
    rfl

theorem ite_inline {b b' : Bool} (hb : b = b') (x y z : Fin 8 → UInt8) :
    (if b = true then if b' = true then x else y else z) = if b' = true then x else z := by
  subst hb
  split_ifs <;> rfl

theorem rebuild_received_src (fresh memory : SixLowPanHc1) (header : Ipv6Header) (src dst : LinkAddress)
    (leftover : Fin 16 → UInt8) :
    let encoding := received (compressed fresh header src dst) memory
    rebuild_address encoding.src_prefix encoding.src_interface leftover src encoding.src_compression =
      rebuilt memory.src_prefix memory.src_interface leftover header.source_address src := by
  intro encoding
  have hprefix : encoding.src_prefix = _ := ite_inline rfl _ _ _
  have hinterface : encoding.src_interface = _ := ite_inline rfl _ _ _
  rw [ hprefix, hinterface]
  rfl

theorem rebuild_received_dst (fresh memory : SixLowPanHc1) (header : Ipv6Header) (src dst : LinkAddress)
    (leftover : Fin 16 → UInt8) :
    let encoding := received (compressed fresh header src dst) memory
    rebuild_address encoding.dst_prefix encoding.dst_interface leftover dst encoding.dst_compression =
      rebuilt memory.dst_prefix memory.dst_interface leftover header.destination_address dst := by
  intro encoding
  have hprefix : encoding.dst_prefix = _ := ite_inline rfl _ _ _
  have hinterface : encoding.dst_interface = _ := ite_inline rfl _ _ _
  rw [ hprefix, hinterface]
  rfl

theorem decompress_eq (hlength : header.payload_length.toNat = payload.length) (fresh : SixLowPanHc1)
    (memory : Uninitialised) {bytes : List UInt8} (hbytes : (compressed fresh header src dst).serialize = some bytes) :
    decompress_low_pan_hc1 memory (bytes ++ payload) src dst = do
      let s ← rebuilt memory.encoding.src_prefix memory.encoding.src_interface memory.source header.source_address src
      let d ← rebuilt memory.encoding.dst_prefix memory.encoding.dst_interface memory.destination
        header.destination_address dst
      return ({ header with source_address := s, destination_address := d }.serialize ++ payload) := by
  have hread := reads_header memory.encoding (sendable_compressed fresh header src dst) hbytes payload
  have hdrop : (bytes ++ payload).drop (compressed fresh header src dst).get_serialized_size = payload := by
    rw [← SixLowPanHc1.length_serialize hbytes, List.drop_left]
  rw [decompress_low_pan_hc1, hread]
  simp only [Option.bind_eq_bind, Option.bind_some, hdrop, rebuild_header_eq hlength, rebuild_received_src,
    rebuild_received_dst]
  rfl

theorem serialize_append_inj {header' : Ipv6Header} (h : header.serialize ++ payload = header'.serialize ++ payload) :
    header = header' := by
  have hread := Ipv6Header.reads_header header {} payload
  rw [h, Ipv6Header.reads_header header' {} payload] at hread
  exact congrArg (fun r : (Ipv6Header × ℕ) × List UInt8 => r.1.1) (Option.some_inj.mp hread).symm

/-- Compressed and decompressed with the same link-layer addresses, a packet is what it was, whatever memory holds that
was not initialised. -/
def RoundTrips (header : Ipv6Header) (payload : List UInt8) (src dst : LinkAddress) : Prop :=
  ∀ fresh memory, ∃ size packet,
    compress_low_pan_hc1 fresh (header.serialize ++ payload) src dst = some (size, packet) ∧
      decompress_low_pan_hc1 memory packet src dst = some (header.serialize ++ payload)

theorem decompress_eq_some_iff (hlength : header.payload_length.toNat = payload.length) (fresh : SixLowPanHc1)
    (memory : Uninitialised) {bytes : List UInt8} (hbytes : (compressed fresh header src dst).serialize = some bytes) :
    decompress_low_pan_hc1 memory (bytes ++ payload) src dst = some (header.serialize ++ payload) ↔
      rebuilt memory.encoding.src_prefix memory.encoding.src_interface memory.source header.source_address src =
          some header.source_address ∧
        rebuilt memory.encoding.dst_prefix memory.encoding.dst_interface memory.destination header.destination_address dst =
          some header.destination_address := by
  rw [decompress_eq hlength fresh memory hbytes]
  constructor
  · intro h
    obtain ⟨s, hs, h⟩ := Option.bind_eq_some_iff.mp h
    obtain ⟨d, hd, h⟩ := Option.bind_eq_some_iff.mp h
    have hheader := serialize_append_inj (Option.some_inj.mp h)
    rw [hs, hd]
    exact ⟨congrArg some (congrArg Ipv6Header.source_address hheader),
      congrArg some (congrArg Ipv6Header.destination_address hheader)⟩
  · rintro ⟨hs, hd⟩
    rw [hs, hd]
    rfl

/-- Contents that a header may have before it is set. -/
def anyHeader : SixLowPanHc1 := ⟨0, hc1_piii, 0, 0, hc1_piii, 0, 0, false, 0, 0, .hc1_nc, 0, false⟩

theorem RoundTrips.rebuilt (hlength : header.payload_length.toNat = payload.length)
    (h : RoundTrips header payload src dst) (source destination : Fin 16 → UInt8) :
    rebuilt 0 0 source header.source_address src = some header.source_address ∧
      rebuilt 0 0 destination header.destination_address dst = some header.destination_address := by
  obtain ⟨bytes, hbytes, hcompress⟩ := compress_eq anyHeader header payload src dst
  obtain ⟨size, packet, hpacket, hdecompress⟩ := h anyHeader ⟨anyHeader, source, destination⟩
  obtain rfl : bytes ++ payload = packet := congrArg Prod.snd (Option.some_inj.mp (hcompress.symm.trans hpacket))
  exact (decompress_eq_some_iff hlength anyHeader ⟨anyHeader, source, destination⟩ hbytes).mp hdecompress

/-- A packet comes back exactly if both its addresses do. -/
theorem hc1_round_trip_iff (hlength : header.payload_length.toNat = payload.length) :
    RoundTrips header payload src dst ↔
      Restorable header.source_address src ∧ Restorable header.destination_address dst := by
  constructor
  · intro h
    exact ⟨(rebuilt_iff 0 0).mp fun leftover => (h.rebuilt hlength leftover 0).1,
      (rebuilt_iff 0 0).mp fun leftover => (h.rebuilt hlength 0 leftover).2⟩
  · rintro ⟨hsource, hdestination⟩ fresh memory
    obtain ⟨bytes, hbytes, hcompress⟩ := compress_eq fresh header payload src dst
    exact ⟨40, bytes ++ payload, hcompress, (decompress_eq_some_iff hlength fresh memory hbytes).mpr
      ⟨(rebuilt_iff _ _).mpr hsource _, (rebuilt_iff _ _).mpr hdestination _⟩⟩

/-- From `2001:db8::5` to the link-local address of the 16-bit address 1, with a traffic class. -/
theorem hc1_round_trip_mixed :
    RoundTrips {
      traffic_class := 3
      payload_length := 2
      source_address := ![0x20, 0x01, 0x0d, 0xb8, 0, 0, 0, 0, 0, 0, 0, 0, 0, 0, 0, 5]
      destination_address := ![0xfe, 0x80, 0, 0, 0, 0, 0, 0, 0, 0, 0, 0xff, 0xfe, 0, 0, 1] } [7, 9]
      (.mac48 ![2, 0, 0, 0, 0, 5]) (.mac16 ![0, 1]) :=
  (hc1_round_trip_iff (by decide)).mpr
    ⟨⟨by decide, fun h => absurd h.1 (by decide)⟩, ⟨by decide, fun h => absurd h.1 (by decide)⟩⟩

/-- From `fe80::1`, which is not the address that the interface makes for itself: the bytes from the third to the
eighth are what the memory held. -/
theorem hc1_identifier_inline_lost :
    ¬RoundTrips { source_address := ![0xfe, 0x80, 0, 0, 0, 0, 0, 0, 0, 0, 0, 0, 0, 0, 0, 1] } [] (.mac16 ![0, 1])
      (.mac16 ![0, 2]) := by
  intro h
  have hsource := (h.rebuilt rfl (fun _ => 0xff) 0).1
  exact absurd hsource (by decide)

end Ns3.SixLowPanNetDevice
