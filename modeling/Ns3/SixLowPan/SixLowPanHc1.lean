import Ns3.Internet.Ipv6Header

namespace Ns3

open ByteFormat

/-- How an address is compressed: whether its prefix and its interface identifier are inline. -/
inductive LowPanHc1Addr
  | hc1_piii | hc1_piic | hc1_pcii | hc1_pcic
deriving DecidableEq, Repr

def LowPanHc1Addr.code : LowPanHc1Addr → UInt8
  | hc1_piii => 0x00
  | hc1_piic => 0x01
  | hc1_pcii => 0x02
  | hc1_pcic => 0x03

/-- The cast of two bits of a byte. -/
def LowPanHc1Addr.of_code (code : UInt8) : LowPanHc1Addr :=
  if code = 0 then hc1_piii else if code = 1 then hc1_piic else if code = 2 then hc1_pcii else hc1_pcic

inductive LowPanHc1NextHeader
  | hc1_nc | hc1_udp | hc1_icmp | hc1_tcp
deriving DecidableEq, Repr

def LowPanHc1NextHeader.code : LowPanHc1NextHeader → UInt8
  | hc1_nc => 0x00
  | hc1_udp => 0x01
  | hc1_icmp => 0x02
  | hc1_tcp => 0x03

def LowPanHc1NextHeader.of_code (code : UInt8) : LowPanHc1NextHeader :=
  if code = 0 then hc1_nc else if code = 1 then hc1_udp else if code = 2 then hc1_icmp else hc1_tcp

/-- The constructor sets the hop limit only. -/
structure SixLowPanHc1 where
  hop_limit : UInt8 := 0
  src_compression : LowPanHc1Addr
  src_prefix : Fin 8 → UInt8
  src_interface : Fin 8 → UInt8
  dst_compression : LowPanHc1Addr
  dst_prefix : Fin 8 → UInt8
  dst_interface : Fin 8 → UInt8
  tcfl_compression : Bool
  traffic_class : UInt8
  flow_label : UInt32
  next_header_compression : LowPanHc1NextHeader
  next_header : UInt8
  hc2_header_present : Bool

namespace SixLowPanHc1

open LowPanHc1Addr LowPanHc1NextHeader

def lowpan_hc1 : UInt8 := 0x42

def set_next_header (h : SixLowPanHc1) (next_header : UInt8) : SixLowPanHc1 :=
  { h with
    next_header := next_header
    next_header_compression :=
      if next_header = Ipv6Header.ipv6_udp then hc1_udp
      else if next_header = Ipv6Header.ipv6_tcp then hc1_tcp
      else if next_header = Ipv6Header.ipv6_icmpv6 then hc1_icmp
      else hc1_nc }

def address_size : LowPanHc1Addr → ℕ
  | hc1_piii => 16
  | hc1_piic => 8
  | hc1_pcii => 8
  | hc1_pcic => 0

def get_serialized_size (h : SixLowPanHc1) : ℕ :=
  3 + address_size h.src_compression + address_size h.dst_compression + (if h.tcfl_compression then 0 else 4) +
    if h.next_header_compression = hc1_nc then 1 else 0

def bit (b : Bool) : UInt8 := if b then 1 else 0

def encoding (h : SixLowPanHc1) : UInt8 :=
  (((((((h.src_compression.code <<< 2) ||| h.dst_compression.code) <<< 1) ||| bit h.tcfl_compression) <<< 2) |||
    h.next_header_compression.code) <<< 1) ||| bit h.hc2_header_present

def write_address ( addr_prefix interface : Fin 8 → UInt8) : LowPanHc1Addr → List UInt8
  | hc1_piii => write_array addr_prefix 8 ++ write_array interface 8
  | hc1_piic => write_array addr_prefix 8
  | hc1_pcii => write_array interface 8
  | hc1_pcic => []

def write_flow (h : SixLowPanHc1) : List UInt8 :=
  if h.tcfl_compression then []
  else [h.traffic_class, (h.flow_label &&& 0xff).toUInt8, ((h.flow_label >>> 8) &&& 0xff).toUInt8,
    ((h.flow_label >>> 16) &&& 0xff).toUInt8]

def write_next_header (h : SixLowPanHc1) : List UInt8 :=
  if h.next_header_compression = hc1_nc then [h.next_header] else []

/-- `Serialize`, which asserts that no HC2 header is announced. -/
def serialize (h : SixLowPanHc1) : Option (List UInt8) :=
  if h.hc2_header_present = true then none
  else some ([lowpan_hc1, h.encoding, h.hop_limit] ++ write_address h.src_prefix h.src_interface h.src_compression ++
    write_address h.dst_prefix h.dst_interface h.dst_compression ++ h.write_flow ++ h.write_next_header)

/-- The prefix and the interface identifier of an address; what is not inline stays as it is. -/
def read_address ( addr_prefix interface : Fin 8 → UInt8) : LowPanHc1Addr → Reader ((Fin 8 → UInt8) × (Fin 8 → UInt8))
  | hc1_piii => do
    let addr_prefix ← read_array 8 8
    let interface ← read_array 8 8
    return ( addr_prefix, interface)
  | hc1_piic => do
    let addr_prefix ← read_array 8 8
    return ( addr_prefix, interface)
  | hc1_pcii => do
    let interface ← read_array 8 8
    return ( addr_prefix, interface)
  | hc1_pcic => return ( addr_prefix, interface)

def read_flow (traffic_class : UInt8) (flow_label : UInt32) (tcfl_compression : Bool) : Reader (UInt8 × UInt32) :=
  if tcfl_compression then return (traffic_class, flow_label)
  else do
    let traffic_class ← read_u8
    let temp_0 ← read_u8
    let temp_1 ← read_u8
    let temp_2 ← read_u8
    return (traffic_class, (((temp_2.toUInt32 <<< 8) ||| temp_1.toUInt32) <<< 8) ||| temp_0.toUInt32)

def read_next_header : LowPanHc1NextHeader → Reader UInt8
  | hc1_nc => read_u8
  | hc1_tcp => return Ipv6Header.ipv6_tcp
  | hc1_udp => return Ipv6Header.ipv6_udp
  | hc1_icmp => return Ipv6Header.ipv6_icmpv6

/-- `Deserialize`, with the size that it returns. -/
def deserialize (h : SixLowPanHc1) : Reader (SixLowPanHc1 × ℕ) := do
  let dispatch ← read_u8
  if dispatch ≠ lowpan_hc1 then return (h, 0)
  else do
    let encoding ← read_u8
    let hop_limit ← read_u8
    let src_compression := LowPanHc1Addr.of_code (encoding >>> 6)
    let dst_compression := LowPanHc1Addr.of_code ((encoding >>> 4) &&& 0x3)
    let tcfl_compression := decide ((encoding >>> 3) &&& 0x1 ≠ 0)
    let next_header_compression := LowPanHc1NextHeader.of_code ((encoding >>> 1) &&& 0x3)
    let hc2_header_present := decide (encoding &&& 0x1 ≠ 0)
    let ( src_prefix, src_interface) ← read_address h.src_prefix h.src_interface src_compression
    let ( dst_prefix, dst_interface) ← read_address h.dst_prefix h.dst_interface dst_compression
    let (traffic_class, flow_label) ← read_flow h.traffic_class h.flow_label tcfl_compression
    let next_header ← read_next_header next_header_compression
    check (hc2_header_present ≠ true)
    let h := SixLowPanHc1.mk hop_limit src_compression src_prefix src_interface dst_compression dst_prefix dst_interface
      tcfl_compression traffic_class flow_label next_header_compression next_header hc2_header_present
    return (h, h.get_serialized_size)

/-! ## The header is read back -/

def inline_prefix (c : LowPanHc1Addr) : Bool := c = hc1_piii ∨ c = hc1_piic

def inline_interface (c : LowPanHc1Addr) : Bool := c = hc1_piii ∨ c = hc1_pcii

/-- What a header that has other contents takes over from the bytes of one. -/
def received (h fresh : SixLowPanHc1) : SixLowPanHc1 where
  hop_limit := h.hop_limit
  src_compression := h.src_compression
  src_prefix := if inline_prefix h.src_compression then h.src_prefix else fresh.src_prefix
  src_interface := if inline_interface h.src_compression then h.src_interface else fresh.src_interface
  dst_compression := h.dst_compression
  dst_prefix := if inline_prefix h.dst_compression then h.dst_prefix else fresh.dst_prefix
  dst_interface := if inline_interface h.dst_compression then h.dst_interface else fresh.dst_interface
  tcfl_compression := h.tcfl_compression
  traffic_class := if h.tcfl_compression then fresh.traffic_class else h.traffic_class
  flow_label := if h.tcfl_compression then fresh.flow_label else h.flow_label
  next_header_compression := h.next_header_compression
  next_header := h.next_header
  hc2_header_present := false

/-- A header of which the compression of the next header says what it is, and whose flow label, if it is sent, has 24
bits. -/
structure Sendable (h : SixLowPanHc1) : Prop where
  next_header : h.next_header_compression = (h.set_next_header h.next_header).next_header_compression
  flow_label : h.tcfl_compression = false → h.flow_label &&& 0xffffff = h.flow_label
  hc2_header_present : h.hc2_header_present = false

variable {h fresh : SixLowPanHc1}

theorem encoding_fields (s d : LowPanHc1Addr) (t : Bool) (n : LowPanHc1NextHeader) (c : Bool) :
    let encoding := (((((((s.code <<< 2) ||| d.code) <<< 1) ||| bit t) <<< 2) ||| n.code) <<< 1) ||| bit c
    LowPanHc1Addr.of_code (encoding >>> 6) = s ∧ LowPanHc1Addr.of_code ((encoding >>> 4) &&& 0x3) = d ∧
      decide ((encoding >>> 3) &&& 0x1 ≠ 0) = t ∧ LowPanHc1NextHeader.of_code ((encoding >>> 1) &&& 0x3) = n ∧
      decide (encoding &&& 0x1 ≠ 0) = c := by
  cases s <;> cases d <;> cases t <;> cases n <;> cases c <;> decide

theorem reads_address (p i P I : Fin 8 → UInt8) (c : LowPanHc1Addr) :
    Reads (read_address p i c) (write_address P I c)
      (if inline_prefix c then P else p, if inline_interface c then I else i) := by
  cases c with
  | hc1_piii => exact (reads_full_array P).bind ((reads_full_array I).map fun interface => (P, interface))
  | hc1_piic => exact (reads_full_array P).map fun addr_prefix => ( addr_prefix, i)
  | hc1_pcii => exact (reads_full_array I).map fun interface => (p, interface)
  | hc1_pcic => exact Reads.pure (p, i)

theorem flow_label_of_bytes (w : UInt32) :
    ((((((w >>> 16) &&& 0xff).toUInt8.toUInt32 <<< 8) ||| ((w >>> 8) &&& 0xff).toUInt8.toUInt32) <<< 8) |||
      (w &&& 0xff).toUInt8.toUInt32) = w &&& 0xffffff := by
  apply UInt32.toBitVec_inj.mp
  simp only [UInt32.toBitVec_or, UInt32.toBitVec_and, UInt32.toBitVec_shiftLeft, UInt32.toBitVec_shiftRight,
    UInt8.toBitVec_toUInt32, UInt32.toBitVec_toUInt8]
  ext i hi
  interval_cases i <;> simp

theorem reads_flow (traffic_class : UInt8) (flow_label : UInt32) (hsend : Sendable h) :
    Reads (read_flow traffic_class flow_label h.tcfl_compression) h.write_flow
      (if h.tcfl_compression then traffic_class else h.traffic_class,
        if h.tcfl_compression then flow_label else h.flow_label) := by
  rw [read_flow, write_flow]
  split_ifs with ht
  · exact Reads.pure _
  · have hlow := flow_label_of_bytes h.flow_label
    rw [hsend.flow_label (Bool.eq_false_of_not_eq_true ht)] at hlow
    nth_rewrite 4 [← hlow]
    exact (reads_u8 _).bind ((reads_u8 _).bind ((reads_u8 _).bind ((reads_u8 _).map _)))

theorem reads_next_header (hsend : Sendable h) :
    Reads (read_next_header h.next_header_compression) h.write_next_header h.next_header := by
  have hnext := hsend.next_header
  rw [write_next_header]
  simp only [set_next_header] at hnext
  split_ifs at hnext with hudp htcp hicmp
  · rw [hnext, hudp]
    exact Reads.pure _
  · rw [hnext, htcp]
    exact Reads.pure _
  · rw [hnext, hicmp]
    exact Reads.pure _
  · rw [hnext]
    exact reads_u8 _

theorem reads_header (fresh : SixLowPanHc1) (hsend : Sendable h) {bytes : List UInt8} (hbytes : h.serialize = some bytes) :
    Reads (deserialize fresh) bytes (received h fresh, h.get_serialized_size) := by
  obtain ⟨hs, hd, ht, hn, hc⟩ := encoding_fields h.src_compression h.dst_compression h.tcfl_compression
    h.next_header_compression h.hc2_header_present
  have hdispatch : ¬lowpan_hc1 ≠ lowpan_hc1 := not_not.mpr rfl
  have hpresent : ¬h.hc2_header_present = true := by rw [hsend.hc2_header_present]; exact Bool.false_ne_true
  rw [serialize, if_neg hpresent, Option.some_inj] at hbytes
  have hsplit : bytes = [lowpan_hc1] ++ ([h.encoding] ++ ([h.hop_limit] ++
      (write_address h.src_prefix h.src_interface h.src_compression ++
      (write_address h.dst_prefix h.dst_interface h.dst_compression ++ (h.write_flow ++ (h.write_next_header ++ ([] ++ []))))))) := by
    rw [← hbytes]
    simp only [List.append_assoc, List.append_nil, List.cons_append, List.nil_append]
  rw [hsplit, deserialize]
  refine (reads_u8 _).bind ?_
  rw [if_neg hdispatch]
  refine (reads_u8 _).bind ((reads_u8 _).bind ?_)
  rw [encoding, hs, hd, ht, hn, hc]
  refine (reads_address _ _ _ _ _).bind ((reads_address _ _ _ _ _).bind ((reads_flow _ _ hsend).bind
    ((reads_next_header hsend).bind ((Reads.check hpresent).bind ?_))))
  rw [hsend.hc2_header_present]
  exact Reads.pure _

theorem length_write_address (P I : Fin 8 → UInt8) (c : LowPanHc1Addr) : (write_address P I c).length = address_size c := by
  cases c <;> simp [write_address, address_size, length_write_array]

theorem length_serialize {bytes : List UInt8} (hbytes : h.serialize = some bytes) : bytes.length = h.get_serialized_size := by
  rw [serialize] at hbytes
  split_ifs at hbytes
  rw [← Option.some_inj.mp hbytes, get_serialized_size, write_flow, write_next_header]
  simp only [List.length_append, length_write_address, List.length_cons, List.length_nil]
  split_ifs <;> rfl

end SixLowPanHc1

end Ns3
