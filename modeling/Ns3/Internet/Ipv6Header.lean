import Ns3.Foundation.ByteFormat
import Ns3.Network.Address

namespace Ns3

open ByteFormat

abbrev Ipv6Address := Fin 16 → UInt8

/-- An address of one of the link-layer types. -/
inductive LinkAddress
  | mac8 (byte : UInt8)
  | mac16 (bytes : Mac16Address)
  | mac48 (bytes : Mac48Address)
  | mac64 (bytes : Mac64Address)

namespace Ipv6Address

def get_any : Ipv6Address := fun _ => 0

/-- The bytes of the prefix of 64 bits. -/
def prefix_64 : Fin 16 → UInt8 := fun i => if i.val < 8 then 0xff else 0

def combine_prefix (address : Ipv6Address) (bytes : Fin 16 → UInt8) : Ipv6Address := fun i => address i &&& bytes i

/-- The address `fe80::`. -/
def link_local : Ipv6Address := fun i => if i = 0 then 0xfe else if i = 1 then 0x80 else 0

def is_link_local (address : Ipv6Address) : Bool := address.combine_prefix prefix_64 = link_local

/-- The interface identifier of a link-layer address, written over the last bytes of a buffer. -/
def write_identifier (buf2 : Fin 16 → UInt8) : LinkAddress → Ipv6Address
  | .mac8 byte =>
    let buf2 := memcpy (memcpy buf2 8 (fun _ => 0) 8) 14 (get ![0, byte]) 2
    Function.update (Function.update buf2 11 0xff) 12 0xfe
  | .mac16 bytes =>
    let buf2 := memcpy (memcpy buf2 8 (fun _ => 0) 8) 14 (get bytes) 2
    Function.update (Function.update buf2 11 0xff) 12 0xfe
  | .mac48 bytes =>
    let buf2 := Function.update (Function.update (memcpy buf2 8 (get bytes) 3) 11 0xff) 12 0xfe
    let buf2 := memcpy buf2 13 (fun i => get bytes (i + 3)) 3
    Function.update buf2 8 (buf2 8 ^^^ 0x02)
  | .mac64 bytes => memcpy buf2 8 (get bytes) 8

/-- `MakeAutoconfiguredAddress`, which aborts where the result is `::`. -/
def make_autoconfigured_address (addr : LinkAddress) (buf2 : Ipv6Address) : Option Ipv6Address :=
  let ipv6Addr := write_identifier buf2 addr
  if ipv6Addr = get_any then none else some ipv6Addr

def make_autoconfigured_link_local_address (addr : LinkAddress) : Option Ipv6Address :=
  let ipv6Addr := write_identifier link_local addr
  if ipv6Addr = get_any then none else some ipv6Addr

/-! ## The two halves of an address -/

variable {address address' : Ipv6Address}

def network (address : Ipv6Address) : Fin 8 → UInt8 := fun i => address (Fin.castLE (by decide) i)

def interface (address : Ipv6Address) : Fin 8 → UInt8 := fun i => address (Fin.natAdd 8 i)

theorem ext_halves (hnetwork : network address = network address') (hinterface : interface address = interface address') :
    address = address' := by
  funext i
  by_cases hi : i.val < 8
  · exact congrFun hnetwork ⟨i.val, hi⟩
  · have hlast := congrFun hinterface ⟨i.val - 8, by omega⟩
    have heq : Fin.natAdd 8 (⟨i.val - 8, by omega⟩ : Fin 8) = i := by
      apply Fin.ext
      exact Nat.add_sub_of_le (Nat.le_of_not_lt hi)
    rw [interface, interface, heq] at hlast
    exact hlast

theorem is_link_local_iff : is_link_local address = true ↔ network address = network link_local := by
  rw [is_link_local, decide_eq_true_iff]
  constructor
  · intro heq
    funext i
    have hi := congrFun heq (Fin.castLE (by decide) i)
    rw [ combine_prefix, prefix_64, if_pos (by exact i.isLt)] at hi
    rw [network, network, ← hi]
    exact (UInt8.and_neg_one).symm
  · intro heq
    funext i
    rw [ combine_prefix, prefix_64]
    split_ifs with hi
    · have hnetwork := congrFun heq ⟨i.val, hi⟩
      have hone : address i &&& 0xff = address i := UInt8.and_neg_one
      rw [hone]
      exact hnetwork
    · rw [UInt8.and_zero, link_local, if_neg (by rintro rfl; exact hi (by decide)),
        if_neg (by rintro rfl; exact hi (by decide))]

theorem network_write_identifier (buf2 : Fin 16 → UInt8) (addr : LinkAddress) :
    network (write_identifier buf2 addr) = network buf2 := by
  funext i
  rw [network, network]
  have hi : (Fin.castLE (by decide) i : Fin 16).val < 8 := i.isLt
  generalize (Fin.castLE (by decide) i : Fin 16) = j at hi
  cases addr <;> simp only [write_identifier, memcpy, Function.update_apply] <;> grind

theorem interface_write_identifier (buf2 buf2' : Fin 16 → UInt8) (addr : LinkAddress) :
    interface (write_identifier buf2 addr) = interface (write_identifier buf2' addr) := by
  funext i
  rw [interface, interface]
  have hi : 8 ≤ (Fin.natAdd 8 i : Fin 16).val := Nat.le_add_right 8 i.val
  generalize (Fin.natAdd 8 i : Fin 16) = j at hi
  cases addr <;> simp [write_identifier, memcpy, Function.update_apply] <;> grind

theorem make_autoconfigured_link_local_address_eq (addr : LinkAddress) :
    make_autoconfigured_link_local_address addr = some (write_identifier link_local addr) := by
  have hne : write_identifier link_local addr ≠ get_any := by
    intro h
    have hfirst := congrFun ((network_write_identifier link_local addr).symm.trans (congrArg network h)) 0
    exact absurd hfirst (by decide)
  rw [make_autoconfigured_link_local_address, if_neg hne]

theorem interface_mac64 (buf2 : Fin 16 → UInt8) (bytes : Mac64Address) :
    interface (write_identifier buf2 (.mac64 bytes)) = bytes := by
  funext i
  have hi : i.val + 8 < 16 := by omega
  simp [interface, write_identifier, memcpy, ByteFormat.get, hi]

theorem interface_write_identifier_eq_any_iff (buf2 : Fin 16 → UInt8) {addr : LinkAddress} :
    interface (write_identifier buf2 addr) = interface get_any ↔ addr = .mac64 fun _ => 0 := by
  constructor
  · intro h
    have hbyte : write_identifier buf2 addr 11 = 0 := congrFun h 3
    cases addr with
    | mac8 byte => exact absurd hbyte (by simp [write_identifier])
    | mac16 bytes => exact absurd hbyte (by simp [write_identifier])
    | mac48 bytes => exact absurd hbyte (by simp [write_identifier, memcpy])
    | mac64 bytes =>
      rw [interface_mac64] at h
      rw [h]
      rfl
  · rintro rfl
    rw [interface_mac64]
    rfl

end Ipv6Address

structure Ipv6Header where
  traffic_class : UInt8 := 0
  flow_label : BitVec 20 := 1
  payload_length : UInt16 := 0
  next_header : UInt8 := 0
  hop_limit : UInt8 := 0
  source_address : Ipv6Address := Ipv6Address.get_any
  destination_address : Ipv6Address := Ipv6Address.get_any

namespace Ipv6Header

def ipv6_tcp : UInt8 := 6

def ipv6_udp : UInt8 := 17

def ipv6_icmpv6 : UInt8 := 58

/-- `SetFlowLabel`: the field keeps 20 bits. -/
def set_flow_label (h : Ipv6Header) (flow : UInt32) : Ipv6Header := { h with flow_label := flow.toBitVec.setWidth 20 }

def get_flow_label (h : Ipv6Header) : UInt32 := UInt32.ofBitVec (h.flow_label.setWidth 32)

def get_serialized_size (_ : Ipv6Header) : ℕ := 10 * 4

def v_tc_fl (h : Ipv6Header) : UInt32 := ((6 : UInt32) <<< 28) ||| (h.traffic_class.toUInt32 <<< 20) ||| h.get_flow_label

def serialize (h : Ipv6Header) : List UInt8 :=
  write_hton_u32 h.v_tc_fl ++ write_hton_u16 h.payload_length ++ [h.next_header, h.hop_limit] ++
    write_array h.source_address 16 ++ write_array h.destination_address 16

/-- `Deserialize`, with the size that it returns: 0 for a header of another version. -/
def deserialize (h : Ipv6Header) : Reader (Ipv6Header × ℕ) := do
  let vTcFl ← read_ntoh_u32
  if vTcFl >>> 28 ≠ 6 then return (h, 0)
  else do
    let payload_length ← read_ntoh_u16
    let next_header ← read_u8
    let hop_limit ← read_u8
    let source_address ← read_array 16 16
    let destination_address ← read_array 16 16
    let h := {
      traffic_class := ((vTcFl >>> 20) &&& 0x000000ff).toUInt8
      flow_label := (vTcFl &&& 0xfffff).toBitVec.setWidth 20
      payload_length
      next_header
      hop_limit
      source_address
      destination_address }
    return (h, h.get_serialized_size)

theorem v_tc_fl_version (h : Ipv6Header) : h.v_tc_fl >>> 28 = 6 := by
  rw [v_tc_fl, get_flow_label]
  apply UInt32.toBitVec_inj.mp
  ext i hi
  interval_cases i <;> simp

theorem v_tc_fl_traffic_class (h : Ipv6Header) : ((h.v_tc_fl >>> 20) &&& 0x000000ff).toUInt8 = h.traffic_class := by
  rw [v_tc_fl, get_flow_label]
  apply UInt8.toBitVec_inj.mp
  ext i hi
  interval_cases i <;> simp

theorem v_tc_fl_flow_label (h : Ipv6Header) : (h.v_tc_fl &&& 0xfffff).toBitVec.setWidth 20 = h.flow_label := by
  rw [v_tc_fl, get_flow_label]
  ext i hi
  interval_cases i <;> simp

theorem reads_header (h h' : Ipv6Header) : Reads (deserialize h') h.serialize (h, h.get_serialized_size) := by
  have hsource := reads_full_array h.source_address
  have hdestination := reads_full_array h.destination_address
  have hversion : ¬h.v_tc_fl >>> 28 ≠ 6 := not_not.mpr h.v_tc_fl_version
  have hbytes : h.serialize = write_hton_u32 h.v_tc_fl ++ (write_hton_u16 h.payload_length ++ ([h.next_header] ++
      ([h.hop_limit] ++ (write_array h.source_address 16 ++ (write_array h.destination_address 16 ++ []))))) := by
    simp only [serialize, List.append_assoc, List.append_nil, List.cons_append, List.nil_append]
  rw [hbytes, deserialize]
  refine (reads_u32 _).bind ?_
  rw [if_neg hversion, v_tc_fl_traffic_class, v_tc_fl_flow_label]
  refine (reads_u16 _).bind ((reads_u8 _).bind ((reads_u8 _).bind (hsource.bind (hdestination.bind ?_))))
  exact Reads.pure (h, h.get_serialized_size)

theorem length_serialize (h : Ipv6Header) : h.serialize.length = h.get_serialized_size := by
  simp only [serialize, List.length_append, length_write_array (le_refl 16)]
  rfl

end Ipv6Header

end Ns3
