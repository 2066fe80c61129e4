import Ns3.Foundation.ByteFormat
import Ns3.Wifi.CtrlBAckResponseHeader

namespace Ns3.CtrlBAckResponseHeader

open ByteFormat

variable (h : CtrlBAckResponseHeader) (index : ℕ)

/-- The bitmap lengths that `BlockAckType` takes for a variant. -/
def default_bitmap_len : BlockAckVariant → List ℕ
  | .basic => [128]
  | .compressed | .extended_compressed => [8]
  | .multi_tid | .multi_sta => []

def set_type (variant : BlockAckVariant) (bitmap_len : List ℕ) : CtrlBAckResponseHeader :=
  { h with
    variant := variant
    bitmap_len := bitmap_len
    ba_info := bitmap_len.map fun len => { bitmap := List.replicate len 0 } }

/-- A header as its constructor leaves it. -/
def init : CtrlBAckResponseHeader :=
  set_type { variant := .basic, bitmap_len := [], ba_info := [] } .basic (default_bitmap_len .basic)

def get_aid11 (info : BaInfoInstance) : BitVec 16 := info.aid_tid_info &&& 0x07ff

/-- `GetSerializedSize`, which looks at the type only. -/
def get_serialized_size : Option ℕ :=
  match h.variant with
  | .basic | .compressed | .extended_compressed => do
    let len ← h.bitmap_len[0]?
    return 2 + (2 + len)
  | .multi_tid => some (2 + (2 + 2 + 8) * (h.tid_info + 1))
  | .multi_sta => some (2 + (h.bitmap_len.map fun len => 2 + (if len > 0 then 2 else 0) + len).sum)

def ba_type : BlockAckVariant → UInt16
  | .basic => 0
  | .compressed => (0x02 : UInt16) <<< 1
  | .extended_compressed => (0x01 : UInt16) <<< 1
  | .multi_tid => (0x03 : UInt16) <<< 1
  | .multi_sta => (0x0b : UInt16) <<< 1

def get_ba_control : UInt16 :=
  let res : UInt16 := (if h.ba_ack_policy then 0x1 else 0) ||| ba_type h.variant
  if h.variant = .multi_sta then res else res ||| ((UInt16.ofNat h.tid_info <<< 12) &&& 0xf000)

def variant_of_ba_control (ba : UInt16) : Option BlockAckVariant :=
  let code := (ba >>> 1) &&& 0x0f
  if code = 0x03 then some .multi_tid
  else if code = 0x01 then some .extended_compressed
  else if code = 0x02 then some .compressed
  else if code = 0 then some .basic
  else if code = 0x0b then some .multi_sta
  else none

def set_ba_control (ba : UInt16) : Option CtrlBAckResponseHeader := do
  let variant ← variant_of_ba_control ba
  let h := set_type { h with ba_ack_policy := ba &&& 0x01 = 1 } variant (default_bitmap_len variant)
  return if variant = .multi_sta then h else { h with tid_info := ((ba >>> 12) &&& 0x0f).toNat }

/-- The fragment number for the bitmap length in a multi-STA block ack. -/
def fragment_number (len : ℕ) : UInt16 :=
  if len = 16 then 0x0002 else if len = 32 then 0x0004 else if len = 4 then 0x0006 else 0

def get_starting_sequence_control : Option UInt16 := do
  let info ← h.info index
  let ret : UInt16 := (UInt16.ofNat info.starting_seq <<< 4) &&& 0xfff0
  match h.variant with
  | .compressed => do
    let len ← h.bitmap_len[0]?
    return if len = 32 then ret ||| 0x0004 else ret
  | .multi_sta => do
    let len ← h.bitmap_len[index]?
    if h.ba_info.length ≠ h.bitmap_len.length ∨ info.bitmap = [] then none
    else return ret ||| fragment_number len
  | _ => return ret

/-- The bitmap length that the fragment number stands for; fragmentation level 3 is not supported. -/
def bitmap_len_of (seq_control : UInt16) : Option ℕ :=
  if seq_control &&& 0x0001 = 1 then none
  else if (seq_control >>> 3) &&& 0x0001 = 0 then
    let code := (seq_control >>> 1) &&& 0x0003
    if code = 0 then some 8 else if code = 1 then some 16 else if code = 2 then some 32 else some 4
  else none

def set_starting_sequence_control (seq_control : UInt16) : Option CtrlBAckResponseHeader := do
  let info ← h.info index
  let h ← match h.variant with
    | .compressed => do
      let len ← bitmap_len_of seq_control
      if len = 8 ∨ len = 32 then some (h.set_type .compressed [len]) else none
    | .multi_sta => do
      let len ← bitmap_len_of seq_control
      some { h.set_info index { info with bitmap := List.replicate len 0 } with
        bitmap_len := h.bitmap_len.set index len }
    | _ => some h
  let info ← h.ba_info[index]?
  return h.set_info index { info with starting_seq := ((seq_control >>> 4) &&& 0x0fff).toNat }

def serialize_bitmap : Option (List UInt8) := do
  let info ← h.info index
  if h.variant = .multi_tid then none else return info.bitmap.map UInt8.ofBitVec

def deserialize_bitmap : Reader CtrlBAckResponseHeader := do
  let info ← lift (h.info index)
  let len ← lift h.bitmap_len[index]?
  check (h.variant ≠ .multi_tid ∧ len ≤ info.bitmap.length)
  let bytes ← read_bytes len
  return h.set_info index { info with bitmap := bytes.map UInt8.toBitVec ++ info.bitmap.drop len }

def serialize_info : Option (List UInt8) := do
  let info ← h.info index
  let aid_tid_info := write_htolsb_u16 (UInt16.ofBitVec info.aid_tid_info)
  if get_aid11 info ≠ 2045 then
    if info.bitmap = [] then return aid_tid_info
    else
      let control ← h.get_starting_sequence_control index
      let bitmap ← h.serialize_bitmap index
      return aid_tid_info ++ write_htolsb_u16 control ++ bitmap
  else return aid_tid_info ++ write_u32 0 ++ write_array info.ra 6

def serialize : Option (List UInt8) :=
  match h.variant with
  | .basic | .compressed | .extended_compressed => do
    let control ← h.get_starting_sequence_control 0
    let bitmap ← h.serialize_bitmap 0
    return write_htolsb_u16 h.get_ba_control ++ write_htolsb_u16 control ++ bitmap
  | .multi_sta => do
    let fields ← (List.range h.ba_info.length).mapM h.serialize_info
    return write_htolsb_u16 h.get_ba_control ++ fields.flatten
  | .multi_tid => none

/-- A turn of the loop over the Per AID TID Info fields. -/
def deserialize_info (p : CtrlBAckResponseHeader × ℕ) : Reader (CtrlBAckResponseHeader × ℕ) := do
  let (h, index) := p
  let aid_tid_info ← read_lsbtoh_u16
  let info : BaInfoInstance := { aid_tid_info := aid_tid_info.toBitVec, bitmap := [] }
  let next := { h with ba_info := h.ba_info ++ [info], bitmap_len := h.bitmap_len ++ [0] }
  if get_aid11 info ≠ 2045 then
    if !get_ack_type info && get_tid_info info < 8 then do
      let control ← read_lsbtoh_u16
      let next ← lift (next.set_starting_sequence_control index control)
      let next ← next.deserialize_bitmap index
      return (next, index + 1)
    else return (next, index + 1)
  else do
    let _ ← read_u32
    let ra ← read_array 6 6
    return ({ h with ba_info := h.ba_info ++ [{ info with ra := ra }], bitmap_len := h.bitmap_len ++ [8] }, index + 1)

def deserialize : Reader CtrlBAckResponseHeader := do
  let ba ← read_lsbtoh_u16
  let h ← lift (h.set_ba_control ba)
  match h.variant with
  | .basic | .compressed | .extended_compressed => do
    let control ← read_lsbtoh_u16
    let h ← lift (h.set_starting_sequence_control 0 control)
    h.deserialize_bitmap 0
  | .multi_sta => do
    let (h, _) ← read_rest deserialize_info (h, 0)
    return h
  | .multi_tid => lift none

/-- `SetReceivedPacket` for pairs of a sequence number and an index. -/
def set_received_packets (calls : List (ℕ × ℕ)) : Option CtrlBAckResponseHeader :=
  calls.foldlM (fun h c => h.set_received_packet c.2 c.1) h

end Ns3.CtrlBAckResponseHeader
