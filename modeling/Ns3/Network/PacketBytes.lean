import Mathlib

namespace Ns3

/-- The bytes that the buffer of a `Packet` holds. -/
abbrev PacketBytes := List UInt8

namespace PacketBytes

def get_size (p : PacketBytes) : UInt32 := UInt32.ofNat p.length

/-- `CreateFragment`; `none` is its failing assertion. The assertion adds modulo 2 ^ 32, and a
range that passes it only so is beyond the packet and gives no bytes. -/
def create_fragment (p : PacketBytes) (start length : UInt32) : Option PacketBytes :=
  if start + length ≤ p.get_size then
    some (if start.toNat + length.toNat ≤ p.length then (p.drop start.toNat).take length.toNat else [])
  else none

theorem get_size_toNat {p : PacketBytes} (hsize : p.length < 2 ^ 32) : p.get_size.toNat = p.length :=
  UInt32.toNat_ofNat_of_lt' hsize

theorem create_fragment_spec {p : PacketBytes} {start length : ℕ} (hsize : p.length < 2 ^ 32)
    (hrange : start + length ≤ p.length) :
    p.create_fragment (UInt32.ofNat start) (UInt32.ofNat length) = some ((p.drop start).take length) := by
  have hstart : (UInt32.ofNat start).toNat = start := UInt32.toNat_ofNat_of_lt' (lt_of_le_of_lt (by omega) hsize)
  have hlength : (UInt32.ofNat length).toNat = length := UInt32.toNat_ofNat_of_lt' (lt_of_le_of_lt (by omega) hsize)
  have hpass : UInt32.ofNat start + UInt32.ofNat length ≤ p.get_size := by
    rw [← UInt32.ofNat_add, UInt32.le_iff_toNat_le, get_size_toNat hsize,
      UInt32.toNat_ofNat_of_lt' (lt_of_le_of_lt hrange hsize)]
    exact hrange
  rw [create_fragment, if_pos hpass, hstart, hlength, if_pos hrange]

end PacketBytes

end Ns3
