import Ns3.Foundation.ByteFormat
import Ns3.Internet.Rip

namespace Ns3

open ByteFormat

/-- An RTE as it is made: the next hop, which nothing sets, is `0.0.0.0`. -/
def RipRte.initial : RipRte :=
  { prefixAddr := Ipv4Address.get_loopback, subnet_mask := 0, route_tag := 0, route_metric := 16 }

def RipRte.serialize (rte : RipRte) : List UInt8 :=
  write_hton_u16 2 ++ (write_hton_u16 rte.route_tag ++ (write_hton_u32 rte.prefixAddr ++
    (write_hton_u32 rte.subnet_mask ++ (write_hton_u32 0 ++
      write_hton_u32 (UInt32.ofNat rte.route_metric)))))

/-- An RTE of another address family is left as it is made, and nothing is read. -/
def RipRte.deserialize : Reader RipRte := do
  let buffer ← get
  let tmp ← read_ntoh_u16
  if tmp ≠ 2 then
    set buffer
    return .initial
  else
    let m_tag ← read_ntoh_u16
    let m_prefix ← read_ntoh_u32
    let m_subnetMask ← read_ntoh_u32
    let _ ← read_ntoh_u32
    let m_metric ← read_ntoh_u32
    return ⟨ m_prefix, m_subnetMask, m_tag, m_metric.toNat⟩

namespace RipHeader

def REQUEST : UInt8 := 1
def RESPONSE : UInt8 := 2

def get_serialized_size (rtes : List RipRte) : ℕ := 4 + rtes.length * 20

def serialize (m_command : UInt8) (rtes : List RipRte) : List UInt8 :=
  [m_command] ++ ([2] ++ ([0, 0] ++ rtes.flatMap RipRte.serialize))

def read_rtes : ℕ → Reader (List RipRte)
  | 0 => return []
  | n + 1 => do
    let rte ← RipRte.deserialize
    let rtes ← read_rtes n
    return rte :: rtes

/-- The command and the RTEs; none where the header is refused. The RTEs are counted in eight bits. -/
def deserialize : Reader (Option (UInt8 × List RipRte)) := do
  let temp ← read_u8
  if temp = REQUEST ∨ temp = RESPONSE then
    let version ← read_u8
    if version ≠ 2 then return none
    else
      let flags ← read_bytes 2
      if flags ≠ [0, 0] then return none
      else
        let buffer ← get
        let rteNumber := (buffer.length / 20).toUInt8
        let rtes ← read_rtes rteNumber.toNat
        return some (temp, rtes)
  else return none

variable {rte : RipRte} {rtes : List RipRte}

theorem length_serialize_rte (rte : RipRte) : rte.serialize.length = 20 := rfl

theorem length_serialize (m_command : UInt8) (rtes : List RipRte) :
    (serialize m_command rtes).length = get_serialized_size rtes := by
  have hsum : (rtes.flatMap RipRte.serialize).length = rtes.length * 20 := by
    induction rtes with
    | nil => rfl
    | cons rte rtes ih =>
      rw [List.flatMap_cons, List.length_append, length_serialize_rte, ih, List.length_cons]
      ring
  rw [serialize, List.length_append, List.length_append, List.length_append, hsum,
    get_serialized_size, List.length_cons, List.length_cons, List.length_nil]
  simp only [List.length_cons, List.length_nil]
  omega

theorem reads_rte (h : rte.route_metric < 2 ^ 32) : Reads RipRte.deserialize rte.serialize rte := by
  intro rest
  have hmetric : (UInt32.ofNat rte.route_metric).toNat = rte.route_metric := UInt32.toNat_ofNat_of_lt' h
  have hfields := (reads_u16 rte.route_tag).bind (f := fun m_tag => do
      let m_prefix ← read_ntoh_u32
      let m_subnetMask ← read_ntoh_u32
      let _ ← read_ntoh_u32
      let m_metric ← read_ntoh_u32
      return (⟨ m_prefix, m_subnetMask, m_tag, m_metric.toNat⟩ : RipRte))
    ((reads_u32 rte.prefixAddr).bind ((reads_u32 rte.subnet_mask).bind ((reads_u32 0).bind
      ((reads_u32 (UInt32.ofNat rte.route_metric)).map fun m_metric =>
        (⟨rte.prefixAddr, rte.subnet_mask, rte.route_tag, m_metric.toNat⟩ : RipRte)))))
  rw [hmetric] at hfields
  have hfamily : (read_ntoh_u16).run (rte.serialize ++ rest) =
      some (2, (write_hton_u16 rte.route_tag ++ (write_hton_u32 rte.prefixAddr ++
        (write_hton_u32 rte.subnet_mask ++ (write_hton_u32 0 ++
          write_hton_u32 (UInt32.ofNat rte.route_metric))))) ++ rest) := rfl
  have hget : (get : Reader (List UInt8)).run (rte.serialize ++ rest) =
      some (rte.serialize ++ rest, rte.serialize ++ rest) := rfl
  rw [RipRte.deserialize, run_bind_of_run hget, run_bind_of_run hfamily]
  exact hfields rest

theorem run_read_rtes (h : ∀ rte ∈ rtes, rte.route_metric < 2 ^ 32) (n : ℕ) (hn : n ≤ rtes.length) :
    (read_rtes n).run (rtes.flatMap RipRte.serialize) =
      some (rtes.take n, (rtes.drop n).flatMap RipRte.serialize) := by
  induction n generalizing rtes with
  | zero => rfl
  | succ n ih =>
    cases rtes with
    | nil => cases hn
    | cons rte rtes =>
      have hrest := ih (fun rte hrte => h rte (List.mem_cons_of_mem _ hrte)) (Nat.le_of_succ_le_succ hn)
      rw [read_rtes, List.flatMap_cons,
        run_bind_of_run (reads_rte (h rte List.mem_cons_self) (rtes.flatMap RipRte.serialize)),
        run_bind_of_run hrest]
      rfl

/-- Of the RTEs of a response as many are read as their number is modulo 2 ^ 8. -/
theorem run_deserialize (h : ∀ rte ∈ rtes, rte.route_metric < 2 ^ 32) :
    ∃ rest, deserialize.run (serialize RESPONSE rtes) =
      some (some (RESPONSE, rtes.take (rtes.length % 256)), rest) := by
  have hcount : ((rtes.flatMap RipRte.serialize).length / 20).toUInt8.toNat = rtes.length % 256 := by
    have hlength := length_serialize RESPONSE rtes
    rw [serialize, get_serialized_size] at hlength
    simp only [List.length_append, List.length_cons, List.length_nil] at hlength
    rw [UInt8.toNat_ofNat', show (rtes.flatMap RipRte.serialize).length = rtes.length * 20 by omega,
      Nat.mul_div_cancel _ (by decide)]
  have hrtes := run_read_rtes h (rtes.length % 256) (Nat.mod_le _ _)
  rw [← hcount] at hrtes ⊢
  refine ⟨(rtes.drop ((rtes.flatMap RipRte.serialize).length / 20).toUInt8.toNat).flatMap
    RipRte.serialize, ?_⟩
  generalize hbuffer : rtes.flatMap RipRte.serialize = buffer at hrtes ⊢
  have hget : (get : Reader (List UInt8)).run buffer = some (buffer, buffer) := rfl
  have hend : (do
      let buffer ← get
      let rteNumber := (buffer.length / 20).toUInt8
      let rtes ← read_rtes rteNumber.toNat
      return some (RESPONSE, rtes) : Reader (Option (UInt8 × List RipRte))).run buffer =
        some (some (RESPONSE, rtes.take (buffer.length / 20).toUInt8.toNat),
          (rtes.drop (buffer.length / 20).toUInt8.toNat).flatMap RipRte.serialize) := by
    rw [run_bind_of_run hget, run_bind_of_run hrtes]
    rfl
  have hstart : deserialize.run (serialize RESPONSE rtes) = (do
      let buffer ← get
      let rteNumber := (buffer.length / 20).toUInt8
      let rtes ← read_rtes rteNumber.toNat
      return some (RESPONSE, rtes) : Reader (Option (UInt8 × List RipRte))).run buffer := by
    rw [serialize, hbuffer]
    rfl
  rw [hstart, hend]

end RipHeader

end Ns3
