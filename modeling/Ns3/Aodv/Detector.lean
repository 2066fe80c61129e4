import Ns3.Network.Address

namespace Ns3.Aodv

/-- A MAC address; 0 is the default-constructed one. -/
abbrev Mac48Address := Nat

structure Neighbor where
  neighbor_address : Ipv4Address
  hardware_address : Mac48Address
  expire_time : Time
  close : Bool := false
deriving DecidableEq, Repr

/-- The neighbour list. `arp` stands for the ARP caches `LookupMacAddress` searches. -/
structure Neighbors where
  nb : List Neighbor := []
  arp : Ipv4Address → Mac48Address := fun _ => 0

namespace Neighbors

/-- `CloseNeighbor`: the record is expired or marked closed. -/
def close_neighbor (now : Time) (n : Neighbor) : Bool := n.expire_time < now || n.close

/-- The neighbours `Purge` reports to the link failure callback, in order. -/
def failed (n : Neighbors) (now : Time) : List Ipv4Address :=
  (n.nb.filter (close_neighbor now)).map (·.neighbor_address)

/-- What `Purge` keeps. -/
def purge (n : Neighbors) (now : Time) : Neighbors :=
  { n with nb := n.nb.filter fun m => ¬ close_neighbor now m }

def refresh (n : Neighbors) (now : Time) (addr : Ipv4Address) (expire : Time) (m : Neighbor) : Neighbor :=
  { m with
    expire_time := max (expire + now) m.expire_time
    hardware_address := if m.hardware_address = 0 then n.arp addr else m.hardware_address }

/-- The loop of `Update` over the records: the first one of the address is refreshed. -/
def refreshFirst (n : Neighbors) (now : Time) (addr : Ipv4Address) (expire : Time) :
    List Neighbor → Option (List Neighbor)
  | [] => none
  | m :: rest =>
    if m.neighbor_address = addr then some (n.refresh now addr expire m :: rest)
    else (refreshFirst n now addr expire rest).map (m :: ·)

/-- The list with a record of `addr` pushed at its end. -/
def open_link (n : Neighbors) (now : Time) (addr : Ipv4Address) (expire : Time) : Neighbors :=
  { n with nb := n.nb ++ [{ neighbor_address := addr, hardware_address := n.arp addr, expire_time := expire + now }] }

/-- `ProcessTxError` marks the records with the failing hardware address. -/
def mark_closed (n : Neighbors) (addr : Mac48Address) : Neighbors :=
  { n with nb := n.nb.map fun m => if m.hardware_address = addr then { m with close := true } else m }

def clear (n : Neighbors) : Neighbors := { n with nb := [] }

end Neighbors

end Ns3.Aodv

namespace Ns3.Aodv

/-- The key of a probe record, ordered by origin and then destination. -/
structure WormholeProbeKey where
  origin : Ipv4Address
  dst : Ipv4Address
deriving DecidableEq, Repr

namespace WormholeProbeKey

instance : Ord WormholeProbeKey where
  compare := compareLex (compareOn origin) (compareOn dst)

instance : Std.TransOrd WormholeProbeKey :=
  inferInstanceAs (Std.TransCmp (compareLex (compareOn origin) (compareOn dst)))

instance : Std.LawfulEqOrd WormholeProbeKey where
  eq_of_compare {a b} h := by
    have h : compareLex (compareOn origin) (compareOn dst) a b = .eq := h
    rw [compareLex_eq_eq] at h
    obtain ⟨horigin, hdst⟩ := h
    cases a
    cases b
    simp_all [compareOn]

end WormholeProbeKey

/-- The quantities of the detector that the source computes in double precision:
the processing time scaled by the buffer load, the transmission time of a
packet, the threshold for a variation and the two smoothing steps. -/
structure RttArithmetic where
  scaled_processing_time : (bufferLoad max_queue_len : UInt32) → Time
  transmission_time : UInt32 → Time
  threshold : Time → Time
  smooth_mean : Time → Time
  smooth_variance : Time → Time

/-- The quantities at the default attributes, in whole nanoseconds. -/
def RttArithmetic.default : RttArithmetic where
  scaled_processing_time bufferLoad max_queue_len :=
    milliseconds 1 + min (milliseconds 1) (milliseconds 1 * bufferLoad.toNat / max_queue_len.toNat)
  transmission_time packetBytes := packetBytes.toNat * 8000 / 11
  threshold variation := variation * 5 / 2
  smooth_mean err := Int.tdiv err 8
  smooth_variance varDelta := Int.tdiv varDelta 4

/-- The state of the RTT wormhole detector. -/
structure WormholeDetector where
  rtt_probe_start_time : Std.ExtTreeMap WormholeProbeKey Time := ∅
  neighbor_estimated_rtt : Std.ExtTreeMap Ipv4Address Time := ∅
  neighbor_estimated_var : Std.ExtTreeMap Ipv4Address Time := ∅
  suspect_until : Std.ExtTreeMap Ipv4Address Time := ∅
  detected_wormhole_peers : Std.ExtTreeSet Ipv4Address := ∅
  under_verification : Std.ExtTreeMap Ipv4Address Time := ∅
  verification_probe_start_time : Std.ExtTreeMap WormholeProbeKey Time := ∅
  verification_failure_count : Std.ExtTreeMap Ipv4Address UInt32 := ∅

/-- The attributes the detector reads. -/
structure DetectorAttributes where
  arithmetic : RttArithmetic
  max_queue_len : UInt32
  node_traversal_time : Time
  black_list_timeout : Time
  wormhole_pd : Time
  wormhole_ctrl_packet_bytes : UInt32
  wormhole_cpu_process_base : Time

namespace WormholeDetector

def start_rtt_probe (d : WormholeDetector) (now : Time) (origin dst : Ipv4Address) : WormholeDetector :=
  { d with rtt_probe_start_time := d.rtt_probe_start_time.insert ⟨origin, dst⟩ now }

def estimate_processing_time (a : DetectorAttributes) (bufferLoad : UInt32) : Time :=
  if a.max_queue_len = 0 then a.wormhole_cpu_process_base
  else a.arithmetic.scaled_processing_time bufferLoad a.max_queue_len

/-- `UpdateNeighborRttStats`: the first sample initialises both maps, later ones
smooth them. -/
def update_neighbor_rtt_stats (d : WormholeDetector) (a : DetectorAttributes)
    (neighbor : Ipv4Address) (sample : Time) : WormholeDetector :=
  match d.neighbor_estimated_rtt[neighbor]? with
  | none =>
    { d with
      neighbor_estimated_rtt := d.neighbor_estimated_rtt.insert neighbor sample
      neighbor_estimated_var := d.neighbor_estimated_var.insert neighbor (Int.tdiv sample 2) }
  | some currentMean =>
    let currentVar := (d.neighbor_estimated_var[neighbor]?).getD (Int.tdiv sample 2)
    let err := sample - currentMean
    let absErr := if err < 0 then 0 - err else err
    let newMean := currentMean + a.arithmetic.smooth_mean err
    let newVar := currentVar + a.arithmetic.smooth_variance (absErr - currentVar)
    { d with
      neighbor_estimated_rtt := d.neighbor_estimated_rtt.insert neighbor newMean
      neighbor_estimated_var := d.neighbor_estimated_var.insert neighbor newVar }

/-- `IsNeighborTemporarilySuspect`: the end of the period is included. -/
def is_neighbor_temporarily_suspect (d : WormholeDetector) (now : Time) (neighbor : Ipv4Address) : Bool :=
  match d.suspect_until[neighbor]? with
  | none => false
  | some limit => now ≤ limit

/-- The comparison `EvaluateRttProbe` and `EvaluateVerificationProbe` share:
whether `rtt` is further from the expected value than the threshold allows. The
load is the size of the probe map the caller reads. -/
def is_anomalous (d : WormholeDetector) (a : DetectorAttributes) (bufferLoad : Nat)
    (neighbor : Ipv4Address) (rtt : Time) : Bool :=
  let pt := estimate_processing_time a (UInt32.ofNat bufferLoad)
  let tt := a.arithmetic.transmission_time a.wormhole_ctrl_packet_bytes
  let baseline := (d.neighbor_estimated_rtt[neighbor]?).getD (2 * a.node_traversal_time)
  let expected := baseline + pt + tt + a.wormhole_pd
  let diff := rtt - expected
  let absDiff := if diff < 0 then 0 - diff else diff
  let variation :=
    match d.neighbor_estimated_var[neighbor]? with
    | some v => if v > microseconds 1 then v else milliseconds 1
    | none => milliseconds 1
  absDiff > a.arithmetic.threshold variation

def mark_suspect (d : WormholeDetector) (a : DetectorAttributes) (now : Time)
    (neighbor : Ipv4Address) : WormholeDetector :=
  { d with
    suspect_until := d.suspect_until.insert neighbor (now + a.black_list_timeout)
    detected_wormhole_peers := d.detected_wormhole_peers.insert neighbor }

/-- `EvaluateVerificationProbe`: the verdict and the state after it. -/
def evaluate_verification_probe (d : WormholeDetector) (a : DetectorAttributes) (now : Time)
    (origin neighbor : Ipv4Address) (verificationRtt : Time) : Bool × WormholeDetector :=
  if ⟨origin, neighbor⟩ ∈ d.verification_probe_start_time then
    let verificationDetected :=
      d.is_anomalous a d.verification_probe_start_time.size neighbor verificationRtt
    let d :=
      if verificationDetected then
        let count := (d.verification_failure_count[neighbor]?).getD 0
        mark_suspect
          { d with verification_failure_count := d.verification_failure_count.insert neighbor (count + 1) }
          a now neighbor
      else
        update_neighbor_rtt_stats
          { d with verification_failure_count := d.verification_failure_count.erase neighbor }
          a neighbor verificationRtt
    (verificationDetected,
      { d with
        under_verification := d.under_verification.erase neighbor
        verification_probe_start_time := d.verification_probe_start_time.erase ⟨origin, neighbor⟩ })
  else (false, d)

end WormholeDetector

end Ns3.Aodv
