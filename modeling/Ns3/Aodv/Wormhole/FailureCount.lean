import Ns3.Aodv.Wormhole.Consistency

namespace Ns3.Aodv

namespace RoutingProtocol

open Transition (Always)

variable {s s' : RoutingProtocol}

/-- What the response of `key.dst` to the probe `key` does: either it is evaluated,
which takes out that probe and ends that verification, or nothing is pending and the
detector stays as it is. -/
def Answered (s s' : RoutingProtocol) (key : WormholeProbeKey) : Prop :=
  (key ∈ s.detector.verification_probe_start_time ∧ key.dst ∈ s.detector.under_verification ∧
    s'.detector.verification_probe_start_time = s.detector.verification_probe_start_time.erase key ∧
    s'.detector.under_verification = s.detector.under_verification.erase key.dst ∧
    ∃ confirmed, s'.log = s.log ++ [.verification_evaluated key confirmed]) ∨
  ((s.enable_second_probe_verification = true → key ∉ s.detector.verification_probe_start_time) ∧
    s'.detector = s.detector ∧ s'.log = s.log)

theorem recv_verification_answered (hconsistent : s.detector.Consistent) (socket receiver sender : Ipv4Address) :
    Answered s (s.recv_verification socket receiver sender (some true)) ⟨receiver, sender⟩ := by
  unfold recv_verification
  split
  next hdisabled => exact .inr ⟨by simp [hdisabled], rfl, rfl⟩
  next =>
    simp only
    split
    next hpending =>
      cases hstart : s.detector.verification_probe_start_time[(⟨receiver, sender⟩ : WormholeProbeKey)]? with
      | none =>
        refine .inr ⟨fun _ hprobe => ?_, rfl, rfl⟩
        simp [Std.ExtTreeMap.mem_iff_isSome_getElem?, hstart] at hprobe
      | some start =>
        have hprobe : (⟨receiver, sender⟩ : WormholeProbeKey) ∈ s.detector.verification_probe_start_time := by
          simp [Std.ExtTreeMap.mem_iff_isSome_getElem?, hstart]
        obtain ⟨hverification, hprobes⟩ := WormholeDetector.evaluate_verification_probe_pending
          s.detectorAttributes s.now hprobe (s.now - start)
        exact .inl ⟨hprobe, hpending, hprobes, hverification, _, rfl⟩
    next hpending =>
      exact .inr ⟨fun _ hprobe => hpending (hconsistent.probe receiver sender hprobe), rfl, rfl⟩

theorem verification_response_answered (hconsistent : s.detector.Consistent) {t : Time}
    {receiver sender : Ipv4Address} {ttl : UInt8}
    (hstep : s.step t (.recv_aodv receiver sender ttl (.rverify (some true))) = some s') :
    Answered s s' ⟨tunnel_receiver s.attrs sender receiver, sender⟩ := by
  unfold step at hstep
  split at hstep
  next =>
    rw [handle] at hstep
    split at hstep
    next =>
      obtain ⟨s₁, hneighbor, hstep⟩ := Option.bind_eq_some_iff.mp hstep
      cases hstep
      have hframe := update_route_to_neighbor_frame hneighbor
      have hanswered := recv_verification_answered (s := s₁)
        (by rw [hframe]; exact hconsistent) receiver (tunnel_receiver s.attrs sender receiver) sender
      rw [hframe] at hanswered ⊢
      exact hanswered
    next => cases hstep
  next => cases hstep

namespace Station

/-- The default attributes, with a blacklisting that ends at once and an expanding ring
search that never ends. -/
def attrs : Attributes :=
  { black_list_timeout := 0, net_diameter := 0xffffffff, arithmetic := .default }

/-- A station with these attributes, before its first event. -/
def station : RoutingProtocol := init attrs 64 (milliseconds 30000) true true 0

theorem station_initial : Initial station := ⟨_, _, _, _, _, _, rfl⟩

end Station

/-- In every reachable state the maps of the detector are consistent; a neighbour with
a failure count has a count of at least 1, unless the verifications of the run have
confirmed it so often that the counter wraps; and a response is evaluated exactly
when its probe is outstanding, and then takes out that probe and no other. -/
theorem detector_stays_consistent (hrun : Run Always s) :
    s.detector.Consistent ∧
    (∀ (n : Ipv4Address) (count : UInt32), s.detector.verification_failure_count[n]? = some count →
      confirmations n s.log < 2 ^ 32 → 1 ≤ count) ∧
    ∀ t receiver sender ttl s', s.step t (.recv_aodv receiver sender ttl (.rverify (some true))) = some s' →
      Answered s s' ⟨tunnel_receiver s.attrs sender receiver, sender⟩ := by
  obtain ⟨hconsistent, hcounted⟩ := run_consistent hrun
  refine ⟨hconsistent, ?_, fun _ _ _ _ _ => verification_response_answered hconsistent⟩
  intro n count hcount hbound
  obtain ⟨k, hpos, hle, rfl⟩ := hcounted n count hcount
  have hk : (UInt32.ofNat k).toNat = k := UInt32.toNat_ofNat_of_lt' (by rw [UInt32.size]; omega)
  rw [UInt32.le_iff_toNat_le, hk]
  exact hpos

/-- The neighbour is under verification after the discovery. -/
theorem detector_stays_consistent_station : ∃ s,
    Transition.execute timed_step Always Station.station Station.discovery = some s ∧
    Station.neighbor ∈ s.detector.under_verification ∧
    s.detector.Consistent ∧
    (∀ (n : Ipv4Address) (count : UInt32), s.detector.verification_failure_count[n]? = some count →
      confirmations n s.log < 2 ^ 32 → 1 ≤ count) ∧
    ∀ t receiver sender ttl s', s.step t (.recv_aodv receiver sender ttl (.rverify (some true))) = some s' →
      Answered s s' ⟨tunnel_receiver s.attrs sender receiver, sender⟩ := by
  have hpending : (Transition.execute timed_step Always Station.station Station.discovery).map
      (fun s => decide (Station.neighbor ∈ s.detector.under_verification)) = some true := by decide +kernel
  obtain ⟨s, hs, hneighbor⟩ := Option.map_eq_some_iff.mp hpending
  exact ⟨s, hs, of_decide_eq_true hneighbor,
    detector_stays_consistent ((Transition.Reachable.init Station.station_initial).execute hs)⟩

/-! A neighbour that confirms a wormhole once a second, for as long as the counter lasts. -/

namespace Station

/-- What stays the same from round to round. -/
structure Running (s : RoutingProtocol) : Prop where
  attrs : s.attrs = attrs
  detect : s.enable_rtt_wormhole_detect = true
  verification : s.enable_second_probe_verification = true
  max_queue_len : s.max_queue_len = 64
  ipv4 : s.ipv4 = ipv4
  socket_addresses : s.socket_addresses = [iface]
  queue_limits : s.queue.max_len = 64 ∧ s.queue.queue_timeout = milliseconds 30000
  rtt : s.detector.neighbor_estimated_rtt[neighbor]? = none
  var : s.detector.neighbor_estimated_var[neighbor]? = none

/-- A round may start: the last one has left no packet, no search and no verification
behind, and has counted `k` failures. -/
structure Ready (s : RoutingProtocol) (k : UInt32) : Prop extends Running s where
  queue : s.queue.queue = []
  timer : s.now < s.rreq_rate_limit_timer
  route : ∀ e, s.routing_table.entries[destination]? = some e → e.flag ≠ .in_search
  suspect : ∀ limit, s.detector.suspect_until[neighbor]? = some limit → limit ≤ s.now
  pending : neighbor ∉ s.detector.under_verification
  count : (s.detector.verification_failure_count[neighbor]?).getD 0 = k

variable {k : UInt32}

def queued (now : Time) : QueueEntry where
  packet := packet
  header := header
  ucb := 0
  ecb := 1
  expire := milliseconds 30000 + now

theorem reset (h : Ready s k) : ∃ s', s.step s.rreq_rate_limit_timer .rreq_rate_limit_timer_expire = some s' ∧
    Ready s' k ∧ s'.rreq_count = 0 ∧ s'.now = s.rreq_rate_limit_timer ∧ s'.rreq_rate_limit_timer = s'.now + milliseconds 1000 ∧
    s'.detector = s.detector := by
  have htimer := h.timer
  refine ⟨{ s with rreq_count := 0, rreq_rate_limit_timer := s.rreq_rate_limit_timer + milliseconds 1000
                   now := s.rreq_rate_limit_timer }, ?_, ?_, rfl, rfl, rfl, rfl⟩
  · simp [step, handle, Int.le_of_lt htimer]
  · refine ⟨{ h with }, h.queue, ?_, h.route, fun limit hlimit => ?_, h.pending, h.count⟩
    · simp [milliseconds]
    · exact le_trans (h.suspect limit hlimit) htimer.le

theorem schedule_rreq_retry_some (hattrs : s.attrs = attrs) (dst : Ipv4Address) :
    ∃ timers, s.schedule_rreq_retry dst = some { (s.lookup_route dst).2 with address_req_timer := timers } := by
  unfold schedule_rreq_retry
  have hhops : ((s.lookup_route dst).1.getD (RoutingTableEntry.default s.now)).hops.toUInt32 <
      (s.lookup_route dst).2.attrs.net_diameter := by
    rw [lookup_route_attrs, hattrs, UInt32.lt_iff_toNat_lt, UInt16.toNat_toUInt32]
    exact lt_trans (UInt16.toNat_lt _) (by decide)
  have hbuffer : (s.lookup_route dst).2.attrs.node_traversal_time = milliseconds 40 ∧
      (s.lookup_route dst).2.attrs.timeout_buffer = 2 := by
    rw [lookup_route_attrs, hattrs]
    exact ⟨rfl, rfl⟩
  simp only [rreq_retry_delay, if_pos hhops, hbuffer.1, hbuffer.2]
  generalize ((s.lookup_route dst).1.getD (RoutingTableEntry.default s.now)).hops = hops
  have hdelay : (0 : ℤ) ≤ 2 * milliseconds 40 * (hops.toNat + (2 : UInt16).toNat) ∧
      2 * milliseconds 40 * (hops.toNat + (2 : UInt16).toNat) < (2 : ℤ) ^ 63 := by
    have hhops : (hops.toNat : ℤ) < 65536 := by exact_mod_cast hops.toNat_lt
    have hnat : (0 : ℤ) ≤ hops.toNat := Int.natCast_nonneg _
    have hunit : milliseconds 40 = (40000000 : ℤ) := rfl
    rw [hunit, show ((2 : UInt16).toNat : ℤ) = 2 from rfl]
    constructor <;> linarith
  rw [Option.filter_some, if_pos (by simpa using hdelay)]
  exact ⟨_, rfl⟩

theorem send_request_some (h : Running s) (hcount : s.rreq_count = 0) (dst : Ipv4Address) :
    ∃ s', s.send_request dst = some s' ∧ s'.detector = s.detector.start_rtt_probe s.now own dst ∧
      s' = { s with
        routing_table := s'.routing_table, seq_no := s'.seq_no, request_id := s'.request_id
        rreq_id_cache := s'.rreq_id_cache, rreq_count := s'.rreq_count
        address_req_timer := s'.address_req_timer, last_bcast_time := s'.last_bcast_time
        detector := s'.detector, log := s'.log } := by
  have hlimit : ¬ s.rreq_count = s.attrs.rreq_rate_limit := by
    rw [hcount, h.attrs]
    decide
  have hsearch : ∀ (s₁ : RoutingProtocol) rt ttl, s₁.search_entry dst rt ttl =
      { s₁ with routing_table := (s₁.search_entry dst rt ttl).routing_table } := by
    intro s₁ rt ttl
    cases rt <;> rfl
  unfold send_request
  rw [if_neg hlimit]
  simp only
  rw [hsearch]
  simp only [lookup_route_socket_addresses, h.socket_addresses, List.foldl_cons, List.foldl_nil]
  generalize hs₁ : broadcast_request _ _ _ iface = s₁
  rw [broadcast_request, start_rtt_probe, if_pos (by exact h.detect)] at hs₁
  obtain ⟨timers, htimers⟩ := schedule_rreq_retry_some (s := s₁) (by rw [← hs₁]; exact h.attrs) dst
  refine ⟨_, htimers, ?_, ?_⟩
  · rw [← hs₁]
    rfl
  · rw [← hs₁]
    rfl

theorem route_input_some (h : Ready s k) (hcount : s.rreq_count = 0) :
    ∃ s', s.handle (.route_input packet header 0 ⟨0, 1, false⟩) = some s' ∧ Running s' ∧
      s'.queue.queue = [queued s.now] ∧ s'.now = s.now ∧
      s'.rreq_rate_limit_timer = s.rreq_rate_limit_timer ∧
      s'.detector = s.detector.start_rtt_probe s.now own destination := by
  have henqueue : s.queue.enqueue s.now { packet, header, ucb := 0, ecb := 1, expire := s.now } =
      some ⟨true, { s.queue with queue := [queued s.now] }, []⟩ := by
    have hq := h.queue
    have hlimits := h.queue_limits
    simp [RequestQueue.enqueue, RequestQueue.outdated, RequestQueue.purge, hq, hlimits, queued]
  set s₁ : RoutingProtocol := { s with queue := { s.queue with queue := [queued s.now] } } with hs₁
  have hrunning : Running (s₁.lookup_route destination).2 :=
    { h with }
  obtain ⟨s', hrequest, hdetector, hframe⟩ := send_request_some hrunning hcount destination
  have hsearch : ¬ (s₁.lookup_route destination).1.any (·.flag = .in_search) = true := by
    cases hrt : (s₁.lookup_route destination).1 with
    | none => simp
    | some e =>
      obtain ⟨e₀, he₀, hdecay⟩ := lookup_route_entry hrt
      have hflag := h.route e₀ he₀
      simpa using fun hin => hflag (hdecay.in_search hin)
  refine ⟨s', ?_, ?_, ?_, ?_, ?_, ?_⟩
  · rw [handle, route_input, if_neg (by rw [h.socket_addresses]; simp), if_neg (by rw [h.ipv4]; decide),
      if_pos ⟨rfl, by decide⟩, deferred_route_output]
    simp only [header] at henqueue ⊢
    rw [henqueue]
    simp only [Option.bind_some, if_true]
    change (s₁.report_dropped []).request_route destination = some s'
    rw [show s₁.report_dropped [] = s₁ by simp [report_dropped], request_route, if_neg hsearch]
    exact hrequest
  · rw [hframe, hdetector]
    exact { h with }
  · rw [hframe]
    rfl
  · rw [hframe]
    rfl
  · rw [hframe]
    rfl
  · exact hdetector

theorem reply_at_origin_frame (s : RoutingProtocol) (dst : Ipv4Address) (newEntry toDst : RoutingTableEntry) :
    ∃ i, s.reply_at_origin dst newEntry toDst = { s with
      routing_table := (s.reply_at_origin dst newEntry toDst).routing_table
      address_req_timer := (s.reply_at_origin dst newEntry toDst).address_req_timer
      log := (s.reply_at_origin dst newEntry toDst).log
      queue := (s.queue.send_packet_from_queue s.now dst i).1 } := by
  unfold reply_at_origin
  split <;> exact ⟨_, rfl⟩

theorem interface_of_own (hipv4 : s.ipv4 = ipv4) : s.ipv4.interface_of own = some (1, iface) := by
  rw [hipv4]
  decide

theorem find_own_socket (hsockets : s.socket_addresses = [iface]) :
    s.find_socket_with_interface_address iface = some own := by
  rw [find_socket_with_interface_address, if_pos (by simp [hsockets])]
  rfl

theorem is_own (hsockets : s.socket_addresses = [iface]) : s.is_my_own_address own = true := by
  simp [is_my_own_address, hsockets, iface, Ipv4InterfaceAddress.of]

theorem update_route_to_neighbor_some (h : Running s) (sender : Ipv4Address) :
    ∃ t, s.update_route_to_neighbor sender own = some { s with routing_table := t } := by
  obtain ⟨s', hneighbor⟩ : ∃ s', s.update_route_to_neighbor sender own = some s' := by
    unfold update_route_to_neighbor
    simp only [interface_of_own h.ipv4, Option.map_some]
    exact ⟨_, rfl⟩
  exact ⟨s'.routing_table, by rw [hneighbor, ← update_route_to_neighbor_frame hneighbor]⟩

theorem fast_is_anomalous {w : Int} (hw : 0 ≤ w) :
    decide ((if 1000000 - (80000000 + (1000000 + w) + 46545 + 1000000) < 0 then
      0 - (1000000 - (80000000 + (1000000 + w) + 46545 + 1000000))
      else 1000000 - (80000000 + (1000000 + w) + 46545 + 1000000)) > (2500000 : Int)) = true := by
  rw [if_pos (by omega), decide_eq_true_iff]
  omega

theorem is_anomalous_fast {d : WormholeDetector} (hattrs : s.attrs = attrs) (hlen : s.max_queue_len = 64)
    (hrtt : d.neighbor_estimated_rtt[neighbor]? = none) (hvar : d.neighbor_estimated_var[neighbor]? = none)
    (bufferLoad : Nat) : d.is_anomalous s.detectorAttributes bufferLoad neighbor (milliseconds 1) = true := by
  have hload : (0 : Int) ≤ min (milliseconds 1)
      (milliseconds 1 * (UInt32.ofNat bufferLoad).toNat / (64 : UInt32).toNat) := by
    simp only [milliseconds]
    positivity
  have h := fast_is_anomalous hload
  simp only [WormholeDetector.is_anomalous, hrtt, hvar, detectorAttributes, hattrs, hlen, attrs,
    WormholeDetector.estimate_processing_time, RttArithmetic.default, Option.getD_none]
  exact h

theorem drained {q : RequestQueue} {t now : Time} (hq : q.queue = [queued t]) (hlive : now ≤ t + milliseconds 30000)
    (i : Int) : (q.send_packet_from_queue now destination i).1 = { q with queue := [] } := by
  have hexpired : RequestQueue.is_expired now (queued t) = false := by
    have hlater : ¬ milliseconds 30000 + t - now < 0 := not_lt.mpr (by linarith)
    exact decide_eq_false hlater
  have hdst : (queued t).header.destination = destination := rfl
  have hmismatch : RequestQueue.mismatch i (queued t) = false := by simp [RequestQueue.mismatch, queued, packet]
  have hfirst : q.dequeue now destination = ⟨some (queued t), { q with queue := [] }, []⟩ := by
    simp [RequestQueue.dequeue, RequestQueue.outdated, RequestQueue.purge, hq, hexpired, RequestQueue.takeFirst, hdst]
  have hsecond : ({ q with queue := [] } : RequestQueue).dequeue now destination =
      ⟨none, { q with queue := [] }, []⟩ := by
    simp [RequestQueue.dequeue, RequestQueue.outdated, RequestQueue.purge, RequestQueue.takeFirst]
  simp [RequestQueue.send_packet_from_queue, hq, RequestQueue.drain, hfirst, hmismatch, hsecond]

theorem install_reply_found {h : RrepHeader} {newEntry : RoutingTableEntry}
    (hflag : newEntry.flag = .valid)
    (htoDst : ((s.lookup_route h.dst).1.getD (RoutingTableEntry.default s.now)).flag ≠ .in_search) :
    ∀ e, (s.install_reply h newEntry).routing_table.entries[h.dst]? = some e → e.flag ≠ .in_search := by
  intro e he
  have hfst := s.lookup_route_fst h.dst
  unfold install_reply at he
  cases hrt : (s.lookup_route h.dst).1 with
  | none =>
    simp only [hrt, routing_table_add_route] at he
    rcases RoutingTable.entry_of_add_route he with ⟨_, rfl⟩ | hold
    · simp [hflag]
    · obtain ⟨e₁, he₁, _⟩ := (RoutingTable.purge_decays _ _).entry _ e hold
      rw [hrt, he₁] at hfst
      cases hfst
  | some toDst =>
    rw [hrt] at htoDst hfst
    have hkept : ∀ e', (s.lookup_route h.dst).2.routing_table.entries[h.dst]? = some e' → e'.flag ≠ .in_search := by
      intro e' he'
      obtain rfl := Option.some.inj (hfst.trans he')
      exact htoDst
    simp only [hrt] at he
    split at he
    next =>
      rcases RoutingTable.entry_of_update he with ⟨_, rfl⟩ | hold
      · simp [hflag]
      · exact hkept e hold
    next => exact hkept e he

theorem reply_at_origin_found {dst : Ipv4Address} {newEntry toDst : RoutingTableEntry}
    (hkey : newEntry.get_destination = dst) (hflag : newEntry.flag = .valid)
    (htoDst : toDst.flag ≠ .in_search → ∀ e, s.routing_table.entries[dst]? = some e → e.flag ≠ .in_search) :
    ∀ e, (s.reply_at_origin dst newEntry toDst).routing_table.entries[dst]? = some e → e.flag ≠ .in_search := by
  intro e he hsearch
  have hpurged : ∀ s₁ : RoutingProtocol, (s₁.routing_table.purge s₁.now).entries[dst]? = some e →
      ∃ e₁, s₁.routing_table.entries[dst]? = some e₁ ∧ e₁.flag = .in_search := by
    intro s₁ hentry
    obtain ⟨e₁, he₁, hdecay⟩ := (s₁.routing_table.purge_decays s₁.now).entry dst e hentry
    exact ⟨e₁, he₁, hdecay.in_search hsearch⟩
  unfold reply_at_origin at he
  split at he
  next =>
    obtain ⟨e₁, he₁, hsearch₁⟩ := hpurged _ he
    have hentry : (s.routing_table.update newEntry).entries[dst]? = some e₁ := he₁
    rw [RoutingTable.getElem?_update] at hentry
    split at hentry
    next =>
      cases hentry
      rw [RoutingTable.stored_entry_flag, hflag] at hsearch₁
      cases hsearch₁
    next hno =>
      exact hno ⟨hkey, by simp [hentry]⟩
  next hfound =>
    obtain ⟨e₁, he₁, hsearch₁⟩ := hpurged _ he
    exact htoDst hfound e₁ he₁ hsearch₁

/-- The detector while the neighbour is being verified. -/
def verifying (d : WormholeDetector) (now : Time) : WormholeDetector :=
  { d with
    rtt_probe_start_time := d.rtt_probe_start_time.erase ⟨own, destination⟩
    under_verification := d.under_verification.insert neighbor now
    verification_probe_start_time := d.verification_probe_start_time.insert ⟨own, neighbor⟩ now }

theorem evaluate_rtt_probe_some (h : Running s) {t : Time}
    (hstart : s.detector.rtt_probe_start_time[(⟨own, destination⟩ : WormholeProbeKey)]? = some t)
    (hpending : neighbor ∉ s.detector.under_verification) :
    ∃ l, s.evaluate_rtt_probe own destination neighbor own (milliseconds 1) =
      some (false, { s with detector := verifying s.detector s.now, log := s.log ++ l }) := by
  have hanomalous := is_anomalous_fast h.attrs h.max_queue_len h.rtt h.var s.detector.rtt_probe_start_time.size
  unfold evaluate_rtt_probe
  simp only [hstart]
  rw [if_pos (by exact hanomalous), if_pos (by exact h.verification), enter_verification, if_neg (by exact hpending),
    send_verification_test_packet]
  simp only [emit, interface_of_own h.ipv4, Option.bind_some, Option.map_map]
  rw [find_own_socket (by exact h.socket_addresses)]
  refine ⟨[.rtt_probe_evaluated ⟨own, destination⟩ t neighbor,
    .send ⟨own, neighbor, 1, .rverify (some false)⟩], ?_⟩
  simp [Function.comp_def, erase_rtt_probe, send_to, emit, verifying]

theorem recv_reply_some (h : Running s) (t start : Time) (hqueue : s.queue.queue = [queued t])
    (hlive : s.now ≤ t + milliseconds 30000)
    (hstart : s.detector.rtt_probe_start_time[(⟨own, destination⟩ : WormholeProbeKey)]? = some start)
    (hrtt : s.now - start = milliseconds 1)
    (hsuspect : s.detector.is_neighbor_temporarily_suspect s.now neighbor = false)
    (hpending : neighbor ∉ s.detector.under_verification) :
    ∃ s', s.handle (.recv_aodv own neighbor 64 (.rrep reply)) = some s' ∧ Running s' ∧ s'.queue.queue = [] ∧
      (∀ e, s'.routing_table.entries[destination]? = some e → e.flag ≠ .in_search) ∧ s'.now = s.now ∧
      s'.rreq_rate_limit_timer = s.rreq_rate_limit_timer ∧ s'.detector = verifying s.detector s.now := by
  obtain ⟨table, hneighbor⟩ := update_route_to_neighbor_some h neighbor
  set s₁ : RoutingProtocol := { s with routing_table := table } with hs₁
  have h₁ : Running s₁ := { h with }
  obtain ⟨l, hevaluate⟩ := evaluate_rtt_probe_some h₁ hstart hpending
  set s₂ : RoutingProtocol := { s₁ with detector := verifying s₁.detector s₁.now, log := s₁.log ++ l } with hs₂
  have hdetect : s₁.detect_wormhole { reply with hop_count := 1 } own neighbor = some (false, s₂) := by
    rw [detect_wormhole, if_pos h₁.detect, if_neg (by rw [hsuspect]; simp)]
    have hprobe : s₁.detector.rtt_probe_start_time[(⟨own, destination⟩ : WormholeProbeKey)]? = some start := hstart
    simp only [reply, hprobe]
    rw [show s₁.now - start = milliseconds 1 from hrtt]
    exact hevaluate
  set newEntry := s₂.reply_entry { reply with hop_count := 1 } neighbor (1, iface) with hnewEntry
  set s₃ := s₂.install_reply { reply with hop_count := 1 } newEntry with hs₃
  have hframe : s₃ = { s₂ with routing_table := s₃.routing_table } := install_reply_frame newEntry
  set toDst := (s₂.lookup_route destination).1.getD (RoutingTableEntry.default s₂.now) with htoDst
  obtain ⟨i, hdone⟩ := reply_at_origin_frame s₃ destination newEntry toDst
  refine ⟨s₃.reply_at_origin destination newEntry toDst, ?_, ?_, ?_, ?_, ?_, ?_, ?_⟩
  · rw [handle, if_pos (is_own h.socket_addresses), recv_aodv]
    have htunnel : tunnel_receiver s.attrs neighbor own = own := by
      rw [h.attrs]
      rfl
    simp only [htunnel, hneighbor, Option.bind_some, recv_reply]
    rw [if_neg (by decide)]
    have haccept : s₂.accept_reply { reply with hop_count := 1 } own neighbor 64 = some
        (s₃.reply_at_origin destination newEntry toDst) := by
      rw [accept_reply, interface_of_own (s := s₂) h.ipv4]
      simp only [Option.bind_some]
      rw [if_neg (by decide)]
      simp only [Option.bind_some]
      rw [if_pos ?_]
      · rfl
      · change s₃.is_my_own_address own = true
        rw [hframe]
        exact is_own (s := s₂) h.socket_addresses
    change ((s₁.detect_wormhole { reply with hop_count := 1 } own neighbor).bind fun r =>
      if r.1 = true then some r.2 else r.2.accept_reply { reply with hop_count := 1 } own neighbor 64) = _
    rw [hdetect]
    simpa using haccept
  · rw [hdone, hframe, drained hqueue hlive]
    exact { h with }
  · rw [hdone, hframe, drained hqueue hlive]
  · exact reply_at_origin_found rfl rfl (install_reply_found (h := { reply with hop_count := 1 }) rfl)
  · rw [hdone, hframe]
  · rw [hdone, hframe]
  · rw [hdone, hframe]

theorem update_route_to_neighbor_found {sender receiver dst : Ipv4Address}
    (h : s.update_route_to_neighbor sender receiver = some s')
    (hroute : ∀ e, s.routing_table.entries[dst]? = some e → e.flag ≠ .in_search) :
    ∀ e, s'.routing_table.entries[dst]? = some e → e.flag ≠ .in_search := by
  intro e he hsearch
  obtain ⟨i, _, rfl⟩ := Option.map_eq_some_iff.mp h
  have hpurge : ∀ e', (s.lookup_route sender).2.routing_table.entries[dst]? = some e' → e'.flag ≠ .in_search := by
    intro e' he' hsearch'
    obtain ⟨e₀, he₀, hdecay⟩ := (s.routing_table.purge_decays s.now).entry dst e' he'
    exact hroute e₀ he₀ (hdecay.in_search hsearch')
  cases hrt : (s.lookup_route sender).1 with
  | none =>
    simp only [hrt, routing_table_add_route] at he
    rcases RoutingTable.entry_of_add_route he with ⟨_, rfl⟩ | hold
    · simp at hsearch
    · obtain ⟨e₁, he₁, hdecay⟩ := (RoutingTable.purge_decays _ _).entry dst e hold
      exact hpurge e₁ he₁ (hdecay.in_search hsearch)
  | some toNeighbor =>
    simp only [hrt] at he
    split at he
    next => exact hpurge e he hsearch
    next =>
      rcases RoutingTable.entry_of_update he with ⟨_, rfl⟩ | hold
      · simp at hsearch
      · exact hpurge e hold hsearch

/-- The detector after the neighbour has been confirmed. -/
def confirmed (s : RoutingProtocol) : WormholeDetector :=
  { ({ s.detector with
        verification_failure_count := s.detector.verification_failure_count.insert neighbor
          ((s.detector.verification_failure_count[neighbor]?).getD 0 + 1) } : WormholeDetector).mark_suspect
      s.detectorAttributes s.now neighbor with
    under_verification := s.detector.under_verification.erase neighbor
    verification_probe_start_time := s.detector.verification_probe_start_time.erase ⟨own, neighbor⟩ }

theorem evaluate_verification_probe_confirmed (h : Running s)
    (hprobe : (⟨own, neighbor⟩ : WormholeProbeKey) ∈ s.detector.verification_probe_start_time) :
    s.detector.evaluate_verification_probe s.detectorAttributes s.now own neighbor (milliseconds 1) =
      (true, confirmed s) := by
  have hanomalous := is_anomalous_fast h.attrs h.max_queue_len h.rtt h.var
    s.detector.verification_probe_start_time.size
  rw [WormholeDetector.evaluate_verification_probe, if_pos hprobe]
  simp only [hanomalous]
  rfl

theorem recv_verification_some (h : Running s) (start : Time) (hqueue : s.queue.queue = [])
    (htimer : s.now < s.rreq_rate_limit_timer)
    (hroute : ∀ e, s.routing_table.entries[destination]? = some e → e.flag ≠ .in_search)
    (hpending : neighbor ∈ s.detector.under_verification)
    (hstart : s.detector.verification_probe_start_time[(⟨own, neighbor⟩ : WormholeProbeKey)]? = some start)
    (hrtt : s.now - start = milliseconds 1)
    (hcount : (s.detector.verification_failure_count[neighbor]?).getD 0 = k) :
    ∃ s', s.handle (.recv_aodv own neighbor 64 (.rverify (some true))) = some s' ∧ Ready s' (k + 1) ∧
      neighbor ∈ s'.detector.verification_failure_count := by
  obtain ⟨table, hneighbor⟩ := update_route_to_neighbor_some h neighbor
  have hfound := update_route_to_neighbor_found hneighbor hroute
  have hprobe : (⟨own, neighbor⟩ : WormholeProbeKey) ∈ s.detector.verification_probe_start_time := by
    simp [Std.ExtTreeMap.mem_iff_isSome_getElem?, hstart]
  refine ⟨({ s with routing_table := table, detector := confirmed s } : RoutingProtocol).emit
    (.verification_evaluated ⟨own, neighbor⟩ true), ?_, ?_, ?_⟩
  · rw [handle, if_pos (is_own h.socket_addresses), recv_aodv]
    have htunnel : tunnel_receiver s.attrs neighbor own = own := by
      rw [h.attrs]
      rfl
    simp only [htunnel, hneighbor, Option.bind_some, recv_verification]
    rw [if_neg (by simp [h.verification])]
    have hevaluate := evaluate_verification_probe_confirmed h hprobe
    simp only [detectorAttributes] at hevaluate
    simp only [if_pos hpending, hstart, hrtt, detectorAttributes, hevaluate]
  · refine ⟨{ h with }, hqueue, htimer, hfound, fun limit hlimit => ?_, ?_, ?_⟩
    · simp only [emit, confirmed, WormholeDetector.mark_suspect, detectorAttributes, h.attrs,
        Std.ExtTreeMap.getElem?_insert_self, Option.some.injEq] at hlimit
      simp only [emit, ← hlimit, attrs, add_zero, le_refl]
    · simp [emit, confirmed]
    · simp [emit, confirmed, WormholeDetector.mark_suspect, hcount]
  · simp [emit, confirmed, WormholeDetector.mark_suspect]

theorem Running.at (h : Running s) (t : Time) : Running { s with now := t } :=
  { h with }

theorem round (hrun : Run Always s) (h : Ready s k) :
    ∃ s', Run Always s' ∧ Ready s' (k + 1) ∧ neighbor ∈ s'.detector.verification_failure_count := by
  obtain ⟨s₁, hstep₁, h₁, hrreq, hnow₁, htimer₁, hdetector₁⟩ := reset h
  obtain ⟨s₂, hstep₂, h₂, hqueue₂, hnow₂, htimer₂, hdetector₂⟩ := route_input_some h₁ hrreq
  set t₃ : Time := s₂.now + milliseconds 1 with ht₃
  have hlater : s₁.now + milliseconds 1 = t₃ := by rw [ht₃, hnow₂]
  have hmilli : (0 : Int) < milliseconds 1 := by decide
  have hsuspect : ({ s₂ with now := t₃ } : RoutingProtocol).detector.is_neighbor_temporarily_suspect t₃ neighbor =
      false := by
    simp only [WormholeDetector.is_neighbor_temporarily_suspect, hdetector₂, WormholeDetector.start_rtt_probe]
    split
    next => rfl
    next limit hlimit =>
      have hended := h₁.suspect limit hlimit
      exact decide_eq_false (not_le.mpr (by linarith))
  obtain ⟨s₃, hstep₃, h₃, hqueue₃, hroute₃, hnow₃, htimer₃, hdetector₃⟩ :=
    recv_reply_some (h₂.at t₃) s₁.now s₁.now hqueue₂
      (by simp only [← hlater, milliseconds]; linarith)
      (by simp [hdetector₂, WormholeDetector.start_rtt_probe])
      (by simp only [← hlater, add_sub_cancel_left]) hsuspect
      (by simpa [hdetector₂, WormholeDetector.start_rtt_probe] using h₁.pending)
  simp only at hnow₃ htimer₃ hdetector₃
  set t₄ : Time := s₃.now + milliseconds 1 with ht₄
  have hpending₃ : neighbor ∈ s₃.detector.under_verification := by simp [hdetector₃, verifying]
  have hcount₃ : (s₃.detector.verification_failure_count[neighbor]?).getD 0 = k := by
    simpa [hdetector₃, verifying, hdetector₂, WormholeDetector.start_rtt_probe] using h₁.count
  obtain ⟨s₄, hstep₄, h₄, hfailure⟩ :=
    recv_verification_some (h₃.at t₄) s₃.now hqueue₃
      (by simp only [ht₄, htimer₃, htimer₂, htimer₁, hnow₃, ← hlater, milliseconds]; linarith) hroute₃ hpending₃
      (by simp [hdetector₃, verifying, hnow₃]) (by simp only [ht₄, add_sub_cancel_left]) hcount₃
  have hevent : ∀ {s s' : RoutingProtocol} {t : Time} {e : Event}, Run Always s → s.now ≤ t →
      ({ s with now := t } : RoutingProtocol).handle e = some s' → Run Always s' := by
    intro s s' t e hrun htime hhandle
    refine hrun.step (e := (t, e)) trivial ?_
    rw [timed_step, step, if_pos htime]
    exact hhandle
  have hrun₁ : Run Always s₁ :=
    hrun.step (e := (s.rreq_rate_limit_timer, .rreq_rate_limit_timer_expire)) trivial hstep₁
  have hrun₂ : Run Always s₂ := hevent hrun₁ (le_refl s₁.now) hstep₂
  have hrun₃ : Run Always s₃ := hevent hrun₂ (by linarith) hstep₃
  exact ⟨s₄, hevent hrun₃ (by linarith) hstep₄, h₄, hfailure⟩

def started : Option RoutingProtocol := station.step 0 (.interface_up ipv4 1)

theorem started_ready : ∃ s, started = some s ∧ Run Always s ∧ Ready s 0 := by
  have hattrs : started.map (·.attrs) = some attrs := rfl
  have hdetector : started.map (·.detector) = some {} := rfl
  have hstate : started.map (fun s => (s.enable_rtt_wormhole_detect, s.enable_second_probe_verification,
      s.max_queue_len, s.ipv4, s.socket_addresses, s.queue)) = some (true, true, 64, ipv4, [iface],
        { max_len := 64, queue_timeout := milliseconds 30000 }) := rfl
  have hroute : started.map (fun s => (s.routing_table.entries[destination]?, decide (s.now < s.rreq_rate_limit_timer))) =
      some (none, true) := by decide +kernel
  obtain ⟨s, hs⟩ : ∃ s, started = some s := ⟨_, rfl⟩
  rw [hs] at hattrs hdetector hstate hroute
  simp only [Option.map_some, Option.some.injEq, Prod.mk.injEq, decide_eq_true_eq] at hattrs hdetector hstate hroute
  obtain ⟨hdetect, hverification, hlen, hipv4, hsockets, hqueue⟩ := hstate
  refine ⟨s, hs, ?_, ⟨hattrs, hdetect, hverification, hlen, hipv4, hsockets, ?_, ?_, ?_⟩, ?_, hroute.2, ?_, ?_, ?_, ?_⟩
  · exact (Transition.Reachable.init station_initial).step (e := (0, .interface_up ipv4 1)) trivial hs
  · simp [hqueue]
  · simp [hdetector]
  · simp [hdetector]
  · simp [hqueue]
  · simp [hroute.1]
  · simp [hdetector]
  · simp [hdetector]
  · simp [hdetector]

theorem rounds (n : Nat) : ∃ s, Run Always s ∧ Ready s (UInt32.ofNat n) ∧
    (0 < n → neighbor ∈ s.detector.verification_failure_count) := by
  induction n with
  | zero =>
    obtain ⟨s, _, hrun, hready⟩ := started_ready
    exact ⟨s, hrun, hready, by simp⟩
  | succ n ih =>
    obtain ⟨s, hrun, hready, _⟩ := ih
    obtain ⟨s', hrun', hready', hfailure⟩ := round hrun hready
    exact ⟨s', hrun', by simpa using hready', fun _ => hfailure⟩

end Station

/-- The counter wraps: after 2^32 confirmations a neighbour has a failure count of 0. -/
theorem failure_count_wraps :
    ∃ s, Run Always s ∧ s.detector.verification_failure_count[Station.neighbor]? = some 0 := by
  obtain ⟨s, hrun, hready, hfailure⟩ := Station.rounds (2 ^ 32)
  obtain ⟨count, hcount⟩ := Option.isSome_iff_exists.mp
    (Std.ExtTreeMap.mem_iff_isSome_getElem?.mp (hfailure (by decide)))
  refine ⟨s, hrun, ?_⟩
  have hzero := hready.count
  rw [hcount] at hzero ⊢
  simp only [Option.getD_some] at hzero
  rw [hzero]
  rfl

end RoutingProtocol

end Ns3.Aodv
