import Ns3.Olsr.Flooding.Handlers

namespace Ns3.Olsr.Node

variable {n n' n₁ : Node} {msg : MessageHeader} {receiver sender : Ipv4Address}

def relayed (n : Node) (msg : MessageHeader) : MessageHeader :=
  { msg with
    m_timeToLive := msg.m_timeToLive - 1
    m_hopCount := msg.m_hopCount + 1
    retransmitters := msg.retransmitters ++ [n.m_mainAddress] }

theorem ledger_retransmit (n : Node) (msg : MessageHeader) :
    (n.retransmit msg).ledger = { n.ledger with
      history := n.history ++ [⟨.queued, n.relayed msg, n.now⟩]
      queued := n.m_queuedMessages ++ [n.relayed msg] } := by
  have hqueue := ledger_queue_message (n := n.jitter.2) (m := n.relayed msg) n.jitter.1
  have hhistory := congrArg Ledger.history hqueue
  have hnow := congrArg Ledger.now hqueue
  have hrecord : (n.retransmit msg).ledger =
      { (n.jitter.2.queue_message (n.relayed msg) n.jitter.1).ledger with
        history := (n.jitter.2.queue_message (n.relayed msg) n.jitter.1).ledger.history ++
          [⟨.queued, n.relayed msg, (n.jitter.2.queue_message (n.relayed msg) n.jitter.1).ledger.now⟩] } :=
    rfl
  rw [hrecord, hqueue]
  rfl

theorem traced_relayed (h : msg.Traced) (httl : 1 < msg.m_timeToLive) :
    (n.relayed msg).Traced ∧ (n.relayed msg).retransmitters.length ≤ (n.relayed msg).originated - 1 := by
  have hsum := h.sum
  have hlt : 1 < msg.m_timeToLive.toNat := by simpa using UInt8.lt_iff_toNat_lt.mp httl
  have hle : (1 : UInt8) ≤ msg.m_timeToLive := UInt8.le_iff_toNat_le.mpr (by simpa using hlt.le)
  have hsub : (msg.m_timeToLive - 1).toNat = msg.m_timeToLive.toNat - 1 :=
    UInt8.toNat_sub_of_le _ _ hle
  refine ⟨⟨?_, fun _ => ?_⟩, ?_⟩
  · simp only [relayed, hsub, List.length_append, List.length_singleton]
    omega
  · simp only [relayed, hsub]
    omega
  · simp only [relayed, List.length_append, List.length_singleton]
    omega

theorem good_forward {b : Ipv4Address} (hgood : n.ledger.Good) (htraced : msg.Traced)
    (hforeign : msg.m_originatorAddress ≠ n.m_mainAddress) {effects : List Effect}
    (hn₁ : n₁.ledger = { n.ledger with history := n.history ++ effects })
    (heffects : effects = [] ∧ (∀ d, n.ledger.find msg.m_originatorAddress
        msg.m_messageSequenceNumber = some d → d.retransmitted = false) ∨
      effects = [⟨.processed, msg, n.now⟩] ∧
        n.ledger.find msg.m_originatorAddress msg.m_messageSequenceNumber = none)
    (localIface : Ipv4Address) :
    let duplicated := n.ledger.find msg.m_originatorAddress msg.m_messageSequenceNumber
    let n' := if n₁.Forwards msg b then
        (n₁.retransmit msg).update_duplicate msg duplicated true localIface
      else n₁.update_duplicate msg duplicated false localIface
    n'.ledger.Good ∧ n'.ledger.initialized = n.initialized := by
  have hmem : ∀ e ∈ effects, e = ⟨.processed, msg, n.now⟩ := by
    rcases heffects with ⟨rfl, -⟩ | ⟨rfl, -⟩ <;> simp
  have hdup : ∀ d, n.ledger.find msg.m_originatorAddress msg.m_messageSequenceNumber = some d →
      d.retransmitted = false ∧ effects = [] := by
    intro d hd
    rcases heffects with ⟨rfl, hret⟩ | ⟨-, hnone⟩
    · exact ⟨hret d hd, rfl⟩
    · rw [hnone] at hd
      cases hd
  have hdistinct : effects.Pairwise fun e e' => e.kind ≠ e'.kind := by
    rcases heffects with ⟨rfl, -⟩ | ⟨rfl, -⟩ <;> simp
  have hmain : n₁.m_mainAddress = n.m_mainAddress := congrArg Ledger.mainAddress hn₁
  have hnow : n₁.now = n.now := congrArg Ledger.now hn₁
  have hhistory : n₁.history = n.history ++ effects := congrArg Ledger.history hn₁
  have hqueued : n₁.m_queuedMessages = n.m_queuedMessages := congrArg Ledger.queued hn₁
  intro duplicated n'
  unfold n'
  split
  next hforwards =>
    obtain ⟨htraced', hbound⟩ := traced_relayed (n := n₁) htraced hforwards.1
    have hledger : (n₁.retransmit msg).ledger = { n.ledger with
        history := n.history ++ (effects ++ [⟨.queued, n₁.relayed msg, n.now⟩])
        queued := n.m_queuedMessages ++ [n₁.relayed msg] } := by
      rw [ledger_retransmit, hn₁, hhistory, hqueued, hnow, List.append_assoc]
    obtain ⟨d, hnoted⟩ := noted_update_duplicate (b := msg) true localIface hledger hgood
      (by
        intro m hm
        rcases List.mem_append.mp hm with hm | hm
        · exact .inl hm
        · rw [List.mem_singleton.mp hm]
          exact .inr ⟨htraced', ⟨.queued, n₁.relayed msg, n.now⟩, by simp, rfl, rfl⟩)
      (by
        intro d hd
        obtain ⟨hret, rfl⟩ := hdup d hd
        simp [hret])
      (fun _ => rfl)
      (by
        intro e he
        rcases List.mem_append.mp he with he | he
        · rw [hmem e he]
          exact ⟨rfl, ⟨rfl, rfl⟩, fun h => by cases h⟩
        · rw [List.mem_singleton.mp he]
          exact ⟨rfl, ⟨rfl, rfl⟩, fun _ => hbound⟩)
      (by
        rw [List.pairwise_append]
        refine ⟨hdistinct, List.pairwise_singleton _ _, fun e he e' he' => ?_⟩
        rw [hmem e he, List.mem_singleton.mp he']
        exact fun h => by cases h)
    exact ⟨hgood.note hforeign hnoted, hnoted.initialized⟩
  next =>
    have hledger : n₁.ledger = { n.ledger with
        history := n.history ++ effects, queued := n.m_queuedMessages } := hn₁
    obtain ⟨d, hnoted⟩ := noted_update_duplicate (b := msg) false localIface hledger hgood
      (fun m hm => .inl hm)
      (by
        intro d hd
        obtain ⟨hret, rfl⟩ := hdup d hd
        simp [hret])
      (by
        rintro ⟨e, he, hkind⟩
        rw [hmem e he] at hkind
        cases hkind)
      (by
        intro e he
        rw [hmem e he]
        exact ⟨rfl, ⟨rfl, rfl⟩, fun h => by cases h⟩)
      hdistinct
    exact ⟨hgood.note hforeign hnoted, hnoted.initialized⟩

theorem forward_default_of_symmetric {duplicated : Option DuplicateTuple} {link : LinkTuple}
    (hlink : n.m_state.find_sym_link_tuple sender n.now = some link)
    (hdup : duplicated.any (·.retransmitted) = false) (localIface : Ipv4Address) :
    n.forward_default msg duplicated localIface sender =
      if n.Forwards msg sender then
        (n.retransmit msg).update_duplicate msg duplicated true localIface
      else n.update_duplicate msg duplicated false localIface := by
  simp [forward_default, hlink, hdup]

theorem forward_default_of_asymmetric {duplicated : Option DuplicateTuple}
    (hlink : n.m_state.find_sym_link_tuple sender n.now = none) (localIface : Ipv4Address) :
    n.forward_default msg duplicated localIface sender = n := by
  simp [forward_default, hlink]

/-- The node has started, and its ledger is in order. -/
def Sound (n : Node) : Prop := n.ledger.Good ∧ n.initialized = true

theorem Sound.congr (h : n.Sound) (hledger : n'.ledger = n.ledger) : n'.Sound :=
  ⟨hledger ▸ h.1, (congrArg Ledger.initialized hledger).trans h.2⟩

theorem sound_first (hn : n.Sound) (htraced : msg.Traced)
    (hforeign : msg.m_originatorAddress ≠ n.m_mainAddress)
    (hdup : n.ledger.find msg.m_originatorAddress msg.m_messageSequenceNumber = none)
    (hflooded : msg.m_message.is_hello = false) (h : n.process msg receiver sender = some n₁) :
    (n₁.forward_default msg none receiver sender).Sound := by
  cases hlink : n.m_state.find_sym_link_tuple sender n.now with
  | none =>
    obtain rfl := process_of_asymmetric hflooded hlink h
    rwa [forward_default_of_asymmetric hlink]
  | some link =>
    have hrelay := process_of_symmetric hflooded hlink h
    have hledger : n₁.ledger = { n.ledger with history := n.history ++ [⟨.processed, msg, n.now⟩] } :=
      congrArg Prod.fst hrelay
    have hlink₁ : n₁.m_state.find_sym_link_tuple sender n₁.now = some link :=
      (find_sym_link_tuple_congr hrelay).trans hlink
    rw [forward_default_of_symmetric hlink₁ rfl]
    have hgood := good_forward (b := sender) hn.1 htraced hforeign hledger (.inr ⟨rfl, hdup⟩) receiver
    rw [hdup] at hgood
    exact ⟨hgood.1, hgood.2.trans hn.2⟩

theorem sound_again (hn : n.Sound) (htraced : msg.Traced)
    (hforeign : msg.m_originatorAddress ≠ n.m_mainAddress) {d : DuplicateTuple}
    (hdup : n.ledger.find msg.m_originatorAddress msg.m_messageSequenceNumber = some d) :
    (n.forward_default msg (some d) receiver sender).Sound := by
  cases hlink : n.m_state.find_sym_link_tuple sender n.now with
  | none => rwa [forward_default_of_asymmetric hlink]
  | some link =>
    cases hret : d.retransmitted with
    | true =>
      have hsame : n.forward_default msg (some d) receiver sender = n := by
        simp [forward_default, hlink, hret]
      rwa [hsame]
    | false =>
      rw [forward_default_of_symmetric hlink (by simpa using hret)]
      have hledger : n.ledger = { n.ledger with history := n.history ++ [] } := by
        rw [List.append_nil]
        rfl
      have hgood := good_forward (b := sender) hn.1 htraced hforeign hledger
        (.inl ⟨rfl, fun d' hd' => by rw [hdup] at hd'; cases hd'; exact hret⟩) receiver
      rw [hdup] at hgood
      exact ⟨hgood.1, hgood.2.trans hn.2⟩

theorem sound_recv_message (hn : n.Sound) (htraced : msg.Traced)
    (h : recv_message receiver sender n msg = some n') : n'.Sound := by
  unfold recv_message at h
  split at h
  · exact Option.some.inj h ▸ hn
  next hdrop =>
    obtain ⟨-, hforeign⟩ := not_or.mp hdrop
    cases hdup : n.m_state.find_duplicate_tuple msg.m_originatorAddress msg.m_messageSequenceNumber with
    | none =>
      rw [hdup] at h
      obtain ⟨n₁, hprocess, h⟩ := Option.bind_eq_some_iff.mp h
      rw [← Option.some.inj h]
      cases hhello : msg.m_message.is_hello with
      | true =>
        cases hm : msg.m_message with
        | hello hello =>
          simp only [process, hm] at hprocess
          exact hn.congr (ledger_process_hello hprocess)
        | _ => rw [hm] at hhello; cases hhello
      | false => exact sound_first hn htraced hforeign hdup hhello hprocess
    | some d =>
      rw [hdup] at h
      obtain ⟨n₁, hsame, h⟩ := Option.bind_eq_some_iff.mp h
      obtain rfl := Option.some.inj hsame
      rw [← Option.some.inj h]
      split
      · exact sound_again hn htraced hforeign hdup
      · exact hn

theorem ledger_routing_table_computation (h : n.routing_table_computation = some n') :
    n'.ledger = n.ledger := by
  obtain ⟨p, hp, rfl⟩ := Option.map_eq_some_iff.mp h
  have hbase := RoutingProtocol.base_routing_table_computation hp
  have hstate : p.m_state = n.m_state := congrArg Prod.fst hbase
  have hmain : p.m_mainAddress = n.m_mainAddress := congrArg (fun b => b.2.1) hbase
  simp only [ledger, hstate, hmain]
  rfl

theorem sound_foldlM (messages : List MessageHeader) (hn : n.Sound)
    (htraced : ∀ m ∈ messages, m.Traced)
    (h : messages.foldlM (recv_message receiver sender) n = some n') : n'.Sound := by
  induction messages generalizing n with
  | nil =>
    cases h
    exact hn
  | cons m messages ih =>
    rw [List.foldlM_cons] at h
    obtain ⟨n₁, h₁, h⟩ := Option.bind_eq_some_iff.mp h
    exact ih (sound_recv_message hn (htraced m List.mem_cons_self) h₁)
      (fun m hm => htraced m (List.mem_cons_of_mem _ hm)) h

theorem sound_recv_olsr (hn : n.Sound) {recvInterfaceIndex : ℕ} {packet : OlsrPacket}
    (htraced : ∀ m ∈ packet.messages, m.Traced)
    (h : n.recv_olsr recvInterfaceIndex packet = some n') : n'.Sound := by
  unfold recv_olsr at h
  split_ifs at h
  · exact Option.some.inj h ▸ hn
  · exact Option.some.inj h ▸ hn
  · obtain ⟨receiverIface, -, h⟩ := Option.bind_eq_some_iff.mp h
    split at h
    · cases h
    · obtain ⟨n₁, h₁, h⟩ := Option.bind_eq_some_iff.mp h
      exact (sound_foldlM _ hn htraced h₁).congr (ledger_routing_table_computation h)

end Ns3.Olsr.Node

namespace Ns3.Olsr.Node

variable {n n' : Node}

/-! ### Sending -/

theorem ledger_originate (vTime timeToLive : UInt8) (message : Message) :
    ∃ msg : MessageHeader, msg.Traced ∧ msg.m_originatorAddress = n.m_mainAddress ∧
      (n.originate vTime timeToLive message).ledger =
        { n.ledger with queued := n.m_queuedMessages ++ [msg] } :=
  ⟨_, ⟨Nat.add_zero _, fun h => absurd rfl h⟩, rfl, ledger_queue_message _⟩

theorem sound_originate (hn : n.Sound) (vTime timeToLive : UInt8) (message : Message) :
    (n.originate vTime timeToLive message).Sound := by
  obtain ⟨msg, htraced, hmain, hledger⟩ := ledger_originate (n := n) vTime timeToLive message
  refine ⟨?_, (congrArg Ledger.initialized hledger).trans hn.2⟩
  rw [hledger]
  exact hn.1.originate htraced hmain

theorem sound_schedule (hn : n.Sound) (delay : Time) (call : OlsrCall) :
    (n.schedule delay call).Sound := hn.congr rfl

theorem sound_hello_timer_expire (hn : n.Sound) (h : n.hello_timer_expire = some n') : n'.Sound := by
  obtain ⟨n₁, h₁, rfl⟩ := Option.map_eq_some_iff.mp h
  obtain ⟨vTime, -, h₁⟩ := Option.bind_eq_some_iff.mp h₁
  obtain ⟨hTime, -, h₁⟩ := Option.bind_eq_some_iff.mp h₁
  rw [← Option.some.inj h₁]
  exact sound_schedule (sound_originate hn _ _ _) _ _

theorem sound_tc_timer_expire (hn : n.Sound) (h : n.tc_timer_expire = some n') : n'.Sound := by
  obtain ⟨n₁, h₁, rfl⟩ := Option.map_eq_some_iff.mp h
  refine sound_schedule ?_ _ _
  split at h₁
  · exact Option.some.inj h₁ ▸ hn
  · obtain ⟨vTime, -, h₁⟩ := Option.bind_eq_some_iff.mp h₁
    exact Option.some.inj h₁ ▸ sound_originate hn _ _ _

theorem sound_mid_timer_expire (hn : n.Sound) (h : n.mid_timer_expire = some n') : n'.Sound := by
  obtain ⟨n₁, h₁, rfl⟩ := Option.map_eq_some_iff.mp h
  refine sound_schedule ?_ _ _
  obtain ⟨addresses, -, h₁⟩ := Option.bind_eq_some_iff.mp h₁
  split at h₁
  · exact Option.some.inj h₁ ▸ hn
  · obtain ⟨vTime, -, h₁⟩ := Option.bind_eq_some_iff.mp h₁
    exact Option.some.inj h₁ ▸ sound_originate hn _ _ _

theorem sound_hna_timer_expire (hn : n.Sound) (h : n.hna_timer_expire = some n') : n'.Sound := by
  obtain ⟨n₁, h₁, rfl⟩ := Option.map_eq_some_iff.mp h
  refine sound_schedule ?_ _ _
  split at h₁
  · exact Option.some.inj h₁ ▸ hn
  · obtain ⟨vTime, -, h₁⟩ := Option.bind_eq_some_iff.mp h₁
    exact Option.some.inj h₁ ▸ sound_originate hn _ _ _

theorem send_messages_spec (messages msglist : List MessageHeader) (n : Node) :
    ∃ packets : List OlsrPacket,
      (send_messages messages msglist n).ledger = { n.ledger with sent := n.sent ++ packets } ∧
        ∀ packet ∈ packets, ∀ m ∈ packet.messages, m ∈ msglist ∨ m ∈ messages := by
  induction messages generalizing msglist n with
  | nil =>
    unfold send_messages
    split
    · exact ⟨[], by rw [List.append_nil]; rfl, by simp⟩
    · refine ⟨_, rfl, fun packet hpacket m hm => ?_⟩
      obtain ⟨source, -, rfl⟩ := List.mem_map.mp hpacket
      exact .inl hm
  | cons message messages ih =>
    unfold send_messages
    split
    · obtain ⟨packets, hledger, hmem⟩ := ih [] (n.send_packet (msglist ++ [message]))
      refine ⟨n.m_sendSockets.map (fun source => ⟨source, msglist ++ [message]⟩) ++ packets, ?_, ?_⟩
      · rw [hledger, ← List.append_assoc]
        rfl
      · intro packet hpacket m hm
        rcases List.mem_append.mp hpacket with hpacket | hpacket
        · obtain ⟨source, -, rfl⟩ := List.mem_map.mp hpacket
          simpa [or_assoc] using Or.inl (b := m ∈ messages) (List.mem_append.mp hm)
        · exact .inr (List.mem_cons_of_mem _ ((hmem packet hpacket m hm).resolve_left List.not_mem_nil))
    · obtain ⟨packets, hledger, hmem⟩ := ih (msglist ++ [message]) n
      refine ⟨packets, hledger, fun packet hpacket m hm => ?_⟩
      simpa [or_assoc] using hmem packet hpacket m hm

theorem sound_send_queued_messages (hn : n.Sound) : n.send_queued_messages.Sound := by
  obtain ⟨packets, hledger, hmem⟩ := send_messages_spec n.m_queuedMessages [] n
  have hsend : n.send_queued_messages.ledger =
      { n.ledger with queued := [], sent := n.sent ++ packets } := by
    have hqueued : n.send_queued_messages.ledger =
        { (send_messages n.m_queuedMessages [] n).ledger with queued := [] } := rfl
    rw [hqueued, hledger]
  refine ⟨?_, (congrArg Ledger.initialized hsend).trans hn.2⟩
  rw [hsend]
  refine hn.1.send (by simp) fun packet hpacket => ?_
  rcases List.mem_append.mp hpacket with hold | hnew
  · exact .inl hold
  · exact .inr fun m hm => (hmem packet hnew m hm).resolve_left List.not_mem_nil

/-! ### Tuples -/

theorem sound_tuple_timer_expire {α : Type} (hn : n.Sound) (found : Option α)
    (expirationTime : α → Time) {remove : α → Node} (call : OlsrCall)
    (hremove : ∀ tuple, (remove tuple).ledger = n.ledger) :
    (n.tuple_timer_expire found expirationTime remove call).Sound := by
  unfold tuple_timer_expire
  split
  · exact hn
  · split
    · exact hn.congr (hremove _)
    · exact sound_schedule hn _ _

theorem sound_dup_tuple_timer_expire (hn : n.Sound) (address : Ipv4Address) (sequenceNumber : UInt16) :
    (n.dup_tuple_timer_expire address sequenceNumber).Sound := by
  unfold dup_tuple_timer_expire tuple_timer_expire
  split
  · exact hn
  next d hfind =>
    split
    next hover =>
      have hkey := List.find?_some hfind
      simp only [Bool.and_eq_true, beq_iff_eq] at hkey
      have hgood := hn.1.forget hfind hover
      refine ⟨?_, hn.2⟩
      rw [← hkey.1, ← hkey.2] at hgood
      exact hgood
    next => exact sound_schedule hn _ _

theorem sound_neighbor_loss (hn : n.Sound) {tuple : LinkTuple} (h : n.neighbor_loss tuple = some n') :
    n'.Sound := by
  obtain ⟨n₁, h₁, h⟩ := Option.bind_eq_some_iff.mp h
  refine hn.congr ?_
  rw [ledger_routing_table_computation h, ledger_mpr_computation h₁]
  exact (ledger_set_state rfl).trans (ledger_link_tuple_updated _ _)

theorem sound_link_tuple_timer_expire (hn : n.Sound) {neighborIfaceAddr : Ipv4Address}
    (h : n.link_tuple_timer_expire neighborIfaceAddr = some n') : n'.Sound := by
  unfold link_tuple_timer_expire at h
  split at h
  · exact Option.some.inj h ▸ hn
  · split at h
    · exact Option.some.inj h ▸ hn.congr (ledger_set_state rfl)
    · split at h
      · obtain ⟨n₁, h₁, rfl⟩ := Option.map_eq_some_iff.mp h
        refine sound_schedule ?_ _ _
        unfold link_tuple_lost at h₁
        split at h₁
        · exact Option.some.inj h₁ ▸ hn.congr rfl
        · exact sound_neighbor_loss hn h₁
      · exact Option.some.inj h ▸ sound_schedule hn _ _

theorem sound_expire (hn : n.Sound) (call : OlsrCall) (h : n.expire call = some n') : n'.Sound := by
  cases call with
  | hello_timer_expire => exact sound_hello_timer_expire hn h
  | tc_timer_expire => exact sound_tc_timer_expire hn h
  | mid_timer_expire => exact sound_mid_timer_expire hn h
  | hna_timer_expire => exact sound_hna_timer_expire hn h
  | send_queued_messages => exact Option.some.inj h ▸ sound_send_queued_messages hn
  | dup_tuple_timer_expire address sequenceNumber =>
    exact Option.some.inj h ▸ sound_dup_tuple_timer_expire hn address sequenceNumber
  | link_tuple_timer_expire neighborIfaceAddr => exact sound_link_tuple_timer_expire hn h
  | nb2hop_tuple_timer_expire neighborMainAddr twoHopNeighborAddr =>
    exact Option.some.inj h ▸ sound_tuple_timer_expire hn _ _ _ fun _ => ledger_set_state rfl
  | mpr_sel_tuple_timer_expire mainAddr =>
    exact Option.some.inj h ▸ sound_tuple_timer_expire hn _ _ _ fun _ => ledger_set_state rfl
  | topology_tuple_timer_expire destAddr lastAddr =>
    exact Option.some.inj h ▸ sound_tuple_timer_expire hn _ _ _ fun _ => ledger_set_state rfl
  | iface_assoc_tuple_timer_expire ifaceAddr =>
    exact Option.some.inj h ▸ sound_tuple_timer_expire hn _ _ _ fun _ => ledger_set_state rfl
  | association_tuple_timer_expire gatewayAddr networkAddr netmask =>
    exact Option.some.inj h ▸ sound_tuple_timer_expire hn _ _ _ fun _ => rfl

end Ns3.Olsr.Node
