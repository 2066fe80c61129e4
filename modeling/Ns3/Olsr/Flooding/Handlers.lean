import Ns3.Olsr.Flooding.Ledger

namespace Ns3.Olsr.Node

def ledger (n : Node) : Ledger where
  duplicates := n.m_state.m_duplicateSet
  history := n.history
  mainAddress := n.m_mainAddress
  now := n.now
  queued := n.m_queuedMessages
  sent := n.sent
  initialized := n.initialized

section Unchanged

/-! What the handling of HELLO messages and of the routing table leaves alone. -/

variable {n n' : Node}

@[simp] theorem ledger_schedule (delay : Time) (call : OlsrCall) :
    (n.schedule delay call).ledger = n.ledger := rfl

theorem ledger_set_state {s : OlsrState} (hs : s.m_duplicateSet = n.m_state.m_duplicateSet) :
    (n.set_state s).ledger = n.ledger := by
  simp only [ledger, set_state, hs]
  rfl

theorem foldl_view {α β : Type} (view : Node → β) {f : Node → α → Node}
    (hf : ∀ n a, view (f n a) = view n) (l : List α) (n : Node) : view (l.foldl f n) = view n := by
  induction l generalizing n with
  | nil => rfl
  | cons a l ih => rw [List.foldl_cons, ih, hf]

theorem foldl_ledger {α : Type} {f : Node → α → Node} (hf : ∀ n a, (f n a).ledger = n.ledger)
    (l : List α) (n : Node) : (l.foldl f n).ledger = n.ledger := foldl_view ledger hf l n

theorem mpr_computation_eq (h : n.mpr_computation = some n') :
    ∃ mprSet, n' = n.set_state (n.m_state.set_mpr_set mprSet) := by
  obtain ⟨p, hp, rfl⟩ := Option.map_eq_some_iff.mp h
  obtain ⟨mprSet, -, hp⟩ := Option.bind_eq_some_iff.mp hp
  exact ⟨mprSet, by rw [← Option.some.inj hp]; rfl⟩

theorem ledger_mpr_computation (h : n.mpr_computation = some n') : n'.ledger = n.ledger := by
  obtain ⟨mprSet, rfl⟩ := mpr_computation_eq h
  exact ledger_set_state rfl

@[simp] theorem ledger_add_neighbor_tuple (tuple : NeighborTuple) :
    (n.add_neighbor_tuple tuple).ledger = n.ledger := by
  refine ledger_set_state ?_
  unfold OlsrState.insert_neighbor_tuple
  cases n.m_state.find_neighbor_tuple tuple.neighborMainAddr <;> rfl

@[simp] theorem ledger_link_tuple_added (tuple : LinkTuple) (willingness : Willingness) :
    (n.link_tuple_added tuple willingness).ledger = n.ledger := ledger_add_neighbor_tuple _

@[simp] theorem ledger_link_tuple_updated (tuple : LinkTuple) (willingness : Willingness) :
    (n.link_tuple_updated tuple willingness).ledger = n.ledger := by
  simp only [link_tuple_updated]
  rw [ledger_set_state (by rfl)]
  split
  · exact ledger_link_tuple_added tuple willingness
  · rfl

theorem ledger_link_sensing {msg : MessageHeader} {hello : Hello} {receiver sender : Ipv4Address}
    (h : n.link_sensing msg hello receiver sender = some n') : n'.ledger = n.ledger := by
  obtain ⟨⟨tuple, updated⟩, -, h⟩ := Option.bind_eq_some_iff.mp h
  rw [← Option.some.inj h]
  dsimp only
  split <;> split <;> simp [ledger_set_state]

theorem ledger_populate_two_hop_address {msg : MessageHeader} {neighborType : UInt8}
    (n : Node) (address : Ipv4Address) :
    (populate_two_hop_address msg neighborType n address).ledger = n.ledger := by
  simp only [populate_two_hop_address]
  split
  · split
    · rfl
    · split
      · rw [ledger_schedule]
        exact ledger_set_state rfl
      · exact ledger_set_state rfl
  · split
    · exact ledger_set_state rfl
    · rfl

theorem ledger_populate_two_hop_neighbor_set (msg : MessageHeader) (hello : Hello) :
    (n.populate_two_hop_neighbor_set msg hello).ledger = n.ledger := by
  refine foldl_ledger (fun n link_tuple => ?_) _ _
  split
  · rfl
  · split
    · rfl
    · exact foldl_ledger (fun n linkMessage => foldl_ledger ledger_populate_two_hop_address _ _) _ _

theorem ledger_populate_mpr_selector_address {msg : MessageHeader} (n : Node)
    (address : Ipv4Address) : (populate_mpr_selector_address msg n address).ledger = n.ledger := by
  simp only [populate_mpr_selector_address]
  split
  · split
    · rw [ledger_schedule]
      exact ledger_set_state rfl
    · exact ledger_set_state rfl
  · rfl

theorem ledger_populate_mpr_selector_set (msg : MessageHeader) (hello : Hello) :
    (n.populate_mpr_selector_set msg hello).ledger = n.ledger := by
  refine foldl_ledger (fun n linkMessage => ?_) _ _
  split
  · exact foldl_ledger ledger_populate_mpr_selector_address _ _
  · rfl

theorem ledger_process_hello {msg : MessageHeader} {hello : Hello} {receiver sender : Ipv4Address}
    (h : n.process_hello msg hello receiver sender = some n') : n'.ledger = n.ledger := by
  obtain ⟨n₁, hsensing, h⟩ := Option.bind_eq_some_iff.mp h
  obtain ⟨n₂, hmpr, h⟩ := Option.bind_eq_some_iff.mp h
  rw [← Option.some.inj h, ledger_populate_mpr_selector_set, ledger_mpr_computation hmpr,
    ledger_populate_two_hop_neighbor_set, ← ledger_link_sensing hsensing]
  exact ledger_set_state rfl

end Unchanged

section Process

variable {n n' : Node} {msg : MessageHeader} {receiver sender : Ipv4Address}

/-- What the forwarding of a message looks at besides the MPR selectors. -/
def relay (n : Node) : Ledger × List LinkTuple := (n.ledger, n.m_state.m_linkSet)

theorem relay_set_state {s : OlsrState} (hs : s.m_duplicateSet = n.m_state.m_duplicateSet)
    (hl : s.m_linkSet = n.m_state.m_linkSet) : (n.set_state s).relay = n.relay :=
  Prod.ext (ledger_set_state hs) hl

theorem find_sym_link_tuple_congr (h : n'.relay = n.relay) :
    n'.m_state.find_sym_link_tuple sender n'.now = n.m_state.find_sym_link_tuple sender n.now := by
  have hlinks : n'.m_state.m_linkSet = n.m_state.m_linkSet := congrArg Prod.snd h
  have hnow : n'.now = n.now := congrArg (fun v => v.1.now) h
  rw [OlsrState.find_sym_link_tuple, OlsrState.find_sym_link_tuple, OlsrState.find_link_tuple,
    OlsrState.find_link_tuple, hlinks, hnow]

theorem relay_process_tc_address {tc : Tc} (n : Node) (addr : Ipv4Address) :
    (process_tc_address msg tc n addr).relay = n.relay := by
  simp only [process_tc_address]
  split
  · exact relay_set_state rfl rfl
  · exact relay_set_state rfl rfl

theorem relay_process_mid_address (n : Node) (address : Ipv4Address) :
    (process_mid_address msg n address).relay = n.relay := by
  simp only [process_mid_address]
  split
  · exact relay_set_state rfl rfl
  · exact relay_set_state rfl rfl

theorem relay_process_hna_association (n : Node) (it : Association) :
    (process_hna_association msg n it).relay = n.relay := by
  simp only [process_hna_association]
  split <;> rfl

theorem process_of_asymmetric (hflooded : msg.m_message.is_hello = false)
    (hlink : n.m_state.find_sym_link_tuple sender n.now = none)
    (h : n.process msg receiver sender = some n') : n' = n := by
  unfold process at h
  cases hm : msg.m_message with
  | hello hello => rw [hm] at hflooded; cases hflooded
  | tc tc =>
    rw [hm] at h
    simp only [process_tc, hlink] at h
    exact (Option.some.inj h).symm
  | mid interfaceAddresses =>
    rw [hm] at h
    simp only [process_mid, hlink] at h
    exact (Option.some.inj h).symm
  | hna associations =>
    rw [hm] at h
    simp only [process_hna, hlink] at h
    exact (Option.some.inj h).symm

theorem process_of_symmetric (hflooded : msg.m_message.is_hello = false) {link : LinkTuple}
    (hlink : n.m_state.find_sym_link_tuple sender n.now = some link)
    (h : n.process msg receiver sender = some n') : n'.relay = (n.record .processed msg).relay := by
  unfold process at h
  cases hm : msg.m_message with
  | hello hello => rw [hm] at hflooded; cases hflooded
  | tc tc =>
    rw [hm] at h
    simp only [process_tc, hlink] at h
    rw [← Option.some.inj h]
    split
    · rfl
    · rw [foldl_view relay relay_process_tc_address]
      exact relay_set_state rfl rfl
  | mid interfaceAddresses =>
    rw [hm] at h
    simp only [process_mid, hlink] at h
    rw [← Option.some.inj h]
    exact (relay_set_state rfl rfl).trans (foldl_view relay relay_process_mid_address _ _)
  | hna associations =>
    rw [hm] at h
    simp only [process_hna, hlink] at h
    rw [← Option.some.inj h]
    exact foldl_view relay relay_process_hna_association _ _

end Process

section Forward

variable {n n₁ : Node} {msg : MessageHeader} {effects : List Effect} {queued : List MessageHeader}

theorem ledger_queue_message {m : MessageHeader} (delay : Time) :
    (n.queue_message m delay).ledger = { n.ledger with queued := n.m_queuedMessages ++ [m] } := by
  simp only [queue_message]
  split <;> rfl

/-- The tuple of the message after `ForwardDefault`; the others stay. -/
theorem update_duplicate_spec {m : MessageHeader} (retransmitted : Bool) (localIface : Ipv4Address)
    {duplicated : Option DuplicateTuple}
    (hdup : n.ledger.find m.m_originatorAddress m.m_messageSequenceNumber = duplicated) :
    ∃ duplicates d, (n.update_duplicate m duplicated retransmitted localIface).ledger =
        { n.ledger with duplicates := duplicates } ∧
      { n.ledger with duplicates := duplicates }.find m.m_originatorAddress
        m.m_messageSequenceNumber = some d ∧
      d.expirationTime = n.now + OLSR_DUP_HOLD_TIME ∧ d.retransmitted = retransmitted ∧
      ∀ addr sequenceNumber,
        ¬ (addr = m.m_originatorAddress ∧ sequenceNumber = m.m_messageSequenceNumber) →
        { n.ledger with duplicates := duplicates }.find addr sequenceNumber =
          n.ledger.find addr sequenceNumber := by
  cases duplicated with
  | none =>
    let d : DuplicateTuple := ⟨m.m_originatorAddress, m.m_messageSequenceNumber, retransmitted,
      [localIface], n.now + OLSR_DUP_HOLD_TIME⟩
    refine ⟨n.m_state.m_duplicateSet ++ [d], d, rfl, ?_, rfl, rfl, ?_⟩
    · simp only [Ledger.find, List.find?_append]
      rw [show List.find? _ n.m_state.m_duplicateSet = none from hdup]
      simp [d]
    · intro addr sequenceNumber hne
      simp only [Ledger.find, List.find?_append]
      have hnot : ¬ (m.m_originatorAddress = addr ∧ m.m_messageSequenceNumber = sequenceNumber) :=
        fun h => hne ⟨h.1.symm, h.2.symm⟩
      simp [hnot, ledger, d]
  | some d =>
    let d' : DuplicateTuple := { d with
      expirationTime := n.now + OLSR_DUP_HOLD_TIME
      retransmitted := retransmitted
      ifaceList := d.ifaceList ++ [localIface] }
    refine ⟨_, d', rfl, ?_, rfl, rfl, ?_⟩
    · have hmap := List.find?_modifyFirst (p := fun t : DuplicateTuple =>
          t.address == m.m_originatorAddress && t.sequenceNumber == m.m_messageSequenceNumber)
        (f := fun t => { t with
          expirationTime := n.now + OLSR_DUP_HOLD_TIME
          retransmitted := retransmitted
          ifaceList := t.ifaceList ++ [localIface] }) (l := n.m_state.m_duplicateSet) fun t ht => ht
      rw [show List.find? _ n.m_state.m_duplicateSet = some d from hdup] at hmap
      exact hmap
    · intro addr sequenceNumber hne
      refine List.find?_modifyFirst_ne (fun t ht ht' => hne ?_) fun t ht ht' => hne ?_
      all_goals
        simp only [Bool.and_eq_true, beq_iff_eq] at ht ht'
        exact ⟨ht'.1.symm.trans ht.1, ht'.2.symm.trans ht.2⟩

theorem noted_update_duplicate {b : MessageHeader} (retransmitted : Bool) (localIface : Ipv4Address)
    (hn₁ : n₁.ledger = { n.ledger with history := n.history ++ effects, queued := queued })
    (hgood : n.ledger.Good)
    (hqueued : ∀ m ∈ queued, m ∈ n.m_queuedMessages ∨
      m.Traced ∧ ∃ e ∈ effects, e.kind = .queued ∧ e.message = m)
    (hdup : ∀ d, n.ledger.find b.m_originatorAddress b.m_messageSequenceNumber = some d →
      d.retransmitted = false ∧ ∀ e ∈ effects, e.kind = .queued)
    (hret : (∃ e ∈ effects, e.kind = .queued) → retransmitted = true)
    (hfresh : ∀ e ∈ effects, e.time = n.now ∧ e.message.Same b ∧
      (e.kind = .queued → e.message.retransmitters.length ≤ e.message.originated - 1))
    (hdistinct : effects.Pairwise fun e e' => e.kind ≠ e'.kind) :
    ∃ d, Ledger.Noted n.ledger (n₁.update_duplicate b
      (n.ledger.find b.m_originatorAddress b.m_messageSequenceNumber) retransmitted
      localIface).ledger b effects d := by
  have hfind : ∀ addr sequenceNumber,
      n₁.ledger.find addr sequenceNumber = n.ledger.find addr sequenceNumber := by
    intro addr sequenceNumber
    rw [hn₁]
    rfl
  have hnow : n₁.now = n.now := congrArg Ledger.now hn₁
  obtain ⟨duplicates, d, hledger, hfound, hexp, hd, hothers⟩ :=
    update_duplicate_spec (m := b) (n := n₁) retransmitted localIface (hfind _ _)
  rw [hn₁] at hledger hfound hothers
  refine ⟨d, ?_⟩
  rw [hledger]
  constructor
  case now => rfl
  case mainAddress => rfl
  case history => rfl
  case sent => rfl
  case initialized => rfl
  case queued => exact hqueued
  case others => exact hothers
  case found => exact hfound
  case expirationTime => exact hexp.trans (by rw [hnow]; rfl)
  case retransmitted => exact fun h => hd.trans (hret h)
  case forgotten =>
    intro _ e he hkind hsame
    exact hgood.over he hsame fun d' hd' => ⟨hkind, (hdup d' hd').1⟩
  case fresh =>
    intro e he
    obtain ⟨htime, hsame, hbound⟩ := hfresh e he
    refine ⟨htime, hsame, hbound, fun e' he' hkind hsame' => ?_⟩
    exact hgood.over he' hsame' fun d' hd' => ⟨hkind.trans ((hdup d' hd').2 e he), (hdup d' hd').1⟩
  case distinct => exact hdistinct

end Forward

end Ns3.Olsr.Node
