import Ns3.Olsr.OlsrHeader

namespace Ns3.Olsr

open ByteFormat

variable {turns : ℕ} {msg : WireMessage} {messages : List WireMessage}

/-! ## Sizes -/

theorem length_write_addresses (addresses : List Ipv4Address) :
    (write_addresses addresses).length = addresses.length * ipv4_address_size := by
  induction addresses with
  | nil => rfl
  | cons a l ih =>
    rw [write_addresses, List.flatMap_cons, List.length_append, ← write_addresses, ih, List.length_cons, Nat.succ_mul,
      Nat.add_comm]
    rfl

theorem LinkMessage.length_serialize (lm : LinkMessage) : lm.serialize.length = lm.size := by
  rw [LinkMessage.serialize, LinkMessage.size, List.length_append, length_write_addresses, Nat.mul_comm]
  rfl

theorem Message.length_serialize (m : Message) : m.serialize.length = m.get_serialized_size := by
  cases m with
  | hello h =>
    have hlength : (h.linkMessages.flatMap LinkMessage.serialize).length = (h.linkMessages.map LinkMessage.size).sum := by
      rw [List.length_flatMap]
      exact congrArg List.sum (List.map_congr_left fun lm _ => lm.length_serialize)
    rw [Message.serialize, List.length_append, hlength]
    rfl
  | tc t =>
    rw [Message.serialize, List.length_append, length_write_addresses]
    rfl
  | mid interfaceAddresses => exact length_write_addresses interfaceAddresses
  | hna associations =>
    have hlength : ∀ association ∈ associations, (Association.serialize association).length = 8 := fun _ _ => rfl
    rw [Message.serialize, List.length_flatMap, List.map_congr_left hlength, List.map_const', List.sum_replicate,
      Message.get_serialized_size, ipv4_address_size, smul_eq_mul]
    omega

theorem WireMessage.length_serialize (msg : WireMessage) : msg.serialize.length = msg.get_serialized_size := by
  rw [WireMessage.serialize, WireMessage.get_serialized_size, List.length_append, Message.length_serialize]
  rfl

/-! ## What is written is read back -/

theorem reads_many {α : Type} {r : Reader α} {w : α → List UInt8} (l : List α) (h : ∀ a ∈ l, Reads r (w a) a) :
    Reads (read_many r l.length) (l.flatMap w) l := by
  induction l with
  | nil => exact Reads.pure []
  | cons a l ih =>
    rw [List.flatMap_cons]
    exact (h a List.mem_cons_self).bind ((ih fun a ha => h a (List.mem_cons_of_mem _ ha)).map (a :: ·))

theorem reads_addresses (addresses : List Ipv4Address) :
    Reads (read_many read_ntoh_u32 addresses.length) (write_addresses addresses) addresses :=
  reads_many addresses fun a _ => reads_u32 a

theorem reads_association (association : Association) : Reads read_association association.serialize association :=
  (reads_u32 association.networkAddr).bind ((reads_u32 association.netmask).map (Association.mk association.networkAddr))

theorem reads_link_messages (turns : ℕ) {linkMessages : List LinkMessage} {left : ℕ}
    (hleft : (linkMessages.map LinkMessage.size).sum = left)
    (hlt : left < 65536) (hturns : linkMessages.length < turns) :
    Reads (read_link_messages turns (UInt16.ofNat left)) (linkMessages.flatMap LinkMessage.serialize) (some linkMessages) := by
  induction linkMessages generalizing left turns with
  | nil =>
    obtain ⟨turns, rfl⟩ := Nat.exists_eq_add_one.mpr hturns
    subst hleft
    exact Reads.pure (some [])
  | cons lm linkMessages ih =>
    obtain ⟨turns, rfl⟩ := Nat.exists_eq_add_one.mpr (Nat.zero_lt_of_lt hturns)
    rw [List.map_cons, List.sum_cons] at hleft
    have hsize : lm.size = 4 + lm.neighborInterfaceAddresses.length * 4 := by
      rw [LinkMessage.size, Nat.mul_comm]
      rfl
    have htoNat : (UInt16.ofNat left).toNat = left := by
      rw [UInt16.toNat_ofNat', Nat.mod_eq_of_lt hlt]
    have hlm : (UInt16.ofNat lm.size).toNat = lm.size := by
      rw [UInt16.toNat_ofNat', Nat.mod_eq_of_lt (by omega)]
    have hnonzero : UInt16.ofNat left ≠ 0 := by
      intro h
      have hzero := congrArg UInt16.toNat h
      rw [htoNat, UInt16.toNat_zero] at hzero
      omega
    have hnext : UInt16.ofNat left - UInt16.ofNat lm.size = UInt16.ofNat (linkMessages.map LinkMessage.size).sum := by
      rw [← hleft, UInt16.ofNat_add, add_sub_cancel_left]
    have hrest := ih turns rfl (by omega) (Nat.lt_of_succ_lt_succ hturns)
    have hbytes : (lm :: linkMessages).flatMap LinkMessage.serialize = [] ++ ([lm.linkCode] ++ ([0] ++
        (write_hton_u16 (UInt16.ofNat lm.size) ++ ([] ++ ([] ++ (write_addresses lm.neighborInterfaceAddresses ++
          (linkMessages.flatMap LinkMessage.serialize ++ []))))))) := by
      rw [hsize]
      simp only [List.flatMap_cons, LinkMessage.serialize, List.append_assoc, List.append_nil, List.nil_append]
      rfl
    have hcount : (lm.size - 4) / ipv4_address_size = lm.neighborInterfaceAddresses.length := by
      rw [hsize, ipv4_address_size]
      omega
    have hmod : Int.tmod ((lm.size : ℤ) - 4) ipv4_address_size = 0 := by
      rw [hsize, ipv4_address_size]
      push_cast
      rw [add_sub_cancel_left]
      exact Int.mul_tmod_left _ _
    rw [hbytes, read_link_messages, if_neg hnonzero]
    refine (Reads.check (by omega)).bind ((reads_u8 _).bind ((reads_u8 _).bind ((reads_u16 _).bind ?_)))
    rw [hlm, hcount, hnext]
    refine (Reads.check hmod).bind ((Reads.check (by omega)).bind ((reads_addresses _).bind (hrest.bind ?_)))
    exact Reads.pure _

theorem toNat_ofNat_u32 {n : ℕ} (h : n < 65536) : (UInt32.ofNat n).toNat = n := by
  rw [UInt32.toNat_ofNat', Nat.mod_eq_of_lt (by omega)]

theorem reads_mid (interfaceAddresses : List Ipv4Address) (hlt : interfaceAddresses.length * 4 < 65536) :
    let size := UInt32.ofNat (interfaceAddresses.length * 4)
    Reads (deserialize_mid size) (write_addresses interfaceAddresses) (.mid interfaceAddresses, size) := by
  intro size
  have hsize : size.toNat = interfaceAddresses.length * 4 := toNat_ofNat_u32 hlt
  rw [deserialize_mid, hsize, ipv4_address_size, Nat.mul_div_cancel _ (by decide)]
  exact (Reads.check (Nat.mul_mod_left _ 4)).bind ((reads_addresses interfaceAddresses).map fun l =>
    (Message.mid l, UInt32.ofNat (Message.mid l).get_serialized_size))

theorem reads_tc (t : Tc) (hlt : 4 + t.neighborAddresses.length * 4 < 65536) :
    let size := UInt32.ofNat (4 + t.neighborAddresses.length * 4)
    Reads (deserialize_tc size) (Message.tc t).serialize (.tc t, size) := by
  intro size
  have hsize : size.toNat = 4 + t.neighborAddresses.length * 4 := toNat_ofNat_u32 hlt
  have hbytes : (Message.tc t).serialize = [] ++ (write_hton_u16 t.ansn ++ (write_hton_u16 0 ++ ([] ++
      (write_addresses t.neighborAddresses)))) := by
    simp only [Message.serialize, List.append_assoc, List.nil_append]
  rw [hbytes, deserialize_tc, hsize, Nat.add_sub_cancel_left, ipv4_address_size, Nat.mul_div_cancel _ (by decide)]
  exact (Reads.check (Nat.le_add_right 4 _)).bind ((reads_u16 _).bind ((reads_u16 _).bind
    ((Reads.check (Nat.mul_mod_left _ 4)).bind ((reads_addresses t.neighborAddresses).map fun l =>
      (Message.tc ⟨l, t.ansn⟩, size)))))

theorem reads_hna (associations : List Association) (hlt : 2 * associations.length * 4 < 65536) :
    let size := UInt32.ofNat (2 * associations.length * 4)
    Reads (deserialize_hna size) (Message.hna associations).serialize (.hna associations, size) := by
  intro size
  have hsize : size.toNat = 2 * associations.length * 4 := toNat_ofNat_u32 hlt
  have hcount : 2 * associations.length * 4 / 4 / 2 = associations.length := by omega
  have hmod : 2 * associations.length * 4 % (4 * 2) = 0 := by omega
  rw [deserialize_hna, hsize, ipv4_address_size, hcount]
  exact (Reads.check hmod).bind ((reads_many associations fun association _ => reads_association association).map
    fun l => (Message.hna l, size))

theorem reads_hello (h : Hello) (hlt : (Message.hello h).get_serialized_size < 65536)
    (hturns : h.linkMessages.length < turns) :
    let size := UInt32.ofNat (Message.hello h).get_serialized_size
    Reads (deserialize_hello turns size) (Message.hello h).serialize (some (.hello h, size)) := by
  intro size
  have hsize : size.toNat = 4 + (h.linkMessages.map LinkMessage.size).sum := toNat_ofNat_u32 hlt
  have hlow : size.toUInt16 - 4 = UInt16.ofNat (h.linkMessages.map LinkMessage.size).sum := by
    have hcast : size.toUInt16 = UInt16.ofNat (4 + (h.linkMessages.map LinkMessage.size).sum) :=
      UInt32.toUInt16_ofNat' _
    rw [hcast, UInt16.ofNat_add]
    exact add_sub_cancel_left _ _
  have hbytes : (Message.hello h).serialize = [] ++ (write_hton_u16 0 ++ ([h.hTime] ++ ([h.willingness] ++
      (h.linkMessages.flatMap LinkMessage.serialize)))) := by
    simp only [Message.serialize, List.append_assoc, List.nil_append]
  have hlinks := reads_link_messages turns (rfl : (h.linkMessages.map LinkMessage.size).sum = _)
    (by rw [Message.get_serialized_size] at hlt; omega) hturns
  rw [hbytes, deserialize_hello, hlow]
  exact (Reads.check (by omega)).bind ((reads_u16 _).bind ((reads_u8 _).bind ((reads_u8 _).bind (hlinks.map fun l =>
    l.map fun linkMessages => (Message.hello ⟨h.hTime, h.willingness, linkMessages⟩, size)))))

theorem length_le_sum_size (linkMessages : List LinkMessage) :
    linkMessages.length ≤ (linkMessages.map LinkMessage.size).sum := by
  have hone : ∀ n ∈ linkMessages.map LinkMessage.size, 1 ≤ n := by
    intro n hn
    obtain ⟨lm, -, rfl⟩ := List.mem_map.mp hn
    exact Nat.le_add_right_of_le (by decide)
  have hsum := List.length_le_sum_of_one_le _ hone
  rwa [List.length_map] at hsum

theorem reads_message (m : Message) (hlt : m.get_serialized_size < 65536) (hturns : m.get_serialized_size < turns) :
    Reads (deserialize_message turns m.code (UInt32.ofNat m.get_serialized_size)) m.serialize
      (some (m, UInt32.ofNat m.get_serialized_size)) := by
  cases m with
  | hello h =>
    have hlength := length_le_sum_size h.linkMessages
    rw [Message.get_serialized_size] at hturns
    exact reads_hello h hlt (by omega)
  | tc t => exact (reads_tc t hlt).map some
  | mid interfaceAddresses => exact (reads_mid interfaceAddresses hlt).map some
  | hna associations => exact (reads_hna associations hlt).map some

theorem reads_fixed (msg : WireMessage) :
    Reads read_fixed ([msg.m_message.code] ++ [msg.m_vTime] ++ write_hton_u16 (UInt16.ofNat msg.get_serialized_size) ++
        write_hton_u32 msg.m_originatorAddress ++ [msg.m_timeToLive] ++ [msg.m_hopCount] ++
        write_hton_u16 msg.m_messageSequenceNumber)
      (msg.m_message.code, UInt16.ofNat msg.get_serialized_size, WireMessage.mk msg.m_vTime msg.m_originatorAddress
        msg.m_timeToLive msg.m_hopCount msg.m_messageSequenceNumber) := by
  have hcode : 1 ≤ msg.m_message.code.toNat ∧ msg.m_message.code.toNat ≤ 4 := by
    cases msg.m_message <;> simp [Message.code]
  simp only [List.append_assoc]
  exact (reads_u8 _).bind ((Reads.check hcode).bind ((reads_u8 _).bind ((reads_u16 _).bind ((reads_u32 _).bind
    ((reads_u8 _).bind ((reads_u8 _).bind ((reads_u16 _).map fun seq => (msg.m_message.code,
      UInt16.ofNat msg.get_serialized_size, WireMessage.mk msg.m_vTime msg.m_originatorAddress msg.m_timeToLive
        msg.m_hopCount seq))))))))

theorem reads_wire_message (msg : WireMessage) (hlt : msg.get_serialized_size < 65536) :
    Reads WireMessage.deserialize msg.serialize
      (some (msg, UInt16.ofNat msg.get_serialized_size, UInt32.ofNat msg.get_serialized_size)) := by
  intro rest
  have hsize : msg.get_serialized_size = olsr_msg_header_size + msg.m_message.get_serialized_size := rfl
  have hlength : msg.m_message.get_serialized_size < (msg.serialize ++ rest).length := by
    rw [List.length_append, msg.length_serialize, hsize, olsr_msg_header_size]
    omega
  have hcast : (UInt16.ofNat msg.get_serialized_size).toUInt32 = UInt32.ofNat msg.get_serialized_size := by
    apply UInt32.toNat_inj.mp
    rw [UInt16.toNat_toUInt32, UInt16.toNat_ofNat', toNat_ofNat_u32 hlt, Nat.mod_eq_of_lt hlt]
  have hrest : (UInt16.ofNat msg.get_serialized_size).toUInt32 - UInt32.ofNat olsr_msg_header_size =
      UInt32.ofNat msg.m_message.get_serialized_size := by
    rw [hcast, hsize, UInt32.ofNat_add, add_sub_cancel_left]
  have hmessage := reads_message msg.m_message (by omega) hlength
  rw [← hrest] at hmessage
  have htotal : UInt32.ofNat olsr_msg_header_size + UInt32.ofNat msg.m_message.get_serialized_size =
      UInt32.ofNat msg.get_serialized_size := by rw [hsize, UInt32.ofNat_add]
  have hread := (reads_fixed msg).bind (f := fun r => do
    let content ← deserialize_message (msg.serialize ++ rest).length r.1
      (r.2.1.toUInt32 - UInt32.ofNat olsr_msg_header_size)
    return content.map fun m => (r.2.2 m.1, r.2.1, UInt32.ofNat olsr_msg_header_size + m.2))
    (hmessage.map _)
  rw [← htotal, ← hrest]
  exact hread rest

/-! ## The packet -/

/-- What the receiver notes of a message that fits. -/
def noted (msg : WireMessage) : Parsed := ⟨msg, UInt16.ofNat msg.get_serialized_size, msg.get_serialized_size⟩

theorem length_flatMap_serialize (messages : List WireMessage) :
    (messages.flatMap WireMessage.serialize).length = (messages.map WireMessage.get_serialized_size).sum := by
  rw [List.length_flatMap]
  exact congrArg List.sum (List.map_congr_left fun msg _ => msg.length_serialize)

theorem parse_messages_serialize (hlt : (messages.map WireMessage.get_serialized_size).sum < 65536)
    (hturns : messages.length < turns) :
    parse_messages turns (UInt32.ofNat (messages.map WireMessage.get_serialized_size).sum)
      (messages.flatMap WireMessage.serialize) = (messages.map noted, .finished) := by
  induction messages generalizing turns with
  | nil =>
    obtain ⟨turns, rfl⟩ := Nat.exists_eq_add_one.mpr hturns
    rfl
  | cons msg messages ih =>
    obtain ⟨turns, rfl⟩ := Nat.exists_eq_add_one.mpr (Nat.zero_lt_of_lt hturns)
    rw [List.map_cons, List.sum_cons] at hlt ⊢
    have hsize : msg.get_serialized_size = 12 + msg.m_message.get_serialized_size := rfl
    have hleft := toNat_ofNat_u32 hlt
    have hone := toNat_ofNat_u32 (show msg.get_serialized_size < 65536 by omega)
    have hleft0 : UInt32.ofNat (msg.get_serialized_size + (messages.map WireMessage.get_serialized_size).sum) ≠ 0 := by
      intro h
      rw [h, UInt32.toNat_zero] at hleft
      omega
    have hone0 : UInt32.ofNat msg.get_serialized_size ≠ 0 := by
      intro h
      rw [h, UInt32.toNat_zero] at hone
      omega
    have hread := reads_wire_message msg (by omega) (messages.flatMap WireMessage.serialize)
    have hlength := msg.length_serialize
    rw [List.flatMap_cons, parse_messages, if_neg hleft0, hread]
    simp only [if_neg hone0]
    rw [hone, ← hlength, List.drop_left, hlength, UInt32.ofNat_add, add_sub_cancel_left,
      ih (by omega) (Nat.lt_of_succ_lt_succ hturns), List.length_append, Nat.add_sub_cancel, hlength]
    rfl

theorem run_packet_header (packetSequenceNumber : UInt16) (messages : List WireMessage) :
    read_packet_header.run (send_packet packetSequenceNumber messages) =
      some (UInt16.ofNat (olsr_pkt_header_size + (messages.flatMap WireMessage.serialize).length),
        messages.flatMap WireMessage.serialize) := by
  have hread : Reads read_packet_header (write_hton_u16 (UInt16.ofNat
      (olsr_pkt_header_size + (messages.flatMap WireMessage.serialize).length)) ++ write_hton_u16 packetSequenceNumber) _ :=
    (reads_u16 _).bind ((reads_u16 packetSequenceNumber).map fun _ => _)
  exact hread _

theorem toNat_packet_length (hlt : olsr_pkt_header_size + (messages.map WireMessage.get_serialized_size).sum < 65536) :
    (UInt16.ofNat (olsr_pkt_header_size + (messages.flatMap WireMessage.serialize).length)).toNat =
      olsr_pkt_header_size + (messages.flatMap WireMessage.serialize).length := by
  rw [UInt16.toNat_ofNat', length_flatMap_serialize, Nat.mod_eq_of_lt hlt]

theorem recv_olsr_send_packet (packetSequenceNumber : UInt16)
    (hlt : olsr_pkt_header_size + (messages.map WireMessage.get_serialized_size).sum < 65536) :
    recv_olsr (send_packet packetSequenceNumber messages) = (messages.map noted, .finished) := by
  have hlength := length_flatMap_serialize messages
  have hcount : messages.length ≤ (messages.flatMap WireMessage.serialize).length :=
    length_le_length_flatMap fun msg _ => List.cons_ne_nil _ _
  have hleft : (UInt16.ofNat (olsr_pkt_header_size + (messages.flatMap WireMessage.serialize).length)).toUInt32 -
      UInt32.ofNat olsr_pkt_header_size = UInt32.ofNat (messages.map WireMessage.get_serialized_size).sum := by
    rw [← UInt32.ofNat_uInt16ToNat, toNat_packet_length hlt, UInt32.ofNat_add, add_sub_cancel_left, hlength]
  rw [recv_olsr, run_packet_header]
  simp only [toNat_packet_length hlt, hleft]
  rw [if_pos (Nat.le_add_right _ _), parse_messages_serialize (by omega) (Nat.lt_succ_of_le hcount)]

end Ns3.Olsr
