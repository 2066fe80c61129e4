import Ns3.Olsr.OlsrHeader
import Ns3.Olsr.OlsrHeader.RoundTrip

namespace Ns3.Olsr

open ByteFormat

variable {α : Type} {turns : ℕ} {l rest packet : List UInt8}

/-! ## How many bytes a reader takes -/

/-- A reader that accepts takes so many bytes. -/
def Takes (r : Reader α) (n : ℕ) : Prop := ∀ l a rest, r.run l = some (a, rest) → l.length = rest.length + n

theorem takes_u8 : Takes read_u8 1 := by
  intro l a rest h
  cases l with
  | nil => cases h
  | cons b l =>
    cases h
    rfl

theorem takes_pure (a : α) : Takes (pure a : Reader α) 0 := by
  intro l b rest h
  cases h
  rfl

theorem takes_check (p : Prop) [Decidable p] : Takes (check p) 0 := by
  intro l a rest h
  simp only [check, StateT.run] at h
  split_ifs at h
  cases h
  rfl

theorem Takes.bind {β : Type} {r : Reader α} {f : α → Reader β} {n m : ℕ} (h : Takes r n) (h' : ∀ a, Takes (f a) m) :
    Takes (r >>= f) (n + m) := by
  intro l b rest hrun
  obtain ⟨a, l', hfirst, hrest⟩ := bind_eq_some hrun
  rw [h l a l' hfirst, h' a l' b rest hrest, Nat.add_right_comm, Nat.add_assoc]

theorem takes_u16 : Takes read_ntoh_u16 2 := takes_u8.bind fun _ => takes_u8.bind fun _ => takes_pure _

theorem takes_u32 : Takes read_ntoh_u32 4 :=
  takes_u8.bind fun _ => takes_u8.bind fun _ => takes_u8.bind fun _ => takes_u8.bind fun _ => takes_pure _

theorem takes_many {r : Reader α} {n : ℕ} (h : Takes r n) (count : ℕ) : Takes (read_many r count) (n * count) := by
  induction count with
  | zero => exact takes_pure []
  | succ count ih =>
    have hstep : Takes (read_many r (count + 1)) (n + (n * count + 0)) := h.bind fun _ => ih.bind fun _ => takes_pure _
    rwa [Nat.add_comm n, Nat.add_zero] at hstep

theorem takes_fixed : Takes read_fixed 12 :=
  takes_u8.bind fun _ => (takes_check _).bind fun _ => takes_u8.bind fun _ => takes_u16.bind fun _ =>
    takes_u32.bind fun _ => takes_u8.bind fun _ => takes_u8.bind fun _ => takes_u16.bind fun _ => takes_pure _

theorem of_run_check {p : Prop} [Decidable p] {u : Unit} (h : (check p).run l = some (u, rest)) : p ∧ l = rest := by
  simp only [check, StateT.run] at h
  split_ifs at h with hp
  cases h
  exact ⟨hp, rfl⟩

/-! ## What a message takes -/

theorem run_link_message {left : UInt16} {o : Option (List LinkMessage)} (hleft : left ≠ 0)
    (h : (read_link_messages (turns + 1) left).run l = some (o, rest)) :
    ∃ lm lmSize l' o', l.length = l'.length + UInt16.toNat lmSize ∧ 4 ≤ UInt16.toNat lmSize ∧
      (read_link_messages turns (left - lmSize)).run l' = some (o', rest) ∧ o = o'.map (lm :: ·) := by
  rw [read_link_messages, if_neg hleft] at h
  obtain ⟨_, l₁, h₁, g₁⟩ := bind_eq_some h
  obtain ⟨linkCode, l₂, h₂, g₂⟩ := bind_eq_some g₁
  obtain ⟨_, l₃, h₃, g₃⟩ := bind_eq_some g₂
  obtain ⟨lmSize, l₄, h₄, g₄⟩ := bind_eq_some g₃
  obtain ⟨_, l₅, h₅, g₅⟩ := bind_eq_some g₄
  obtain ⟨_, l₆, h₆, g₆⟩ := bind_eq_some g₅
  obtain ⟨addresses, l₇, h₇, g₇⟩ := bind_eq_some g₆
  obtain ⟨o', l₈, h₈, g₈⟩ := bind_eq_some g₇
  obtain ⟨-, rfl⟩ := of_run_check h₁
  obtain ⟨hmod, rfl⟩ := of_run_check h₅
  obtain ⟨hfour, rfl⟩ := of_run_check h₆
  cases g₈
  have hdvd : (4 : ℤ) ∣ (lmSize.toNat : ℤ) - 4 := Int.dvd_of_tmod_eq_zero hmod
  refine ⟨⟨linkCode, addresses⟩, lmSize, l₇, o', ?_, hfour, h₈, rfl⟩
  rw [takes_u8 _ _ _ h₂, takes_u8 _ _ _ h₃, takes_u16 _ _ _ h₄, takes_many takes_u32 _ _ _ _ h₇, ipv4_address_size]
  omega

/-- Link messages take the size that is left for them, modulo 65536. -/
theorem read_link_messages_read {left : UInt16} {linkMessages : List LinkMessage}
    (h : (read_link_messages turns left).run l = some (some linkMessages, rest)) :
    ∃ n, l.length = rest.length + n ∧ UInt16.ofNat n = left := by
  induction turns generalizing left l linkMessages with
  | zero => cases h
  | succ turns ih =>
    by_cases hleft : left = 0
    · rw [read_link_messages, if_pos hleft] at h
      cases h
      exact ⟨0, rfl, hleft.symm⟩
    · obtain ⟨lm, lmSize, l', o', hlength, -, hrest, ho⟩ := run_link_message hleft h
      cases o' with
      | none => cases ho
      | some linkMessages' =>
        obtain ⟨n, hlength', hn⟩ := ih hrest
        refine ⟨lmSize.toNat + n, by omega, ?_⟩
        rw [UInt16.ofNat_add, UInt16.ofNat_toNat, hn, add_sub_cancel]

theorem read_link_messages_isSome {left : UInt16} {o : Option (List LinkMessage)} (hturns : l.length < turns)
    (h : (read_link_messages turns left).run l = some (o, rest)) : o.isSome = true := by
  induction turns generalizing left l o with
  | zero => exact absurd hturns (Nat.not_lt_zero _)
  | succ turns ih =>
    by_cases hleft : left = 0
    · rw [read_link_messages, if_pos hleft] at h
      cases h
      rfl
    · obtain ⟨lm, lmSize, l', o', hlength, hfour, hrest, rfl⟩ := run_link_message hleft h
      rw [Option.isSome_map]
      exact ih (by omega) hrest

theorem some_map {r : Reader α} {o : Option α} (h : (some <$> r).run l = some (o, rest)) :
    ∃ a, o = some a ∧ r.run l = some (a, rest) := by
  rw [StateT.run_map] at h
  obtain ⟨⟨a, l'⟩, hrun, h⟩ := Option.map_eq_some_iff.mp h
  cases h
  exact ⟨a, rfl, hrun⟩

/-- The content of a message takes the size that is passed to it, modulo 65536. -/
theorem deserialize_message_read {messageType : UInt8} {messageSize size : UInt32} {m : Message}
    (h : (deserialize_message turns messageType messageSize).run l = some (some (m, size), rest)) :
    ∃ n, l.length = rest.length + n ∧ UInt16.ofNat n = messageSize.toUInt16 := by
  have hexact : messageSize.toUInt16 = UInt16.ofNat messageSize.toNat := by
    rw [← UInt32.toUInt16_ofNat', UInt32.ofNat_toNat]
  rw [deserialize_message] at h
  split_ifs at h with hhello htc hmid
  · rw [deserialize_hello] at h
    obtain ⟨_, l₁, h₁, g₁⟩ := bind_eq_some h
    obtain ⟨_, l₂, h₂, g₂⟩ := bind_eq_some g₁
    obtain ⟨_, l₃, h₃, g₃⟩ := bind_eq_some g₂
    obtain ⟨_, l₄, h₄, g₄⟩ := bind_eq_some g₃
    obtain ⟨o, l₅, h₅, g₅⟩ := bind_eq_some g₄
    obtain ⟨-, rfl⟩ := of_run_check h₁
    cases o with
    | none => cases g₅
    | some linkMessages =>
      cases g₅
      obtain ⟨n, hlength, hn⟩ := read_link_messages_read h₅
      refine ⟨4 + n, ?_, ?_⟩
      · rw [takes_u16 _ _ _ h₂, takes_u8 _ _ _ h₃, takes_u8 _ _ _ h₄, hlength]
        omega
      · rw [UInt16.ofNat_add, hn]
        exact add_sub_cancel _ _
  · obtain ⟨_, -, h⟩ := some_map h
    rw [deserialize_tc] at h
    obtain ⟨_, l₁, h₁, g₁⟩ := bind_eq_some h
    obtain ⟨_, l₂, h₂, g₂⟩ := bind_eq_some g₁
    obtain ⟨_, l₃, h₃, g₃⟩ := bind_eq_some g₂
    obtain ⟨_, l₄, h₄, g₄⟩ := bind_eq_some g₃
    obtain ⟨_, l₅, h₅, g₅⟩ := bind_eq_some g₄
    obtain ⟨hfour, rfl⟩ := of_run_check h₁
    obtain ⟨hmod, rfl⟩ := of_run_check h₄
    cases g₅
    refine ⟨messageSize.toNat, ?_, hexact.symm⟩
    rw [takes_u16 _ _ _ h₂, takes_u16 _ _ _ h₃, takes_many takes_u32 _ _ _ _ h₅, ipv4_address_size]
    rw [ipv4_address_size] at hmod
    omega
  · obtain ⟨_, -, h⟩ := some_map h
    rw [deserialize_mid] at h
    obtain ⟨_, l₁, h₁, g₁⟩ := bind_eq_some h
    obtain ⟨_, l₂, h₂, g₂⟩ := bind_eq_some g₁
    obtain ⟨hmod, rfl⟩ := of_run_check h₁
    cases g₂
    refine ⟨messageSize.toNat, ?_, hexact.symm⟩
    rw [takes_many takes_u32 _ _ _ _ h₂]
    exact congrArg (rest.length + ·) (Nat.mul_div_cancel' (Nat.dvd_of_mod_eq_zero hmod))
  · obtain ⟨_, -, h⟩ := some_map h
    rw [deserialize_hna] at h
    obtain ⟨_, l₁, h₁, g₁⟩ := bind_eq_some h
    obtain ⟨_, l₂, h₂, g₂⟩ := bind_eq_some g₁
    obtain ⟨hmod, rfl⟩ := of_run_check h₁
    cases g₂
    have htake : Takes read_association 8 := takes_u32.bind fun _ => takes_u32.bind fun _ => takes_pure _
    refine ⟨messageSize.toNat, ?_, hexact.symm⟩
    rw [takes_many htake _ _ _ _ h₂, Nat.div_div_eq_div_mul]
    exact congrArg (rest.length + ·) (Nat.mul_div_cancel' (Nat.dvd_of_mod_eq_zero hmod))

theorem WireMessage.of_run_deserialize {o : Option (WireMessage × UInt16 × UInt32)}
    (h : WireMessage.deserialize.run l = some (o, rest)) :
    ∃ messageType messageSize l' content, l.length = l'.length + 12 ∧
      (deserialize_message l.length messageType (UInt16.toUInt32 messageSize - UInt32.ofNat olsr_msg_header_size)).run l' =
        some (content, rest) ∧ ∃ f : Message × UInt32 → WireMessage × UInt16 × UInt32,
          o = content.map f ∧ ∀ content, (f content).2.1 = messageSize := by
  rw [WireMessage.deserialize] at h
  obtain ⟨buffer, l₀, h₀, g₀⟩ := bind_eq_some h
  obtain ⟨⟨messageType, messageSize, make⟩, l₁, h₁, g₁⟩ := bind_eq_some g₀
  obtain ⟨content, l₂, h₂, g₂⟩ := bind_eq_some g₁
  cases h₀
  cases g₂
  exact ⟨messageType, messageSize, l₁, content, takes_fixed _ _ _ h₁, h₂, _, rfl, fun _ => rfl⟩

/-- The bytes of a message are as many as it announces, modulo 65536. -/
theorem WireMessage.deserialize_read {message : WireMessage} {messageSize : UInt16} {size : UInt32}
    (h : WireMessage.deserialize.run l = some (some (message, messageSize, size), rest)) :
    ∃ n, l.length = rest.length + n ∧ UInt16.ofNat n = messageSize := by
  obtain ⟨messageType, announced, l', content, hfixed, hcontent, f, ho, hf⟩ := of_run_deserialize h
  cases content with
  | none => cases ho
  | some content =>
    obtain ⟨n, hlength, hn⟩ := deserialize_message_read hcontent
    have hsize : announced = messageSize := (hf content).symm.trans (congrArg (·.2.1) (Option.some_inj.mp ho).symm)
    refine ⟨12 + n, by omega, ?_⟩
    have hcast : (announced.toUInt32 - UInt32.ofNat olsr_msg_header_size).toUInt16 = announced - 12 := by
      rw [UInt32.toUInt16_sub, UInt16.toUInt16_toUInt32]
      rfl
    rw [UInt16.ofNat_add, hn, hcast, ← hsize]
    exact add_sub_cancel _ _

theorem WireMessage.deserialize_isSome {o : Option (WireMessage × UInt16 × UInt32)}
    (h : WireMessage.deserialize.run l = some (o, rest)) : o.isSome = true := by
  obtain ⟨messageType, announced, l', content, hfixed, hcontent, f, rfl, -⟩ := of_run_deserialize h
  rw [Option.isSome_map]
  rw [deserialize_message] at hcontent
  split_ifs at hcontent
  · rw [deserialize_hello] at hcontent
    obtain ⟨_, l₁, h₁, g₁⟩ := bind_eq_some hcontent
    obtain ⟨_, l₂, h₂, g₂⟩ := bind_eq_some g₁
    obtain ⟨_, l₃, h₃, g₃⟩ := bind_eq_some g₂
    obtain ⟨_, l₄, h₄, g₄⟩ := bind_eq_some g₃
    obtain ⟨o, l₅, h₅, g₅⟩ := bind_eq_some g₄
    have hcheck := takes_check _ _ _ _ h₁
    have hreserved := takes_u16 _ _ _ h₂
    have htime := takes_u8 _ _ _ h₃
    have hwillingness := takes_u8 _ _ _ h₄
    have hsome := read_link_messages_isSome (by omega) h₅
    cases g₅
    rwa [Option.isSome_map]
  all_goals
    obtain ⟨_, rfl, -⟩ := some_map hcontent
    rfl

/-! ## The packet -/

theorem parse_messages_outcome (hturns : packet.length < turns) (sizeLeft : UInt32) :
    (parse_messages turns sizeLeft packet).2 ≠ .out_of_turns := by
  induction turns generalizing packet sizeLeft with
  | zero => exact absurd hturns (Nat.not_lt_zero _)
  | succ turns ih =>
    rw [parse_messages]
    split_ifs
    · simp
    · split
      · simp
      · next hrun => exact absurd (WireMessage.deserialize_isSome hrun) Bool.false_ne_true
      · next message messageSize deserialized rest hrun =>
        obtain ⟨messageType, announced, l', content, hfixed, -⟩ := WireMessage.of_run_deserialize hrun
        split_ifs with hzero
        · simp
        · have hpos : 0 < deserialized.toNat := Nat.pos_of_ne_zero fun h => hzero (UInt32.toNat_inj.mp h)
          exact ih (by rw [List.length_drop]; omega) _

theorem parse_messages_read (hlt : packet.length < 65536) (sizeLeft : UInt32) :
    ∀ parsed ∈ (parse_messages turns sizeLeft packet).1, parsed.read = parsed.m_messageSize.toNat := by
  induction turns generalizing packet sizeLeft with
  | zero => simp [parse_messages]
  | succ turns ih =>
    rw [parse_messages]
    split_ifs
    · simp
    · split
      · simp
      · simp
      · next message messageSize deserialized rest hrun =>
        obtain ⟨n, hlength, hn⟩ := WireMessage.deserialize_read hrun
        split_ifs
        · simp
        · intro parsed hparsed
          rcases List.mem_cons.mp hparsed with rfl | htail
          · rw [← hn, UInt16.toNat_ofNat', Nat.mod_eq_of_lt (by omega)]
            exact Nat.sub_eq_of_eq_add (by omega)
          · exact ih (by rw [List.length_drop]; omega) _ parsed htail

end Ns3.Olsr

namespace Ns3.Olsr

open ByteFormat

variable {turns : ℕ} {messages : List WireMessage}

/-- The length fields of a packet of some messages are the numbers of the bytes that they are about. -/
structure LengthFields (packetSequenceNumber : UInt16) (messages : List WireMessage) : Prop where
  packet : ∃ packetLength rest, read_packet_header.run (send_packet packetSequenceNumber messages) = some (packetLength, rest) ∧
    packetLength.toNat = (send_packet packetSequenceNumber messages).length
  message : ∀ msg ∈ messages, (UInt16.ofNat msg.get_serialized_size).toNat = msg.serialize.length
  link_message : ∀ msg ∈ messages, ∀ h, msg.m_message = .hello h → ∀ lm ∈ h.linkMessages,
    (UInt16.ofNat (4 + lm.neighborInterfaceAddresses.length * ipv4_address_size)).toNat = lm.serialize.length

/-- Parsing ends, at an assertion or with messages none of which took more bytes than it announces. -/
def WithinAnnounced (packet : List UInt8) : Prop :=
  (recv_olsr packet).2 ≠ .out_of_turns ∧
    ((recv_olsr packet).2 = .assertion ∨ ∀ parsed ∈ (recv_olsr packet).1, parsed.read ≤ parsed.m_messageSize.toNat)

theorem lengthFields (packetSequenceNumber : UInt16)
    (hlt : olsr_pkt_header_size + (messages.map WireMessage.get_serialized_size).sum < 65536) :
    LengthFields packetSequenceNumber messages := by
  have hone : ∀ msg ∈ messages, msg.get_serialized_size < 65536 := by
    intro msg hmsg
    have hle := List.le_sum_of_mem (List.mem_map_of_mem (f := WireMessage.get_serialized_size) hmsg)
    omega
  refine ⟨⟨_, _, run_packet_header packetSequenceNumber messages, ?_⟩, ?_, ?_⟩
  · rw [toNat_packet_length hlt, send_packet, List.length_append]
    rfl
  · intro msg hmsg
    rw [msg.length_serialize, UInt16.toNat_ofNat', Nat.mod_eq_of_lt (hone msg hmsg)]
  · intro msg hmsg h hmessage lm hlm
    have hle := List.le_sum_of_mem (List.mem_map_of_mem (f := LinkMessage.size) hlm)
    have hmsg' := hone msg hmsg
    rw [WireMessage.get_serialized_size, hmessage, Message.get_serialized_size] at hmsg'
    have hsize : 4 + lm.neighborInterfaceAddresses.length * ipv4_address_size = lm.size := by
      rw [LinkMessage.size, Nat.mul_comm]
    rw [lm.length_serialize, hsize, UInt16.toNat_ofNat', Nat.mod_eq_of_lt (by omega)]

theorem withinAnnounced {packet : List UInt8} (hlt : packet.length < 65536) : WithinAnnounced packet := by
  rw [WithinAnnounced, recv_olsr]
  split
  · simp
  · next packetLength rest hrun =>
    have hlength : packet.length = rest.length + 4 :=
      (takes_u16.bind fun _ => takes_u16.bind fun _ => takes_pure _ : Takes read_packet_header 4) _ _ _ hrun
    split_ifs
    · refine ⟨parse_messages_outcome (Nat.lt_succ_self _) _, .inr fun parsed hparsed => ?_⟩
      exact (parse_messages_read (by omega) _ parsed hparsed).le
    · simp

/-- The messages of a packet are recovered with length fields that tell the bytes, where the packet is one that its
length field can tell, and any bytes fewer than 65536 are parsed to an end at which every message has taken the bytes that
it announces, an assertion apart. -/
theorem packet_format :
    (∀ packetSequenceNumber messages,
      olsr_pkt_header_size + (messages.map WireMessage.get_serialized_size).sum < 65536 →
        LengthFields packetSequenceNumber messages ∧
          recv_olsr (send_packet packetSequenceNumber messages) = (messages.map noted, .finished)) ∧
      ∀ packet : List UInt8, packet.length < 65536 → WithinAnnounced packet :=
  ⟨fun packetSequenceNumber _ hlt => ⟨lengthFields packetSequenceNumber hlt, recv_olsr_send_packet packetSequenceNumber hlt⟩,
    fun _ hlt => withinAnnounced hlt⟩

theorem packet_format_mixed :
    let hello : WireMessage := ⟨0x86, 1, 1, 0, 3, .hello ⟨5, 3, [⟨6, [2, 3]⟩, ⟨1, []⟩]⟩⟩
    let tc : WireMessage := ⟨0x86, 1, 255, 0, 4, .tc ⟨[2], 9⟩⟩
    recv_olsr (send_packet 7 [hello, tc]) = ([⟨hello, 32, 32⟩, ⟨tc, 20, 20⟩], .finished) :=
  (packet_format.1 7 _ (by decide)).2

/-! ## A packet that is too long for its messages -/

/-- A HELLO that announces 20 bytes and ends with a link message of 8. The bytes of its originator and of its
willingness are also those of further link messages, of 65528 and 4 bytes, of the HELLO in front of it. -/
def period : List UInt8 := [1, 0, 0, 20, 0, 0, 0xff, 0xf8, 1, 0, 0, 0, 0, 0, 0, 4, 0, 0, 0, 8]

def periods (k : ℕ) : List UInt8 := (List.replicate k period).flatten

theorem periods_succ (k : ℕ) : periods (k + 1) = period ++ periods k := by
  rw [periods, List.replicate_succ, List.flatten_cons]
  rfl

theorem length_periods (k : ℕ) : (periods k).length = 20 * k := by
  induction k with
  | zero => rfl
  | succ k ih =>
    rw [periods_succ, List.length_append, ih, Nat.mul_succ, Nat.add_comm]
    rfl

theorem drop_periods (j k : ℕ) : (periods (j + k)).drop (20 * j) = periods k := by
  rw [periods, List.replicate_add, List.flatten_append]
  exact List.drop_left' (length_periods j)

theorem run_many {n : ℕ} {l : List UInt8} (h : 4 * n ≤ l.length) :
    ∃ as, (read_many read_ntoh_u32 n).run l = some (as, l.drop (4 * n)) ∧ as.length = n := by
  induction n generalizing l with
  | zero => exact ⟨[], rfl, rfl⟩
  | succ n ih =>
    match l, h with
    | b₃ :: b₂ :: b₁ :: b₀ :: l, h =>
      obtain ⟨as, hrun, hlength⟩ := ih (l := l) (by simp only [List.length_cons] at h; omega)
      obtain ⟨a, ha⟩ : ∃ a, read_ntoh_u32.run (b₃ :: b₂ :: b₁ :: b₀ :: l) = some (a, l) := ⟨_, rfl⟩
      exact ⟨a :: as, (run_bind_of_run ha _).trans (run_bind_of_run hrun _), congrArg (· + 1) hlength⟩

theorem run_check {p : Prop} [Decidable p] (h : p) (l : List UInt8) : (check p).run l = some ((), l) := Reads.check h l

/-- A link message takes as many addresses as its size says, whatever they are. -/
theorem run_link_message_of (turns : ℕ) (left lmSize : UInt16) (linkCode reserved : UInt8) {n : ℕ} {l rest : List UInt8}
    {linkMessages : List LinkMessage} (hleft : 4 ≤ left.toNat) (hsize : lmSize.toNat = 4 + 4 * n) (hlength : 4 * n ≤ l.length)
    (hrest : (read_link_messages turns (left - lmSize)).run (l.drop (4 * n)) = some (some linkMessages, rest)) :
    ∃ lm, LinkMessage.size lm = 4 + 4 * n ∧
      (read_link_messages (turns + 1) left).run ([linkCode] ++ ([reserved] ++ (write_hton_u16 lmSize ++ l))) =
        some (some (lm :: linkMessages), rest) := by
  have hnonzero : left ≠ 0 := by
    rintro rfl
    exact absurd hleft (by decide)
  have hmod : Int.tmod ((lmSize.toNat : ℤ) - 4) ipv4_address_size = 0 := by
    rw [hsize, ipv4_address_size]
    push_cast
    rw [add_sub_cancel_left]
    exact Int.mul_tmod_right _ _
  have hcount : (lmSize.toNat - 4) / ipv4_address_size = n := by
    rw [hsize, ipv4_address_size]
    omega
  obtain ⟨addresses, hrun, haddresses⟩ := run_many hlength
  refine ⟨⟨linkCode, addresses⟩, by rw [LinkMessage.size, haddresses]; rfl, ?_⟩
  rw [read_link_messages, if_neg hnonzero, run_bind_of_run (run_check hleft _), run_bind_of_run (reads_u8 linkCode _),
    run_bind_of_run (reads_u8 reserved _), run_bind_of_run (reads_u16 lmSize _), run_bind_of_run (run_check hmod _),
    run_bind_of_run (run_check (by omega) _), hcount, run_bind_of_run hrun, run_bind_of_run hrest]
  rfl

theorem run_link_messages_periods (turns k : ℕ) :
    ∃ linkMessages, (read_link_messages (turns + 4) 4).run ([0] ++ ([0] ++ (write_hton_u16 8 ++ periods (k + 3277)))) =
        some (some linkMessages, [0, 0, 0, 8] ++ periods k) ∧
      (linkMessages.map LinkMessage.size).sum = 65540 := by
  have hfirst : (periods (k + 3277)).drop (4 * 1) = [0] ++ ([0] ++ (write_hton_u16 0xfff8 ++
      ([1, 0, 0, 0, 0, 0, 0, 4, 0, 0, 0, 8] ++ periods (k + 3276)))) := by
    rw [show k + 3277 = k + 3276 + 1 from rfl, periods_succ]
    rfl
  have hsecond : ([1, 0, 0, 0, 0, 0, 0, 4, 0, 0, 0, 8] ++ periods (k + 3276)).drop (4 * 16381) =
      [0] ++ ([0] ++ (write_hton_u16 4 ++ ([0, 0, 0, 8] ++ periods k))) := by
    have hhead : ([1, 0, 0, 0, 0, 0, 0, 4, 0, 0, 0, 8] ++ periods (k + 3276)).drop 12 = periods (3275 + (k + 1)) := by
      rw [show 3275 + (k + 1) = k + 3276 by omega]
      rfl
    rw [show (4 * 16381 : ℕ) = 12 + (20 * 3275 + 12) from rfl, ← List.drop_drop, hhead, ← List.drop_drop, drop_periods,
      periods_succ]
    rfl
  have hend : (read_link_messages (turns + 1) (4 - 8 - 0xfff8 - 4)).run ([0, 0, 0, 8] ++ periods k) =
      some (some [], [0, 0, 0, 8] ++ periods k) := rfl
  obtain ⟨lm₃, h₃, hrun₃⟩ := run_link_message_of (turns + 1) (4 - 8 - 0xfff8) 4 0 0 (n := 0) (by decide) rfl
    (Nat.zero_le _) hend
  rw [← hsecond] at hrun₃
  obtain ⟨lm₂, h₂, hrun₂⟩ := run_link_message_of (turns + 2) (4 - 8) 0xfff8 0 0 (by decide) rfl
    (by simp only [List.length_append, List.length_cons, List.length_nil, length_periods]; omega) hrun₃
  rw [← hfirst] at hrun₂
  obtain ⟨lm₁, h₁, hrun₁⟩ := run_link_message_of (turns + 3) 4 8 0 0 (by decide) rfl
    (by rw [length_periods]; omega) hrun₂
  exact ⟨[lm₁, lm₂, lm₃], hrun₁, by simp [h₁, h₂, h₃]⟩

theorem deserialize_periods (k : ℕ) :
    ∃ message rest, WireMessage.deserialize.run (periods (k + 3278)) = some (some (message, 20, 20), rest) ∧
      (periods (k + 3278)).length - rest.length = 65556 ∧ message.get_serialized_size = 65556 := by
  have hturns : (periods (k + 3278)).length = 20 * k + 65556 + 4 := by
    rw [length_periods]
    omega
  obtain ⟨linkMessages, hrun, hsum⟩ := run_link_messages_periods (20 * k + 65556) k
  have hread : (deserialize_hello (periods (k + 3278)).length 8).run (write_hton_u16 0 ++ ([0] ++ ([4] ++ ([0] ++ ([0] ++
      (write_hton_u16 8 ++ periods (k + 3277))))))) =
        some (some (.hello ⟨0, 4, linkMessages⟩, 8), [0, 0, 0, 8] ++ periods k) := by
    rw [deserialize_hello, hturns, run_bind_of_run (run_check (by decide) _), run_bind_of_run (reads_u16 0 _),
      run_bind_of_run (reads_u8 0 _), run_bind_of_run (reads_u8 4 _)]
    exact run_bind_of_run hrun _
  have hfixed : read_fixed.run (periods (k + 3278)) = some ((1, 20, WireMessage.mk 0 0xfff8 1 0 0),
      write_hton_u16 0 ++ ([0] ++ ([4] ++ ([0] ++ ([0] ++ (write_hton_u16 8 ++ periods (k + 3277))))))) := by
    rw [show k + 3278 = k + 3277 + 1 from rfl, periods_succ]
    rfl
  refine ⟨⟨0, 0xfff8, 1, 0, 0, .hello ⟨0, 4, linkMessages⟩⟩, [0, 0, 0, 8] ++ periods k, ?_, ?_, ?_⟩
  · generalize periods (k + 3278) = packet at hread hfixed
    have hget : (get : Reader (List UInt8)).run packet = some (packet, packet) := rfl
    rw [WireMessage.deserialize, run_bind_of_run hget, run_bind_of_run hfixed]
    exact run_bind_of_run hread _
  · rw [hturns, List.length_append, length_periods]
    simp only [List.length_cons, List.length_nil]
    omega
  · rw [WireMessage.get_serialized_size, Message.get_serialized_size, hsum]
    rfl

/-- The messages that are left when the number of bytes is what they take, modulo 2 ^ 32. -/
theorem parse_messages_periods (turns : ℕ) {n k : ℕ} (hn : n ≤ 65517) (hk : n + 3277 ≤ k) (hturns : n < turns) :
    ∃ messages, parse_messages turns (UInt32.ofNat (n * 65556)) (periods k) = (messages, .finished) ∧
      messages.length = n ∧ ∀ parsed ∈ messages, parsed.m_messageSize = 20 ∧ parsed.read = 65556 := by
  induction n generalizing k turns with
  | zero =>
    obtain ⟨turns, rfl⟩ := Nat.exists_eq_add_one.mpr hturns
    exact ⟨[], rfl, rfl, by simp⟩
  | succ n ih =>
    obtain ⟨turns, rfl⟩ := Nat.exists_eq_add_one.mpr (Nat.zero_lt_of_lt hturns)
    obtain ⟨k, rfl⟩ : ∃ j, k = j + 3278 := ⟨k - 3278, by omega⟩
    obtain ⟨message, rest, hrun, hread, hsize⟩ := deserialize_periods k
    obtain ⟨messages, hparse, hlength, hmessages⟩ := ih turns (k := k + 3277) (by omega) (by omega) (by omega)
    have hleft : UInt32.ofNat ((n + 1) * 65556) ≠ 0 := by
      intro h
      have hzero := congrArg UInt32.toNat h
      rw [UInt32.toNat_ofNat', UInt32.toNat_zero] at hzero
      omega
    have hnext : UInt32.ofNat ((n + 1) * 65556) - UInt32.ofNat message.get_serialized_size = UInt32.ofNat (n * 65556) := by
      rw [hsize, Nat.succ_mul, UInt32.ofNat_add, add_sub_cancel_right]
    have hdrop : (periods (k + 3278)).drop (20 : UInt32).toNat = periods (k + 3277) := by
      rw [show k + 3278 = 1 + (k + 3277) by omega]
      exact drop_periods 1 (k + 3277)
    refine ⟨⟨message, 20, 65556⟩ :: messages, ?_, by rw [List.length_cons, hlength], ?_⟩
    · rw [parse_messages, if_neg hleft, hrun]
      simp only [if_neg (show (20 : UInt32) ≠ 0 by decide), hnext, hdrop, hparse, hread]
    · intro parsed hparsed
      rcases List.mem_cons.mp hparsed with rfl | htail
      · exact ⟨rfl, rfl⟩
      · exact hmessages parsed htail

/-- A packet of 1375884 bytes is parsed to its end as 65517 messages of 65556 bytes, of which each announces 20: the size
that is left for the link messages runs below zero, and so does the size that is left for the messages. -/
theorem announced_exceeded : ¬∀ packet, WithinAnnounced packet := by
  intro h
  obtain ⟨messages, hparse, hlength, hmessages⟩ :=
    parse_messages_periods ((periods 68794).length + 1) (n := 65517) (k := 68794) le_rfl le_rfl
      (by rw [length_periods]; omega)
  have hheader : ∀ rest, read_packet_header.run (write_hton_u16 65160 ++ (write_hton_u16 0 ++ rest)) = some (65160, rest) :=
    (reads_u16 65160).bind ((reads_u16 0).map fun _ => (65160 : UInt16))
  have hrecv : recv_olsr (write_hton_u16 65160 ++ (write_hton_u16 0 ++ periods 68794)) = (messages, .finished) := by
    rw [recv_olsr, hheader]
    exact (if_pos (by decide)).trans hparse
  obtain ⟨-, hassertion | hall⟩ := h (write_hton_u16 65160 ++ (write_hton_u16 0 ++ periods 68794))
  · rw [hrecv] at hassertion
    cases hassertion
  · rw [hrecv] at hall
    obtain ⟨parsed, hparsed⟩ := List.exists_mem_of_length_pos (show 0 < messages.length by omega)
    have hle := hall parsed hparsed
    obtain ⟨hsize, hread⟩ := hmessages parsed hparsed
    rw [hsize, hread] at hle
    exact absurd hle (by decide)

end Ns3.Olsr
