import Ns3.Internet.Ipv4Fragmentation

namespace Ns3.Ipv4L3Protocol

/-- What `DoFragmentation` is to make of a packet from an offset on. -/
structure Fragmented (packet : List UInt8) (header : FragmentHeader) (mtu offset : ℕ) (l : List PayloadHeaderPair) :
    Prop where
  fits : ∀ x ∈ l, x.1.length + FragmentHeader.get_serialized_size ≤ mtu
  data : l.flatMap Prod.fst = packet.drop offset
  offsets : ∀ before x after, l = before ++ x :: after →
    x.2.fragment_offset = header.fragment_offset + offset + (before.flatMap Prod.fst).length
  aligned : ∀ before x after, l = before ++ x :: after → after ≠ [] → x.1.length % 8 = 0
  more : ∀ before x after, l = before ++ x :: after →
    (x.2.is_last_fragment = true ↔ after = [] ∧ header.is_last_fragment = true)

/-- The loop of `DoFragmentation` ends, with the fragments it is to make. -/
def FragmentsWell (packet : List UInt8) (header : FragmentHeader) (mtu : ℕ) (checksum_enabled : Bool) : Prop :=
  ∃ turns l, fragment_turns packet header (fragment_size mtu) checksum_enabled turns 0 = some l ∧
    Fragmented packet header mtu 0 l

/-- The offset of the last fragment fits the 16 bits in which the loop counts. -/
def LastOffsetFits (packet : List UInt8) (mtu : ℕ) : Prop :=
  (packet.length - 1) / fragment_size mtu * fragment_size mtu < 2 ^ 16

instance (packet : List UInt8) (mtu : ℕ) : Decidable (LastOffsetFits packet mtu) :=
  inferInstanceAs (Decidable (_ < _))

variable {p : List UInt8} {h : FragmentHeader} {x : PayloadHeaderPair} {l : List PayloadHeaderPair}
  {size offset turns mtu : ℕ} {checksum_enabled : Bool}

theorem fragment_turns_more (hword : offset + size < 2 ^ 32) (hmore : offset + size < p.length)
    (halign : (offset + h.fragment_offset) % 2 ^ 16 % 8 = 0) :
    fragment_turns p h size checksum_enabled (turns + 1) offset =
      (fragment_turns p h size checksum_enabled turns ((offset + size) % 2 ^ 16)).map fun rest =>
        ((p.drop offset).take size,
          { h with
            more_fragments := true
            fragment_offset := (offset + h.fragment_offset) % 2 ^ 16
            payload_size := size % 2 ^ 16
            calc_checksum := h.calc_checksum || checksum_enabled }) :: rest := by
  rw [fragment_turns]
  simp only [Nat.mod_eq_of_lt hword, gt_iff_lt, hmore, decide_true, if_true, FragmentHeader.set_more_fragments,
    FragmentHeader.set_fragment_offset, if_pos halign, Option.bind_eq_bind, Option.bind_some, Option.pure_def]
  cases fragment_turns p h size checksum_enabled turns ((offset + size) % 2 ^ 16) <;> rfl

theorem fragment_turns_last (hword : offset + size < 2 ^ 32) (hlast : p.length ≤ offset + size)
    (halign : (offset + h.fragment_offset) % 2 ^ 16 % 8 = 0) :
    fragment_turns p h size checksum_enabled (turns + 1) offset =
      some [(p.drop offset,
        { h with
          fragment_offset := (offset + h.fragment_offset) % 2 ^ 16
          payload_size := (p.length - offset) % 2 ^ 16
          calc_checksum := h.calc_checksum || checksum_enabled })] := by
  have hdata : (p.drop offset).take (p.length - offset) = p.drop offset :=
    List.take_of_length_le (by rw [List.length_drop])
  have halign' : (offset + h.fragment_offset) % 8 = 0 := by omega
  rw [fragment_turns]
  simp only [Nat.mod_eq_of_lt hword, gt_iff_lt, not_lt.mpr hlast, decide_false, Bool.false_eq_true, if_false, hdata]
  cases hm : h.more_fragments <;>
    simp [hm, FragmentHeader.is_last_fragment, FragmentHeader.set_more_fragments, FragmentHeader.set_last_fragment,
      FragmentHeader.set_fragment_offset, halign']

theorem Fragmented.last (hfits : (p.drop offset).length + FragmentHeader.get_serialized_size ≤ mtu)
    {header : FragmentHeader} (hoffset : header.fragment_offset = h.fragment_offset + offset)
    (hmore : header.more_fragments = h.more_fragments) : Fragmented p h mtu offset [(p.drop offset, header)] := by
  have hsplit : ∀ {before after : List PayloadHeaderPair} {x : PayloadHeaderPair},
      [(p.drop offset, header)] = before ++ x :: after → before = [] ∧ x = (p.drop offset, header) ∧ after = [] := by
    intro before after x heq
    cases before with
    | nil =>
      cases heq
      exact ⟨rfl, rfl, rfl⟩
    | cons y l => simp at heq
  constructor
  · intro x hx
    rw [List.mem_singleton.mp hx]
    exact hfits
  · simp
  · intro before x after heq
    obtain ⟨rfl, rfl, -⟩ := hsplit heq
    simpa using hoffset
  · intro before x after heq hne
    exact absurd (hsplit heq).2.2 hne
  · intro before x after heq
    obtain ⟨-, rfl, rfl⟩ := hsplit heq
    simp [FragmentHeader.is_last_fragment, hmore]

theorem Fragmented.cons (hl : Fragmented p h mtu (offset + size) l) (hlt : offset + size < p.length)
    (hfits : size + FragmentHeader.get_serialized_size ≤ mtu) (halign : size % 8 = 0) {header : FragmentHeader}
    (hoffset : header.fragment_offset = h.fragment_offset + offset) (hmore : header.more_fragments = true) :
    Fragmented p h mtu offset (((p.drop offset).take size, header) :: l) := by
  have hlength : ((p.drop offset).take size).length = size := by
    rw [List.length_take, List.length_drop]
    omega
  have hne : l ≠ [] := by
    rintro rfl
    have hdata := congrArg List.length hl.data
    rw [List.length_drop] at hdata
    simp only [List.flatMap_nil, List.length_nil] at hdata
    omega
  have hsplit : ∀ {before after : List PayloadHeaderPair} {x : PayloadHeaderPair},
      ((p.drop offset).take size, header) :: l = before ++ x :: after →
      (before = [] ∧ x = ((p.drop offset).take size, header) ∧ after = l) ∨
        ∃ b, before = ((p.drop offset).take size, header) :: b ∧ l = b ++ x :: after := by
    intro before after x heq
    cases before with
    | nil =>
      cases heq
      exact .inl ⟨rfl, rfl, rfl⟩
    | cons y b =>
      rw [List.cons_append, List.cons.injEq] at heq
      exact .inr ⟨b, by rw [heq.1], heq.2⟩
  constructor
  · intro x hx
    rcases List.mem_cons.mp hx with rfl | hx
    · simpa only [hlength] using hfits
    · exact hl.fits x hx
  · rw [List.flatMap_cons, hl.data, ← List.drop_drop, List.take_append_drop]
  · intro before x after heq
    rcases hsplit heq with ⟨rfl, rfl, -⟩ | ⟨b, rfl, hrest⟩
    · simpa using hoffset
    · rw [hl.offsets b x after hrest, List.flatMap_cons, List.length_append, hlength]
      omega
  · intro before x after heq hafter
    rcases hsplit heq with ⟨-, rfl, -⟩ | ⟨b, -, heq⟩
    · simpa only [hlength] using halign
    · exact hl.aligned b x after heq hafter
  · intro before x after heq
    rcases hsplit heq with ⟨-, rfl, rfl⟩ | ⟨b, -, heq⟩
    · simp [FragmentHeader.is_last_fragment, hmore, hne]
    · exact hl.more b x after heq

theorem fragment_turns_fragmented (checksum_enabled : Bool) (turns : ℕ) (hpos : 0 < size) (hsize : size % 8 = 0)
    (hmtu : size + FragmentHeader.get_serialized_size ≤ mtu) (hword : mtu < 2 ^ 16)
    (haligned : h.fragment_offset % 8 = 0) (hheader : h.fragment_offset = 0 ∨ h.fragment_offset + p.length < 2 ^ 16)
    (hlast : (p.length - 1) / size * size < 2 ^ 16) (hoffset : offset % 8 = 0) (hdvd : size ∣ offset)
    (hstart : offset = 0 ∨ offset < p.length) (hturns : p.length < offset + turns) :
    ∃ l, fragment_turns p h size checksum_enabled turns offset = some l ∧ Fragmented p h mtu offset l := by
  induction turns generalizing offset with
  | zero => omega
  | succ turns ih =>
    have hbound : offset < 2 ^ 16 := by
      rcases hstart with rfl | hstart
      · decide
      · obtain ⟨k, rfl⟩ := hdvd
        have hk : k ≤ (p.length - 1) / size := by
          rw [Nat.le_div_iff_mul_le hpos]
          have := Nat.mul_comm k size
          omega
        calc size * k = k * size := Nat.mul_comm _ _
          _ ≤ (p.length - 1) / size * size := Nat.mul_le_mul_right size hk
          _ < 2 ^ 16 := hlast
    have hsum : (offset + h.fragment_offset) % 2 ^ 16 = offset + h.fragment_offset := by
      apply Nat.mod_eq_of_lt
      omega
    have halign : (offset + h.fragment_offset) % 2 ^ 16 % 8 = 0 := by omega
    by_cases hmore : offset + size < p.length
    · have hnext : (offset + size) % 2 ^ 16 = offset + size := by
        apply Nat.mod_eq_of_lt
        obtain ⟨k, rfl⟩ := hdvd
        have hk : k + 1 ≤ (p.length - 1) / size := by
          rw [Nat.le_div_iff_mul_le hpos, Nat.add_mul, Nat.one_mul]
          have := Nat.mul_comm k size
          omega
        calc size * k + size = (k + 1) * size := by rw [Nat.add_mul, Nat.one_mul, Nat.mul_comm]
          _ ≤ (p.length - 1) / size * size := Nat.mul_le_mul_right size hk
          _ < 2 ^ 16 := hlast
      obtain ⟨l, heq, hl⟩ := @ih (offset + size) (by omega) (hdvd.add (dvd_refl size)) (.inr hmore) (by omega)
      rw [fragment_turns_more (by omega) hmore halign, hnext, heq, Option.map_some]
      refine ⟨_, rfl, hl.cons hmore hmtu hsize ?_ rfl⟩
      simp only [hsum]
      omega
    · rw [fragment_turns_last (by omega) (by omega) halign]
      refine ⟨_, rfl, .last ?_ ?_ rfl⟩
      · rw [List.length_drop]
        omega
      · simp only [hsum]
        omega

theorem fragment_turns_ne_nil (hturns : fragment_turns p h size checksum_enabled turns offset = some l) : l ≠ [] := by
  rintro rfl
  cases turns with
  | zero => cases hturns
  | succ turns =>
    rw [fragment_turns] at hturns
    obtain ⟨header, -, hturns⟩ := Option.bind_eq_some_iff.mp hturns
    split at hturns
    · obtain ⟨rest, -, hturns⟩ := Option.bind_eq_some_iff.mp hturns
      cases hturns
    · cases hturns

theorem fragment_turns_offset_lt (hturns : fragment_turns p h size checksum_enabled turns offset = some l) :
    ∀ x ∈ l, x.2.fragment_offset < 2 ^ 16 := by
  induction turns generalizing offset l with
  | zero => cases hturns
  | succ turns ih =>
    rw [fragment_turns] at hturns
    obtain ⟨header, hheader, hturns⟩ := Option.bind_eq_some_iff.mp hturns
    rw [FragmentHeader.set_fragment_offset] at hheader
    obtain ⟨-, heq⟩ := Option.ite_none_right_eq_some.mp hheader
    obtain rfl := Option.some.inj heq
    have hmod : (offset + h.fragment_offset) % 2 ^ 16 < 2 ^ 16 := Nat.mod_lt _ (by decide)
    split at hturns
    · obtain ⟨rest, hrest, hturns⟩ := Option.bind_eq_some_iff.mp hturns
      cases hturns
      exact List.forall_mem_cons.mpr ⟨hmod, ih hrest⟩
    · cases hturns
      exact List.forall_mem_cons.mpr ⟨hmod, by simp⟩

theorem last_offset_lt (hpos : 0 < size) (hsize : size % 8 = 0) (hword : size < 2 ^ 16) (haligned : h.fragment_offset = 0)
    (hoffset : offset % 8 = 0) (hdvd : size ∣ offset) (hlt : offset < 2 ^ 16)
    (hturns : fragment_turns p h size checksum_enabled turns offset = some l)
    (htotals : ∀ before x after, l = before ++ x :: after →
      x.2.fragment_offset = offset + (before.flatMap Prod.fst).length) :
    (p.length - 1) / size * size < 2 ^ 16 := by
  induction turns generalizing offset l with
  | zero => cases hturns
  | succ turns ih =>
    have halign : (offset + h.fragment_offset) % 2 ^ 16 % 8 = 0 := by omega
    by_cases hmore : offset + size < p.length
    · rw [fragment_turns_more (by omega) hmore halign] at hturns
      obtain ⟨rest, hrest, rfl⟩ := Option.map_eq_some_iff.mp hturns
      have hlength : ((p.drop offset).take size).length = size := by
        rw [List.length_take, List.length_drop]
        omega
      -- the next fragment's header shows whether the sum has wrapped
      obtain ⟨y, ys, rfl⟩ := List.exists_cons_of_ne_nil (fragment_turns_ne_nil hrest)
      have hsecond := htotals [_] y ys rfl
      have hheader := fragment_turns_offset_lt hrest y (by simp)
      rw [List.flatMap_cons, List.flatMap_nil, List.append_nil, hlength] at hsecond
      have hnext : (offset + size) % 2 ^ 16 = offset + size := Nat.mod_eq_of_lt (by omega)
      rw [hnext] at hrest
      refine @ih _ (offset + size) (by omega) (hdvd.add (dvd_refl size)) (by omega) hrest ?_
      intro before x after heq
      have htotal := htotals (_ :: before) x after (by rw [heq]; rfl)
      rw [htotal, List.flatMap_cons, List.length_append, hlength]
      omega
    · obtain ⟨k, rfl⟩ := hdvd
      have hk : (p.length - 1) / size ≤ k := by
        rw [Nat.div_le_iff_le_mul_add_pred hpos]
        omega
      calc (p.length - 1) / size * size ≤ k * size := Nat.mul_le_mul_right size hk
        _ = size * k := Nat.mul_comm _ _
        _ < 2 ^ 16 := hlt

/-- The 16 bits of the offset never reach the end of a packet that is long enough, and the loop does
not end. -/
theorem never_ends (hsize : size < 2 ^ 16) (hlong : 2 ^ 16 + size ≤ p.length) (hlt : offset < 2 ^ 16) :
    fragment_turns p h size checksum_enabled turns offset = none := by
  induction turns generalizing offset with
  | zero => rfl
  | succ turns ih =>
    by_cases halign : (offset + h.fragment_offset) % 2 ^ 16 % 8 = 0
    · rw [fragment_turns_more (by omega) (by omega) halign, ih (Nat.mod_lt _ (by decide)), Option.map_none]
    · rw [fragment_turns]
      simp only [FragmentHeader.set_fragment_offset, if_neg halign, Option.bind_eq_bind, Option.bind_none]

/-- Whatever `DoFragmentation` is given, it ends with the right fragments exactly if the offset of the
last one fits 16 bits. -/
theorem fragments_well_iff {packet : List UInt8} {header : FragmentHeader} (hmtu : 68 ≤ mtu) (hword : mtu < 2 ^ 16)
    (haligned : header.fragment_offset % 8 = 0)
    (hheader : header.fragment_offset = 0 ∧ header.more_fragments = false ∨
      header.fragment_offset + packet.length < 2 ^ 16) :
    FragmentsWell packet header mtu checksum_enabled ↔ LastOffsetFits packet mtu := by
  have hsize := fragment_size_eq hmtu (by omega)
  have hserialized : FragmentHeader.get_serialized_size = 20 := rfl
  constructor
  · rintro ⟨turns, l, hturns, hl⟩
    rcases hheader with ⟨hzero, -⟩ | hfits
    · refine last_offset_lt (by omega) (by omega) (by omega) hzero (Nat.zero_mod 8) (dvd_zero _) (by decide) hturns ?_
      intro before x after heq
      rw [hl.offsets before x after heq, hzero]
    · have hle := Nat.div_mul_le_self (packet.length - 1) (fragment_size mtu)
      rw [LastOffsetFits]
      omega
  · intro hfits
    obtain ⟨l, heq, hl⟩ := fragment_turns_fragmented checksum_enabled (packet.length + 1)
      (by omega) (by omega) (by omega) hword haligned (hheader.imp_left fun h => h.1) hfits (Nat.zero_mod 8)
      (dvd_zero _) (.inl rfl) (by omega)
    exact ⟨_, l, heq, hl⟩

section Samples

def sampleOriginal : FragmentHeader where
  source := 0x0a000001
  destination := 0x0a000002
  ttl := 64
  protocol := 253

theorem fragments_well_sample : FragmentsWell (List.replicate 100 7) sampleOriginal 68 false :=
  (fragments_well_iff (by decide) (by decide) (by decide) (.inl ⟨rfl, rfl⟩)).mpr (by decide)

/-- A packet of 66000 bytes, as a raw socket sends it, keeps the loop busy for ever. -/
theorem long_packet_never_fragmented :
    ¬ ∃ turns l, fragment_turns (List.replicate 66000 0) sampleOriginal (fragment_size 68) false turns 0 = some l := by
  rintro ⟨turns, l, hturns⟩
  rw [never_ends (by decide) (by rw [List.length_replicate]; decide) (by decide)] at hturns
  cases hturns

end Samples

end Ns3.Ipv4L3Protocol
