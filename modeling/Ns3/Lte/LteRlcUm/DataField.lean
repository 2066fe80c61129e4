import Ns3.Lte.LteRlcAmHeader.RoundTrip
import Ns3.Lte.LteRlcUm

namespace Ns3

open LteRlcAmHeader (li_size length_serialize_li)

namespace LteRlcHeader

/-- The length of the header is what its extension bits ask for, as a 16-bit word. -/
def Sized (h : LteRlcHeader) : Prop :=
  h.extension_bits ≠ [] → h.header_length = .ofNat (2 + li_size (h.extension_bits.length - 1))

variable {h : LteRlcHeader} {e : ExtensionBit} {es : List ExtensionBit} {lis : List UInt16}

theorem li_size_succ (n : ℕ) : li_size (n + 1) = li_size n + if (n + 1) % 2 = 1 then 2 else 1 := by
  rw [li_size, li_size]
  split <;> omega

theorem li_size_mono {m n : ℕ} (h : m ≤ n) : li_size m ≤ li_size n := by
  rw [li_size, li_size]
  omega

theorem Sized.push_extension_bit (hsized : h.Sized) : (h.push_extension_bit e).Sized := by
  intro _
  obtain hbits | hbits := eq_or_ne h.extension_bits []
  · simp [LteRlcHeader.push_extension_bit, hbits, li_size]
  · obtain ⟨n, hn⟩ := Nat.exists_eq_succ_of_ne_zero (List.length_pos_iff.mpr hbits).ne'
    have hlength := hsized hbits
    simp only [LteRlcHeader.push_extension_bit, List.length_append, List.length_singleton, hn, hlength,
      Nat.add_sub_cancel, Nat.succ_eq_add_one]
    rw [if_neg (by omega), li_size_succ, ← add_assoc, UInt16.ofNat_add (2 + li_size n)]
    by_cases hparity : (n + 1) % 2 = 1
    · rw [if_neg (by omega), if_pos hparity]
      rfl
    · rw [if_pos (by omega), if_neg hparity]
      rfl

theorem Sized.push_length_indicator (hsized : h.Sized) (li : UInt16) : (h.push_length_indicator li).Sized := hsized

theorem length_serialize (hbits : h.extension_bits = e :: es) (hlis : h.length_indicators.length = es.length) :
    ∃ bytes, h.serialize = some bytes ∧ bytes.length = 2 + li_size es.length := by
  rw [serialize, hbits]
  refine ⟨_, rfl, ?_⟩
  rw [List.length_append, List.tail_cons, length_serialize_li, hlis, min_self]
  rfl

end LteRlcHeader

namespace LteRlcUm

open Framing
open LteRlcHeader (Sized li_size_succ)
open LteRlcAm (cut_status remaining_status whole_status framing_info)

def contents (tx_buffer : List TxPdu) : List (List UInt8) := tx_buffer.map fun p => p.pdu.bytes

def amount (tx_buffer : List TxPdu) : ℕ := ((contents tx_buffer).map List.length).sum

def starts (status : LteRlcSduStatus) : Bool := status = .full_sdu || status = .first_segment

def ends (status : LteRlcSduStatus) : Bool := status = .full_sdu || status = .last_segment

/-- The statuses in a buffer tell that the first SDU, and no other one, may have been sent in part. -/
structure Queued (sent : List UInt8) (tx_buffer : List TxPdu) : Prop where
  nonempty : ∀ p ∈ tx_buffer, p.pdu.bytes ≠ []
  head : ∀ p ∈ tx_buffer.head?, p.pdu.status = if sent = [] then .full_sdu else .last_segment
  tail : ∀ p ∈ tx_buffer.tail, p.pdu.status = .full_sdu
  idle : tx_buffer = [] → sent = []

/-- What the loop leaves of a buffer when there are `k` length indicators and room for `next` bytes. -/
structure Built (sent : List UInt8) (tx_buffer : List TxPdu) (k next : ℕ) (header : LteRlcHeader) (field : DataField) :
    Prop where
  nonempty : field.data_field ≠ []
  starts_first : starts (field.data_field.head nonempty).status = sent.isEmpty
  sends : ∃ sent', Queued sent' field.tx_buffer ∧
    Sends ⟨sent, contents tx_buffer⟩
      (mark sent.isEmpty (ends (field.data_field.getLast nonempty).status) (field.data_field.map Segment.bytes))
      ⟨sent', contents field.tx_buffer⟩
  counter : field.tx_buffer_size = .ofNat (amount field.tx_buffer)
  sized : field.header.Sized
  extension_bits : field.header.extension_bits = header.extension_bits ++
    (List.replicate (field.data_field.length - 1) .e_li_fields_follow ++ [.data_field_follows])
  length_indicators : field.header.length_indicators = header.length_indicators ++
    field.data_field.dropLast.map fun segment => .ofNat segment.bytes.length
  small : ∀ segment ∈ field.data_field.dropLast, segment.bytes.length ≤ 2047
  fits : (field.data_field.map fun segment => segment.bytes.length).sum + li_size (k + (field.data_field.length - 1)) ≤
    next + li_size k
  behind : field.data_field.length ≤ tx_buffer.length
  whole : field.data_field.dropLast.map Segment.bytes = (contents tx_buffer).take (field.data_field.length - 1)
  room : field.data_field.length ≠ 1 →
    (field.data_field.dropLast.map fun segment => segment.bytes.length).sum +
      li_size (k + (field.data_field.length - 1) - 1) + 2 < next + li_size k

variable {sent : List UInt8} {first p : TxPdu} {rest : List TxPdu} {k next : ℕ} {header : LteRlcHeader} {size : UInt32}

theorem amount_cons : amount (p :: rest) = p.pdu.bytes.length + amount rest := by
  simp [amount, contents]

theorem Queued.of_rest (h : Queued sent (first :: rest)) : Queued [] rest where
  nonempty p hp := h.nonempty p (List.mem_cons_of_mem _ hp)
  head p hp := by
    rw [if_pos rfl]
    exact h.tail p (List.mem_of_head? hp)
  tail p hp := h.tail p (List.mem_of_mem_tail hp)
  idle _ := rfl

theorem Queued.status_eq (h : Queued sent (first :: rest)) :
    first.pdu.status = if sent = [] then .full_sdu else .last_segment := h.head first rfl

theorem Queued.starts_first (h : Queued sent (first :: rest)) : starts first.pdu.status = sent.isEmpty := by
  rw [h.status_eq]
  cases sent with
  | nil => rfl
  | cons b sent => rfl

theorem Queued.ends_first (h : Queued sent (first :: rest)) : ends first.pdu.status = true := by
  rw [h.status_eq]
  split <;> rfl

theorem Queued.last (h : Queued sent (first :: rest)) (hsized : header.Sized) (hsize : size = .ofNat (amount rest))
    (hfits : first.pdu.bytes.length ≤ next) :
    Built sent (first :: rest) k next header {
      data_field := [first.pdu]
      header := header.push_extension_bit .data_field_follows
      tx_buffer := rest
      tx_buffer_size := size } where
  nonempty := List.cons_ne_nil _ _
  starts_first := h.starts_first
  sends := by
    refine ⟨[], h.of_rest, ?_⟩
    simp only [List.getLast_singleton, h.ends_first]
    exact .whole (h.nonempty first List.mem_cons_self) .nil
  counter := hsize
  sized := hsized.push_extension_bit
  extension_bits := rfl
  length_indicators := (List.append_nil _).symm
  small := by simp
  fits := by simpa using hfits
  behind := by simp
  whole := rfl
  room hlength := absurd rfl hlength

/-- The first SDU is cut, or it is taken whole although it is too long for a length indicator. -/
theorem Queued.segment (h : Queued sent (first :: rest)) (hsized : header.Sized) (hsize : size = .ofNat (amount rest))
    (hnext : 0 < next) :
    Built sent (first :: rest) k next header (segment first next header rest size) := by
  have hfirst := List.length_pos_iff.mpr (h.nonempty first List.mem_cons_self)
  have hstatus := h.status_eq
  have htake : first.pdu.bytes.take (min first.pdu.bytes.length next) ≠ [] := by
    apply List.ne_nil_of_length_pos
    rw [List.length_take]
    omega
  rw [LteRlcUm.segment]
  split
  next hleft =>
    -- what remains is given back, and is the last segment of the SDU
    have hstarts : starts (cut_status first.pdu.status) = sent.isEmpty := by
      rw [hstatus]
      cases sent with
      | nil => rfl
      | cons b sent => rfl
    have hends : ends (cut_status first.pdu.status) = false := by
      rw [hstatus]
      split <;> rfl
    have hremaining : remaining_status first.pdu.status = .last_segment := by
      rw [hstatus]
      split <;> rfl
    have hdrop := List.length_pos_iff.mp hleft
    refine ⟨List.cons_ne_nil _ _, hstarts, ⟨sent ++ first.pdu.bytes.take (min first.pdu.bytes.length next), ?_, ?_⟩, ?_,
      hsized.push_extension_bit, rfl, (List.append_nil _).symm, by simp, ?_, by simp, rfl,
      fun hlength => absurd rfl hlength⟩
    · refine ⟨List.forall_mem_cons.mpr ⟨hdrop, h.of_rest.nonempty⟩, ?_, h.tail, fun hnil => absurd hnil (List.cons_ne_nil _ _)⟩
      simpa [htake] using hremaining
    · simp only [List.getLast_singleton, hends]
      have hsends : Sends ⟨sent, (first.pdu.bytes.take (min first.pdu.bytes.length next) ++
          first.pdu.bytes.drop (min first.pdu.bytes.length next)) :: contents rest⟩ _ _ := .part htake hdrop .nil
      rwa [List.take_append_drop] at hsends
    · rw [amount_cons, hsize, add_comm, UInt32.ofNat_add]
      rfl
    · simp
  next hleft =>
    have hdrop : first.pdu.bytes.drop (min first.pdu.bytes.length next) = [] := by
      rwa [gt_iff_lt, List.length_pos_iff, not_not] at hleft
    have hwhole : first.pdu.bytes.take (min first.pdu.bytes.length next) = first.pdu.bytes := by
      conv_rhs => rw [← List.take_append_drop (min first.pdu.bytes.length next) first.pdu.bytes]
      rw [hdrop, List.append_nil]
    have hkept : whole_status (cut_status first.pdu.status) = first.pdu.status := by
      rw [hstatus]
      split <;> rfl
    rw [hwhole, hkept]
    apply h.last hsized hsize
    rw [List.drop_eq_nil_iff] at hdrop
    omega

/-- The first SDU is taken whole and has a length indicator; the rest of the data field is behind it. -/
theorem Built.cons {field : DataField} (h : Queued sent (first :: p :: rest)) (hfits : first.pdu.bytes.length ≤ next)
    (hsmall : first.pdu.bytes.length ≤ 2047) (hroom : 2 < next - first.pdu.bytes.length)
    (hfield : Built [] (p :: rest) (k + 1) (next - ((if (k + 1) % 2 = 1 then 2 else 1) + first.pdu.bytes.length))
      ((header.push_extension_bit .e_li_fields_follow).push_length_indicator (.ofNat first.pdu.bytes.length)) field) :
    Built sent (first :: p :: rest) k next header { field with data_field := first.pdu :: field.data_field } := by
  obtain ⟨hnonempty, hstarts, ⟨sent', hqueued, hsends⟩, hcounter, hsized, hbits, hlis, hsmalls, hlength, hbehind, hwhole,
    hrooms⟩ := hfield
  obtain ⟨segment, segments, hsegments⟩ := List.exists_cons_of_ne_nil hnonempty
  have hsucc := li_size_succ k
  refine ⟨List.cons_ne_nil _ _, h.starts_first, ⟨sent', hqueued, ?_⟩, hcounter, hsized, ?_, ?_, ?_, ?_,
    Nat.succ_le_succ hbehind, ?_, fun _ => ?_⟩
  · rw [List.getLast_cons hnonempty]
    simp only [hsegments, List.map_cons, mark] at hsends ⊢
    exact .whole (h.nonempty first List.mem_cons_self) hsends
  · rw [hbits, hsegments]
    simp [LteRlcHeader.push_length_indicator, LteRlcHeader.push_extension_bit, List.replicate_succ]
  · rw [hlis, List.dropLast_cons_of_ne_nil hnonempty]
    simp [LteRlcHeader.push_length_indicator, LteRlcHeader.push_extension_bit]
  · rw [List.dropLast_cons_of_ne_nil hnonempty]
    exact List.forall_mem_cons.mpr ⟨hsmall, hsmalls⟩
  · rw [hsegments] at hlength ⊢
    simp only [List.map_cons, List.sum_cons, List.length_cons, Nat.add_sub_cancel] at hlength ⊢
    rw [show k + (segments.length + 1) = k + 1 + segments.length by omega]
    split at hlength <;> split at hsucc <;> omega
  · rw [List.dropLast_cons_of_ne_nil hnonempty, List.map_cons, hwhole, hsegments]
    rfl
  · rw [List.dropLast_cons_of_ne_nil hnonempty, List.map_cons, List.sum_cons]
    obtain rfl | hmore := eq_or_ne segments []
    · simp [hsegments]
      omega
    · have hlast := hrooms (by simpa [hsegments] using hmore)
      have hpos := List.length_pos_iff.mpr hmore
      rw [hsegments] at hlast ⊢
      simp only [List.length_cons, Nat.add_sub_cancel] at hlast ⊢
      rw [show k + (segments.length + 1) - 1 = k + 1 + segments.length - 1 by omega]
      split at hlast <;> split at hsucc <;> omega

theorem Queued.build (h : Queued sent (first :: rest)) (hsized : header.Sized) (hsize : size = .ofNat (amount rest))
    (hnext : 0 < next) :
    Built sent (first :: rest) k next header (build first next (k + 1) header rest size) := by
  induction rest generalizing sent first k next header size with
  | nil =>
    have hfirst := List.length_pos_iff.mpr (h.nonempty first List.mem_cons_self)
    unfold LteRlcUm.build
    rw [if_pos ⟨hfirst, hnext⟩]
    split
    · exact h.segment hsized hsize hnext
    next hfits => exact h.last hsized hsize (by omega)
  | cons p rest ih =>
    have hfirst := List.length_pos_iff.mpr (h.nonempty first List.mem_cons_self)
    unfold LteRlcUm.build
    rw [if_pos ⟨hfirst, hnext⟩]
    split
    · exact h.segment hsized hsize hnext
    next hfits =>
      simp only
      split
      · exact h.last hsized hsize (by omega)
      next hroom =>
        have hrest : size - p.get_size = .ofNat (amount rest) := by
          rw [hsize, amount_cons, UInt32.ofNat_add]
          exact add_sub_cancel_left ..
        have hleft : 0 < next - ((if (k + 1) % 2 = 1 then 2 else 1) + first.pdu.bytes.length) := by
          split <;> omega
        exact .cons h (by omega) (by omega) (by omega)
          (ih h.of_rest (hsized.push_extension_bit.push_length_indicator _) hrest hleft)

end LteRlcUm

end Ns3
