import Ns3.Network.Address
import Ns3.Wifi.BlockAckWindow

namespace Ns3

/-- `BlockAckType::Variant`. -/
inductive BlockAckVariant
  | basic
  | compressed
  | extended_compressed
  | multi_tid
  | multi_sta
deriving DecidableEq, Repr

/-- A BA information field. -/
structure BaInfoInstance where
  aid_tid_info : BitVec 16 := 0
  starting_seq : ℕ := 0
  bitmap : List (BitVec 8)
  ra : Mac48Address := 0
deriving DecidableEq, Repr

/-- A block ack frame's header: its type with the bitmap lengths in bytes, and its fields. -/
structure CtrlBAckResponseHeader where
  ba_ack_policy : Bool := false
  variant : BlockAckVariant
  bitmap_len : List ℕ
  tid_info : ℕ := 0
  ba_info : List BaInfoInstance
deriving DecidableEq, Repr

namespace CtrlBAckResponseHeader

variable (h : CtrlBAckResponseHeader) (index : ℕ)

/-- The field of an index, with the assertions on the index. -/
def info : Option BaInfoInstance :=
  if h.variant = .multi_sta ∨ index = 0 then h.ba_info[index]? else none

def get_ack_type (info : BaInfoInstance) : Bool := info.aid_tid_info.getLsbD 11

/-- `GetTidInfo`, of a multi-STA block ack. -/
def get_tid_info (info : BaInfoInstance) : ℕ := ((info.aid_tid_info >>> 12) &&& 0x000f#16).toNat

/-- How many MPDUs the bitmap of an index is about. -/
def acked_mpdus : Option ℕ := do
  let len ← h.bitmap_len[index]?
  return if h.variant = .basic then len * 8 / 16 else len * 8

def index_in_bitmap (seq : ℕ) : Option ℕ := do
  let info ← h.ba_info[index]?
  let i := if seq ≥ info.starting_seq then seq - info.starting_seq
    else SEQNO_SPACE_SIZE - info.starting_seq + seq
  if i < (← h.acked_mpdus index) then some i else none

def is_in_bitmap (seq : ℕ) : Option Bool := do
  let info ← h.info index
  let acked ← h.acked_mpdus index
  return ((seq : ℤ) - info.starting_seq + SEQNO_SPACE_SIZE).tmod SEQNO_SPACE_SIZE < acked

/-- The context in which all MPDUs are acknowledged. -/
def is_all_ack (info : BaInfoInstance) : Bool :=
  h.variant = .multi_sta && get_ack_type info && get_tid_info info = 14

def is_packet_received (seq : ℕ) : Option Bool := do
  let info ← h.info index
  if h.is_all_ack info then return true
  if !(← h.is_in_bitmap index seq) then return false
  match h.variant with
  | .basic => return false
  | .compressed | .extended_compressed | .multi_sta => do
    let i ← h.index_in_bitmap index seq
    let mask := 1#8 <<< (i % 8)
    let byte ← info.bitmap[i / 8]?
    return byte &&& mask != 0
  | .multi_tid => none

/-- The header with another field at an index. -/
def set_info (info : BaInfoInstance) : CtrlBAckResponseHeader :=
  { h with ba_info := h.ba_info.set index info }

def set_starting_sequence (seq : ℕ) : Option CtrlBAckResponseHeader := do
  let info ← h.info index
  return h.set_info index { info with starting_seq := seq }

def reset_bitmap : Option CtrlBAckResponseHeader := do
  let info ← h.info index
  let len ← h.bitmap_len[index]?
  return h.set_info index { info with bitmap := List.replicate len 0 }

def set_received_packet (seq : ℕ) : Option CtrlBAckResponseHeader := do
  let info ← h.info index
  if !(← h.is_in_bitmap index seq) then return h
  match h.variant with
  | .basic => do
    let i ← h.index_in_bitmap index seq
    let byte ← info.bitmap[i * 2]?
    return h.set_info index { info with bitmap := info.bitmap.set (i * 2) (byte ||| 0x01) }
  | .compressed | .extended_compressed | .multi_sta => do
    let i ← h.index_in_bitmap index seq
    let byte ← info.bitmap[i / 8]?
    return h.set_info index { info with bitmap := info.bitmap.set (i / 8) (byte ||| 1#8 <<< (i % 8)) }
  | .multi_tid => none

section Specification

variable {h h' : CtrlBAckResponseHeader} {index seq i j : ℕ} {info : BaInfoInstance}

/-- The header has a field at an index, with a bitmap of the length of its type, in a variant that
acknowledges whole MPDUs. -/
structure Shaped (h : CtrlBAckResponseHeader) (index : ℕ) (info : BaInfoInstance) : Prop where
  variant : h.variant = .compressed ∨ h.variant = .extended_compressed ∨ h.variant = .multi_sta
  found : h.info index = some info
  length : h.bitmap_len[index]? = some info.bitmap.length
  starting_seq_lt : info.starting_seq < SEQNO_SPACE_SIZE

def bit (info : BaInfoInstance) (i : ℕ) : Bool := (info.bitmap[i / 8]?.getD 0).getLsbD (i % 8)

theorem mask_ne_zero (byte : BitVec 8) (k : Fin 8) : (byte &&& 1#8 <<< k.val != 0) = byte.getLsbD k.val := by
  revert byte k
  decide +kernel

theorem getLsbD_or_mask (byte : BitVec 8) (k l : Fin 8) :
    (byte ||| 1#8 <<< k.val).getLsbD l.val = (decide (l = k) || byte.getLsbD l.val) := by
  revert byte k l
  decide +kernel

theorem ba_info_of_info (hinfo : h.info index = some info) : h.ba_info[index]? = some info := by
  rw [CtrlBAckResponseHeader.info] at hinfo
  split at hinfo
  next => exact hinfo
  next => cases hinfo

theorem Shaped.acked_mpdus (hs : Shaped h index info) : h.acked_mpdus index = some (info.bitmap.length * 8) := by
  rw [CtrlBAckResponseHeader.acked_mpdus, hs.length]
  rcases hs.variant with hv | hv | hv <;> simp [hv]

open SequenceSpace in
theorem Shaped.is_in_bitmap (hs : Shaped h index info) :
    h.is_in_bitmap index seq
      = some (decide (distance SEQNO_SPACE_SIZE seq info.starting_seq < info.bitmap.length * 8)) := by
  have hlt := hs.starting_seq_lt
  have hdist : ((seq : ℤ) - info.starting_seq + SEQNO_SPACE_SIZE).tmod SEQNO_SPACE_SIZE
      = (distance SEQNO_SPACE_SIZE seq info.starting_seq : ℕ) := by
    rw [Int.tmod_eq_emod_of_nonneg (by omega), distance]
    push_cast [Nat.cast_sub (by omega : info.starting_seq ≤ seq + SEQNO_SPACE_SIZE)]
    ring_nf
  rw [CtrlBAckResponseHeader.is_in_bitmap, hs.found, hs.acked_mpdus]
  simp only [hdist, Option.bind_eq_bind, Option.bind_some, Nat.cast_lt]
  rfl

open SequenceSpace in
theorem Shaped.index_in_bitmap (hs : Shaped h index info) (hseq : seq < SEQNO_SPACE_SIZE)
    (hin : distance SEQNO_SPACE_SIZE seq info.starting_seq < info.bitmap.length * 8) :
    h.index_in_bitmap index seq = some (distance SEQNO_SPACE_SIZE seq info.starting_seq) := by
  have hlt := hs.starting_seq_lt
  have hi : (if seq ≥ info.starting_seq then seq - info.starting_seq
      else SEQNO_SPACE_SIZE - info.starting_seq + seq) = distance SEQNO_SPACE_SIZE seq info.starting_seq := by
    simp only [distance, SEQNO_SPACE_SIZE] at *
    split <;> omega
  rw [CtrlBAckResponseHeader.index_in_bitmap, ba_info_of_info hs.found, hs.acked_mpdus]
  simp only [hi, Option.bind_eq_bind, Option.bind_some]
  rw [if_pos hin]

open SequenceSpace in
theorem Shaped.is_packet_received (hs : Shaped h index info) (hall : h.is_all_ack info = false)
    (hseq : seq < SEQNO_SPACE_SIZE) :
    h.is_packet_received index seq
      = some (decide (distance SEQNO_SPACE_SIZE seq info.starting_seq < info.bitmap.length * 8)
        && bit info (distance SEQNO_SPACE_SIZE seq info.starting_seq)) := by
  obtain ⟨i, hi⟩ : ∃ i, distance SEQNO_SPACE_SIZE seq info.starting_seq = i := ⟨_, rfl⟩
  rw [CtrlBAckResponseHeader.is_packet_received, hs.found]
  simp only [hall, hs.is_in_bitmap, hi, Option.bind_eq_bind, Option.bind_some]
  by_cases hin : i < info.bitmap.length * 8
  · have hbyte : info.bitmap[i / 8]? = some info.bitmap[i / 8] := List.getElem?_eq_getElem (by omega)
    have hbit : bit info i = info.bitmap[i / 8].getLsbD (i % 8) := by rw [bit, hbyte, Option.getD_some]
    have hmask : (info.bitmap[i / 8] &&& 1#8 <<< (i % 8) != 0) = info.bitmap[i / 8].getLsbD (i % 8) :=
      mask_ne_zero _ ⟨i % 8, Nat.mod_lt _ (by decide)⟩
    have hindex := hs.index_in_bitmap hseq (by rwa [hi])
    rw [hi] at hindex
    rcases hs.variant with hv | hv | hv <;> simpa [hv, hin, hindex, hbyte, hbit] using hmask
  · simp [hin]

theorem info_set_info {j : BaInfoInstance} (hinfo : h.info index = some info) :
    (h.set_info index j).info index = some j := by
  have hlt := (List.getElem?_eq_some_iff.mp (ba_info_of_info hinfo)).1
  rw [CtrlBAckResponseHeader.info] at hinfo ⊢
  split at hinfo
  next hindex => rw [if_pos (by exact hindex), CtrlBAckResponseHeader.set_info, List.getElem?_set_self hlt]
  next => cases hinfo

theorem Shaped.set_info (hs : Shaped h index info) {j : BaInfoInstance}
    (hlength : j.bitmap.length = info.bitmap.length) (hstart : j.starting_seq < SEQNO_SPACE_SIZE) :
    Shaped (h.set_info index j) index j where
  variant := hs.variant
  found := info_set_info hs.found
  length := by
    rw [hlength]
    exact hs.length
  starting_seq_lt := hstart

/-- The field with the bit of an MPDU set, if the bitmap has room for it. -/
def mark (info : BaInfoInstance) (i : ℕ) : BaInfoInstance :=
  if i / 8 < info.bitmap.length then
    { info with bitmap := info.bitmap.set (i / 8) (info.bitmap[i / 8]?.getD 0 ||| 1#8 <<< (i % 8)) }
  else info

@[simp] theorem length_bitmap_mark : (mark info i).bitmap.length = info.bitmap.length := by
  rw [mark]
  split
  · exact List.length_set
  · rfl

@[simp] theorem aid_tid_info_mark : (mark info i).aid_tid_info = info.aid_tid_info := by
  rw [mark]
  split <;> rfl

@[simp] theorem starting_seq_mark : (mark info i).starting_seq = info.starting_seq := by
  rw [mark]
  split <;> rfl

theorem bit_mark (hj : j < info.bitmap.length * 8) : bit (mark info i) j = (decide (j = i) || bit info j) := by
  rw [mark]
  split
  next hi =>
    have hbyte : info.bitmap[i / 8]? = some info.bitmap[i / 8] := List.getElem?_eq_getElem hi
    have hmask := getLsbD_or_mask info.bitmap[i / 8] ⟨i % 8, Nat.mod_lt _ (by decide)⟩ ⟨j % 8, Nat.mod_lt _ (by decide)⟩
    simp only [bit, hbyte, Option.getD_some]
    by_cases hsame : i / 8 = j / 8
    · have hiff : j % 8 = i % 8 ↔ j = i := by omega
      rw [← hsame, List.getElem?_set_self hi, hbyte, Option.getD_some, Option.getD_some, hmask]
      simp [hiff]
    · have hne : j ≠ i := by omega
      rw [List.getElem?_set_ne hsame]
      simp [hne]
  next hi =>
    have hne : j ≠ i := by omega
    simp [hne]

theorem set_info_self (hinfo : h.info index = some info) : h.set_info index info = h := by
  obtain ⟨hlt, hget⟩ := List.getElem?_eq_some_iff.mp (ba_info_of_info hinfo)
  rw [CtrlBAckResponseHeader.set_info, ← hget, List.set_getElem_self hlt]

open SequenceSpace in
theorem Shaped.set_received_packet_eq (hs : Shaped h index info) (hseq : seq < SEQNO_SPACE_SIZE) :
    h.set_received_packet index seq
      = some (h.set_info index (mark info (distance SEQNO_SPACE_SIZE seq info.starting_seq))) := by
  obtain ⟨i, hi⟩ : ∃ i, distance SEQNO_SPACE_SIZE seq info.starting_seq = i := ⟨_, rfl⟩
  rw [CtrlBAckResponseHeader.set_received_packet, hs.found]
  simp only [hs.is_in_bitmap, hi, Option.bind_eq_bind, Option.bind_some]
  by_cases hin : i < info.bitmap.length * 8
  · have hin' : i / 8 < info.bitmap.length := by omega
    have hbyte : info.bitmap[i / 8]? = some info.bitmap[i / 8] := List.getElem?_eq_getElem hin'
    have hindex := hs.index_in_bitmap hseq (by rwa [hi])
    rw [hi] at hindex
    rcases hs.variant with hv | hv | hv <;> simp [hv, hin, hin', hindex, mark]
  · have hout : ¬ i / 8 < info.bitmap.length := by omega
    simp [hin, hout, mark, set_info_self hs.found]

open SequenceSpace in
theorem Shaped.set_received_packet (hs : Shaped h index info) (hseq : seq < SEQNO_SPACE_SIZE) :
    ∃ h' info', h.set_received_packet index seq = some h' ∧ Shaped h' index info' ∧
      info'.starting_seq = info.starting_seq ∧ info'.bitmap.length = info.bitmap.length ∧
      h'.is_all_ack info' = h.is_all_ack info ∧
      ∀ j < info.bitmap.length * 8, bit info' j
        = (decide (j = distance SEQNO_SPACE_SIZE seq info.starting_seq) || bit info j) := by
  refine ⟨_, _, hs.set_received_packet_eq hseq, hs.set_info length_bitmap_mark ?_, starting_seq_mark, length_bitmap_mark, ?_,
    fun j hj => bit_mark hj⟩
  · rw [starting_seq_mark]
    exact hs.starting_seq_lt
  · rw [is_all_ack, is_all_ack, get_ack_type, get_ack_type, get_tid_info, get_tid_info, aid_tid_info_mark]
    rfl

end Specification

end CtrlBAckResponseHeader

end Ns3
