import Ns3.Wifi.CtrlBAckResponseHeader.Serialization

namespace Ns3.CtrlBAckResponseHeader

open ByteFormat SequenceSpace

variable {h h' : CtrlBAckResponseHeader} {index : ℕ} {info : BaInfoInstance} {calls : List (ℕ × ℕ)}

/-! ## The control words -/

/-- The starting sequence control word for a fragment number. -/
def sequence_control (starting_seq : ℕ) (fragment : UInt16) : UInt16 :=
  ((UInt16.ofNat starting_seq <<< 4) &&& 0xfff0) ||| fragment

theorem starting_seq_sequence_control {starting_seq len : ℕ} (hlt : starting_seq < SEQNO_SPACE_SIZE) :
    ((sequence_control starting_seq (fragment_number len) >>> 4) &&& 0x0fff).toNat = starting_seq := by
  have hbits : ∀ x f : UInt16, f >>> 4 = 0 → ((((x <<< 4) &&& 0xfff0) ||| f) >>> 4) &&& 0x0fff = x &&& 0x0fff := by
    intro x f hf
    rw [UInt16.shiftRight_or, hf]
    apply UInt16.toBitVec_inj.mp
    ext i hi
    interval_cases i <;> simp
  have hfragment : fragment_number len >>> 4 = 0 := by
    simp only [fragment_number]
    split_ifs <;> decide
  have hmask : UInt16.ofNat starting_seq &&& 0x0fff = UInt16.ofNat starting_seq := by
    apply UInt16.toNat_inj.mp
    have hsize : starting_seq < 2 ^ 12 := hlt
    rw [UInt16.toNat_and, UInt16.toNat_ofNat', show (0x0fff : UInt16).toNat = 2 ^ 12 - 1 from rfl,
      Nat.and_two_pow_sub_one_eq_mod]
    omega
  have hsize : starting_seq < 2 ^ 16 := lt_trans hlt (by decide)
  rw [sequence_control, hbits _ _ hfragment, hmask, UInt16.toNat_ofNat', Nat.mod_eq_of_lt hsize]

theorem bitmap_len_of_sequence_control (starting_seq : ℕ) {len : ℕ} (hlen : len = 4 ∨ len = 8 ∨ len = 16 ∨ len = 32) :
    bitmap_len_of (sequence_control starting_seq (fragment_number len)) = some len := by
  have hbits : ∀ x f : UInt16, (((x <<< 4) &&& 0xfff0) ||| f) &&& (0x0001 : UInt16) = f &&& 0x0001 ∧
      ((((x <<< 4) &&& 0xfff0) ||| f) >>> 3) &&& (0x0001 : UInt16) = (f >>> 3) &&& 0x0001 ∧
      ((((x <<< 4) &&& 0xfff0) ||| f) >>> 1) &&& (0x0003 : UInt16) = (f >>> 1) &&& 0x0003 := by
    intro x f
    refine ⟨?_, ?_, ?_⟩
    all_goals
      apply UInt16.toBitVec_inj.mp
      ext i hi
      interval_cases i <;> simp
  obtain ⟨h0, h3, h1⟩ := hbits (UInt16.ofNat starting_seq) (fragment_number len)
  rw [bitmap_len_of, sequence_control, h0, h3, h1]
  rcases hlen with rfl | rfl | rfl | rfl <;> decide

theorem shiftLeft_tid (tid : ℕ) : UInt16.ofNat (tid % 16) <<< 12 = UInt16.ofNat tid <<< 12 := by
  apply UInt16.toNat_inj.mp
  rw [UInt16.toNat_shiftLeft, UInt16.toNat_shiftLeft, UInt16.toNat_ofNat', UInt16.toNat_ofNat',
    show (12 : UInt16).toNat % 16 = 12 from rfl, Nat.shiftLeft_eq, Nat.shiftLeft_eq]
  omega

/-- What the BA control word says is read back from it, the TID modulo 16. -/
theorem set_ba_control_get_ba_control (hvariant : h.variant ≠ .multi_sta) :
    h'.set_ba_control h.get_ba_control =
      some { set_type h' h.variant (default_bitmap_len h.variant) with
        ba_ack_policy := h.ba_ack_policy, tid_info := h.tid_info % 16 } := by
  have hword : ∀ (policy : Bool) (tid : Fin 16) (variant : BlockAckVariant), variant ≠ .multi_sta →
      let ba : UInt16 := ((if policy then (0x1 : UInt16) else 0) ||| ba_type variant) ||| ((UInt16.ofNat tid.val <<< 12) &&& 0xf000)
      variant_of_ba_control ba = some variant ∧ decide (ba &&& 0x01 = 1) = policy ∧ ((ba >>> 12) &&& 0x0f).toNat = tid.val := by
    intro policy tid variant
    cases variant <;> revert policy tid <;> decide +kernel
  obtain ⟨hcode, hpolicy, htid'⟩ := hword h.ba_ack_policy ⟨h.tid_info % 16, Nat.mod_lt _ (by decide)⟩ h.variant hvariant
  rw [set_ba_control, get_ba_control, if_neg hvariant, ← shiftLeft_tid, hcode]
  simp only [Option.bind_eq_bind, Option.bind_some, if_neg hvariant, htid', hpolicy]
  rfl

theorem set_ba_control_multi_sta (h' : CtrlBAckResponseHeader) (hvariant : h.variant = .multi_sta) :
    h'.set_ba_control h.get_ba_control =
      some (set_type { h' with ba_ack_policy := h.ba_ack_policy } .multi_sta []) := by
  have hword : ∀ policy : Bool, variant_of_ba_control ((if policy then (0x1 : UInt16) else 0) ||| ba_type .multi_sta) = some .multi_sta ∧
      decide (((if policy then (0x1 : UInt16) else 0) ||| ba_type .multi_sta) &&& 0x01 = 1) = policy := by decide +kernel
  obtain ⟨hcode, hpolicy⟩ := hword h.ba_ack_policy
  rw [set_ba_control, get_ba_control, if_pos hvariant, hvariant, hcode]
  simp only [Option.bind_eq_bind, Option.bind_some, hpolicy]
  rfl

/-! ## The fields -/

def info_bytes (info : BaInfoInstance) : List UInt8 :=
  write_htolsb_u16 (UInt16.ofBitVec info.aid_tid_info) ++
    if get_aid11 info = 2045 then write_u32 0 ++ write_array info.ra 6
    else if info.bitmap = [] then []
    else write_htolsb_u16 (sequence_control info.starting_seq (fragment_number info.bitmap.length)) ++
      info.bitmap.map UInt8.ofBitVec

/-- The bitmap length that a receiver notes for a field. -/
def info_len (info : BaInfoInstance) : ℕ := if get_aid11 info = 2045 then 8 else info.bitmap.length

def received (info : BaInfoInstance) : BaInfoInstance :=
  if get_aid11 info = 2045 then { info with starting_seq := 0, bitmap := [] }
  else if info.bitmap = [] then { aid_tid_info := info.aid_tid_info, bitmap := [] }
  else { info with ra := 0 }

/-- A field as a multi-STA block ack carries it: an acknowledgement context with a bitmap, a context without one, or
the entry of an unassociated station. -/
inductive PerAidTidInfo (info : BaInfoInstance) : Prop
  | acknowledgement (haid : get_aid11 info ≠ 2045) (hack : get_ack_type info = false) (htid : get_tid_info info < 8)
      (hlen : info.bitmap.length = 4 ∨ info.bitmap.length = 8 ∨ info.bitmap.length = 16 ∨ info.bitmap.length = 32)
  | without_bitmap (haid : get_aid11 info ≠ 2045) (hack : get_ack_type info = true ∨ 8 ≤ get_tid_info info)
      (hlen : info.bitmap.length = 0)
  | unassociated (haid : get_aid11 info = 2045) (hlen : info.bitmap.length = 8)

theorem length_info_bytes (hfield : PerAidTidInfo info) :
    (info_bytes info).length = 2 + (if info.bitmap.length > 0 then 2 else 0) + info.bitmap.length := by
  have hword : ∀ w, (write_htolsb_u16 w).length = 2 := fun _ => rfl
  rw [info_bytes, List.length_append, hword]
  cases hfield with
  | acknowledgement haid _ _ hlen =>
    have hne : info.bitmap ≠ [] := List.ne_nil_of_length_pos (by omega)
    rw [if_neg haid, if_neg hne, if_pos (by omega), List.length_append, hword, List.length_map]
    omega
  | without_bitmap haid _ hlen =>
    rw [if_neg haid, if_pos (List.length_eq_zero_iff.mp hlen), hlen]
    rfl
  | unassociated haid hlen =>
    rw [if_pos haid, hlen, List.length_append, length_write_array le_rfl]
    rfl

theorem get_aid11_received : get_aid11 (received info) = get_aid11 info := by
  rw [received]
  split_ifs <;> rfl

theorem info_bytes_received : info_bytes (received info) = info_bytes info := by
  rw [info_bytes, info_bytes, get_aid11_received]
  by_cases haid : get_aid11 info = 2045
  · rw [if_pos haid, if_pos haid, received, if_pos haid]
  · rw [if_neg haid, if_neg haid, received, if_neg haid]
    by_cases hbitmap : info.bitmap = []
    · rw [if_pos hbitmap, if_pos hbitmap, if_pos rfl]
    · rw [if_neg hbitmap, if_neg hbitmap]

/-- The bitmap length noted for a field is that of its bitmap, if the field has one. -/
def Noted (h : CtrlBAckResponseHeader) (index : ℕ) (info : BaInfoInstance) : Prop :=
  get_aid11 info ≠ 2045 → info.bitmap ≠ [] → h.bitmap_len[index]? = some info.bitmap.length

theorem serialize_info_eq (hvariant : h.variant = .multi_sta) (hlength : h.ba_info.length = h.bitmap_len.length)
    (hinfo : h.ba_info[index]? = some info) (hnoted : Noted h index info) :
    h.serialize_info index = some (info_bytes info) := by
  have hfound : h.info index = some info := by rw [CtrlBAckResponseHeader.info, if_pos (.inl hvariant), hinfo]
  rw [serialize_info, hfound, info_bytes]
  simp only [Option.bind_eq_bind, Option.bind_some, ne_eq, ite_not]
  by_cases haid : get_aid11 info = 2045
  · simp [haid]
  · rw [if_neg haid, if_neg haid]
    by_cases hbitmap : info.bitmap = []
    · simp [hbitmap]
    · have hcontrol : h.get_starting_sequence_control index =
          some (sequence_control info.starting_seq (fragment_number info.bitmap.length)) := by
        simp [get_starting_sequence_control, hfound, hvariant, hnoted haid hbitmap, hlength, hbitmap, sequence_control]
      have hbytes : h.serialize_bitmap index = some (info.bitmap.map UInt8.ofBitVec) := by
        simp [serialize_bitmap, hfound, hvariant]
      simp [hbitmap, hcontrol, hbytes]

theorem mapM_range {α β : Type} {l : List α} {f : ℕ → Option β} {g : α → β}
    (hf : ∀ i x, l[i]? = some x → f i = some (g x)) : (List.range l.length).mapM f = some (l.map g) := by
  induction l using List.reverseRecOn with
  | nil => rfl
  | append_singleton l x ih =>
    have hinit : (List.range l.length).mapM f = some (l.map g) := by
      refine ih fun i y hi => hf i y ?_
      rw [List.getElem?_append_left (List.getElem?_eq_some_iff.mp hi).1, hi]
    have hlast : f l.length = some (g x) := hf l.length x (by simp)
    rw [List.length_append, List.length_singleton, List.range_succ, List.mapM_append, hinit]
    simp [hlast]

theorem serialize_multi_sta (hvariant : h.variant = .multi_sta) (hlength : h.ba_info.length = h.bitmap_len.length)
    (hnoted : ∀ i info, h.ba_info[i]? = some info → Noted h i info) :
    h.serialize = some (write_htolsb_u16 h.get_ba_control ++ h.ba_info.flatMap info_bytes) := by
  have hfields : (List.range h.ba_info.length).mapM h.serialize_info = some (h.ba_info.map info_bytes) :=
    mapM_range fun i info hi => serialize_info_eq hvariant hlength hi (hnoted i info hi)
  rw [serialize, hvariant]
  simp [hfields, List.flatMap_def]

def push (p : CtrlBAckResponseHeader × ℕ) (info : BaInfoInstance) : CtrlBAckResponseHeader × ℕ :=
  ({ p.1 with ba_info := p.1.ba_info ++ [received info], bitmap_len := p.1.bitmap_len ++ [info_len info] }, p.2 + 1)

/-- The lists of a header that has one more field than before. -/
structure Extends (h h' : CtrlBAckResponseHeader) (index : ℕ) (info : BaInfoInstance) (len : ℕ) : Prop where
  eq : h' = { h with ba_info := h.ba_info ++ [info], bitmap_len := h.bitmap_len ++ [len] }
  variant : h.variant = .multi_sta
  length : h.ba_info.length = index
  length' : h.bitmap_len.length = index

theorem Extends.found {len : ℕ} (he : Extends h h' index info len) : h'.info index = some info := by
  rw [he.eq, CtrlBAckResponseHeader.info, if_pos (.inl he.variant), ← he.length]
  simp

theorem Extends.set_info {len : ℕ} (he : Extends h h' index info len) (info' : BaInfoInstance) :
    Extends h (h'.set_info index info') index info' len := by
  refine ⟨?_, he.variant, he.length, he.length'⟩
  rw [he.eq, CtrlBAckResponseHeader.set_info, ← he.length]
  simp

theorem Extends.set_bitmap_len {len : ℕ} (he : Extends h h' index info len) (len' : ℕ) :
    Extends h { h' with bitmap_len := h'.bitmap_len.set index len' } index info len' := by
  refine ⟨?_, he.variant, he.length, he.length'⟩
  rw [he.eq, ← he.length']
  simp

theorem Extends.set_starting_sequence_control {len len' : ℕ} {control : UInt16} (he : Extends h h' index info len)
    (hlen : bitmap_len_of control = some len') :
    ∃ h'', h'.set_starting_sequence_control index control = some h'' ∧
      Extends h h'' index { info with
        starting_seq := ((control >>> 4) &&& 0x0fff).toNat, bitmap := List.replicate len' 0 } len' := by
  have hvariant : h'.variant = .multi_sta := by rw [he.eq, he.variant]
  have hsized := (he.set_info { info with bitmap := List.replicate len' 0 }).set_bitmap_len len'
  have hfound := ba_info_of_info hsized.found
  refine ⟨_, ?_, hsized.set_info _⟩
  rw [CtrlBAckResponseHeader.set_starting_sequence_control, he.found, hlen]
  simp only [Option.bind_eq_bind, Option.bind_some, hvariant]
  rw [hfound]
  rfl

theorem reads_deserialize_bitmap {len : ℕ} (hinfo : h.info index = some info) (hlen : h.bitmap_len[index]? = some len)
    (hvariant : h.variant ≠ .multi_tid) (hlength : info.bitmap.length = len) (bitmap : List (BitVec 8))
    (hbitmap : bitmap.length = len) :
    Reads (h.deserialize_bitmap index) (bitmap.map UInt8.ofBitVec) (h.set_info index { info with bitmap := bitmap }) := by
  have hbytes : (bitmap.map UInt8.ofBitVec).length = len := by rw [List.length_map, hbitmap]
  have hvalue : (bitmap.map UInt8.ofBitVec).map UInt8.toBitVec ++ info.bitmap.drop len = bitmap := by
    rw [List.drop_of_length_le hlength.le, List.append_nil, List.map_map]
    exact List.map_id bitmap
  have hread := (reads_bytes hbytes).map fun bytes =>
    h.set_info index { info with bitmap := bytes.map UInt8.toBitVec ++ info.bitmap.drop len }
  rw [hvalue] at hread
  have hcheck := Reads.check (show h.variant ≠ .multi_tid ∧ len ≤ info.bitmap.length from ⟨hvariant, hlength.ge⟩)
  exact (Reads.lift hinfo).bind ((Reads.lift hlen).bind (hcheck.bind hread))

theorem reads_deserialize_info (hvariant : h.variant = .multi_sta) (hlength : h.ba_info.length = index)
    (hlength' : h.bitmap_len.length = index) (hfield : PerAidTidInfo info) (hstart : info.starting_seq < SEQNO_SPACE_SIZE) :
    Reads (deserialize_info (h, index)) (info_bytes info) (push (h, index) info) := by
  have hopened : Extends h
      { h with ba_info := h.ba_info ++ [{ aid_tid_info := info.aid_tid_info, bitmap := [] }], bitmap_len := h.bitmap_len ++ [0] }
      index { aid_tid_info := info.aid_tid_info, bitmap := [] } 0 := ⟨rfl, hvariant, hlength, hlength'⟩
  rw [info_bytes]
  refine (reads_lsb_u16 _).bind ?_
  have haid' : get_aid11 { aid_tid_info := (UInt16.ofBitVec info.aid_tid_info).toBitVec, bitmap := [] } = get_aid11 info := rfl
  have hack' : get_ack_type { aid_tid_info := (UInt16.ofBitVec info.aid_tid_info).toBitVec, bitmap := [] } =
    get_ack_type info := rfl
  have htid' : get_tid_info { aid_tid_info := (UInt16.ofBitVec info.aid_tid_info).toBitVec, bitmap := [] } =
    get_tid_info info := rfl
  simp only [haid', hack', htid']
  cases hfield with
  | acknowledgement haid hack htid hlen =>
    have hne : info.bitmap ≠ [] := List.ne_nil_of_length_pos (by omega)
    have hpush : push (h, index) info = ({ h with
        ba_info := h.ba_info ++ [{ info with ra := 0 }], bitmap_len := h.bitmap_len ++ [info.bitmap.length] }, index + 1) := by
      rw [push, received, info_len, if_neg haid, if_neg haid, if_neg hne]
    obtain ⟨h', hset, hnext⟩ := hopened.set_starting_sequence_control (bitmap_len_of_sequence_control info.starting_seq hlen)
    rw [starting_seq_sequence_control hstart] at hnext
    have hvariant' : h'.variant = .multi_sta := by rw [hnext.eq, hvariant]
    have hlen' : h'.bitmap_len[index]? = some info.bitmap.length := by rw [hnext.eq, ← hlength']; simp
    have hbitmap := reads_deserialize_bitmap hnext.found hlen' (by rw [hvariant']; decide)
      List.length_replicate info.bitmap rfl
    have hlast := hbitmap.map fun h'' => (h'', index + 1)
    rw [(hnext.set_info _).eq] at hlast
    rw [if_neg haid, if_neg hne, if_pos haid, if_pos (by simp [hack, htid]), hpush]
    exact (reads_lsb_u16 _).bind ((Reads.lift hset).bind hlast)
  | without_bitmap haid hack hlen =>
    have hnil : info.bitmap = [] := List.length_eq_zero_iff.mp hlen
    have hnot : ¬ (!get_ack_type info && decide (get_tid_info info < 8)) = true := by
      rcases hack with hack | htid
      · simp [hack]
      · simp [htid]
    rw [if_neg haid, if_pos hnil, if_pos haid, if_neg hnot, push, received, info_len, if_neg haid, if_neg haid, if_pos hnil,
      hlen]
    exact Reads.pure _
  | unassociated haid hlen =>
    have hra : truncate info.ra 6 = info.ra := by
      funext i
      exact if_pos i.isLt
    have hread := reads_array info.ra (le_refl 6)
    rw [hra] at hread
    rw [if_pos haid, if_neg (not_not.mpr haid), push, received, info_len, if_pos haid, if_pos haid]
    exact (reads_host_u32 0).bind (hread.map _)

/-! ## The header -/

theorem foldl_push (p : CtrlBAckResponseHeader × ℕ) (fields : List BaInfoInstance) :
    fields.foldl push p = ({ p.1 with
      ba_info := p.1.ba_info ++ fields.map received
      bitmap_len := p.1.bitmap_len ++ fields.map info_len }, p.2 + fields.length) := by
  induction fields generalizing p with
  | nil => simp
  | cons info fields ih =>
    rw [List.foldl_cons, ih, push]
    simp [Nat.add_assoc, Nat.add_comm 1]

/-- What is read back of a multi-STA block ack. -/
def multi_sta_received (h : CtrlBAckResponseHeader) : CtrlBAckResponseHeader :=
  { ba_ack_policy := h.ba_ack_policy, variant := .multi_sta, bitmap_len := h.ba_info.map info_len,
    ba_info := h.ba_info.map received }

theorem size_multi_sta (hvariant : h.variant = .multi_sta)
    (hlen : h.bitmap_len = h.ba_info.map fun info => info.bitmap.length) (hfield : ∀ info ∈ h.ba_info, PerAidTidInfo info) :
    h.get_serialized_size = some (write_htolsb_u16 h.get_ba_control ++ h.ba_info.flatMap info_bytes).length := by
  have hsum : (h.bitmap_len.map fun len => 2 + (if len > 0 then 2 else 0) + len).sum =
      (h.ba_info.flatMap info_bytes).length := by
    rw [hlen, List.map_map, List.length_flatMap]
    refine congrArg List.sum (List.map_congr_left fun info hinfo => ?_)
    exact (length_info_bytes (hfield info hinfo)).symm
  rw [get_serialized_size, hvariant]
  simp only [hsum, List.length_append]
  rfl

theorem deserialize_multi_sta (hvariant : h.variant = .multi_sta) (hfield : ∀ info ∈ h.ba_info, PerAidTidInfo info)
    (hstart : ∀ info ∈ h.ba_info, info.starting_seq < SEQNO_SPACE_SIZE) :
    init.deserialize.run (write_htolsb_u16 h.get_ba_control ++ h.ba_info.flatMap info_bytes) =
      some (multi_sta_received h, []) := by
  have hbody : ∀ p : CtrlBAckResponseHeader × ℕ,
      p.1.variant = .multi_sta ∧ p.1.ba_info.length = p.2 ∧ p.1.bitmap_len.length = p.2 → ∀ info ∈ h.ba_info,
        Reads (deserialize_info p) (info_bytes info) (push p info) ∧ (push p info).1.variant = .multi_sta ∧
          (push p info).1.ba_info.length = (push p info).2 ∧ (push p info).1.bitmap_len.length = (push p info).2 := by
    rintro p ⟨hv, hl, hl'⟩ info hinfo
    refine ⟨reads_deserialize_info hv hl hl' (hfield info hinfo) (hstart info hinfo), hv, ?_, ?_⟩
    · simp [push, hl]
    · simp [push, hl']
  have hrest := run_read_rest (s := (set_type { init with ba_ack_policy := h.ba_ack_policy } .multi_sta [], 0)) info_bytes
    hbody (fun info hinfo hnil => by simp [info_bytes, write_htolsb_u16] at hnil) ⟨rfl, rfl, rfl⟩
  rw [foldl_push] at hrest
  have hcontrol := reads_lsb_u16 h.get_ba_control (h.ba_info.flatMap info_bytes)
  have htype := Reads.lift (set_ba_control_multi_sta init hvariant) (h.ba_info.flatMap info_bytes)
  exact (run_bind_of_run hcontrol _).trans ((run_bind_of_run htype _).trans (run_bind_of_run hrest _))

theorem serialize_received_multi_sta (hvariant : h.variant = .multi_sta) :
    (multi_sta_received h).serialize = some (write_htolsb_u16 h.get_ba_control ++ h.ba_info.flatMap info_bytes) := by
  have hnoted : ∀ i info, (multi_sta_received h).ba_info[i]? = some info → Noted (multi_sta_received h) i info := by
    intro i info' hi haid hbitmap
    rw [multi_sta_received, List.getElem?_map] at hi ⊢
    obtain ⟨info, hinfo, rfl⟩ := Option.map_eq_some_iff.mp hi
    rw [get_aid11_received] at haid
    rw [hinfo, Option.map_some, info_len, if_neg haid, received, if_neg haid]
    split <;> simp [*]
  have hcontrol : (multi_sta_received h).get_ba_control = h.get_ba_control := by
    rw [get_ba_control, get_ba_control, hvariant]
    rfl
  rw [serialize_multi_sta rfl (by simp [multi_sta_received]) hnoted, hcontrol, multi_sta_received, List.flatMap_map]
  simp only [info_bytes_received]

/-- The type of a header with one field and its bitmap. -/
def Compressed (h : CtrlBAckResponseHeader) (info : BaInfoInstance) : Prop :=
  h.ba_info = [info] ∧ h.bitmap_len = [info.bitmap.length] ∧
    (h.variant = .compressed ∧ (info.bitmap.length = 8 ∨ info.bitmap.length = 32) ∨
      h.variant = .extended_compressed ∧ info.bitmap.length = 8)

def compressed_bytes (h : CtrlBAckResponseHeader) (info : BaInfoInstance) : List UInt8 :=
  write_htolsb_u16 h.get_ba_control ++
    write_htolsb_u16 (sequence_control info.starting_seq (fragment_number info.bitmap.length)) ++
    info.bitmap.map UInt8.ofBitVec

/-- What is read back of a header with one field. -/
def compressed_received (h : CtrlBAckResponseHeader) (info : BaInfoInstance) : CtrlBAckResponseHeader :=
  { ba_ack_policy := h.ba_ack_policy, variant := h.variant, bitmap_len := [info.bitmap.length],
    tid_info := h.tid_info % 16, ba_info := [{ starting_seq := info.starting_seq, bitmap := info.bitmap }] }

theorem serialize_compressed (hc : Compressed h info) : h.serialize = some (compressed_bytes h info) := by
  obtain ⟨hinfo, hlen, htype⟩ := hc
  have hfound : h.info 0 = some info := by simp [CtrlBAckResponseHeader.info, hinfo]
  have hcontrol : h.get_starting_sequence_control 0 =
      some (sequence_control info.starting_seq (fragment_number info.bitmap.length)) := by
    rw [get_starting_sequence_control, hfound, hlen]
    obtain ⟨hv, hlength | hlength⟩ | ⟨hv, hlength⟩ := htype <;>
      simp [hv, hlength, sequence_control, fragment_number]
  have hbitmap : h.serialize_bitmap 0 = some (info.bitmap.map UInt8.ofBitVec) := by
    rw [serialize_bitmap, hfound]
    rcases htype with ⟨hv, -⟩ | ⟨hv, -⟩ <;> simp [hv]
  rw [serialize, hcontrol, hbitmap]
  rcases htype with ⟨hv, -⟩ | ⟨hv, -⟩ <;> simp [hv, compressed_bytes]

theorem size_compressed (hc : Compressed h info) :
    h.get_serialized_size = some (compressed_bytes h info).length := by
  obtain ⟨-, hlen, htype⟩ := hc
  have hword : ∀ w, (write_htolsb_u16 w).length = 2 := fun _ => rfl
  rw [get_serialized_size, hlen, compressed_bytes, List.length_append, List.length_append, hword, hword, List.length_map]
  rcases htype with ⟨hv, -⟩ | ⟨hv, -⟩
  all_goals
    simp only [hv, List.getElem?_cons_zero, Option.bind_eq_bind, Option.bind_some, Nat.add_assoc]
    rfl

theorem deserialize_compressed (hc : Compressed h info) (hstart : info.starting_seq < SEQNO_SPACE_SIZE) :
    Reads init.deserialize (compressed_bytes h info) (compressed_received h info) := by
  obtain ⟨-, -, htype⟩ := hc
  have hvariant : h.variant ≠ .multi_sta := by rcases htype with ⟨hv, -⟩ | ⟨hv, -⟩ <;> simp [hv]
  have hlen : info.bitmap.length = 4 ∨ info.bitmap.length = 8 ∨ info.bitmap.length = 16 ∨ info.bitmap.length = 32 := by omega
  have hcontrol : set_starting_sequence_control { set_type init h.variant (default_bitmap_len h.variant) with
        ba_ack_policy := h.ba_ack_policy, tid_info := h.tid_info % 16 } 0
      (sequence_control info.starting_seq (fragment_number info.bitmap.length)) =
        some { compressed_received h info with
          ba_info := [{ starting_seq := info.starting_seq, bitmap := List.replicate info.bitmap.length 0 }] } := by
    rw [set_starting_sequence_control, bitmap_len_of_sequence_control _ hlen, starting_seq_sequence_control hstart]
    obtain ⟨hv, hlength | hlength⟩ | ⟨hv, hlength⟩ := htype <;>
      simp [hv, hlength, set_type, default_bitmap_len, CtrlBAckResponseHeader.info, CtrlBAckResponseHeader.set_info,
        compressed_received]
  have hfound : CtrlBAckResponseHeader.info { compressed_received h info with
        ba_info := [{ starting_seq := info.starting_seq, bitmap := List.replicate info.bitmap.length 0 }] } 0 =
      some { starting_seq := info.starting_seq, bitmap := List.replicate info.bitmap.length 0 } := by
    simp [CtrlBAckResponseHeader.info]
  have htid : h.variant ≠ .multi_tid := by rcases htype with ⟨hv, -⟩ | ⟨hv, -⟩ <;> simp [hv]
  have hbitmap := reads_deserialize_bitmap hfound rfl htid List.length_replicate info.bitmap rfl
  rw [compressed_bytes, List.append_assoc]
  refine (reads_lsb_u16 _).bind ((Reads.lift (set_ba_control_get_ba_control hvariant)).bind ?_)
  obtain ⟨policy, variant, bitmap_len, tid_info, ba_info⟩ := h
  obtain ⟨rfl, -⟩ | ⟨rfl, -⟩ := htype
  · exact (reads_lsb_u16 _).bind ((Reads.lift hcontrol).bind hbitmap)
  · exact (reads_lsb_u16 _).bind ((Reads.lift hcontrol).bind hbitmap)

/-- The headers that are sent: of a compressed type with one field, or of the multi-STA type. -/
structure Sendable (h : CtrlBAckResponseHeader) : Prop where
  type : (∃ info, Compressed h info) ∨ h.variant = .multi_sta ∧
    h.bitmap_len = h.ba_info.map (fun info => info.bitmap.length) ∧ ∀ info ∈ h.ba_info, PerAidTidInfo info
  starting_seq_lt : ∀ info ∈ h.ba_info, info.starting_seq < SEQNO_SPACE_SIZE

/-- A header is serialized with the announced size, and read back as one with the same serialized form. -/
structure Survives (h : CtrlBAckResponseHeader) (bytes : List UInt8) (h' : CtrlBAckResponseHeader) : Prop where
  serialize : h.serialize = some bytes
  size : h.get_serialized_size = some bytes.length
  deserialize : ∀ rest, (h.variant = .multi_sta → rest = []) → init.deserialize.run (bytes ++ rest) = some (h', rest)
  again : h'.serialize = some bytes

/-- A receiver has the bitmap of a field and, if it is not empty, its place. -/
def Conveyed (h h' : CtrlBAckResponseHeader) (index : ℕ) (info : BaInfoInstance) : Prop :=
  ∃ info', Shaped h' index info' ∧ h'.is_all_ack info' = h.is_all_ack info ∧ info'.bitmap = info.bitmap ∧
    (info.bitmap ≠ [] → info'.starting_seq = info.starting_seq)

theorem survives_compressed (hc : Compressed h info) (hstart : info.starting_seq < SEQNO_SPACE_SIZE) :
    Survives h (compressed_bytes h info) (compressed_received h info) where
  serialize := serialize_compressed hc
  size := size_compressed hc
  deserialize := fun rest _ => deserialize_compressed hc hstart rest
  again := by
    have hagain : Compressed (compressed_received h info) { starting_seq := info.starting_seq, bitmap := info.bitmap } :=
      ⟨rfl, rfl, hc.2.2⟩
    have hcontrol : (compressed_received h info).get_ba_control = h.get_ba_control := by
      have hvariant : h.variant ≠ .multi_sta := by rcases hc.2.2 with ⟨hv, -⟩ | ⟨hv, -⟩ <;> simp [hv]
      simp only [get_ba_control, compressed_received, if_neg hvariant, shiftLeft_tid]
      rfl
    rw [serialize_compressed hagain, compressed_bytes, compressed_bytes, hcontrol]

theorem conveyed_compressed (hc : Compressed h info) (hstart : info.starting_seq < SEQNO_SPACE_SIZE) :
    Conveyed h (compressed_received h info) 0 info := by
  refine ⟨{ starting_seq := info.starting_seq, bitmap := info.bitmap }, ⟨?_, ?_, rfl, hstart⟩, ?_, rfl, fun _ => rfl⟩
  · rcases hc.2.2 with ⟨hv, -⟩ | ⟨hv, -⟩ <;> simp [compressed_received, hv]
  · simp [CtrlBAckResponseHeader.info, compressed_received]
  · rcases hc.2.2 with ⟨hv, -⟩ | ⟨hv, -⟩ <;> simp [is_all_ack, compressed_received, hv]

theorem conveyed_multi_sta (hvariant : h.variant = .multi_sta) (hinfo : h.ba_info[index]? = some info)
    (haid : get_aid11 info ≠ 2045) (hstart : info.starting_seq < SEQNO_SPACE_SIZE) :
    Conveyed h (multi_sta_received h) index info := by
  have hfound : (multi_sta_received h).info index = some (received info) := by
    simp [CtrlBAckResponseHeader.info, multi_sta_received, hinfo]
  have hlen : (multi_sta_received h).bitmap_len[index]? = some info.bitmap.length := by
    have hsame : info_len info = info.bitmap.length := if_neg haid
    simp [multi_sta_received, hinfo, hsame]
  by_cases hnil : info.bitmap = []
  · have hr : received info = { aid_tid_info := info.aid_tid_info, bitmap := [] } := by
      rw [received, if_neg haid, if_pos hnil]
    refine ⟨_, ⟨.inr (.inr rfl), hfound, ?_, ?_⟩, ?_, ?_, fun h => absurd hnil h⟩
    · rw [hlen, hr, hnil]
    · rw [hr]
      exact (by decide : 0 < SEQNO_SPACE_SIZE)
    · rw [hr, is_all_ack, is_all_ack, hvariant]
      rfl
    · rw [hr, hnil]
  · have hr : received info = { info with ra := 0 } := by rw [received, if_neg haid, if_neg hnil]
    refine ⟨_, ⟨.inr (.inr rfl), hfound, ?_, ?_⟩, ?_, ?_, fun _ => ?_⟩
    · rw [hlen, hr]
    · rw [hr]
      exact hstart
    · rw [hr, is_all_ack, is_all_ack, hvariant]
      rfl
    · rw [hr]
    · rw [hr]

theorem Sendable.survives (hs : Sendable h) :
    ∃ bytes h', Survives h bytes h' ∧ ∀ i info, h.ba_info[i]? = some info →
      (h.variant = .multi_sta → get_aid11 info ≠ 2045) → Conveyed h h' i info := by
  obtain ⟨info, hc⟩ | ⟨hvariant, hlen, hfield⟩ := hs.type
  · have hstart : info.starting_seq < SEQNO_SPACE_SIZE := hs.starting_seq_lt info (by simp [hc.1])
    refine ⟨_, _, survives_compressed hc hstart, fun i info' hi _ => ?_⟩
    rw [hc.1] at hi
    obtain ⟨rfl, rfl⟩ : i = 0 ∧ info = info' := by
      cases i with
      | zero => exact ⟨rfl, by simpa using hi⟩
      | succ i => simp at hi
    exact conveyed_compressed hc hstart
  · refine ⟨_, multi_sta_received h, ⟨serialize_multi_sta hvariant (by simp [hlen]) fun i info hi _ _ => by simp [hlen, hi],
      size_multi_sta hvariant hlen hfield, fun rest hrest => ?_, serialize_received_multi_sta hvariant⟩, fun i info hi haid => ?_⟩
    · rw [hrest hvariant, List.append_nil]
      exact deserialize_multi_sta hvariant hfield hs.starting_seq_lt
    · exact conveyed_multi_sta hvariant hi (haid hvariant) (hs.starting_seq_lt info (List.mem_of_getElem? hi))

theorem Conveyed.is_packet_received (hconv : Conveyed h h' index info) {s : ℕ} (hs : s < SEQNO_SPACE_SIZE) :
    h'.is_packet_received index s = some (h.is_all_ack info ||
      decide (distance SEQNO_SPACE_SIZE s info.starting_seq < info.bitmap.length * 8) &&
        bit info (distance SEQNO_SPACE_SIZE s info.starting_seq)) := by
  obtain ⟨info', hshaped, hall, hbitmap, hstart⟩ := hconv
  rw [← hall]
  cases hack : h'.is_all_ack info' with
  | true =>
    rw [CtrlBAckResponseHeader.is_packet_received, hshaped.found]
    simp [hack]
  | false =>
    rw [hshaped.is_packet_received hack hs, Bool.false_or, hbitmap]
    by_cases hnil : info.bitmap = []
    · simp [hnil]
    · rw [hstart hnil, bit, bit, hbitmap]

/-! ## The packets -/

/-- The same fields, but for the bits that are set for the packets of `calls`. -/
structure Marked (h : CtrlBAckResponseHeader) (calls : List (ℕ × ℕ)) (h' : CtrlBAckResponseHeader) : Prop where
  eq : h' = { h with ba_info := h'.ba_info }
  length : h'.ba_info.length = h.ba_info.length
  fields : ∀ i info, h.ba_info[i]? = some info → ∃ info', h'.ba_info[i]? = some info' ∧
    info' = { info with bitmap := info'.bitmap } ∧ info'.bitmap.length = info.bitmap.length ∧
    ∀ j < info.bitmap.length * 8, bit info' j =
      (decide (∃ c ∈ calls, c.2 = i ∧ j = distance SEQNO_SPACE_SIZE c.1 info.starting_seq) || bit info j)

def Open (h : CtrlBAckResponseHeader) : Prop := ∀ i info, h.ba_info[i]? = some info → Shaped h i info

theorem Sendable.open (hs : Sendable h) : Open h := by
  intro i info hi
  have hstart := hs.starting_seq_lt info (List.mem_of_getElem? hi)
  obtain ⟨info', hinfo, hlen, htype⟩ | ⟨hvariant, hlen, -⟩ := hs.type
  · obtain ⟨rfl, rfl⟩ : i = 0 ∧ info' = info := by
      rw [hinfo] at hi
      cases i with
      | zero => exact ⟨rfl, by simpa using hi⟩
      | succ i => simp at hi
    refine ⟨?_, by simp [CtrlBAckResponseHeader.info, hinfo], by simp [hlen], hstart⟩
    rcases htype with ⟨hv, -⟩ | ⟨hv, -⟩ <;> simp [hv]
  · exact ⟨.inr (.inr hvariant), by rw [CtrlBAckResponseHeader.info, if_pos (.inl hvariant), hi], by simp [hlen, hi], hstart⟩

theorem Open.set_received_packet (ho : Open h) {seq : ℕ} (hseq : seq < SEQNO_SPACE_SIZE) (hindex : index < h.ba_info.length) :
    ∃ h', h.set_received_packet index seq = some h' ∧ Open h' ∧ Marked h [(seq, index)] h' := by
  obtain ⟨info, hinfo⟩ : ∃ info, h.ba_info[index]? = some info := ⟨_, List.getElem?_eq_getElem hindex⟩
  have hset := (ho index info hinfo).set_received_packet_eq hseq
  have hfield : ∀ i info', h.ba_info[i]? = some info' →
      (h.set_info index (mark info (distance SEQNO_SPACE_SIZE seq info.starting_seq))).ba_info[i]? =
        some (if i = index then mark info (distance SEQNO_SPACE_SIZE seq info.starting_seq) else info') := by
    intro i info' hi
    rw [CtrlBAckResponseHeader.set_info]
    by_cases hsame : i = index
    · rw [if_pos hsame, hsame, List.getElem?_set_self hindex]
    · rw [if_neg hsame, List.getElem?_set_ne (Ne.symm hsame), hi]
  refine ⟨_, hset, fun i info' hi => ?_, rfl, List.length_set, fun i info' hi => ⟨_, hfield i info' hi, ?_⟩⟩
  · have hlt : i < h.ba_info.length := by
      have hlt := (List.getElem?_eq_some_iff.mp hi).1
      rwa [CtrlBAckResponseHeader.set_info, List.length_set] at hlt
    have hold := hfield i h.ba_info[i] (List.getElem?_eq_getElem hlt)
    obtain rfl := Option.some.inj (hi.symm.trans hold)
    have hshaped := ho i h.ba_info[i] (List.getElem?_eq_getElem hlt)
    by_cases hsame : i = index
    · subst hsame
      rw [if_pos rfl]
      exact (ho i info hinfo).set_info length_bitmap_mark (by simpa using (ho i info hinfo).starting_seq_lt)
    · rw [if_neg hsame] at hold ⊢
      refine ⟨hshaped.variant, ?_, hshaped.length, hshaped.starting_seq_lt⟩
      have hfound := hshaped.found
      rw [CtrlBAckResponseHeader.info] at hfound ⊢
      split at hfound
      next hindex => rw [if_pos (by exact hindex), hold]
      next => cases hfound
  · by_cases hsame : i = index
    · subst hsame
      obtain rfl := Option.some.inj (hinfo.symm.trans hi)
      rw [if_pos rfl]
      refine ⟨?_, length_bitmap_mark, fun j hj => ?_⟩
      · rw [mark]
        split <;> rfl
      · rw [bit_mark hj]
        simp
    · rw [if_neg hsame]
      refine ⟨rfl, rfl, fun j _ => ?_⟩
      simp [Ne.symm hsame]

theorem Marked.trans {h'' : CtrlBAckResponseHeader} {calls' : List (ℕ × ℕ)} (hfirst : Marked h calls h')
    (hsecond : Marked h' calls' h'') : Marked h (calls ++ calls') h'' := by
  refine ⟨?_, hsecond.length.trans hfirst.length, fun i info hi => ?_⟩
  · rw [hsecond.eq, hfirst.eq]
  · obtain ⟨info₁, hi₁, heq₁, hlen₁, hbit₁⟩ := hfirst.fields i info hi
    obtain ⟨info₂, hi₂, heq₂, hlen₂, hbit₂⟩ := hsecond.fields i info₁ hi₁
    have hstart : info₁.starting_seq = info.starting_seq := by rw [heq₁]
    refine ⟨info₂, hi₂, ?_, hlen₂.trans hlen₁, fun j hj => ?_⟩
    · rw [heq₂, heq₁]
    · rw [hbit₂ j (by rwa [hlen₁]), hbit₁ j hj, ← Bool.or_assoc, hstart]
      congr 1
      rw [Bool.eq_iff_iff]
      simp only [Bool.or_eq_true, decide_eq_true_eq, List.mem_append]
      grind

theorem Open.set_received_packets (ho : Open h)
    (hcalls : ∀ c ∈ calls, c.1 < SEQNO_SPACE_SIZE ∧ c.2 < h.ba_info.length) :
    ∃ h', h.set_received_packets calls = some h' ∧ Marked h calls h' := by
  induction calls generalizing h with
  | nil => exact ⟨h, rfl, rfl, rfl, fun i info hi => ⟨info, hi, rfl, rfl, by simp⟩⟩
  | cons c calls ih =>
    obtain ⟨hseq, hindex⟩ := hcalls c List.mem_cons_self
    obtain ⟨h₁, hset, ho₁, hmark⟩ := ho.set_received_packet hseq hindex
    obtain ⟨h', hrest, hmarks⟩ := ih ho₁ fun c hc => by
      rw [hmark.length]
      exact hcalls c (List.mem_cons_of_mem _ hc)
    refine ⟨h', ?_, hmark.trans hmarks⟩
    rw [CtrlBAckResponseHeader.set_received_packets, List.foldlM_cons, hset]
    exact hrest

theorem Marked.of_field (hm : Marked h calls h') {i : ℕ} {info' : BaInfoInstance} (hi : h'.ba_info[i]? = some info') :
    ∃ info, h.ba_info[i]? = some info ∧ info' = { info with bitmap := info'.bitmap } ∧
      info'.bitmap.length = info.bitmap.length := by
  have hlt : i < h.ba_info.length := by
    rw [← hm.length]
    exact (List.getElem?_eq_some_iff.mp hi).1
  have hinfo := List.getElem?_eq_getElem hlt
  obtain ⟨info'', hi', heq, hlen, -⟩ := hm.fields i _ hinfo
  obtain rfl := Option.some.inj (hi.symm.trans hi')
  exact ⟨_, hinfo, heq, hlen⟩

theorem Marked.lengths (hm : Marked h calls h') :
    h'.ba_info.map (fun info => info.bitmap.length) = h.ba_info.map fun info => info.bitmap.length := by
  apply List.ext_getElem?
  intro i
  rw [List.getElem?_map, List.getElem?_map]
  cases hi : h'.ba_info[i]? with
  | none =>
    rw [List.getElem?_eq_none_iff, hm.length] at hi
    rw [List.getElem?_eq_none hi]
  | some info' =>
    obtain ⟨info, hinfo, -, hlen⟩ := hm.of_field hi
    rw [hinfo, Option.map_some, Option.map_some, hlen]

theorem Sendable.marked (hs : Sendable h) (hm : Marked h calls h') : Sendable h' := by
  refine ⟨?_, fun info' hinfo' => ?_⟩
  · obtain ⟨info, hinfo, hlen, htype⟩ | ⟨hvariant, hlen, hfield⟩ := hs.type
    · left
      obtain ⟨info', hinfo'⟩ : ∃ info', h'.ba_info = [info'] := by
        rw [← List.length_eq_one_iff, hm.length, hinfo]
        rfl
      have hsame : info'.bitmap.length = info.bitmap.length := by
        have hlengths := hm.lengths
        rw [hinfo, hinfo'] at hlengths
        simpa using hlengths
      refine ⟨info', hinfo', ?_, ?_⟩
      · rw [hm.eq, hlen, hsame]
      · rw [hm.eq, hsame]
        exact htype
    · right
      refine ⟨by rw [hm.eq, hvariant], ?_, fun info' hinfo' => ?_⟩
      · rw [hm.lengths, ← hlen, hm.eq]
      · obtain ⟨i, hi⟩ := List.mem_iff_getElem?.mp hinfo'
        obtain ⟨info, hinfo, heq, hsame⟩ := hm.of_field hi
        rw [heq]
        cases hfield info (List.mem_of_getElem? hinfo) with
        | acknowledgement haid hack htid hlen => exact .acknowledgement haid hack htid (by rwa [← hsame] at hlen)
        | without_bitmap haid hack hlen => exact .without_bitmap haid hack (by rwa [← hsame] at hlen)
        | unassociated haid hlen => exact .unassociated haid (by rwa [← hsame] at hlen)
  · obtain ⟨i, hi⟩ := List.mem_iff_getElem?.mp hinfo'
    obtain ⟨info, hinfo, heq, -⟩ := hm.of_field hi
    rw [heq]
    exact hs.starting_seq_lt info (List.mem_of_getElem? hinfo)

def Blank (h : CtrlBAckResponseHeader) : Prop := ∀ info ∈ h.ba_info, info.bitmap = List.replicate info.bitmap.length 0

theorem Blank.bit (hb : Blank h) (hinfo : h.ba_info[index]? = some info) (j : ℕ) : bit info j = false := by
  rw [CtrlBAckResponseHeader.bit, hb info (List.mem_of_getElem? hinfo), List.getElem?_replicate]
  split <;> simp

/-- The receiver of a block ack learns from it which packets were received, except from the entry of an unassociated
station, which has no bitmap. -/
theorem block_ack_round_trip (hs : Sendable h) (hb : Blank h)
    (hcalls : ∀ c ∈ calls, c.1 < SEQNO_SPACE_SIZE ∧ c.2 < h.ba_info.length) :
    ∃ h₁ bytes h₂, h.set_received_packets calls = some h₁ ∧ Survives h₁ bytes h₂ ∧
      ∀ i info, h.ba_info[i]? = some info → (h.variant = .multi_sta → get_aid11 info ≠ 2045) →
        ∀ s < SEQNO_SPACE_SIZE, h₂.is_packet_received i s = some (h.is_all_ack info ||
          decide (distance SEQNO_SPACE_SIZE s info.starting_seq < info.bitmap.length * 8 ∧ (s, i) ∈ calls)) := by
  obtain ⟨h₁, hset, hm⟩ := hs.open.set_received_packets hcalls
  obtain ⟨bytes, h₂, hsurvives, hconv⟩ := (hs.marked hm).survives
  refine ⟨h₁, bytes, h₂, hset, hsurvives, fun i info hi haid s hseq => ?_⟩
  obtain ⟨info₁, hi₁, heq, hlen, hbit⟩ := hm.fields i info hi
  have haid₁ : h₁.variant = .multi_sta → get_aid11 info₁ ≠ 2045 := by
    rw [hm.eq, heq]
    exact haid
  have hstart : info₁.starting_seq = info.starting_seq := by rw [heq]
  have hall : h₁.is_all_ack info₁ = h.is_all_ack info := by
    rw [hm.eq, heq]
    rfl
  rw [(hconv i info₁ hi₁ haid₁).is_packet_received hseq, hall, hlen, hstart, Bool.decide_and]
  by_cases hin : distance SEQNO_SPACE_SIZE s info.starting_seq < info.bitmap.length * 8
  · rw [hbit _ hin, hb.bit hi, Bool.or_false]
    congr 3
    -- the packets of the field with the bit of `s` are those of `s`
    rw [decide_eq_decide]
    constructor
    · rintro ⟨c, hc, rfl, hsame⟩
      rwa [distance_inj (hs.starting_seq_lt info (List.mem_of_getElem? hi)) hseq (hcalls c hc).1 hsame]
    · exact fun hmem => ⟨(s, i), hmem, rfl, rfl⟩
  · simp [hin]

/-- A multi-STA block ack with a bitmap that wraps, an all-ack entry and an unassociated station. -/
def mixed : CtrlBAckResponseHeader :=
  { variant := .multi_sta, bitmap_len := [8, 0, 8]
    ba_info := [{ aid_tid_info := 0x1005, starting_seq := 4090, bitmap := List.replicate 8 0 },
      { aid_tid_info := 0xe805, bitmap := [] }, { aid_tid_info := 2045, bitmap := List.replicate 8 0 }] }

theorem sendable_mixed : Sendable mixed := by
  refine ⟨.inr ⟨rfl, rfl, ?_⟩, by decide⟩
  simp only [mixed, List.mem_cons, List.not_mem_nil, or_false]
  rintro info (rfl | rfl | rfl)
  · exact .acknowledgement (by decide) (by decide) (by decide) (by decide)
  · exact .without_bitmap (by decide) (by decide) rfl
  · exact .unassociated (by decide) rfl

theorem blank_mixed : Blank mixed := by
  rw [Blank]
  decide

theorem block_ack_round_trip_mixed :
    ∃ h₁ bytes h₂, mixed.set_received_packets [(3, 0), (0, 2)] = some h₁ ∧ Survives h₁ bytes h₂ ∧
      ∀ i info, mixed.ba_info[i]? = some info → (mixed.variant = .multi_sta → get_aid11 info ≠ 2045) →
        ∀ s < SEQNO_SPACE_SIZE, h₂.is_packet_received i s = some (mixed.is_all_ack info ||
          decide (distance SEQNO_SPACE_SIZE s info.starting_seq < info.bitmap.length * 8 ∧ (s, i) ∈ [(3, 0), (0, 2)])) :=
  block_ack_round_trip sendable_mixed blank_mixed (by decide)

/-- A packet set in the entry of an unassociated station: the receiver reads beyond its empty bitmap. -/
theorem unassociated_not_received :
    Sendable mixed ∧ Blank mixed ∧ (do
      let h₁ ← mixed.set_received_packets [(0, 2)]
      let bytes ← h₁.serialize
      let (h₂, _) ← init.deserialize.run bytes
      return (h₁.is_packet_received 2 0, h₂.is_packet_received 2 0)) = some (some true, none) := by
  refine ⟨sendable_mixed, blank_mixed, ?_⟩
  decide +kernel

end Ns3.CtrlBAckResponseHeader
