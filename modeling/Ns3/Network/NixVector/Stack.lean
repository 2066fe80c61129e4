import Ns3.Network.NixVector.Fields

namespace Ns3.NixVector

open ByteFormat

/-- The amounts that `AddNeighborIndex` shifts by. -/
def add_shifts (v : NixVector) (numberOfBits : UInt32) : List UInt32 :=
  let currentVectorBitSize := v.m_totalBitSize % 32
  if currentVectorBitSize + numberOfBits > 32 then [currentVectorBitSize, 32 - currentVectorBitSize]
  else [currentVectorBitSize]

/-- The amounts that `ExtractNeighborIndex` shifts by, where it does not stop. -/
def extract_shifts (v : NixVector) (numberOfBits : UInt32) : List UInt32 :=
  let totalRemainingBits := v.get_remaining_bits
  let vectorIndex := ((totalRemainingBits - 1) / 32).toNat
  if vectorIndex > 0 ∧ numberOfBits - 1 > (totalRemainingBits - 1) % 32 then
    [32 - totalRemainingBits % 32,
      32 - totalRemainingBits % 32 - (numberOfBits - totalRemainingBits % 32),
      32 - (numberOfBits - totalRemainingBits % 32)]
  else [32 - totalRemainingBits % 32, 32 - numberOfBits]

/-- A vector that is serialized and deserialized again. The size that is deserialized with counts the
four bytes in which a packet stores it. -/
def reload (v : NixVector) : Option NixVector :=
  match v.serialize v.get_serialized_size with
  | .ok cells =>
    ((deserialize (UInt32.ofNat (v.get_serialized_size + 4))).run (cells.map (·.getD 0))).map Prod.fst
  | .error _ => none

/-- The indices are added in order, and no shift is by 32 or more. -/
def Adds : NixVector → List (UInt32 × UInt32) → NixVector → Prop
  | v, [], w => v = w
  | v, (x, n) :: fields, w => (∀ shift ∈ v.add_shifts n, shift < 32) ∧
      ∃ v', v.add_neighbor_index x n = some v' ∧ Adds v' fields w

/-- The values are extracted in order, and no shift is by 32 or more. -/
def Returns : NixVector → List (UInt32 × UInt32) → Prop
  | _, [] => True
  | v, (x, n) :: fields => (∀ shift ∈ v.extract_shifts n, shift < 32) ∧
      ∃ v', v.extract_neighbor_index n = some (x, v') ∧ Returns v' fields

/-- The values are extracted in order, also from the vector that is reloaded at any point. -/
def ReturnsReloaded : NixVector → List (UInt32 × UInt32) → Prop
  | v, [] => ∃ w, v.reload = some w
  | v, (x, n) :: fields => (∃ w, v.reload = some w ∧ Returns w ((x, n) :: fields)) ∧
      (∀ shift ∈ v.extract_shifts n, shift < 32) ∧
      ∃ v', v.extract_neighbor_index n = some (x, v') ∧ ReturnsReloaded v' fields

/-- Values that are put into an empty vector come out in reverse order. -/
def IsStack (fields : List (UInt32 × UInt32)) : Prop :=
  ∃ v, Adds {} fields v ∧ ReturnsReloaded v fields.reverse

def Fits (field : UInt32 × UInt32) : Prop :=
  1 ≤ field.2.toNat ∧ field.2.toNat ≤ 32 ∧ field.1.toNat < 2 ^ field.2.toNat

instance (field : UInt32 × UInt32) : Decidable (Fits field) :=
  inferInstanceAs (Decidable (_ ∧ _ ∧ _))

def total_width (fields : List (UInt32 × UInt32)) : ℕ := (fields.map fun field => field.2.toNat).sum

/-- The bits can be counted, and no field ends at the end of a word. -/
def EndsInWords (fields : List (UInt32 × UInt32)) : Prop :=
  total_width fields < 2 ^ 32 ∧ ∀ first, first <+: fields → first ≠ [] → ¬ 32 ∣ total_width first

/-- The least positive width in which every index below the number fits. -/
structure LeastWidth (numberOfNeighbors width : UInt32) : Prop where
  pos : 1 ≤ width.toNat
  fits : ∀ x : UInt32, x < numberOfNeighbors → x.toNat < 2 ^ width.toNat
  least : ∀ w, 1 ≤ w → (∀ x : UInt32, x < numberOfNeighbors → x.toNat < 2 ^ w) → width.toNat ≤ w

section BitCount

variable {n : UInt32}

theorem count_shifts_le_of_lt (bound : ℕ) {w : ℕ} (hbound : bound ≤ 32) (h : n.toNat < 2 ^ w) :
    (count_shifts bound n).toNat ≤ w := by
  induction bound generalizing n w with
  | zero => exact Nat.zero_le _
  | succ bound ih =>
    by_cases hn : n = 0
    · rw [count_shifts, if_pos hn]
      exact Nat.zero_le _
    · rw [count_shifts_succ (by omega) hn]
      cases w with
      | zero =>
        have hzero : n.toNat = 0 := by omega
        exact absurd (UInt32.toNat_inj.mp hzero) hn
      | succ w =>
        have hhalf := ih (n := n >>> 1) (w := w) (by omega) (by rw [toNat_half]; omega)
        omega

theorem leastWidth_bit_count (n : UInt32) : LeastWidth n (bit_count n) where
  pos := (bit_count_bounds n).1
  fits := fun x hx => lt_two_pow_bit_count (.inl (UInt32.lt_iff_toNat_lt.mp hx))
  least := by
    intro w hw hall
    rw [bit_count]
    split
    · exact hw
    next hn =>
      have hpred := toNat_pred hn
      rw [lt_two_iff] at hn
      exact count_shifts_le_of_lt 32 le_rfl (hall (n - 1) (UInt32.lt_iff_toNat_lt.mpr (by omega)))

end BitCount

section Shifts

variable {v : NixVector} {n : UInt32}

theorem lt_thirtyTwo_iff {s : UInt32} : s < 32 ↔ s.toNat < 32 := UInt32.lt_iff_toNat_lt

theorem add_shifts_lt (hle : n.toNat ≤ 32) : ∀ shift ∈ v.add_shifts n, shift < 32 := by
  have hmod := toNat_mod_thirtyTwo v.m_totalBitSize
  intro shift hshift
  unfold add_shifts at hshift
  dsimp only at hshift
  rw [lt_thirtyTwo_iff]
  split at hshift
  next hspan =>
    rw [gt_iff_lt, UInt32.lt_iff_toNat_lt, UInt32.toNat_add, show (32 : UInt32).toNat = 32 from rfl] at hspan
    rcases List.mem_cons.mp hshift with rfl | hshift
    · omega
    · rw [List.mem_singleton.mp hshift, toNat_thirtyTwo_sub (by omega)]
      omega
  next =>
    rw [List.mem_singleton.mp hshift]
    omega

/-- A word is shifted by 32 exactly if the bits that are left fill their last word. -/
theorem extract_shifts_lt_iff (hpos : 1 ≤ n.toNat) (hle : n.toNat ≤ 32) :
    (∀ shift ∈ v.extract_shifts n, shift < 32) ↔ ¬ 32 ∣ v.get_remaining_bits.toNat := by
  have hmod := toNat_mod_thirtyTwo v.get_remaining_bits
  have hfirst : (32 - v.get_remaining_bits % 32).toNat = 32 - v.get_remaining_bits.toNat % 32 := by
    rw [toNat_thirtyTwo_sub (by omega), hmod]
  constructor
  · intro hall
    have hmem : 32 - v.get_remaining_bits % 32 ∈ v.extract_shifts n := by
      unfold extract_shifts
      dsimp only
      split <;> exact List.mem_cons_self
    have hlt := lt_thirtyTwo_iff.mp (hall _ hmem)
    omega
  · intro hrest shift hshift
    unfold extract_shifts at hshift
    dsimp only at hshift
    rw [lt_thirtyTwo_iff]
    split at hshift
    next hspan =>
      have hone : (n - 1).toNat = n.toNat - 1 :=
        UInt32.toNat_sub_of_le _ _ (UInt32.le_iff_toNat_le.mpr hpos)
      have hpred : (v.get_remaining_bits - 1).toNat = v.get_remaining_bits.toNat - 1 :=
        UInt32.toNat_sub_of_le _ _ (UInt32.le_iff_toNat_le.mpr
          (Nat.pos_of_ne_zero fun hzero => hrest (hzero ▸ Nat.dvd_zero 32)))
      have hgt := UInt32.lt_iff_toNat_lt.mp hspan.2
      rw [toNat_mod_thirtyTwo, hone, hpred] at hgt
      have hover : (n - v.get_remaining_bits % 32).toNat = n.toNat - v.get_remaining_bits.toNat % 32 := by
        rw [UInt32.toNat_sub_of_le _ _ (UInt32.le_iff_toNat_le.mpr (by omega)), hmod]
      rcases List.mem_cons.mp hshift with rfl | hshift
      · omega
      rcases List.mem_cons.mp hshift with rfl | hshift
      · rw [UInt32.toNat_sub_of_le _ _ (UInt32.le_iff_toNat_le.mpr (by omega)), hfirst, hover]
        omega
      · rw [List.mem_singleton.mp hshift, toNat_thirtyTwo_sub (by omega), hover]
        omega
    next =>
      rcases List.mem_cons.mp hshift with rfl | hshift
      · omega
      · rw [List.mem_singleton.mp hshift, toNat_thirtyTwo_sub hle]
        omega

end Shifts

section Reload

variable {v : NixVector}

theorem reload_eq (hcompact : v.Compact) (hlength : v.m_nixVector.length ≤ 2 ^ 27) :
    v.reload = some v := by
  have hsize : (UInt32.ofNat (v.get_serialized_size + 4)).toNat = v.get_serialized_size + 4 := by
    refine UInt32.toNat_ofNat_of_lt' ?_
    have hbound : v.get_serialized_size + 4 < 2 ^ 32 := by
      rw [get_serialized_size]
      split <;> omega
    exact hbound
  have hfills : Fills (v.cells.map (·.getD 0)) v.cells := by
    refine List.forall₂_map_left_iff.mpr (List.forall₂_same.mpr fun cell hcell b hb => ?_)
    rw [Option.mem_def.mp hb]
    rfl
  have hread := reads_cells hcompact hsize _ hfills []
  rw [List.append_nil] at hread
  rw [reload, serialize_eq]
  dsimp only
  rw [hread]
  rfl

theorem Compact.use (h : v.Compact) (hne : v.m_totalBitSize ≠ 0) (used : UInt32) :
    ({ v with m_used := used } : NixVector).Compact := by
  rw [Compact, if_neg hne] at h
  rwa [Compact, if_neg hne]

end Reload

section Runs

variable {v w : NixVector} {fields done : List (UInt32 × UInt32)} {x n : UInt32} {r : ℕ}

theorem total_width_cons (x n : UInt32) (fields : List (UInt32 × UInt32)) :
    total_width ((x, n) :: fields) = n.toNat + total_width fields := by
  rw [total_width, List.map_cons, List.sum_cons]
  rfl

theorem total_width_append (fields fields' : List (UInt32 × UInt32)) :
    total_width (fields ++ fields') = total_width fields + total_width fields' := by
  rw [total_width, List.map_append, List.sum_append]
  rfl

theorem total_width_reverse (fields : List (UInt32 × UInt32)) :
    total_width fields.reverse = total_width fields := by
  rw [total_width, List.map_reverse, List.sum_reverse]
  rfl

theorem Holds.total_width (h : v.Holds r fields) : r = total_width fields := by
  induction fields generalizing r with
  | nil => exact h
  | cons field fields ih =>
    obtain ⟨r', rfl, -, -, -, -, hrest⟩ := h
    rw [total_width_cons, ← ih hrest, add_comm]

theorem length_le_of_compact (h : v.Compact) : v.m_nixVector.length ≤ 2 ^ 27 := by
  have hlt := v.m_totalBitSize.toNat_lt
  rw [Compact] at h
  split at h
  · rw [h]
    exact Nat.zero_le _
  · rw [h, words_of_bits]
    split <;> omega

theorem exists_adds (hfits : ∀ field ∈ fields, Fits field) (hfresh : v.Fresh) (hload : v.Loaded done)
    (hcompact : v.Compact) (hsum : v.m_totalBitSize.toNat + total_width fields < 2 ^ 32) :
    ∃ w, Adds v fields w ∧ w.Loaded (fields.reverse ++ done) ∧ w.Compact := by
  induction fields generalizing v done with
  | nil => exact ⟨v, rfl, hload, hcompact⟩
  | cons field fields ih =>
    obtain ⟨x, n⟩ := field
    obtain ⟨hpos, hle, hx⟩ : 1 ≤ n.toNat ∧ n.toNat ≤ 32 ∧ x.toNat < 2 ^ n.toNat :=
      hfits _ List.mem_cons_self
    rw [total_width_cons] at hsum
    obtain ⟨v', hadd, hfresh', hload', htotal⟩ := hfresh.add hload hpos hle hx (by omega)
    have hcompact' := add_neighbor_index_compact hcompact (UInt32.lt_iff_toNat_lt.mpr hpos) (by omega) hadd
    obtain ⟨w, hadds, hloaded, hw⟩ := ih (fun field hfield => hfits field (List.mem_cons_of_mem _ hfield))
      hfresh' hload' hcompact' (by omega)
    refine ⟨w, ⟨add_shifts_lt hle, v', hadd, hadds⟩, ?_, hw⟩
    rwa [List.reverse_cons, List.append_assoc, List.singleton_append]

theorem returns_of_loaded (hload : v.Loaded fields)
    (hends : ∀ rest, rest <:+ fields → rest ≠ [] → ¬ 32 ∣ total_width rest) : Returns v fields := by
  induction fields generalizing v with
  | nil => trivial
  | cons field fields ih =>
    obtain ⟨x, n⟩ := field
    have hleft := hload.holds.total_width
    obtain ⟨-, -, hpos, hle, -⟩ := hload.holds
    obtain ⟨v', hextract, hload'⟩ := hload.extract
    refine ⟨(extract_shifts_lt_iff hpos hle).mpr ?_, v', hextract, ih hload' fun rest hrest hne =>
      hends rest (hrest.trans (List.suffix_cons _ _)) hne⟩
    rw [hleft]
    exact hends _ (List.suffix_refl _) (List.cons_ne_nil _ _)

theorem returnsReloaded_of_loaded (hload : v.Loaded fields) (hcompact : v.Compact)
    (hends : ∀ rest, rest <:+ fields → rest ≠ [] → ¬ 32 ∣ total_width rest) :
    ReturnsReloaded v fields := by
  have hreload := reload_eq hcompact (length_le_of_compact hcompact)
  induction fields generalizing v with
  | nil => exact ⟨v, hreload⟩
  | cons field fields ih =>
    obtain ⟨x, n⟩ := field
    have hreturns := returns_of_loaded hload hends
    have hshifts := hreturns.1
    obtain ⟨r', hr, hpos, -⟩ := hload.holds
    obtain ⟨v', hextract, hload'⟩ := hload.extract
    have hne : v.m_totalBitSize ≠ 0 := by
      intro hzero
      rw [Compact, if_pos hzero] at hcompact
      rw [hcompact, show (({} : NixVector).get_remaining_bits).toNat = 0 from rfl] at hr
      omega
    have hcompact' : v'.Compact := by
      rw [(eq_of_extract hextract).2]
      exact hcompact.use hne _
    exact ⟨⟨v, hreload, hreturns⟩, hshifts, v', hextract, ih hload' hcompact'
      (fun rest hrest hrest' => hends rest (hrest.trans (List.suffix_cons _ _)) hrest')
      (reload_eq hcompact' (length_le_of_compact hcompact'))⟩

theorem Adds.totals (h : Adds v fields w) :
    w.m_used = v.m_used ∧
      w.m_totalBitSize.toNat = (v.m_totalBitSize.toNat + total_width fields) % 2 ^ 32 := by
  induction fields generalizing v with
  | nil =>
    obtain rfl : v = w := h
    exact ⟨rfl, (Nat.mod_eq_of_lt v.m_totalBitSize.toNat_lt).symm⟩
  | cons field fields ih =>
    obtain ⟨x, n⟩ := field
    obtain ⟨-, v', hadd, hrest⟩ := h
    obtain ⟨hused, htotal⟩ := ih hrest
    have hv' : v'.m_used = v.m_used ∧ v'.m_totalBitSize = v.m_totalBitSize + n := by
      rw [add_neighbor_index] at hadd
      split at hadd
      · cases hadd
      · rw [← Option.some.inj hadd]
        exact ⟨rfl, rfl⟩
    refine ⟨hused.trans hv'.1, ?_⟩
    rw [htotal, hv'.2, UInt32.toNat_add, total_width_cons]
    omega

theorem ReturnsReloaded.remaining (h : ReturnsReloaded v fields) (hfits : ∀ field ∈ fields, Fits field) :
    total_width fields ≤ v.get_remaining_bits.toNat ∧
      ∀ first rest, fields = first ++ rest → rest ≠ [] →
        ¬ 32 ∣ v.get_remaining_bits.toNat - total_width first := by
  induction fields generalizing v with
  | nil =>
    refine ⟨Nat.zero_le _, fun first rest heq hne => ?_⟩
    exact absurd (List.append_eq_nil_iff.mp heq.symm).2 hne
  | cons field fields ih =>
    obtain ⟨x, n⟩ := field
    obtain ⟨-, hshifts, v', hextract, hrest⟩ := h
    obtain ⟨hpos, hle, -⟩ := hfits _ List.mem_cons_self
    have hleft := remaining_of_extract hextract
    obtain ⟨hwidth, hends⟩ := ih hrest fun field hfield => hfits field (List.mem_cons_of_mem _ hfield)
    refine ⟨by rw [total_width_cons]; omega, fun first rest heq hne => ?_⟩
    cases first with
    | nil => exact (extract_shifts_lt_iff hpos hle).mp hshifts
    | cons field' first =>
      rw [List.cons_append, List.cons_eq_cons] at heq
      obtain ⟨rfl, heq⟩ := heq
      have hend := hends first rest heq hne
      rw [total_width_cons]
      rwa [show v.get_remaining_bits.toNat - (n.toNat + total_width first) =
        v'.get_remaining_bits.toNat - total_width first by omega]

theorem fresh_empty : ({} : NixVector).Fresh := ⟨rfl, rfl, fun k _ => by simp [bit]⟩

theorem loaded_empty : ({} : NixVector).Loaded [] := ⟨rfl, Nat.zero_le _⟩

/-- Fields come back in reverse order with all shifts below 32, reloaded or not, exactly if their
bits can be counted and none of them ends at the end of a word; and `BitCount` is the least width. -/
theorem isStack_iff (n : UInt32) (fields : List (UInt32 × UInt32)) (hfits : ∀ field ∈ fields, Fits field) :
    LeastWidth n (bit_count n) ∧ (IsStack fields ↔ EndsInWords fields) := by
  refine ⟨leastWidth_bit_count n, ⟨?_, ?_⟩⟩
  · rintro ⟨v, hadds, hreturns⟩
    obtain ⟨hused, htotal⟩ := hadds.totals
    have hremaining : v.get_remaining_bits.toNat = total_width fields % 2 ^ 32 := by
      rw [get_remaining_bits, hused, show ({} : NixVector).m_used = 0 from rfl, UInt32.sub_zero, htotal,
        show ({} : NixVector).m_totalBitSize.toNat = 0 from rfl, Nat.zero_add]
    obtain ⟨hwidth, hends⟩ := hreturns.remaining fun field hfield => hfits field (List.mem_reverse.mp hfield)
    rw [total_width_reverse, hremaining] at hwidth
    have hlt : total_width fields < 2 ^ 32 := lt_of_le_of_lt hwidth (Nat.mod_lt _ (by decide))
    refine ⟨hlt, ?_⟩
    rintro first ⟨rest, rfl⟩ hne
    have hend := hends rest.reverse first.reverse List.reverse_append (by simpa using hne)
    rw [hremaining, Nat.mod_eq_of_lt hlt, total_width_append, total_width_reverse, Nat.add_sub_cancel] at hend
    exact hend
  · rintro ⟨hlt, hends⟩
    obtain ⟨v, hadds, hloaded, hcompact⟩ := exists_adds hfits fresh_empty loaded_empty rfl
      (by rwa [show ({} : NixVector).m_totalBitSize.toNat = 0 from rfl, Nat.zero_add])
    rw [List.append_nil] at hloaded
    refine ⟨v, hadds, returnsReloaded_of_loaded hloaded hcompact fun rest hrest hne => ?_⟩
    rw [← total_width_reverse]
    exact hends _ (by simpa using List.reverse_prefix.mpr hrest) (by simpa using hne)

theorem isStack_two : IsStack [(5, 3), (1, 4)] := by
  have hwidth : total_width [(5, 3), (1, 4)] = 7 := by decide
  have hends : ∀ first ∈ ([(5, 3), (1, 4)] : List (UInt32 × UInt32)).inits, first ≠ [] →
      ¬ 32 ∣ total_width first := by decide
  have hfits : ∀ field ∈ ([(5, 3), (1, 4)] : List (UInt32 × UInt32)), Fits field :=
    List.forall_mem_cons.mpr ⟨by decide, List.forall_mem_singleton.mpr (by decide)⟩
  refine (isStack_iff 4 _ hfits).2.mpr ⟨by omega, fun first hfirst hne => ?_⟩
  exact hends first ((List.mem_inits _ _).mpr hfirst) hne

/-- A field that fills a word is shifted by 32. -/
theorem not_isStack_word :
    ¬ ∀ fields : List (UInt32 × UInt32), (∀ field ∈ fields, Fits field) → IsStack fields := by
  intro hall
  have hvalue : 7 < 2 ^ 32 := by norm_num
  have hfits : ∀ field ∈ ([(7, 32)] : List (UInt32 × UInt32)), Fits field :=
    List.forall_mem_singleton.mpr ⟨by decide, by decide, hvalue⟩
  obtain ⟨v, ⟨-, v', hadd, rfl⟩, -, hshifts, -⟩ := hall [(7, 32)] hfits
  obtain rfl := Option.some.inj hadd
  have hshift := hshifts 32 List.mem_cons_self
  exact absurd hshift (by decide)

end Runs

end Ns3.NixVector
