import Ns3.Network.NixVector

namespace Ns3.NixVector

/-- The loop of `BitCount`, which runs 32 times at most. -/
def count_shifts : Nat → UInt32 → UInt32
  | 0, _ => 0
  | bound + 1, n => if n = 0 then 0 else count_shifts bound (n >>> 1) + 1

def bit_count (numberOfNeighbors : UInt32) : UInt32 :=
  if numberOfNeighbors < 2 then 1 else count_shifts 32 (numberOfNeighbors - 1)

def get_remaining_bits (v : NixVector) : UInt32 := v.m_totalBitSize - v.m_used

/-- `ExtractNeighborIndex`; `none` is a fatal error. A shift by 32 leaves a word as it is. -/
def extract_neighbor_index (v : NixVector) (numberOfBits : UInt32) : Option (UInt32 × NixVector) :=
  let totalRemainingBits := v.get_remaining_bits
  if numberOfBits > 32 then none
  else if numberOfBits > totalRemainingBits then none
  else if numberOfBits = 0 then none
  else
    let vectorIndex := ((totalRemainingBits - 1) / 32).toNat
    let used := { v with m_used := v.m_used + numberOfBits }
    if vectorIndex > 0 ∧ numberOfBits - 1 > (totalRemainingBits - 1) % 32 then do
      let high ← v.m_nixVector[vectorIndex]?
      let low ← v.m_nixVector[vectorIndex - 1]?
      let extractedBits := high <<< (32 - totalRemainingBits % 32)
      let extractedBits := extractedBits >>> (32 - totalRemainingBits % 32 - (numberOfBits - totalRemainingBits % 32))
      return (extractedBits ||| low >>> (32 - (numberOfBits - totalRemainingBits % 32)), used)
    else do
      let word ← v.m_nixVector[vectorIndex]?
      return (word <<< (32 - totalRemainingBits % 32) >>> (32 - numberOfBits), used)

/-- A bit of the vector, from the first one that was added. -/
def bit (v : NixVector) (k : ℕ) : Bool := (v.m_nixVector[k / 32]?.getD 0).toNat.testBit (k % 32)

/-- Nothing has been extracted, and there are no bits behind the last one. -/
structure Fresh (v : NixVector) : Prop where
  unused : v.m_used = 0
  length : v.m_nixVector.length = words_of_bits v.m_totalBitSize
  clear : ∀ k, v.m_totalBitSize.toNat ≤ k → v.bit k = false

/-- The fields that are left in the first bits, the one that was added last first. -/
def Holds (v : NixVector) : ℕ → List (UInt32 × UInt32) → Prop
  | r, [] => r = 0
  | r, (x, n) :: fields => ∃ r', r = r' + n.toNat ∧ 1 ≤ n.toNat ∧ n.toNat ≤ 32 ∧ x.toNat < 2 ^ n.toNat ∧
      (∀ i < n.toNat, v.bit (r' + i) = x.toNat.testBit i) ∧ Holds v r' fields

variable {v v' : NixVector} {x n : UInt32} {r r' : ℕ} {fields : List (UInt32 × UInt32)}

theorem toNat_half (n : UInt32) : (n >>> 1).toNat = n.toNat / 2 := by
  rw [UInt32.toNat_shiftRight, show (1 : UInt32).toNat % 32 = 1 from rfl, Nat.shiftRight_one]

theorem count_shifts_le (bound : ℕ) (n : UInt32) : (count_shifts bound n).toNat ≤ bound := by
  induction bound generalizing n with
  | zero => exact le_refl _
  | succ bound ih =>
    rw [count_shifts]
    split
    · exact Nat.zero_le _
    · have hprev := ih (n >>> 1)
      rw [UInt32.toNat_add, show (1 : UInt32).toNat = 1 from rfl]
      omega

theorem count_shifts_succ {bound : ℕ} (hbound : bound < 32) (hn : n ≠ 0) :
    (count_shifts (bound + 1) n).toNat = (count_shifts bound (n >>> 1)).toNat + 1 := by
  have hprev := count_shifts_le bound (n >>> 1)
  rw [count_shifts, if_neg hn, UInt32.toNat_add, show (1 : UInt32).toNat = 1 from rfl]
  omega

theorem lt_two_pow_count_shifts (bound : ℕ) (h : n.toNat < 2 ^ bound) (hbound : bound ≤ 32) :
    n.toNat < 2 ^ (count_shifts bound n).toNat := by
  induction bound generalizing n with
  | zero => exact h
  | succ bound ih =>
    by_cases hn : n = 0
    · rw [hn, show (0 : UInt32).toNat = 0 from rfl]
      exact Nat.two_pow_pos _
    · have hlt := ih (n := n >>> 1) (by rw [toNat_half]; omega) (by omega)
      rw [toNat_half] at hlt
      rw [count_shifts_succ (by omega) hn, pow_succ]
      omega

theorem count_shifts_mono (bound : ℕ) (h : x.toNat ≤ n.toNat) (hbound : bound ≤ 32) :
    (count_shifts bound x).toNat ≤ (count_shifts bound n).toNat := by
  induction bound generalizing x n with
  | zero => exact le_refl _
  | succ bound ih =>
    by_cases hx : x = 0
    · rw [count_shifts, if_pos hx]
      exact Nat.zero_le _
    · have hn : n ≠ 0 := by
        rintro rfl
        exact hx (UInt32.toNat_inj.mp (Nat.le_zero.mp h))
      have hrec := ih (x := x >>> 1) (n := n >>> 1) (by rw [toNat_half, toNat_half]; omega) (by omega)
      rw [count_shifts_succ (by omega) hx, count_shifts_succ (by omega) hn]
      omega

theorem lt_two_iff : n < 2 ↔ n.toNat < 2 := UInt32.lt_iff_toNat_lt

theorem toNat_pred (h : ¬ n < 2) : (n - 1).toNat = n.toNat - 1 := by
  rw [lt_two_iff] at h
  exact UInt32.toNat_sub_of_le _ _ (UInt32.le_iff_toNat_le.mpr (by rw [show (1 : UInt32).toNat = 1 from rfl]; omega))

theorem bit_count_bounds (n : UInt32) : 1 ≤ (bit_count n).toNat ∧ (bit_count n).toNat ≤ 32 := by
  rw [bit_count]
  split
  · exact ⟨le_refl _, by decide⟩
  next h =>
    refine ⟨?_, count_shifts_le 32 _⟩
    have hne : n - 1 ≠ 0 := by
      intro hzero
      have hpred := toNat_pred h
      rw [hzero, show (0 : UInt32).toNat = 0 from rfl] at hpred
      rw [lt_two_iff] at h
      omega
    rw [count_shifts_succ (by omega) hne]
    omega

theorem lt_two_pow_bit_count (h : x.toNat < n.toNat ∨ x = 0) : x.toNat < 2 ^ (bit_count n).toNat := by
  rcases h with h | rfl
  · rw [bit_count]
    split
    next hn =>
      rw [lt_two_iff] at hn
      exact lt_of_lt_of_le (b := 2) (by omega) (by decide)
    next hn =>
      have hlt := lt_two_pow_count_shifts 32 (n := n - 1) (UInt32.toNat_lt _) (le_refl _)
      rw [toNat_pred hn] at hlt
      omega
  · exact Nat.two_pow_pos _

theorem bit_count_mono (h : x.toNat ≤ n.toNat) : (bit_count x).toNat ≤ (bit_count n).toNat := by
  by_cases hx : x < 2
  · rw [bit_count, if_pos hx]
    exact (bit_count_bounds n).1
  · have hn : ¬ n < 2 := by
      rw [lt_two_iff] at hx ⊢
      omega
    rw [bit_count, bit_count, if_neg hx, if_neg hn]
    refine count_shifts_mono 32 ?_ (le_refl _)
    rw [toNat_pred hx, toNat_pred hn]
    omega

theorem testBit_window {w s e : UInt32} (he : e.toNat < 32) (i : ℕ) :
    ((w <<< s) >>> e).toNat.testBit i =
      (decide (i + e.toNat < 32 ∧ s.toNat % 32 ≤ i + e.toNat) && w.toNat.testBit (i + e.toNat - s.toNat % 32)) := by
  rw [UInt32.toNat_shiftRight, UInt32.toNat_shiftLeft, Nat.testBit_shiftRight, Nat.testBit_mod_two_pow, Nat.testBit_shiftLeft,
    Nat.mod_eq_of_lt he, Nat.add_comm e.toNat i, ← Bool.and_assoc, ← Bool.decide_and]

theorem toNat_thirtyTwo_sub (h : n.toNat ≤ 32) : (32 - n).toNat = 32 - n.toNat :=
  UInt32.toNat_sub_of_le _ _ (UInt32.le_iff_toNat_le.mpr h)

theorem toNat_mod_thirtyTwo (n : UInt32) : (n % 32).toNat = n.toNat % 32 := UInt32.toNat_mod ..

theorem extract_bits (hpos : 1 ≤ n.toNat) (hle : n.toNat ≤ 32) (hleft : n.toNat ≤ v.get_remaining_bits.toNat)
    (hroom : v.get_remaining_bits.toNat ≤ 32 * v.m_nixVector.length) :
    ∃ y, v.extract_neighbor_index n = some (y, { v with m_used := v.m_used + n }) ∧
      ∀ i, y.toNat.testBit i = (decide (i < n.toNat) && v.bit (v.get_remaining_bits.toNat - n.toNat + i)) := by
  obtain ⟨total, htotal⟩ : ∃ total, total = v.get_remaining_bits := ⟨_, rfl⟩
  rw [← htotal] at hleft hroom ⊢
  have hgt : ¬ n > 32 := by
    rw [gt_iff_lt, UInt32.lt_iff_toNat_lt, show (32 : UInt32).toNat = 32 from rfl]
    omega
  have hmany : ¬ n > total := by
    rw [gt_iff_lt, UInt32.lt_iff_toNat_lt]
    omega
  have hzero : ¬ n = 0 := by
    rintro rfl
    exact absurd hpos (by decide)
  have hpred : (total - 1).toNat = total.toNat - 1 :=
    UInt32.toNat_sub_of_le _ _ (UInt32.le_iff_toNat_le.mpr (by rw [show (1 : UInt32).toNat = 1 from rfl]; omega))
  have hindex : ((total - 1) / 32).toNat = (total.toNat - 1) / 32 := by
    rw [UInt32.toNat_div, hpred]
    rfl
  have hmod := toNat_mod_thirtyTwo total
  have hpredn : (n - 1).toNat = n.toNat - 1 :=
    UInt32.toNat_sub_of_le _ _ (UInt32.le_iff_toNat_le.mpr (by rw [show (1 : UInt32).toNat = 1 from rfl]; omega))
  have hshift : (32 - total % 32).toNat = 32 - total.toNat % 32 := by
    rw [toNat_thirtyTwo_sub (by omega), hmod]
  have hbit : ∀ k j (hj : j < v.m_nixVector.length), k / 32 = j → v.bit k = v.m_nixVector[j].toNat.testBit (k % 32) := by
    rintro k _ hj rfl
    rw [bit, List.getElem?_eq_getElem hj, Option.getD_some]
  have houtside : ∀ (w : UInt32) k, 32 ≤ k → w.toNat.testBit k = false := fun w k hk =>
    Nat.testBit_lt_two_pow ((UInt32.toNat_lt w).trans_le (Nat.pow_le_pow_right (by decide) hk))
  rw [extract_neighbor_index]
  simp only [← htotal, if_neg hgt, if_neg hmany, if_neg hzero, hindex]
  split
  next hspan =>
    obtain ⟨hmore, hlong⟩ := hspan
    rw [gt_iff_lt, UInt32.lt_iff_toNat_lt, toNat_mod_thirtyTwo, hpred, hpredn] at hlong
    have hrest : (n - total % 32).toNat = n.toNat - total.toNat % 32 := by
      rw [UInt32.toNat_sub_of_le _ _ (UInt32.le_iff_toNat_le.mpr (by omega)), hmod]
    have hshift' : (32 - total % 32 - (n - total % 32)).toNat = 32 - n.toNat := by
      rw [UInt32.toNat_sub_of_le _ _ (UInt32.le_iff_toNat_le.mpr (by omega)), hshift, hrest]
      omega
    have hshift'' : (32 - (n - total % 32)).toNat = 32 - (n.toNat - total.toNat % 32) := by
      rw [toNat_thirtyTwo_sub (by omega), hrest]
    have hhigh : (total.toNat - 1) / 32 < v.m_nixVector.length := by omega
    have hlow : (total.toNat - 1) / 32 - 1 < v.m_nixVector.length := by omega
    rw [List.getElem?_eq_getElem hhigh, List.getElem?_eq_getElem hlow]
    refine ⟨_, rfl, fun i => ?_⟩
    rw [UInt32.toNat_or, Nat.testBit_or, testBit_window (by omega), UInt32.toNat_shiftRight, Nat.testBit_shiftRight, hshift',
      hshift, hshift'']
    by_cases hi : i < n.toNat
    · rw [decide_eq_true hi, Bool.true_and]
      by_cases hfirst : n.toNat - total.toNat % 32 ≤ i
      · rw [houtside _ ((32 - (n.toNat - total.toNat % 32)) % 32 + i) (by omega), Bool.or_false, decide_eq_true (by omega),
          Bool.true_and, hbit _ _ hhigh (by omega)]
        congr 1
        omega
      · rw [decide_eq_false (by omega), Bool.false_and, Bool.false_or, hbit _ _ hlow (by omega)]
        congr 1
        omega
    · rw [decide_eq_false hi, Bool.false_and, decide_eq_false (by omega), Bool.false_and, Bool.false_or]
      exact houtside _ _ (by omega)
  next hspan =>
    have hshort : (total.toNat - 1) / 32 = 0 ∨ n.toNat - 1 ≤ (total.toNat - 1) % 32 := by
      rw [gt_iff_lt, gt_iff_lt, UInt32.lt_iff_toNat_lt, toNat_mod_thirtyTwo, hpred, hpredn] at hspan
      omega
    have hin : (total.toNat - 1) / 32 < v.m_nixVector.length := by omega
    rw [List.getElem?_eq_getElem hin]
    refine ⟨_, rfl, fun i => ?_⟩
    have hshift' : (32 - n).toNat = 32 - n.toNat := toNat_thirtyTwo_sub hle
    rw [testBit_window (by omega), hshift, hshift']
    by_cases hi : i < n.toNat
    · rw [decide_eq_true hi, decide_eq_true (by omega), Bool.true_and, Bool.true_and, hbit _ _ hin (by omega)]
      congr 1
      omega
    · rw [decide_eq_false hi, decide_eq_false (by omega), Bool.false_and, Bool.false_and]

theorem Fresh.split (h : v.Fresh) :
    ∃ ws w, (if v.m_totalBitSize % 32 = 0 then v.m_nixVector ++ [0] else v.m_nixVector) = ws ++ [w] ∧
      ws.length = v.m_totalBitSize.toNat / 32 ∧
      ∀ k, v.bit k = ((ws ++ [w])[k / 32]?.getD 0).toNat.testBit (k % 32) := by
  have hlength := h.length
  have hzero : v.m_totalBitSize % 32 = 0 ↔ v.m_totalBitSize.toNat % 32 = 0 := by
    rw [← UInt32.toNat_inj, toNat_mod_thirtyTwo]
    rfl
  rw [words_of_bits] at hlength
  split
  next hempty =>
    rw [if_neg (not_not.mpr hempty), Nat.add_zero] at hlength
    refine ⟨v.m_nixVector, 0, rfl, hlength, fun k => ?_⟩
    rw [bit]
    by_cases hk : k / 32 < v.m_nixVector.length
    · rw [List.getElem?_append_left hk]
    · rw [List.getElem?_eq_none (by omega), List.getElem?_append_right (by omega), Option.getD_none]
      rcases Nat.eq_zero_or_pos (k / 32 - v.m_nixVector.length) with heq | hpos
      · rw [heq]
        rfl
      · rw [List.getElem?_eq_none (by rwa [List.length_singleton])]
        rfl
  next hsome =>
    rw [if_pos hsome] at hlength
    rcases List.eq_nil_or_concat v.m_nixVector with hnil | ⟨ws, w, hws⟩
    · rw [hnil] at hlength
      cases hlength
    · rw [List.concat_eq_append] at hws
      refine ⟨ws, w, hws, ?_, fun k => by rw [bit, hws]⟩
      rw [hws, List.length_append, List.length_singleton] at hlength
      omega

theorem Fresh.add_bits (h : v.Fresh) (hpos : 1 ≤ n.toNat) (hle : n.toNat ≤ 32) (hx : x.toNat < 2 ^ n.toNat)
    (hsum : v.m_totalBitSize.toNat + n.toNat < 2 ^ 32) :
    ∃ v', v.add_neighbor_index x n = some v' ∧ v'.Fresh ∧ v'.m_totalBitSize.toNat = v.m_totalBitSize.toNat + n.toNat ∧
      ∀ k, v'.bit k = if k < v.m_totalBitSize.toNat then v.bit k else x.toNat.testBit (k - v.m_totalBitSize.toNat) := by
  have hgt : ¬ n > 32 := by
    rw [gt_iff_lt, UInt32.lt_iff_toNat_lt, show (32 : UInt32).toNat = 32 from rfl]
    omega
  have hsome : (v.add_neighbor_index x n).isSome := by
    rw [add_neighbor_index, if_neg hgt]
    rfl
  obtain ⟨v', hv'⟩ := Option.isSome_iff_exists.mp hsome
  have hpos' : 0 < n := UInt32.lt_iff_toNat_lt.mpr hpos
  obtain ⟨htotal, hlength⟩ := length_add_neighbor_index h.length hpos' hsum hv'
  have hbits : ∀ k, v'.bit k = if k < v.m_totalBitSize.toNat then v.bit k else x.toNat.testBit (k - v.m_totalBitSize.toNat) := by
    obtain ⟨ws, w, hsplit, hlen, hbit⟩ := h.split
    have hmod := toNat_mod_thirtyTwo v.m_totalBitSize
    have hclear : ∀ j, v.m_totalBitSize.toNat % 32 ≤ j → w.toNat.testBit j = false := by
      intro j hj
      by_cases hin : j < 32
      · have hfree := h.clear (32 * ws.length + j) (by omega)
        rw [hbit, show (32 * ws.length + j) / 32 = ws.length by omega, List.getElem?_concat_length, Option.getD_some,
          show (32 * ws.length + j) % 32 = j by omega] at hfree
        exact hfree
      · exact Nat.testBit_lt_two_pow ((UInt32.toNat_lt w).trans_le (Nat.pow_le_pow_right (by decide) (by omega)))
    have hback : ∀ j, j < 32 → (x <<< (v.m_totalBitSize % 32) ||| w).toNat.testBit j =
        if j < v.m_totalBitSize.toNat % 32 then w.toNat.testBit j else x.toNat.testBit (j - v.m_totalBitSize.toNat % 32) := by
      intro j hj
      rw [UInt32.toNat_or, Nat.testBit_or, UInt32.toNat_shiftLeft, Nat.testBit_mod_two_pow, Nat.testBit_shiftLeft, hmod,
        Nat.mod_mod, decide_eq_true hj, Bool.true_and]
      split
      next hlt => rw [decide_eq_false (by omega), Bool.false_and, Bool.false_or]
      next hlt => rw [decide_eq_true (by omega), Bool.true_and, hclear j (by omega), Bool.or_false]
    have hspan : v.m_totalBitSize % 32 + n > 32 ↔ v.m_totalBitSize.toNat % 32 + n.toNat > 32 := by
      rw [gt_iff_lt, UInt32.lt_iff_toNat_lt, UInt32.toNat_add, hmod, show (32 : UInt32).toNat = 32 from rfl]
      omega
    obtain ⟨back, hback'⟩ : ∃ back, back = x <<< (v.m_totalBitSize % 32) ||| w := ⟨_, rfl⟩
    have hlarge : ∀ j, n.toNat ≤ j → x.toNat.testBit j = false := fun j hj =>
      Nat.testBit_lt_two_pow (hx.trans_le (Nat.pow_le_pow_right (by decide) hj))
    have hwords : ∃ more, v'.m_nixVector = (ws ++ [back]) ++ more ∧
        ∀ k, 32 * (ws.length + 1) ≤ k → (more[k / 32 - (ws.length + 1)]?.getD 0).toNat.testBit (k % 32) =
          x.toNat.testBit (k - v.m_totalBitSize.toNat) := by
      rw [add_neighbor_index, if_neg hgt] at hv'
      simp only [hsplit] at hv'
      have hupdate : update_back (ws ++ [w]) (fun b => x <<< (v.m_totalBitSize % 32) ||| b) = ws ++ [back] := by
        rw [hback', update_back, List.dropLast_concat, List.getLast?_concat]
        rfl
      rw [hupdate] at hv'
      split at hv'
      next hover =>
        cases hv'
        refine ⟨[x >>> (32 - v.m_totalBitSize % 32)], rfl, fun k hk => ?_⟩
        rw [hspan] at hover
        have hshift : (32 - v.m_totalBitSize % 32).toNat = 32 - v.m_totalBitSize.toNat % 32 := by
          rw [toNat_thirtyTwo_sub (by omega), hmod]
        by_cases hnext : k / 32 = ws.length + 1
        · rw [hnext, Nat.sub_self, List.getElem?_cons_zero, Option.getD_some, UInt32.toNat_shiftRight, hshift,
            Nat.testBit_shiftRight, Nat.mod_eq_of_lt (by omega)]
          congr 1
          omega
        · rw [List.getElem?_eq_none (by rw [List.length_singleton]; omega), Option.getD_none, hlarge _ (by omega)]
          exact Nat.zero_testBit _
      next hover =>
        cases hv'
        refine ⟨[], (List.append_nil _).symm, fun k hk => ?_⟩
        rw [hspan] at hover
        rw [List.getElem?_nil, Option.getD_none, hlarge _ (by omega)]
        exact Nat.zero_testBit _
    obtain ⟨more, hmore, hmore'⟩ := hwords
    intro k
    rw [bit, hmore]
    have hlen' : (ws ++ [back]).length = ws.length + 1 := by rw [List.length_append, List.length_singleton]
    rcases lt_trichotomy (k / 32) ws.length with hlt | heq | hgt'
    · rw [List.getElem?_append_left (by omega), List.getElem?_append_left hlt, if_pos (by omega), hbit,
        List.getElem?_append_left hlt]
    · rw [List.getElem?_append_left (by omega), heq, List.getElem?_concat_length, Option.getD_some, hback',
        hback _ (Nat.mod_lt _ (by decide)), hbit, heq, List.getElem?_concat_length, Option.getD_some]
      by_cases hk : k < v.m_totalBitSize.toNat
      · rw [if_pos (by omega), if_pos hk]
      · rw [if_neg (by omega), if_neg hk]
        congr 1
        omega
    · rw [List.getElem?_append_right (by omega), if_neg (by omega), hlen']
      exact hmore' k (by omega)
  refine ⟨v', hv', ⟨?_, hlength, fun k hk => ?_⟩, htotal, hbits⟩
  · rw [add_neighbor_index, if_neg hgt] at hv'
    cases hv'
    exact h.unused
  · rw [hbits, if_neg (by omega)]
    exact Nat.testBit_lt_two_pow (hx.trans_le (Nat.pow_le_pow_right (by decide) (by omega)))

theorem Holds.congr (h : v.Holds r fields) (hbits : ∀ k < r, v'.bit k = v.bit k) : v'.Holds r fields := by
  induction fields generalizing r with
  | nil => exact h
  | cons field fields ih =>
    obtain ⟨r', rfl, hpos, hle, hx, hfield, hrest⟩ := h
    refine ⟨r', rfl, hpos, hle, hx, fun i hi => ?_, ih hrest fun k hk => hbits k (by omega)⟩
    rw [hbits _ (by omega)]
    exact hfield i hi

/-- The vector has the words for the fields that are left in it. -/
structure Loaded (v : NixVector) (fields : List (UInt32 × UInt32)) : Prop where
  holds : v.Holds v.get_remaining_bits.toNat fields
  room : v.get_remaining_bits.toNat ≤ 32 * v.m_nixVector.length

theorem Fresh.remaining (h : v.Fresh) : v.get_remaining_bits = v.m_totalBitSize := by
  rw [get_remaining_bits, h.unused, UInt32.sub_zero]

theorem Fresh.room (h : v.Fresh) : v.get_remaining_bits.toNat ≤ 32 * v.m_nixVector.length := by
  rw [h.remaining, h.length, words_of_bits]
  split
  · omega
  next hzero =>
    rw [not_not, ← UInt32.toNat_inj, toNat_mod_thirtyTwo, show (0 : UInt32).toNat = 0 from rfl] at hzero
    omega

theorem Fresh.add (h : v.Fresh) (hload : v.Loaded fields) (hpos : 1 ≤ n.toNat) (hle : n.toNat ≤ 32)
    (hx : x.toNat < 2 ^ n.toNat) (hsum : v.m_totalBitSize.toNat + n.toNat < 2 ^ 32) :
    ∃ v', v.add_neighbor_index x n = some v' ∧ v'.Fresh ∧ v'.Loaded ((x, n) :: fields) ∧
      v'.m_totalBitSize.toNat = v.m_totalBitSize.toNat + n.toNat := by
  obtain ⟨v', hadd, hfresh, htotal, hbits⟩ := h.add_bits hpos hle hx hsum
  refine ⟨v', hadd, hfresh, ⟨⟨v.m_totalBitSize.toNat, ?_, hpos, hle, hx, fun i _ => ?_, ?_⟩, hfresh.room⟩, htotal⟩
  · rw [hfresh.remaining, htotal]
  · rw [hbits, if_neg (by omega), Nat.add_sub_cancel_left]
  · have hholds := hload.holds
    rw [h.remaining] at hholds
    exact hholds.congr fun k hk => by rw [hbits, if_pos hk]

theorem remaining_of_use (hle : n.toNat ≤ v.get_remaining_bits.toNat) :
    ({ v with m_used := v.m_used + n } : NixVector).get_remaining_bits.toNat = v.get_remaining_bits.toNat - n.toNat := by
  have heq : ({ v with m_used := v.m_used + n } : NixVector).get_remaining_bits = v.get_remaining_bits - n := by
    rw [get_remaining_bits, get_remaining_bits]
    grind
  rw [heq, UInt32.toNat_sub_of_le _ _ (UInt32.le_iff_toNat_le.mpr hle)]

theorem Loaded.extract (h : v.Loaded ((x, n) :: fields)) :
    ∃ v', v.extract_neighbor_index n = some (x, v') ∧ v'.Loaded fields := by
  obtain ⟨⟨r', hr, hpos, hle, hx, hfield, hrest⟩, hroom⟩ := h
  obtain ⟨y, hextract, hbits⟩ := extract_bits hpos hle (by omega) hroom
  have heq : y = x := by
    refine UInt32.toNat_inj.mp (Nat.eq_of_testBit_eq fun i => ?_)
    rw [hbits, hr, Nat.add_sub_cancel]
    by_cases hi : i < n.toNat
    · rw [decide_eq_true hi, Bool.true_and, hfield i hi]
    · rw [decide_eq_false hi, Bool.false_and]
      exact (Nat.testBit_lt_two_pow (hx.trans_le (Nat.pow_le_pow_right (by decide) (by omega)))).symm
  have hremaining := remaining_of_use (v := v) (n := n) (by omega)
  rw [hr, Nat.add_sub_cancel] at hremaining
  refine ⟨_, heq ▸ hextract, ?_, ?_⟩
  · rw [hremaining]
    exact hrest.congr fun _ _ => rfl
  · rw [hremaining]
    exact (Nat.le_add_right r' n.toNat).trans (hr ▸ hroom)

/-- An extraction only counts the bits that it takes, and they are there. -/
theorem eq_of_extract {y : UInt32} (h : v.extract_neighbor_index n = some (y, v')) :
    n.toNat ≤ v.get_remaining_bits.toNat ∧ v' = { v with m_used := v.m_used + n } := by
  rw [extract_neighbor_index] at h
  split at h
  · cases h
  split at h
  · cases h
  next hmany =>
    rw [gt_iff_lt, UInt32.lt_iff_toNat_lt, not_lt] at hmany
    refine ⟨hmany, ?_⟩
    split at h
    · cases h
    simp only at h
    split at h
    · obtain ⟨high, -, h⟩ := Option.bind_eq_some_iff.mp h
      obtain ⟨low, -, h⟩ := Option.bind_eq_some_iff.mp h
      cases h
      rfl
    · obtain ⟨word, -, h⟩ := Option.bind_eq_some_iff.mp h
      cases h
      rfl

theorem remaining_of_extract {y : UInt32} (h : v.extract_neighbor_index n = some (y, v')) :
    v'.get_remaining_bits.toNat + n.toNat = v.get_remaining_bits.toNat := by
  obtain ⟨hmany, hv'⟩ := eq_of_extract h
  rw [hv', remaining_of_use hmany]
  omega

end Ns3.NixVector
