import Ns3.Network.Buffer.Storage

/-! How a buffer gets room at its ends, in its storage or in a new one. -/

namespace Ns3.Memory

open Slice Buffer

variable {s s' : Memory} {a n : ℕ} {d d' : Data} {b b' o : Buffer} {bs : List Buffer} {making : List ℕ} {bytes : List UInt8}

theorem get_size_eq (h : Ordered b) : b.get_size = b.end_ - b.start := by
  have hstart := h.start
  have hzero := h.zero
  have hstop := h.stop
  exact sub32_eq (by omega) h.lt

theorem zero_size_eq (h : Ordered b) : b.zero_size = b.zero_area_end - b.zero_area_start :=
  sub32_eq h.zero (lt_of_le_of_lt h.stop h.lt)

theorem get_internal_end_eq (h : Ordered b) : b.get_internal_end = b.real_end := by
  have hstop := h.stop
  rw [get_internal_end, zero_size_eq h, sub32_eq (by omega) h.lt, real_end]

theorem get_internal_size_eq (h : Ordered b) : b.get_internal_size = b.real_end - b.start := by
  have hstart := h.start
  have hzero := h.zero
  have hstop := h.stop
  have hlt := h.lt
  rw [get_internal_size, real_end]
  unfold sub32 u32
  omega

theorem zero_area_start_le (h : Ordered b) : b.zero_area_start ≤ b.real_end := by
  have hzero := h.zero
  have hstop := h.stop
  rw [real_end]
  omega

theorem load_eq (hd : s.read a = some d) {offset size : ℕ} (hle : offset + size ≤ d.bytes.length) :
    s.load a offset size = some (slice d.bytes offset (offset + size)) := by
  rw [load]
  split
  next heq => rw [heq, Nat.add_zero, slice_self]
  next =>
    rw [hd]
    simp only [Option.bind_eq_bind, Option.bind_some]
    rw [if_pos hle]

theorem store_making {x : List UInt8} (h : Shared s making bs) (ha : a ∉ bs.map Buffer.data) (hmem : a ∈ making) (hd : s.read a = some d)
    {b : ℕ} (hle : b + x.length ≤ d.bytes.length) :
    ∃ s', s.store a b x = some s' ∧ Shared s' making bs ∧
      s'.read a = some { d with bytes := splice d.bytes b x } ∧ (∀ c, c ≠ a → s'.read c = s.read c) ∧
      s'.recommended_start = s.recommended_start := by
  by_cases hempty : x.length = 0
  · have hnil := List.length_eq_zero_iff.mp hempty
    subst hnil
    have hsame : splice d.bytes b [] = d.bytes := by simp [splice]
    exact ⟨s, rfl, h, by rw [hsame, hd], fun _ _ => rfl, rfl⟩
  · have hread := write_read hd { d with bytes := splice d.bytes b x }
    refine ⟨s.write a { d with bytes := splice d.bytes b x }, ?_, ?_, by rw [hread, if_pos rfl],
      fun c hc => (hread c).trans (if_neg hc), rfl⟩
    · rw [store, if_neg hempty, hd]
      simp only [Option.bind_eq_bind, Option.bind_some]
      rw [if_pos hle]
    · apply h.change hread
      · exact fun _ _ => rfl
      · exact fun o ho _ => ho
      · simp
      · intro e he
        cases he
        refine ⟨h.count _ d hd, ⟨(length_splice hle).trans (h.bytes _ d hd).1, (h.bytes _ d hd).2⟩, 0, fun o ho hoa => ?_⟩
        exact absurd (hoa ▸ List.mem_map_of_mem ho) ha
      · exact ⟨h.free.1, fun c hc _ => hc⟩
      · exact fun hfree => absurd (List.mem_append_left _ hmem) (h.free_not_owned hfree)
      · exact h.few

theorem move_spec (h : Shared s making (b :: bs)) (hd : s.read b.data = some d) {n g : ℕ}
    (hgap : g + (b.real_end - b.start) ≤ n) (hsize : n + 119 < 2 ^ 32)
    (hfew : (owners making (b :: bs)).length + 1 < 2 ^ 32) :
    ∃ a s' e, b.move s n g = some (a, s') ∧ Shared s' (a :: making) bs ∧ a ∉ owners making bs ∧
      s'.read a = some e ∧ e.count = 1 ∧ n ≤ e.size ∧
      slice e.bytes g (g + (b.real_end - b.start)) = slice d.bytes b.start b.real_end ∧
      (∀ o ∈ bs, s'.contents o = s.contents o) ∧ s'.recommended_start = s.recommended_start := by
  have hord := h.ordered List.mem_cons_self
  obtain ⟨z, hz⟩ := h.within _ d hd
  have hin := hz b List.mem_cons_self rfl
  have hfits := hin.fits
  have hstart := hord.start
  have hreal := zero_area_start_le hord
  obtain ⟨a, s₁, e, hs₁, hshared₁, hout, he, hcount, hle, hread₁, hrec₁⟩ := create_spec h hsize hfew
  have hbmem : b.data ∈ owners making (b :: bs) := by simp [owners]
  have hd₁ : s₁.read b.data = some d := (hread₁ _ hbmem).trans hd
  obtain ⟨hlength, _⟩ := h.bytes _ d hd
  have hload : s₁.load b.data b.start b.get_internal_size = some (slice d.bytes b.start b.real_end) := by
    rw [get_internal_size_eq hord, load_eq hd₁ (by omega)]
    congr 2
    omega
  have hslice : (slice d.bytes b.start b.real_end).length = b.real_end - b.start := length_slice (by omega)
  have hane : ∀ o ∈ b :: bs, o.data ≠ a := by
    rintro o ho rfl
    exact hout (List.mem_append_right _ (List.mem_map_of_mem ho))
  have hnotin : a ∉ (b :: bs).map Buffer.data := by
    intro hmem
    obtain ⟨o, ho, hoa⟩ := List.mem_map.mp hmem
    exact hane o ho hoa
  have helength := (hshared₁.bytes _ e he).1
  obtain ⟨s₂, hs₂, hshared₂, ha₂, hread₂, hrec₂⟩ :=
    store_making hshared₁ hnotin List.mem_cons_self he (b := g) (x := slice d.bytes b.start b.real_end) (by omega)
  obtain ⟨s₃, hs₃, hshared₃, hcontents₃, hread₃, hrec₃⟩ := release_spec hshared₂
  have hab : a ≠ b.data := (hane b List.mem_cons_self).symm
  refine ⟨a, s₃, { e with bytes := splice e.bytes g (slice d.bytes b.start b.real_end) }, ?_, hshared₃, ?_,
    (hread₃ a hab).trans ha₂, hcount, hle, ?_, fun o ho => ?_, by rw [hrec₃, hrec₂, hrec₁]⟩
  · rw [move, hs₁]
    simp only [Option.bind_eq_bind, Option.bind_some, hload, hs₂, hs₃]
  · intro hmem
    apply hout
    simp only [owners, List.mem_append, List.map_cons, List.mem_cons] at hmem ⊢
    tauto
  · rw [← hslice]
    exact slice_splice_self (by omega)
  · have hmem : o.data ∈ owners making (b :: bs) :=
      List.mem_append_right _ (List.mem_map_of_mem (List.mem_cons_of_mem b ho))
    rw [hcontents₃ o ho, contents_of_read (hread₂ _ (hane o (List.mem_cons_of_mem b ho))), contents_of_read (hread₁ _ hmem)]

theorem Shared.alone (h : Shared s making (b :: bs)) (hd : s.read b.data = some d) (hcount : d.count = 1) :
    ∀ o ∈ bs, o.data ≠ b.data := by
  intro o ho heq
  have hone := h.count _ d hd
  have hmem : b.data ∈ bs.map Buffer.data := heq ▸ List.mem_map_of_mem ho
  have hpos := List.count_pos_iff.mpr hmem
  simp only [owners, List.map_cons, List.count_append, List.count_cons_self] at hone
  omega

/-- A buffer with new bytes at its ends, as far as the offsets tell. -/
structure Stretched (b b' : Buffer) (front back : ℕ) : Prop where
  front : b'.zero_area_start - b'.start = b.zero_area_start - b.start + front
  zero : b'.zero_area_end - b'.zero_area_start = b.zero_area_end - b.zero_area_start
  back : b'.end_ - b'.zero_area_end = b.end_ - b.zero_area_end + back

theorem slice_parts {l l' : List UInt8} {x y z gap : ℕ} (hxy : x ≤ y) (hyz : y ≤ z)
    (h : slice l' gap (gap + (z - x)) = slice l x z) :
    slice l' gap (gap + (y - x)) = slice l x y ∧ slice l' (gap + (y - x)) (gap + (z - x)) = slice l y z := by
  have htake := congrArg (List.take (y - x)) h
  have hdrop := congrArg (List.drop (y - x)) h
  rw [take_slice (by omega), take_slice (by omega), Nat.add_sub_cancel' hxy] at htake
  rw [drop_slice, drop_slice, Nat.add_sub_cancel' hxy] at hdrop
  exact ⟨htake, hdrop⟩

theorem moved_spec (h : Shared s making (b :: bs)) (front back : ℕ) (hroom : b.end_ - b.start + front + back + 119 < 2 ^ 32)
    (hfew : (owners making (b :: bs)).length + 1 < 2 ^ 32) :
    ∃ a s₁ e, b.move s (b.real_end - b.start + front + back) front = some (a, s₁) ∧ s₁.read a = some e ∧
      a ∉ owners making bs ∧ s₁.recommended_start = s.recommended_start ∧
      ∀ m b' s', b' = ⟨a, m, b.zero_area_start - b.start + front, b.zero_area_end - b.start + front, 0,
          b.end_ - b.start + front + back⟩ →
        s' = s₁.write a { e with dirty_start := 0, dirty_end := b.end_ - b.start + front + back } →
        Shared s' making (b' :: bs) ∧ (∀ o ∈ bs, s'.contents o = s.contents o) ∧
          ∃ g g', g.length = front ∧ g'.length = back ∧ s'.contents b' = g ++ s.contents b ++ g' := by
  obtain ⟨d, hd⟩ := h.read List.mem_cons_self
  have hord := h.ordered List.mem_cons_self
  obtain ⟨hstart, hzero, hstop, hlt⟩ := hord
  have hreal : b.real_end = b.end_ - (b.zero_area_end - b.zero_area_start) := rfl
  obtain ⟨a, s₁, e, hs₁, hshared₁, hout, he, hcount, hle, hslice, hcontents, hrec⟩ :=
    move_spec h hd (n := b.real_end - b.start + front + back) (g := front) (by omega) (by omega) hfew
  refine ⟨a, s₁, e, hs₁, he, hout, hrec, ?_⟩
  rintro m b' s' hb' rfl
  obtain ⟨helength, hesize⟩ := hshared₁.bytes _ e he
  have hread := write_read he { e with dirty_start := 0, dirty_end := b.end_ - b.start + front + back }
  have hsum : b.real_end - b.start = b.zero_area_start - b.start + (b.end_ - b.zero_area_end) := by omega
  obtain ⟨hfirst, hlast⟩ := slice_parts (y := b.zero_area_start) hstart (by omega) hslice
  have hdata : b'.data = a := by rw [hb']
  refine ⟨?_, fun o ho => ?_, slice e.bytes 0 front,
    slice e.bytes (front + (b.real_end - b.start)) (front + (b.real_end - b.start) + back), ?_, ?_, ?_⟩
  · refine Shared.adopt { e with dirty_start := 0, dirty_end := b.end_ - b.start + front + back }
      (z := b.zero_area_end - b.zero_area_start) hshared₁ hout he hdata hcount ⟨helength, hesize⟩
      ⟨⟨?_, ?_, ?_, ?_⟩, ?_, ?_, ?_, fun _ => ?_, ?_⟩
    all_goals rw [hb']
    all_goals simp only [real_end]
    all_goals omega
  · have hne : o.data ≠ a := by
      rintro rfl
      exact hout (List.mem_append_right _ (List.mem_map_of_mem ho))
    rw [contents_of_read ((hread _).trans (if_neg hne)), hcontents o ho]
  · rw [length_slice (by omega), Nat.sub_zero]
  · rw [length_slice (by omega), Nat.add_sub_cancel_left]
  · have hnew := contents_eq ((hread b'.data).trans (if_pos hdata))
    have hzeros : b.zero_area_end - b.start + front - (b.zero_area_start - b.start + front) =
        b.zero_area_end - b.zero_area_start := by omega
    have hend : b.end_ - b.start + front + back - (b.zero_area_end - b.zero_area_start) =
        front + (b.real_end - b.start) + back := by omega
    rw [hnew, contents_eq hd, contents_in, contents_in, ← hfirst, ← hlast, hb']
    simp only [real_end, hzeros]
    rw [← real_end, hend, Nat.add_comm (b.zero_area_start - b.start) front,
      ← slice_append (a := 0) (b := front) (Nat.zero_le _) (by omega),
      ← slice_append (a := front + (b.zero_area_start - b.start)) (b := front + (b.real_end - b.start)) (by omega) (by omega)]
    simp only [List.append_assoc]

/-- `AddAtStart` puts free bytes before the bytes of a buffer, where no other buffer looks. -/
theorem add_at_start_spec (h : Shared s making (b :: bs)) (hroom : b.end_ - b.start + n + 119 < 2 ^ 32)
    (hfew : (owners making (b :: bs)).length + 1 < 2 ^ 32) :
    ∃ b' s' g, b.add_at_start s n = some (b', s') ∧ Shared s' making (b' :: bs) ∧
      (∀ o ∈ bs, s'.contents o = s.contents o) ∧ g.length = n ∧ s'.contents b' = g ++ s.contents b ∧
      Stretched b b' n 0 ∧ (∀ o ∈ bs, o.data = b'.data → b'.start + n ≤ o.start) ∧
      b'.end_ ≤ max b.end_ (b.end_ - b.start + n) ∧ s'.recommended_start = s.recommended_start ∧
      (b'.data = b.data ∨ b'.data ∉ owners making bs) := by
  obtain ⟨d, hd⟩ := h.read List.mem_cons_self
  have hord := h.ordered List.mem_cons_self
  obtain ⟨hstart, hzero, hstop, hlt⟩ := hord
  obtain ⟨z, hz⟩ := h.within _ d hd
  have hin := hz b List.mem_cons_self rfl
  obtain ⟨hlength, hsize⟩ := h.bytes _ d hd
  have hreal : b.real_end = b.end_ - (b.zero_area_end - b.zero_area_start) := rfl
  have hfits := hin.fits
  rw [add_at_start, hd]
  simp only [Option.bind_eq_bind, Option.bind_some]
  by_cases hplace : b.start ≥ n ∧ ¬ (d.count > 1 ∧ b.start > d.dirty_start)
  · -- nothing is moved: the bytes before the start are not seen by the other buffers of the storage
    rw [if_pos hplace]
    have hpos : 0 < d.count := by
      rw [h.count _ d hd]
      exact List.count_pos_iff.mpr (by simp [owners])
    have hdirty := hin.dirty_start
    have hassert : d.count = 1 ∨ b.start = d.dirty_start := by omega
    rw [if_pos hassert]
    have hothers : ∀ o ∈ bs, o.data = b.data → b.start ≤ o.start := by
      intro o ho hoa
      rcases hassert with hone | hfirst
      · exact absurd hoa (h.alone hd hone o ho)
      · exact hfirst ▸ (hz o (List.mem_cons_of_mem b ho) hoa).dirty_start
    have hread := write_read hd { d with dirty_start := b.start - n }
    refine ⟨_, _, slice d.bytes (b.start - n) b.start, rfl, ?_, fun o ho => ?_, ?_, ?_, ⟨?_, rfl, rfl⟩, fun o ho hoa => ?_,
      le_max_left _ _, rfl, .inl rfl⟩
    · refine Shared.update h hd rfl rfl ⟨hlength, hsize⟩ ⟨z, ⟨⟨?_, hzero, hstop, hlt⟩, le_rfl, hin.dirty_end, hin.real, hin.last,
        hin.fits⟩, fun o ho hoa => ?_⟩
      · exact (Nat.sub_le _ _).trans hstart
      · have hino := hz o (List.mem_cons_of_mem b ho) hoa
        refine ⟨hino.toOrdered, ?_, hino.dirty_end, hino.real, hino.last, hino.fits⟩
        exact (Nat.sub_le _ _).trans (hothers o ho hoa)
    · rw [contents, contents, hread]
      split
      next heq => rw [heq, hd]; rfl
      next => rfl
    · rw [length_slice (by omega)]
      omega
    · have hnew := contents_eq (b := ({ b with start := b.start - n } : Buffer).learn) ((hread _).trans (if_pos rfl))
      refine hnew.trans ?_
      rw [contents_eq hd, contents_in, contents_in]
      show slice d.bytes (b.start - n) b.zero_area_start ++ _ ++ _ = _
      rw [← slice_append (b := b.start) (Nat.sub_le _ _) hstart]
      simp only [List.append_assoc]
      rfl
    · show b.zero_area_start - (b.start - n) = _
      omega
    · show b.start - n + n ≤ o.start
      have hle := hothers o ho hoa
      omega
  · rw [if_neg hplace]
    obtain ⟨a, s₁, e, hs₁, he, hout, hrec, hspec⟩ := moved_spec h n 0 (by omega) hfew
    have hinternal : u32 (b.get_internal_size + n) = b.real_end - b.start + n + 0 := by
      rw [get_internal_size_eq ⟨hstart, hzero, hstop, hlt⟩, u32_eq (by omega)]
      rfl
    have hshift : ∀ x, b.start ≤ x → x ≤ b.end_ → u32 (x + sub32 n b.start) = x - b.start + n := by
      intro x hlo hhi
      unfold sub32 u32
      omega
    have hfirst : sub32 (u32 (b.start + sub32 n b.start)) n = 0 := by
      rw [hshift _ le_rfl (by omega), sub32_eq (by omega) (by omega)]
      omega
    simp only [hinternal, hs₁, Option.bind_some, shift, set_dirty, he, Option.map_some, hfirst,
      hshift b.zero_area_start hstart (by omega), hshift b.zero_area_end (by omega) hstop, hshift b.end_ (by omega) le_rfl]
    obtain ⟨hshared, hsame, g, g', hg, hg', hself⟩ := hspec _ _ _ rfl rfl
    rw [List.length_eq_zero_iff.mp hg', List.append_nil] at hself
    refine ⟨_, _, g, rfl, hshared, hsame, hg, hself, ⟨?_, ?_, ?_⟩, fun o ho hoa => ?_, ?_, hrec, .inr hout⟩
    case refine_4 =>
      have hoa : o.data = a := hoa
      exact absurd (List.mem_append_right _ (hoa ▸ List.mem_map_of_mem ho)) hout
    all_goals simp only [learn]
    all_goals omega

/-- `AddAtEnd` stays in the storage. -/
def extends_in_place (s : Memory) (b : Buffer) (n : ℕ) : Bool :=
  match s.read b.data with
  | none => false
  | some d => u32 (b.get_internal_end + n) ≤ d.size ∧ ¬ (d.count > 1 ∧ b.end_ < d.dirty_end)

/-- `AddAtEnd` puts free bytes behind the bytes of a buffer, where no other buffer looks. -/
theorem add_at_end_spec (h : Shared s making (b :: bs)) (hroom : b.end_ + n + 119 < 2 ^ 32)
    (hfew : (owners making (b :: bs)).length + 1 < 2 ^ 32) :
    ∃ b' s' g, b.add_at_end s n = some (b', s') ∧ Shared s' making (b' :: bs) ∧
      (∀ o ∈ bs, s'.contents o = s.contents o) ∧ g.length = n ∧ s'.contents b' = s.contents b ++ g ∧
      Stretched b b' 0 n ∧ (∀ o ∈ bs, o.data = b'.data → o.real_end + n ≤ b'.real_end) ∧
      b'.end_ ≤ b.end_ + n ∧ s'.recommended_start = s.recommended_start ∧
      (b'.data = b.data ∨ b'.data ∉ owners making bs) ∧
      (extends_in_place s b n = false → b'.data ∉ owners making bs) := by
  obtain ⟨d, hd⟩ := h.read List.mem_cons_self
  have hord := h.ordered List.mem_cons_self
  have hstart := hord.start
  have hzero := hord.zero
  have hstop := hord.stop
  obtain ⟨z, hz⟩ := h.within _ d hd
  have hin := hz b List.mem_cons_self rfl
  obtain ⟨hlength, hsize⟩ := h.bytes _ d hd
  have hreal : b.real_end = b.end_ - (b.zero_area_end - b.zero_area_start) := rfl
  have hfits := hin.fits
  have hinternal : u32 (b.get_internal_end + n) = b.real_end + n := by
    rw [get_internal_end_eq hord, u32_eq (by omega)]
  rw [add_at_end, hd]
  simp only [Option.bind_eq_bind, Option.bind_some, hinternal]
  by_cases hplace : b.real_end + n ≤ d.size ∧ ¬ (d.count > 1 ∧ b.end_ < d.dirty_end)
  · rw [if_pos hplace]
    have hextends : extends_in_place s b n = true := by
      rw [extends_in_place, hd]
      simpa only [hinternal, decide_eq_true_eq] using hplace
    have hpos : 0 < d.count := by
      rw [h.count _ d hd]
      exact List.count_pos_iff.mpr (by simp [owners])
    have hdirty := hin.dirty_end
    have hassert : d.count = 1 ∨ b.end_ = d.dirty_end := by omega
    rw [if_pos hassert]
    have hend : u32 (b.end_ + n) = b.end_ + n := u32_eq (by omega)
    -- a buffer that ends with the dirty area has the largest end in the storage
    have hothers : ∀ o ∈ bs, o.data = b.data → o.real_end ≤ b.real_end ∧ Within { d with dirty_end := b.end_ + n } z o := by
      intro o ho hoa
      rcases hassert with hone | hlast
      · exact absurd hoa (h.alone hd hone o ho)
      · have hino := hz o (List.mem_cons_of_mem b ho) hoa
        have hlastb := hin.last hlast
        have hrealo := hino.real
        have hdirtyo := hino.dirty_end
        refine ⟨by omega, hino.toOrdered, hino.dirty_start, ?_, ?_, fun heq => ?_, hino.fits⟩
        · show o.end_ ≤ b.end_ + n
          omega
        · show o.real_end + z ≤ b.end_ + n
          omega
        · have heq' : o.end_ = b.end_ + n := heq
          exact hino.last (by omega)
    have hread := write_read hd { d with dirty_end := b.end_ + n }
    simp only [hend]
    refine ⟨_, _, slice d.bytes b.real_end (b.real_end + n), rfl, ?_, fun o ho => ?_, ?_, ?_, ⟨rfl, rfl, ?_⟩,
      fun o ho hoa => ?_, le_rfl, rfl, .inl rfl, fun hno => absurd (hextends.symm.trans hno) (by simp)⟩
    · refine Shared.update h hd rfl rfl ⟨hlength, hsize⟩ ⟨b.zero_area_end - b.zero_area_start, ⟨⟨hstart, hzero, ?_, ?_⟩,
        hin.dirty_start, le_rfl, ?_, fun _ => rfl, ?_⟩, fun o ho hoa => ?_⟩
      · exact hstop.trans (Nat.le_add_right _ _)
      · show b.end_ + n < 2 ^ 32
        omega
      · show b.end_ + n - (b.zero_area_end - b.zero_area_start) + (b.zero_area_end - b.zero_area_start) ≤ b.end_ + n
        omega
      · show b.end_ + n - (b.zero_area_end - b.zero_area_start) ≤ d.size
        omega
      · rcases hassert with hone | hlast
        · exact absurd hoa (h.alone hd hone o ho)
        · exact hin.last hlast ▸ (hothers o ho hoa).2
    · rw [contents, contents, hread]
      split
      next heq => rw [heq, hd]; rfl
      next => rfl
    · rw [length_slice (by omega)]
      omega
    · have hnew := contents_eq (b := ({ b with end_ := b.end_ + n } : Buffer).learn) ((hread _).trans (if_pos rfl))
      refine hnew.trans ?_
      have hend' : b.end_ + n - (b.zero_area_end - b.zero_area_start) = b.real_end + n := by omega
      rw [contents_eq hd, contents_in, contents_in]
      simp only [learn]
      rw [real_end]
      simp only [hend']
      rw [← slice_append (b := b.real_end) (zero_area_start_le hord) (Nat.le_add_right _ _)]
      simp only [List.append_assoc]
    · show b.end_ + n - b.zero_area_end = _
      omega
    · show o.real_end + n ≤ b.end_ + n - (b.zero_area_end - b.zero_area_start)
      have hle := (hothers o ho hoa).1
      omega
  · rw [if_neg hplace]
    obtain ⟨a, s₁, e, hs₁, he, hout, hrec, hspec⟩ := moved_spec h 0 n (by omega) hfew
    have hinternal' : u32 (b.get_internal_size + n) = b.real_end - b.start + 0 + n := by
      rw [get_internal_size_eq hord, u32_eq (by omega)]
      rfl
    have hshift : ∀ x, b.start ≤ x → x ≤ b.end_ → u32 (x + sub32 0 b.start) = x - b.start + 0 := by
      intro x hlo hhi
      unfold sub32 u32
      omega
    have hend : u32 (b.end_ - b.start + 0 + n) = b.end_ - b.start + 0 + n := u32_eq (by omega)
    simp only [hinternal', hs₁, Option.bind_some, shift, set_dirty, he, Option.map_some, hshift b.start le_rfl (by omega),
      hshift b.zero_area_start hstart (by omega), hshift b.zero_area_end (by omega) hstop, hshift b.end_ (by omega) le_rfl,
      hend, Nat.sub_self]
    obtain ⟨hshared, hsame, g', g, hg', hg, hself⟩ := hspec _ _ _ rfl rfl
    rw [List.length_eq_zero_iff.mp hg', List.nil_append] at hself
    refine ⟨_, _, g, rfl, hshared, hsame, hg, hself, ⟨?_, ?_, ?_⟩, fun o ho hoa => ?_, ?_, hrec, .inr hout, fun _ => hout⟩
    case refine_4 =>
      have hoa : o.data = a := hoa
      exact absurd (List.mem_append_right _ (hoa ▸ List.mem_map_of_mem ho)) hout
    all_goals simp only [learn]
    all_goals omega

end Ns3.Memory
