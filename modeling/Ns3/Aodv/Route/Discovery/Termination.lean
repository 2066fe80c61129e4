import Ns3.Aodv.Route.Discovery.Rounds

namespace Ns3.Aodv.RoutingProtocol

variable {a : Attributes} {first ttl : UInt16} {rounds : List Round} {r : Round}

/-- The attributes of an expanding ring search that rises to the network diameter. -/
structure RingSearch (a : Attributes) : Prop where
  ttl_increment : 1 ≤ a.ttl_increment.toNat
  ttl_start : a.ttl_start.toNat ≤ a.ttl_threshold.toNat
  ttl_threshold : a.ttl_threshold.toNat < a.net_diameter.toNat
  net_diameter : a.net_diameter.toNat ≤ 255

/-- The TTL after `ttl` does not wrap, or is still above the threshold when it does. -/
def Rises (a : Attributes) (ttl : ℕ) : Prop :=
  ttl + a.ttl_increment.toNat < 2 ^ 16 ∨ a.ttl_threshold.toNat < ttl + a.ttl_increment.toNat - 2 ^ 16

/-- The time is one that the simulator can wait. -/
def Waitable (t : Time) : Prop := 0 ≤ t ∧ t < 2 ^ 63

/-- The condition for a discovery with the TTL `first` of its first request to end as it should. -/
structure Suitable (a : Attributes) (first : ℕ) : Prop where
  rate_limit : a.rreq_rate_limit ≠ 0
  retries : a.rreq_retries.toNat ≤ 31
  no_retry : a.rreq_retries = 0 → first < a.net_diameter.toNat
  rises : a.rreq_retries ≠ 0 → first < a.net_diameter.toNat → Rises a first
  stays : 2 ≤ a.rreq_retries.toNat → Rises a a.net_diameter.toNat
  ring : ∀ k, first + k * a.ttl_increment.toNat < a.net_diameter.toNat →
    k = 0 ∨ a.rreq_retries ≠ 0 ∧ first + k * a.ttl_increment.toNat ≤ a.ttl_threshold.toNat →
    Waitable (2 * a.node_traversal_time * ((first + k * a.ttl_increment.toNat : ℕ) + a.timeout_buffer.toNat))
  diameter : a.rreq_retries ≠ 0 → 0 < a.net_traversal_time ∧
    Waitable (a.net_traversal_time * 2 ^ (a.rreq_retries.toNat - 1))

section Climb

theorem toNat_climb (hring : RingSearch a) (hrises : Rises a ttl.toNat) : (climb a ttl).toNat =
    if a.ttl_threshold.toNat < ttl.toNat + a.ttl_increment.toNat then a.net_diameter.toNat
    else ttl.toNat + a.ttl_increment.toNat := by
  have hdiameter := hring.net_diameter
  have httl := ttl.toNat_lt
  have hincrement := a.ttl_increment.toNat_lt
  have hthreshold := a.ttl_threshold.toNat_lt
  have hsum : (ttl + a.ttl_increment).toNat = (ttl.toNat + a.ttl_increment.toNat) % 2 ^ 16 := UInt16.toNat_add ..
  unfold Rises at hrises
  unfold climb
  simp only [gt_iff_lt, UInt16.lt_iff_toNat_lt, hsum]
  split
  next hover =>
    rw [UInt32.toNat_toUInt16, if_pos (by omega)]
    omega
  next hunder =>
    rw [hsum, if_neg (by omega)]
    omega

theorem rises_of_climb (hring : RingSearch a) (h : ttl ≤ climb a ttl) : Rises a ttl.toNat := by
  have hdiameter := hring.net_diameter
  have hone := hring.ttl_increment
  have hlow := hring.ttl_threshold
  have httl := ttl.toNat_lt
  have hincrement := a.ttl_increment.toNat_lt
  have hsum : (ttl + a.ttl_increment).toNat = (ttl.toNat + a.ttl_increment.toNat) % 2 ^ 16 := UInt16.toNat_add ..
  unfold Rises
  by_contra hwraps
  have hclimb : (climb a ttl).toNat = ttl.toNat + a.ttl_increment.toNat - 2 ^ 16 := by
    unfold climb
    simp only [gt_iff_lt, UInt16.lt_iff_toNat_lt, hsum]
    rw [if_neg (by omega), hsum]
    omega
  rw [UInt16.le_iff_toNat_le, hclimb] at h
  omega

end Climb

section Delay

theorem waitable_filter {t retry : Time} : ((some t).filter fun t => 0 ≤ t ∧ t < 2 ^ 63) = some retry ↔
    t = retry ∧ Waitable t := by
  rw [Option.filter_eq_some_iff, Option.some.injEq]
  constructor
  · rintro ⟨rfl, hbounds⟩
    exact ⟨rfl, by simpa [Waitable] using hbounds⟩
  · rintro ⟨rfl, hbounds⟩
    exact ⟨rfl, by simpa [Waitable] using hbounds⟩

theorem round_delay_ring {count : UInt8} {retry : Time} (hbelow : ttl.toNat < a.net_diameter.toNat) :
    round_delay a ttl count = some retry ↔
      2 * a.node_traversal_time * (ttl.toNat + a.timeout_buffer.toNat) = retry ∧
        Waitable (2 * a.node_traversal_time * (ttl.toNat + a.timeout_buffer.toNat)) := by
  have hhops : ttl.toUInt32 < a.net_diameter := by rwa [UInt32.lt_iff_toNat_lt, UInt16.toNat_toUInt32]
  unfold round_delay rreq_retry_delay
  simp only [hhops, if_true]
  exact waitable_filter

theorem round_delay_diameter {count : ℕ} {retry : Time} (hat : ttl.toNat = a.net_diameter.toNat) (hone : 1 ≤ count)
    (hcount : count ≤ 31) : round_delay a ttl (UInt8.ofNat count) = some retry ↔
      a.net_traversal_time * 2 ^ (count - 1) = retry ∧ Waitable (a.net_traversal_time * 2 ^ (count - 1)) := by
  have hhops : ¬ ttl.toUInt32 < a.net_diameter := by rw [UInt32.lt_iff_toNat_lt, UInt16.toNat_toUInt32]; omega
  have hnat : (UInt8.ofNat count).toNat = count := by
    rw [UInt8.toNat_ofNat']
    omega
  have hpos : UInt8.ofNat count > 0 := by
    rw [gt_iff_lt, UInt8.lt_iff_toNat_lt, hnat]
    exact hone
  have hfactor : count - 1 ≤ 30 := by omega
  unfold round_delay rreq_retry_delay
  simp only [hhops, hpos, hnat, backoff, hfactor, if_true, if_false, Option.map_some]
  exact waitable_filter

theorem round_delay_overflow {retry : Time} (hat : ttl.toNat = a.net_diameter.toNat)
    (hdelay : round_delay a ttl (UInt8.ofNat 32) = some retry) : a.net_traversal_time ≤ 0 := by
  have hhops : ¬ ttl.toUInt32 < a.net_diameter := by rw [UInt32.lt_iff_toNat_lt, UInt16.toNat_toUInt32]; omega
  unfold round_delay rreq_retry_delay at hdelay
  simp only [hhops, if_false] at hdelay
  obtain ⟨-, hwaitable⟩ := waitable_filter.mp (show (some (a.net_traversal_time * (-2 ^ 31))).filter _ = _ from hdelay)
  have hneg : (0 : ℤ) ≤ a.net_traversal_time * (-2 ^ 31) := hwaitable.1
  show (a.net_traversal_time : ℤ) ≤ 0
  linarith

end Delay

section Placed

theorem usedUp_iff (hcount : diameters a rounds < 256) : UsedUp a rounds ↔ diameters a rounds = a.rreq_retries.toNat := by
  rw [UsedUp, tally, ← UInt32.toNat_inj, UInt8.toNat_toUInt32, UInt8.toNat_ofNat', Nat.mod_eq_of_lt hcount]

theorem diameters_snoc_toNat (a : Attributes) (rounds : List Round) (r : Round) : diameters a (rounds ++ [r]) =
    if r.ttl.toNat = a.net_diameter.toNat then diameters a rounds + 1 else diameters a rounds := by
  simp only [diameters_snoc, ← UInt32.toNat_inj, UInt16.toNat_toUInt32]

/-- Where a discovery is after its requests, the last with the TTL `ttl`: on its way up, or at
the network diameter for the time given by the count. -/
def Placed (a : Attributes) (first : ℕ) (rounds : List Round) (ttl : ℕ) : Prop :=
  (ttl < a.net_diameter.toNat ∧ diameters a rounds = 0 ∧ ∃ k, ttl = first + k * a.ttl_increment.toNat ∧
    rounds.length = k + 1 ∧ (k = 0 ∨ a.rreq_retries ≠ 0 ∧ ttl ≤ a.ttl_threshold.toNat)) ∨
  (ttl = a.net_diameter.toNat ∧ 1 ≤ diameters a rounds ∧ diameters a rounds ≤ a.rreq_retries.toNat ∧
    rounds.length ≤ a.net_diameter.toNat + diameters a rounds)

theorem placed_first {first : ℕ} (hsuitable : Suitable a first) (hfirst : first ≤ a.net_diameter.toNat)
    (hr : r.ttl.toNat = first) : Placed a first [r] first := by
  have hcount := diameters_snoc_toNat a [] r
  have hnone := hsuitable.no_retry
  rw [List.nil_append, hr, show diameters a [] = 0 from rfl] at hcount
  rcases hfirst.lt_or_eq with hbelow | hat
  · rw [if_neg hbelow.ne] at hcount
    exact .inl ⟨hbelow, hcount, 0, by simp, rfl, .inl rfl⟩
  · rw [if_pos hat] at hcount
    have hretries : a.rreq_retries.toNat ≠ 0 := by
      intro hzero
      have hlow := hnone (UInt32.toNat_inj.mp hzero)
      omega
    exact .inr ⟨hat, by omega, by omega, by simp only [List.length_singleton]; omega⟩

theorem rises_of_placed {first : ℕ} (hring : RingSearch a) (hsuitable : Suitable a first)
    (hplaced : Placed a first rounds ttl.toNat) (hleft : ¬ UsedUp a rounds) : Rises a ttl.toNat := by
  have hlow := hring.ttl_threshold
  have hdiameter := hring.net_diameter
  rcases hplaced with ⟨hbelow, hzero, k, hk, -, htop⟩ | ⟨hat, hone, hretries, -⟩
  · rw [usedUp_iff (by omega), hzero] at hleft
    have hnonzero : a.rreq_retries ≠ 0 := fun hz => hleft (by rw [hz]; rfl)
    rcases Nat.eq_zero_or_pos k with rfl | hpos
    · rw [hk, Nat.zero_mul, Nat.add_zero] at hbelow ⊢
      exact hsuitable.rises hnonzero hbelow
    · have hstep : a.ttl_increment.toNat ≤ k * a.ttl_increment.toNat := Nat.le_mul_of_pos_left _ hpos
      exact .inl (by omega)
  · have hbound := hsuitable.retries
    rw [usedUp_iff (by omega)] at hleft
    rw [hat]
    exact hsuitable.stays (by omega)

theorem placed_next {first : ℕ} (hring : RingSearch a) (hsuitable : Suitable a first)
    (hplaced : Placed a first rounds ttl.toNat) (hleft : ¬ UsedUp a rounds) (hr : r.ttl = climb a ttl) :
    Placed a first (rounds ++ [r]) r.ttl.toNat := by
  have hclimb := toNat_climb hring (rises_of_placed hring hsuitable hplaced hleft)
  have hcount := diameters_snoc_toNat a rounds r
  have hlow := hring.ttl_threshold
  have hdiameter := hring.net_diameter
  rw [← hr] at hclimb
  rcases hplaced with ⟨hbelow, hzero, k, hk, hlength, htop⟩ | ⟨hat, hone, hretries, hlength⟩
  · rw [usedUp_iff (by omega), hzero] at hleft
    have hkle : k ≤ k * a.ttl_increment.toNat := Nat.le_mul_of_pos_right k hring.ttl_increment
    split at hclimb
    next hover =>
      rw [if_pos hclimb, hzero] at hcount
      refine .inr ⟨hclimb, by omega, by omega, ?_⟩
      rw [List.length_append, List.length_singleton, hlength, hcount]
      omega
    next hunder =>
      rw [if_neg (by omega), hzero] at hcount
      have hnonzero : a.rreq_retries ≠ 0 := fun hz => hleft (by rw [hz]; rfl)
      refine .inl ⟨by omega, hcount, k + 1, ?_, by rw [List.length_append, List.length_singleton, hlength],
        .inr ⟨hnonzero, by omega⟩⟩
      rw [hclimb, hk, Nat.add_one_mul, Nat.add_assoc]
  · rw [usedUp_iff (by have := hsuitable.retries; omega)] at hleft
    rw [if_pos (by omega)] at hclimb
    rw [if_pos hclimb] at hcount
    refine .inr ⟨hclimb, by omega, by omega, ?_⟩
    rw [List.length_append, List.length_singleton, hcount]
    omega

theorem round_delay_of_placed {first : ℕ} (hsuitable : Suitable a first) (hplaced : Placed a first rounds ttl.toNat) :
    ∃ retry, round_delay a ttl (tally a rounds) = some retry ∧
      (ttl.toNat = a.net_diameter.toNat → retry = a.net_traversal_time * 2 ^ (diameters a rounds - 1)) := by
  rcases hplaced with ⟨hbelow, -, k, hk, -, htop⟩ | ⟨hat, hone, hretries, -⟩
  · have hwait := hsuitable.ring k (hk ▸ hbelow) (hk ▸ htop)
    rw [← hk] at hwait
    exact ⟨_, (round_delay_ring hbelow).mpr ⟨rfl, hwait⟩, fun hat => absurd hat hbelow.ne⟩
  · have hbound := hsuitable.retries
    obtain ⟨htime, hwait⟩ := hsuitable.diameter fun hz => by rw [hz] at hretries; exact absurd hretries (by simp; omega)
    have hpow : (2 : ℤ) ^ (diameters a rounds - 1) ≤ 2 ^ (a.rreq_retries.toNat - 1) :=
      pow_le_pow_right₀ (by decide) (by omega)
    have hwaitable : Waitable (a.net_traversal_time * 2 ^ (diameters a rounds - 1)) :=
      ⟨mul_nonneg htime.le (by positivity), lt_of_le_of_lt (mul_le_mul_of_nonneg_left hpow htime.le) hwait.2⟩
    exact ⟨_, (round_delay_diameter hat hone (by omega)).mpr ⟨rfl, hwaitable⟩, fun _ => rfl⟩

theorem Rounds.placed (hring : RingSearch a) (hsuitable : Suitable a first.toNat)
    (hfirst : first.toNat ≤ a.net_diameter.toNat) (h : Rounds a first rounds) :
    ∀ r, rounds.getLast? = some r → Placed a first.toNat rounds r.ttl.toNat := by
  induction h with
  | nil => intro r hr; cases hr
  | @snoc rounds r h hgoes httl hdelay hsent ih =>
    intro r' hr'
    rw [List.getLast?_concat] at hr'
    obtain rfl := Option.some.inj hr'
    cases hlast : rounds.getLast? with
    | none =>
      rw [hlast] at httl
      rw [List.getLast?_eq_none_iff.mp hlast]
      have hstart : r.ttl = first := httl
      rw [hstart]
      exact placed_first hsuitable hfirst (by rw [hstart])
    | some last =>
      rw [hlast] at httl
      refine placed_next hring hsuitable (ih last hlast) (hgoes ?_) httl
      rintro rfl
      cases hlast

end Placed

end Ns3.Aodv.RoutingProtocol

namespace Ns3.Aodv.RoutingProtocol

variable {s s' s₀ : RoutingProtocol} {dst : Ipv4Address} {phase : Phase} {rounds : List Round} {a : Attributes}
  {first : UInt16} {r r' : Round}

/-- The TTL rises until it is the network diameter; from then on it stays and the delay doubles. -/
def Climbs (a : Attributes) (r r' : Round) : Prop :=
  (r.ttl.toUInt32 < a.net_diameter → r.ttl < r'.ttl) ∧
    (r.ttl.toUInt32 = a.net_diameter → r'.ttl = r.ttl ∧ r'.delay = 2 * r.delay)

/-- How a discovery of `dst` should be, after its requests so far. -/
structure WellConducted (dst : Ipv4Address) (a : Attributes) (rounds : List Round) (phase : Phase)
    (s : RoutingProtocol) : Prop where
  climbs : rounds.IsChain (Climbs a)
  ttl : ∀ r ∈ rounds, r.ttl.toUInt32 ≤ a.net_diameter
  delay : ∀ r ∈ rounds, r.ttl.toUInt32 = a.net_diameter → 0 < r.delay
  sent : ∀ r ∈ rounds, r.sent = r.sockets.map fun iface => (iface.local_addr, r.ttl.toUInt8)
  diameters : diameters a rounds ≤ a.rreq_retries.toNat
  armed : phase = .waiting → ∃ due, s.address_req_timer[dst]? = some (some due) ∧ s.now ≤ due
  returns : phase ≠ .ended → (phase = .waiting → s.Due dst) → ∃ s', phase.call dst s = some s'
  limited : phase ≠ .ended → s.rreq_count = 0 → s.rreq_count ≠ s.attrs.rreq_rate_limit
  put_off : ∀ s', phase.Goes dst s → s.rreq_count = s.attrs.rreq_rate_limit → phase.call dst s = some s' →
    PutOff dst s s'
  ended : phase = .ended → RoutingProtocol.diameters a rounds = a.rreq_retries.toNat ∧ Forgotten dst s

/-- The discoveries of `dst` from a state end as they should. -/
def Terminates (dst : Ipv4Address) (s₀ : RoutingProtocol) : Prop :=
  (∃ n, ∀ rounds phase s, Discovery dst s₀ rounds phase s → rounds.length ≤ n) ∧
    ∀ rounds phase s, Discovery dst s₀ rounds phase s → WellConducted dst s₀.attrs rounds phase s

section Suitable

theorem toUInt32_lt_iff {x : UInt16} {y : UInt32} : x.toUInt32 < y ↔ x.toNat < y.toNat := by
  rw [UInt32.lt_iff_toNat_lt, UInt16.toNat_toUInt32]

theorem toUInt32_eq_iff {x : UInt16} {y : UInt32} : x.toUInt32 = y ↔ x.toNat = y.toNat := by
  rw [← UInt32.toNat_inj, UInt16.toNat_toUInt32]

theorem FirstTtl.le (hring : RingSearch s₀.attrs) (hunknown : Unknown dst s₀) (h : FirstTtl dst s₀ first) :
    first.toNat ≤ s₀.attrs.net_diameter.toNat := by
  have hstart : s₀.attrs.ttl_start.toNat ≤ s₀.attrs.net_diameter.toNat :=
    hring.ttl_start.trans hring.ttl_threshold.le
  have hdiameter := hring.net_diameter
  rcases h with rfl | ⟨rfl, -⟩
  · unfold next_ttl request_ttl
    cases hfound : (s₀.lookup_route dst).1 with
    | none => exact hstart
    | some e =>
      have hinvalid := (hunknown e hfound).1
      simp only [hinvalid, ne_eq, reduceCtorEq, not_false_eq_true, if_true]
      have hmin : min (e.hops + s₀.attrs.ttl_increment) s₀.attrs.net_diameter.toUInt16 ≤
          s₀.attrs.net_diameter.toUInt16 := by
        rw [UInt16.min_def]
        split
        next hle => exact hle
        next => exact UInt16.le_refl _
      rw [UInt16.le_iff_toNat_le, UInt32.toNat_toUInt16] at hmin
      exact hmin.trans (Nat.mod_le ..)
  · exact hstart

theorem Rounds.delay (h : Rounds a first rounds) (hlast : rounds.getLast? = some r) :
    round_delay a r.ttl (tally a rounds) = some r.delay := by
  cases h with
  | nil => cases hlast
  | snoc _ _ _ hdelay _ =>
    rw [List.getLast?_concat] at hlast
    obtain rfl := Option.some.inj hlast
    exact hdelay

variable (hring : RingSearch a) (hsuitable : Suitable a first.toNat) (hfirst : first.toNat ≤ a.net_diameter.toNat)
include hring hsuitable hfirst

theorem Rounds.delay_eq (h : Rounds a first rounds) (hlast : rounds.getLast? = some r)
    (hat : r.ttl.toNat = a.net_diameter.toNat) : r.delay = a.net_traversal_time * 2 ^ (diameters a rounds - 1) := by
  obtain ⟨retry, hretry, hdelay⟩ := round_delay_of_placed hsuitable (h.placed hring hsuitable hfirst r hlast)
  rw [← hdelay hat]
  exact Option.some.inj ((h.delay hlast).symm.trans hretry)

theorem Rounds.climbs (h : Rounds a first rounds) : rounds.IsChain (Climbs a) := by
  induction h with
  | nil => exact .nil
  | @snoc rounds r' h hgoes httl hdelay hsent ih =>
    refine List.isChain_append.mpr ⟨ih, .singleton r', ?_⟩
    intro r hlast r₁ hr₁
    obtain rfl : r' = r₁ := by simpa using hr₁
    have hplaced := h.placed hring hsuitable hfirst r hlast
    have hleft : ¬ UsedUp a rounds := hgoes (by rintro rfl; cases hlast)
    have hclimb := toNat_climb hring (rises_of_placed hring hsuitable hplaced hleft)
    have hnext : r'.ttl = climb a r.ttl := by rw [httl, Option.mem_def.mp hlast]; rfl
    have hlow := hring.ttl_threshold
    have hone := hring.ttl_increment
    rw [← hnext] at hclimb
    refine ⟨fun hbelow => ?_, fun hat => ?_⟩
    · rw [toUInt32_lt_iff] at hbelow
      rw [UInt16.lt_iff_toNat_lt]
      split at hclimb <;> omega
    · rw [toUInt32_eq_iff] at hat
      rw [if_pos (by omega)] at hclimb
      refine ⟨UInt16.toNat_inj.mp (hclimb.trans hat.symm), ?_⟩
      have hcount := diameters_snoc_toNat a rounds r'
      rw [if_pos hclimb] at hcount
      have hcounted : 1 ≤ diameters a rounds := by
        rcases hplaced with ⟨hbelow, -⟩ | ⟨-, hpos, -⟩
        · omega
        · exact hpos
      have hdelays := (h.snoc hgoes httl hdelay hsent).delay_eq hring hsuitable hfirst (List.getLast?_concat ..) hclimb
      rw [hdelays, h.delay_eq hring hsuitable hfirst hlast hat, hcount, Nat.add_sub_cancel]
      obtain ⟨n, hn⟩ := Nat.exists_eq_add_of_le' hcounted
      rw [hn, Nat.add_sub_cancel, pow_succ]
      ring

theorem Rounds.each (h : Rounds a first rounds) : ∀ r ∈ rounds, r.ttl.toNat ≤ a.net_diameter.toNat ∧
    (r.ttl.toNat = a.net_diameter.toNat → 0 < r.delay) ∧
      r.sent = r.sockets.map fun iface => (iface.local_addr, r.ttl.toUInt8) := by
  induction h with
  | nil => intro r hr; cases hr
  | @snoc rounds r' h hgoes httl hdelay hsent ih =>
    intro r hr
    rcases List.mem_append.mp hr with hr | hr
    · exact ih r hr
    · obtain rfl := List.mem_singleton.mp hr
      have hall := h.snoc hgoes httl hdelay hsent
      have hplaced := hall.placed hring hsuitable hfirst r (List.getLast?_concat ..)
      refine ⟨?_, fun hat => ?_, hsent⟩
      · rcases hplaced with ⟨hbelow, -⟩ | ⟨hat, -⟩ <;> omega
      · rw [hall.delay_eq hring hsuitable hfirst (List.getLast?_concat ..) hat]
        have hretries : a.rreq_retries ≠ 0 := by
          rcases hplaced with ⟨hbelow, -⟩ | ⟨-, hone, hmost, -⟩
          · omega
          · intro hzero
            rw [hzero] at hmost
            exact absurd (hone.trans hmost) (by decide)
        exact mul_pos (hsuitable.diameter hretries).1 (by positivity)

theorem Rounds.counts (h : Rounds a first rounds) : diameters a rounds ≤ a.rreq_retries.toNat ∧
    rounds.length ≤ a.net_diameter.toNat + a.rreq_retries.toNat := by
  cases hlast : rounds.getLast? with
  | none =>
    rw [List.getLast?_eq_none_iff.mp hlast]
    exact ⟨Nat.zero_le _, Nat.zero_le _⟩
  | some r =>
    rcases h.placed hring hsuitable hfirst r hlast with ⟨hbelow, hzero, k, hk, hlength, -⟩ | ⟨-, -, hmost, hlength⟩
    · have hkle : k ≤ k * a.ttl_increment.toNat := Nat.le_mul_of_pos_right k hring.ttl_increment
      omega
    · omega

end Suitable

section Forward

theorem Searching.delay_isSome (hring : RingSearch s₀.attrs) (hunknown : Unknown dst s₀)
    (hsuitable : ∀ first, FirstTtl dst s₀ first → Suitable s₀.attrs first.toNat)
    (h : Searching dst s₀ first rounds phase s) (hgoes : phase.Goes dst s) :
    ∃ retry, rreq_retry_delay s.attrs (s.searched dst) = some retry := by
  set r : Round := { ttl := s.next_ttl dst, delay := 0, sockets := [], sent := [] } with hr
  obtain ⟨hhops, hcount, hclimb⟩ := h.next hunknown hgoes r rfl
  have hplaced : ∃ first : UInt16, Suitable s₀.attrs first.toNat ∧
      Placed s₀.attrs first.toNat (rounds ++ [r]) r.ttl.toNat := by
    cases hlast : rounds.getLast? with
    | none =>
      obtain rfl := List.getLast?_eq_none_iff.mp hlast
      have hfirst := h.first_ttl hgoes
      exact ⟨_, hsuitable _ hfirst, placed_first (hsuitable _ hfirst) (hfirst.le hring hunknown) rfl⟩
    | some last =>
      have hne : rounds ≠ [] := by rintro rfl; cases hlast
      have hfirst := h.may_start hne
      have hmade := h.made.placed hring (hsuitable _ hfirst) (hfirst.le hring hunknown) last hlast
      exact ⟨first, hsuitable _ hfirst,
        placed_next hring (hsuitable _ hfirst) hmade (h.not_used_up hgoes hne) (hclimb last hlast)⟩
  obtain ⟨first, hfirst, hplaced⟩ := hplaced
  obtain ⟨retry, hretry, -⟩ := round_delay_of_placed hfirst hplaced
  exact ⟨retry, by rw [rreq_retry_delay_eq, h.attrs, hhops, hcount, hretry]⟩

theorem Searching.returns (hring : RingSearch s₀.attrs) (hunknown : Unknown dst s₀)
    (hsuitable : ∀ first, FirstTtl dst s₀ first → Suitable s₀.attrs first.toNat)
    (h : Searching dst s₀ first rounds phase s) (hopen : phase ≠ .ended) (hdue : phase = .waiting → s.Due dst) :
    ∃ s', phase.call dst s = some s' := by
  by_cases hgoes : phase.Goes dst s
  · by_cases hlimit : s.rreq_count = s.attrs.rreq_rate_limit
    · obtain ⟨s', hcall, -⟩ := call_put_off hgoes hdue hlimit
      exact ⟨s', hcall⟩
    · obtain ⟨f, hcall, -⟩ := call_requested hgoes hdue hlimit
      obtain ⟨retry, hretry⟩ := h.delay_isSome hring hunknown hsuitable hgoes
      exact ⟨f retry, by rw [hcall, hretry]; rfl⟩
  · cases phase with
    | requesting => exact absurd (.inl rfl) hgoes
    | waiting =>
      have hstop : ¬ s.Continues dst := fun hcontinues => hgoes (.inr ⟨rfl, hcontinues⟩)
      obtain ⟨hne, -⟩ := h.waiting rfl
      obtain ⟨r, e, -, he, hin, -⟩ := (h.entry hopen).of_ne_nil hne
      obtain ⟨s', hs', -⟩ := expire_of_not_continues (hdue rfl) he hin hstop
      exact ⟨s', hs'⟩
    | ended => exact absurd rfl hopen

theorem Discovery.wellConducted (hring : RingSearch s₀.attrs) (hunknown : Unknown dst s₀)
    (hsuitable : ∀ first, FirstTtl dst s₀ first → Suitable s₀.attrs first.toNat)
    (h : Discovery dst s₀ rounds phase s) :
    WellConducted dst s₀.attrs rounds phase s ∧
      rounds.length ≤ s₀.attrs.net_diameter.toNat + s₀.attrs.rreq_retries.toNat := by
  obtain ⟨first, hs⟩ := h.searching hunknown
  have hlimit : s₀.attrs.rreq_rate_limit ≠ 0 := (hsuitable _ (.inl rfl)).rate_limit
  have hrounds : rounds.IsChain (Climbs s₀.attrs) ∧ (∀ r ∈ rounds, r.ttl.toNat ≤ s₀.attrs.net_diameter.toNat ∧
      (r.ttl.toNat = s₀.attrs.net_diameter.toNat → 0 < r.delay) ∧
        r.sent = r.sockets.map fun iface => (iface.local_addr, r.ttl.toUInt8)) ∧
      diameters s₀.attrs rounds ≤ s₀.attrs.rreq_retries.toNat ∧
        rounds.length ≤ s₀.attrs.net_diameter.toNat + s₀.attrs.rreq_retries.toNat := by
    by_cases hne : rounds = []
    · subst hne
      exact ⟨.nil, fun r hr => absurd hr List.not_mem_nil, Nat.zero_le _, Nat.zero_le _⟩
    · have hfirst := hs.may_start hne
      have hsuit := hsuitable first hfirst
      have hle := hfirst.le hring hunknown
      exact ⟨hs.made.climbs hring hsuit hle, hs.made.each hring hsuit hle, hs.made.counts hring hsuit hle⟩
  obtain ⟨hclimbs, heach, hcounts, hlength⟩ := hrounds
  refine ⟨⟨hclimbs, ?_, ?_, fun r hr => (heach r hr).2.2, hcounts, fun hwaiting => (hs.waiting hwaiting).2,
    hs.returns hring hunknown hsuitable, ?_, fun s' hgoes hlimited => put_off_of_call hgoes hlimited, ?_⟩, hlength⟩
  · intro r hr
    rw [UInt32.le_iff_toNat_le, UInt16.toNat_toUInt32]
    exact (heach r hr).1
  · intro r hr hat
    exact (heach r hr).2.1 (toUInt32_eq_iff.mp hat)
  · intro _ hzero
    rw [hzero, hs.attrs]
    exact hlimit.symm
  · intro hended
    obtain ⟨hne, hused, hforgotten⟩ := hs.ended hended
    have hretries := (hsuitable first (hs.may_start hne)).retries
    exact ⟨(usedUp_iff (by omega)).mp hused, hforgotten⟩

end Forward

end Ns3.Aodv.RoutingProtocol
