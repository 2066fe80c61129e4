import Ns3.Aodv.Route.Discovery.Termination

namespace Ns3.Aodv.RoutingProtocol

variable {s s' s₀ : RoutingProtocol} {dst : Ipv4Address} {phase : Phase} {rounds : List Round} {a : Attributes}
  {first : UInt16} {r r' : Round}

section Reached

/-- The requests of some discovery that starts with the TTL `first` and waits for an answer. -/
def Reached (dst : Ipv4Address) (s₀ : RoutingProtocol) (first : UInt16) (rounds : List Round) : Prop :=
  Rounds s₀.attrs first rounds ∧ ∃ s, Discovery dst s₀ rounds .waiting s

theorem lookup_search_at {e : RoutingTableEntry} (he : (s.lookup_route dst).1 = some e) (hin : e.flag = .in_search)
    (hs' : s'.routing_table = s.routing_table) : (s'.lookup_route dst).1 = some e := by
  have hstored : s.routing_table.entries[dst]? = some e := by
    have hpurged : (s.routing_table.purge s.now).entries[dst]? = some e := he
    rw [RoutingTable.getElem?_purge] at hpurged
    obtain ⟨e₀, he₀, hpurge⟩ := Option.bind_eq_some_iff.mp hpurged
    unfold RoutingTable.purge_entry at hpurge
    split at hpurge
    · split at hpurge
      · cases hpurge
      · next hvalid =>
        have hflag := Option.some.inj hpurge ▸ hin
        simp [RoutingTableEntry.invalidate, hvalid] at hflag
      · rw [← Option.some.inj hpurge, he₀]
    · rw [← Option.some.inj hpurge, he₀]
  exact purge_keeps_search (by rw [hs', hstored]) hin s'.now

theorem Rounds.head (h : Rounds a first rounds) (hhead : rounds.head? = some r) : r.ttl = first := by
  induction h with
  | nil => cases hhead
  | @snoc rounds r' h hgoes httl hdelay hsent ih =>
    cases rounds with
    | nil =>
      obtain rfl : r' = r := by simpa using hhead
      exact httl
    | cons r₀ rest => exact ih (by simpa using hhead)

theorem Rounds.climb (h : Rounds a first (rounds ++ [r'])) (hlast : rounds.getLast? = some r) :
    r'.ttl = RoutingProtocol.climb a r.ttl := by
  generalize hall : rounds ++ [r'] = all at h
  cases h with
  | nil => simp at hall
  | @snoc rounds' r₁ h hgoes httl hdelay hsent =>
    obtain ⟨rfl, hr⟩ := List.append_inj' hall rfl
    obtain rfl := List.singleton_inj.mp hr
    rw [httl, hlast]
    rfl

theorem Terminates.request (h : Terminates dst s₀) (hd : Discovery dst s₀ rounds phase s) (hgoes : phase.Goes dst s)
    (hdue : phase = .waiting → s.Due dst) (hcount : s.rreq_count = 0) :
    ∃ s', Discovery dst s₀ (rounds ++ [round dst s s']) .waiting s' := by
  have hopen := hgoes.ne_ended
  have hwell := h.2 _ _ _ hd
  obtain ⟨s', hcall⟩ := hwell.returns hopen hdue
  exact ⟨s', hd.request hgoes (hwell.limited hopen hcount) hcall⟩

theorem Terminates.reached_first (hunknown : Unknown dst s₀) (h : Terminates dst s₀) (hfirst : FirstTtl dst s₀ first) : ∃ r, r.ttl = first ∧ Reached dst s₀ first [r] := by
  have hstart : ∃ s, Elsewhere dst s₀ s ∧ s.rreq_count = 0 ∧ s.next_ttl dst = first := by
    rcases hfirst with rfl | ⟨rfl, hinvalid⟩
    · exact ⟨{ s₀ with rreq_count := 0 }, ⟨rfl, le_refl _, fun due _ hdue => hdue, rfl, .inl rfl⟩, rfl, rfl⟩
    · let table := s₀.routing_table.delete_route s₀.now dst
      have hnone : (({ s₀ with rreq_count := 0, routing_table := table } : RoutingProtocol).lookup_route dst).1 = none := by
        show (table.purge s₀.now).entries[dst]? = none
        rw [RoutingTable.getElem?_purge, RoutingTable.getElem?_delete_route, if_pos rfl]
        rfl
      refine ⟨{ s₀ with rreq_count := 0, routing_table := table }, ?_, rfl, ?_⟩
      · exact ⟨rfl, le_refl _, fun due _ hdue => hdue, rfl, .inr ⟨hnone, hinvalid⟩⟩
      · rw [next_ttl, hnone]
        rfl
  obtain ⟨s, helsewhere, hcount, hnext⟩ := hstart
  have hd : Discovery dst s₀ [] .requesting s := Discovery.start.elsewhere (by simp) helsewhere
  obtain ⟨s', hrequested⟩ := h.request hd (.inl rfl) (fun hwaiting => by cases hwaiting) hcount
  obtain ⟨first', hs'⟩ := hrequested.searching hunknown
  have hmade := hs'.made
  rw [List.nil_append] at hrequested hmade
  have hhead : first = first' := hnext.symm.trans (hmade.head rfl)
  exact ⟨_, hnext, hhead ▸ hmade, s', hrequested⟩

theorem Terminates.reached_next (hunknown : Unknown dst s₀) (h : Terminates dst s₀)
    (hreached : Reached dst s₀ first rounds) (hne : rounds ≠ [])
    (hleft : ¬ UsedUp s₀.attrs rounds) : ∃ r, Reached dst s₀ first (rounds ++ [r]) := by
  obtain ⟨hmade, s, hd⟩ := hreached
  obtain ⟨first', hs⟩ := hd.searching hunknown
  obtain ⟨-, due, hdue, htime⟩ := hs.waiting rfl
  obtain ⟨r, e, hlast, he, hin, hhops, hcount⟩ := (hs.entry (by simp)).of_ne_nil hne
  set s₁ : RoutingProtocol := { s with now := due, rreq_count := 0 } with hs₁
  have he₁ : (s₁.lookup_route dst).1 = some e := lookup_search_at he hin rfl
  have helsewhere : Elsewhere dst s s₁ := by
    refine ⟨rfl, htime, fun due' hdue' _ => ?_, rfl, .inl (he₁.trans he.symm)⟩
    obtain rfl := Option.some.inj (Option.some.inj (hdue.symm.trans hdue'))
    exact le_refl _
  have hcontinues : s₁.Continues dst := by
    refine ⟨e, he₁, hin, ?_⟩
    rw [hcount]
    show (tally s₀.attrs rounds).toUInt32 ≠ s.attrs.rreq_retries
    rw [hs.attrs]
    exact hleft
  obtain ⟨s', hrequested⟩ := h.request (hd.elsewhere (by simp) helsewhere) (.inr ⟨rfl, hcontinues⟩)
    (fun _ => hdue) rfl
  obtain ⟨first', hs'⟩ := hrequested.searching hunknown
  obtain ⟨r₀, rest, rfl⟩ := List.exists_cons_of_ne_nil hne
  have hhead : first = first' := (hmade.head (r := r₀) rfl).symm.trans (hs'.made.head rfl)
  exact ⟨_, hhead ▸ hs'.made, s', hrequested⟩

end Reached

section Necessity

theorem Climbs.rises (hring : RingSearch a) (h : Climbs a r r') (hnext : r'.ttl = climb a r.ttl)
    (hle : r.ttl.toNat ≤ a.net_diameter.toNat) : Rises a r.ttl.toNat := by
  refine rises_of_climb hring ?_
  rw [← hnext, UInt16.le_iff_toNat_le]
  rcases hle.lt_or_eq with hbelow | hat
  · exact (UInt16.lt_iff_toNat_lt.mp (h.1 (toUInt32_lt_iff.mpr hbelow))).le
  · rw [(h.2 (toUInt32_eq_iff.mpr hat)).1]

variable (hring : RingSearch s₀.attrs) (hunknown : Unknown dst s₀) (h : Terminates dst s₀)

include h in
theorem Terminates.last_le (hreached : Reached dst s₀ first rounds) (hlast : rounds.getLast? = some r) :
    r.ttl.toNat ≤ s₀.attrs.net_diameter.toNat := by
  obtain ⟨-, s, hd⟩ := hreached
  have hle := (h.2 _ _ _ hd).ttl r (List.mem_of_getLast? hlast)
  rwa [UInt32.le_iff_toNat_le, UInt16.toNat_toUInt32] at hle

include hunknown h in
theorem Terminates.step (hreached : Reached dst s₀ first rounds) (hlast : rounds.getLast? = some r)
    (hleft : ¬ UsedUp s₀.attrs rounds) : ∃ r', Reached dst s₀ first (rounds ++ [r']) ∧
      r'.ttl = climb s₀.attrs r.ttl ∧ Climbs s₀.attrs r r' := by
  obtain ⟨r', hmade, s, hd⟩ := h.reached_next hunknown hreached (by rintro rfl; cases hlast) hleft
  have hchain := (List.isChain_append.mp (h.2 _ _ _ hd).climbs).2.2 r hlast r' (by simp)
  exact ⟨r', ⟨hmade, s, hd⟩, hmade.climb hlast, hchain⟩

include hring hunknown h in
theorem Terminates.reaches_ring (hfirst : FirstTtl dst s₀ first) (k : ℕ)
    (hbelow : first.toNat + k * s₀.attrs.ttl_increment.toNat < s₀.attrs.net_diameter.toNat)
    (hrung : k = 0 ∨ s₀.attrs.rreq_retries ≠ 0 ∧
      first.toNat + k * s₀.attrs.ttl_increment.toNat ≤ s₀.attrs.ttl_threshold.toNat) :
    ∃ rounds r, Reached dst s₀ first rounds ∧ rounds.getLast? = some r ∧
      r.ttl.toNat = first.toNat + k * s₀.attrs.ttl_increment.toNat ∧ diameters s₀.attrs rounds = 0 := by
  induction k with
  | zero =>
    obtain ⟨r, rfl, hreached⟩ := h.reached_first hunknown hfirst
    rw [Nat.zero_mul, Nat.add_zero] at hbelow
    refine ⟨[r], r, hreached, rfl, by simp, ?_⟩
    exact (diameters_snoc_toNat s₀.attrs [] r).trans (if_neg hbelow.ne)
  | succ k ih =>
    obtain ⟨hretries, hlow⟩ := hrung.resolve_left (by omega)
    rw [Nat.add_one_mul, ← Nat.add_assoc] at hbelow hlow
    obtain ⟨rounds, r, hreached, hlast, httl, hzero⟩ := ih (by omega) (.inr ⟨hretries, by omega⟩)
    have hleft : ¬ UsedUp s₀.attrs rounds := by
      rw [usedUp_iff (by omega), hzero]
      exact fun heq => hretries (UInt32.toNat_inj.mp heq.symm)
    obtain ⟨r', hreached', hnext, hclimbs⟩ := h.step hunknown hreached hlast hleft
    have hclimb := toNat_climb hring (hclimbs.rises hring hnext (h.last_le hreached hlast))
    rw [← hnext, httl, if_neg (by omega)] at hclimb
    refine ⟨_, r', hreached', List.getLast?_concat .., by rw [hclimb, Nat.add_one_mul, Nat.add_assoc], ?_⟩
    rw [diameters_snoc_toNat, if_neg (by omega), hzero]

include hunknown h in
theorem Terminates.reaches_diameter_of (hretries : s₀.attrs.rreq_retries ≠ 0) (n : ℕ)
    (hreached : Reached dst s₀ first rounds) (hlast : rounds.getLast? = some r)
    (hbelow : r.ttl.toNat < s₀.attrs.net_diameter.toNat) (hzero : diameters s₀.attrs rounds = 0)
    (hn : s₀.attrs.net_diameter.toNat ≤ r.ttl.toNat + n) :
    ∃ rounds r, Reached dst s₀ first rounds ∧ rounds.getLast? = some r ∧
      r.ttl.toNat = s₀.attrs.net_diameter.toNat ∧ diameters s₀.attrs rounds = 1 := by
  induction n generalizing rounds r with
  | zero => omega
  | succ n ih =>
    have hleft : ¬ UsedUp s₀.attrs rounds := by
      rw [usedUp_iff (by omega), hzero]
      exact fun heq => hretries (UInt32.toNat_inj.mp heq.symm)
    obtain ⟨r', hreached', -, hclimbs⟩ := h.step hunknown hreached hlast hleft
    have hlast' : (rounds ++ [r']).getLast? = some r' := List.getLast?_concat ..
    have hrises := UInt16.lt_iff_toNat_lt.mp (hclimbs.1 (toUInt32_lt_iff.mpr hbelow))
    have hcount := diameters_snoc_toNat s₀.attrs rounds r'
    rcases (h.last_le hreached' hlast').lt_or_eq with hlow | hat
    · rw [if_neg hlow.ne, hzero] at hcount
      exact ih hreached' hlast' hlow hcount (by omega)
    · rw [if_pos hat, hzero] at hcount
      exact ⟨_, r', hreached', hlast', hat, hcount⟩

include hring hunknown h in
/-- Every count up to that of the retries is reached at the network diameter, if it is small. -/
theorem Terminates.reaches_count (hfirst : FirstTtl dst s₀ first) (j : ℕ) (hj : j < s₀.attrs.rreq_retries.toNat)
    (hsmall : j < 255) : ∃ rounds r, Reached dst s₀ first rounds ∧ rounds.getLast? = some r ∧
      r.ttl.toNat = s₀.attrs.net_diameter.toNat ∧ diameters s₀.attrs rounds = j + 1 := by
  induction j with
  | zero =>
    have hretries : s₀.attrs.rreq_retries ≠ 0 := fun hz => by rw [hz] at hj; exact absurd hj (by decide)
    obtain ⟨r, rfl, hreached⟩ := h.reached_first hunknown hfirst
    have hcount := diameters_snoc_toNat s₀.attrs [] r
    rcases (hfirst.le hring hunknown).lt_or_eq with hlow | hat
    · exact h.reaches_diameter_of hunknown hretries s₀.attrs.net_diameter.toNat hreached rfl hlow
        (hcount.trans (if_neg hlow.ne)) (by omega)
    · exact ⟨[r], r, hreached, rfl, hat, hcount.trans (if_pos hat)⟩
  | succ j ih =>
    obtain ⟨rounds, r, hreached, hlast, hat, hcount⟩ := ih (by omega) (by omega)
    have hleft : ¬ UsedUp s₀.attrs rounds := by
      rw [usedUp_iff (by omega), hcount]
      omega
    obtain ⟨r', hreached', -, hclimbs⟩ := h.step hunknown hreached hlast hleft
    have hsame := (hclimbs.2 (toUInt32_eq_iff.mpr hat)).1
    refine ⟨_, r', hreached', List.getLast?_concat .., by rw [hsame, hat], ?_⟩
    rw [diameters_snoc_toNat, hsame, if_pos hat, hcount]

include hring hunknown h in
theorem Terminates.delay_at (hfirst : FirstTtl dst s₀ first) (j : ℕ) (hj : j < s₀.attrs.rreq_retries.toNat)
    (hsmall : j < 255) : ∃ (ttl : UInt16) (retry : Time), ttl.toNat = s₀.attrs.net_diameter.toNat ∧
      round_delay s₀.attrs ttl (UInt8.ofNat (j + 1)) = some retry ∧ 0 < retry := by
  obtain ⟨rounds, r, ⟨hmade, s, hd⟩, hlast, hat, hcount⟩ := h.reaches_count hring hunknown hfirst j hj hsmall
  refine ⟨r.ttl, r.delay, hat, ?_, ?_⟩
  · rw [← hcount]
    exact hmade.delay hlast
  · exact (h.2 _ _ _ hd).delay r (List.mem_of_getLast? hlast) (toUInt32_eq_iff.mpr hat)

include hring hunknown h in
theorem Terminates.suitable (hfirst : FirstTtl dst s₀ first) : Suitable s₀.attrs first.toNat := by
  have hle := hfirst.le hring hunknown
  have hpositive : s₀.attrs.rreq_retries ≠ 0 → 0 < s₀.attrs.net_traversal_time := by
    intro hretries
    have hpos : 0 < s₀.attrs.rreq_retries.toNat := Nat.pos_of_ne_zero fun hz => hretries (UInt32.toNat_inj.mp hz)
    obtain ⟨ttl, retry, hat, hdelay, htime⟩ := h.delay_at hring hunknown hfirst 0 hpos (by omega)
    obtain ⟨rfl, -⟩ := (round_delay_diameter hat (le_refl 1) (by omega)).mp hdelay
    simpa using htime
  have hretries : s₀.attrs.rreq_retries.toNat ≤ 31 := by
    by_contra hmany
    obtain ⟨ttl, retry, hat, hdelay, -⟩ := h.delay_at hring hunknown hfirst 31 (by omega) (by omega)
    have hnonzero : s₀.attrs.rreq_retries ≠ 0 := fun hz => hmany (by rw [hz]; decide)
    exact absurd (hpositive hnonzero) (not_lt.mpr (round_delay_overflow hat hdelay))
  constructor
  case rate_limit =>
    have helsewhere : Elsewhere dst s₀ { s₀ with rreq_count := 0 } :=
      ⟨rfl, le_refl _, fun due _ hdue => hdue, rfl, .inl rfl⟩
    exact ((h.2 _ _ _ (Discovery.start.elsewhere (by simp) helsewhere)).limited (by simp) rfl).symm
  case retries => exact hretries
  case no_retry =>
    intro hzero
    obtain ⟨r, rfl, -, s, hd⟩ := h.reached_first hunknown hfirst
    have hmost := (h.2 _ _ _ hd).diameters
    rw [show [r] = [] ++ [r] from rfl, diameters_snoc_toNat, hzero] at hmost
    refine lt_of_le_of_ne hle fun hat => ?_
    rw [if_pos hat] at hmost
    exact absurd hmost (Nat.not_succ_le_zero _)
  case rises =>
    intro hnonzero hbelow
    obtain ⟨r, rfl, hreached⟩ := h.reached_first hunknown hfirst
    have hcount : diameters s₀.attrs [r] = 0 := (diameters_snoc_toNat s₀.attrs [] r).trans (if_neg hbelow.ne)
    have hleft : ¬ UsedUp s₀.attrs [r] := by
      rw [usedUp_iff (by omega), hcount]
      exact fun heq => hnonzero (UInt32.toNat_inj.mp heq.symm)
    obtain ⟨r', -, hnext, hclimbs⟩ := h.step hunknown hreached rfl hleft
    exact hclimbs.rises hring hnext hle
  case stays =>
    intro htwo
    obtain ⟨rounds, r, hreached, hlast, hat, hcount⟩ := h.reaches_count hring hunknown hfirst 0 (by omega) (by omega)
    have hleft : ¬ UsedUp s₀.attrs rounds := by
      rw [usedUp_iff (by omega), hcount]
      omega
    obtain ⟨r', -, hnext, hclimbs⟩ := h.step hunknown hreached hlast hleft
    rw [← hat]
    exact hclimbs.rises hring hnext hat.le
  case ring =>
    intro k hbelow hrung
    obtain ⟨rounds, r, ⟨hmade, -⟩, hlast, httl, -⟩ := h.reaches_ring hring hunknown hfirst k hbelow hrung
    obtain ⟨-, hwait⟩ := (round_delay_ring (by rw [httl]; exact hbelow)).mp (hmade.delay hlast)
    rwa [httl] at hwait
  case diameter =>
    intro hnonzero
    have hpos : 0 < s₀.attrs.rreq_retries.toNat := Nat.pos_of_ne_zero fun hz => hnonzero (UInt32.toNat_inj.mp hz)
    obtain ⟨ttl, retry, hat, hdelay, -⟩ :=
      h.delay_at hring hunknown hfirst (s₀.attrs.rreq_retries.toNat - 1) (by omega) (by omega)
    rw [Nat.sub_add_cancel hpos] at hdelay
    exact ⟨hpositive hnonzero, ((round_delay_diameter hat hpos hretries).mp hdelay).2⟩

end Necessity

theorem Run.unknown (hrun : Run Transition.Always s₀)
    (hinvalid : ∀ e, (s₀.lookup_route dst).1 = some e → e.flag = .invalid) : Unknown dst s₀ := by
  intro e he
  refine ⟨hinvalid e he, ((Run.sound hrun).purge s₀.now).uncounted dst e he ?_⟩
  rw [hinvalid e he]
  simp

/-- The discoveries of a destination without a known route end as they should exactly if the
attributes suit each TTL that the first request may have. -/
theorem discovery_terminates_iff (hrun : Run Transition.Always s₀) (hring : RingSearch s₀.attrs)
    (hinvalid : ∀ e, (s₀.lookup_route dst).1 = some e → e.flag = .invalid) :
    Terminates dst s₀ ↔ ∀ first, FirstTtl dst s₀ first → Suitable s₀.attrs first.toNat := by
  have hunknown := Run.unknown hrun hinvalid
  constructor
  · intro h first hfirst
    exact h.suitable hring hunknown hfirst
  · intro hsuitable
    refine ⟨⟨_, fun rounds phase s hd => (hd.wellConducted hring hunknown hsuitable).2⟩, fun rounds phase s hd => ?_⟩
    exact (hd.wellConducted hring hunknown hsuitable).1

namespace Station

/-- The default attributes with another number of retries. -/
def retrying (retries : UInt32) : Attributes := { rreq_retries := retries, arithmetic := .default }

theorem retrying_ring (retries : UInt32) : RingSearch (retrying retries) :=
  ⟨show 1 ≤ 2 by decide, show 1 ≤ 7 by decide, show 7 < 35 by decide, show 35 ≤ 255 by decide⟩

/-- The station with these attributes, with its interface up. -/
def searching_station (retries : UInt32) : Option RoutingProtocol :=
  Transition.execute timed_step Transition.Always (init (retrying retries) 64 (milliseconds 30000) true true 0)
    [(0, .interface_up ipv4 1)]

theorem searching_station_spec {retries : UInt32} (hs : searching_station retries = some s) :
    Run Transition.Always s ∧ s.attrs = retrying retries := by
  refine ⟨(Transition.Reachable.init ⟨_, _, _, _, _, _, rfl⟩).execute hs, ?_⟩
  rw [searching_station, Transition.execute, if_pos (show Transition.Always _ _ from trivial)] at hs
  obtain ⟨s₁, hstep, hs₁⟩ := Option.bind_eq_some_iff.mp hs
  obtain rfl := Option.some.inj hs₁
  exact (step_actions hstep).2.frame.1

theorem suitable_default : Suitable (retrying 2) 1 where
  rate_limit := by decide
  retries := by decide
  no_retry := by decide
  rises := fun _ _ => .inl (by decide)
  stays := fun _ => .inl (by decide)
  ring := by
    intro k hbelow _
    have hdiameter : 1 + k * 2 < 35 := hbelow
    have htime : 2 * (retrying 2).node_traversal_time * ((1 + k * (retrying 2).ttl_increment.toNat : ℕ) +
        (retrying 2).timeout_buffer.toNat) = (80000000 : ℤ) * ((1 + k * 2 : ℕ) + 2) := rfl
    rw [htime]
    refine ⟨by positivity, ?_⟩
    show (80000000 : ℤ) * ((1 + k * 2 : ℕ) + 2) < 2 ^ 63
    omega
  diameter := fun _ => by
    refine ⟨by decide, by decide, by decide⟩

/-- A discovery with the default attributes. -/
theorem discovery_terminates_default : ∃ s₀, Run Transition.Always s₀ ∧ s₀.attrs = retrying 2 ∧
    Terminates destination s₀ := by
  have hrun : (searching_station 2).map (fun s => (s.lookup_route destination).1) = some none := by decide +kernel
  obtain ⟨s₀, hs₀, hnone⟩ := Option.map_eq_some_iff.mp hrun
  obtain ⟨hreach, hattrs⟩ := searching_station_spec hs₀
  refine ⟨s₀, hreach, hattrs, (discovery_terminates_iff hreach (hattrs ▸ retrying_ring 2) ?_).mpr ?_⟩
  · intro e he
    rw [hnone] at he
    cases he
  · rintro first (rfl | ⟨-, e, he, -⟩)
    · rw [next_ttl, hnone, hattrs]
      exact suitable_default
    · rw [hnone] at he
      cases he

/-- With 256 retries the delays outgrow the shift. -/
theorem discovery_256_not_terminates : ∃ s₀, Run Transition.Always s₀ ∧ s₀.attrs = retrying 256 ∧
    RingSearch s₀.attrs ∧ (s₀.lookup_route destination).1 = none ∧ ¬ Terminates destination s₀ := by
  have hrun : (searching_station 256).map (fun s => (s.lookup_route destination).1) = some none := by decide +kernel
  obtain ⟨s₀, hs₀, hnone⟩ := Option.map_eq_some_iff.mp hrun
  obtain ⟨hreach, hattrs⟩ := searching_station_spec hs₀
  have hring : RingSearch s₀.attrs := hattrs ▸ retrying_ring 256
  refine ⟨s₀, hreach, hattrs, hring, hnone, fun hterminates => ?_⟩
  have hunknown : Unknown destination s₀ := Run.unknown hreach (by rw [hnone]; intro e he; cases he)
  have hmany := (hterminates.suitable hring hunknown (.inl rfl)).retries
  rw [hattrs] at hmany
  exact absurd hmany (by decide)

end Station

end Ns3.Aodv.RoutingProtocol
