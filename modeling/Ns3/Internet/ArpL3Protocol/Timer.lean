import Ns3.Internet.ArpL3Protocol

namespace Ns3.ArpCache

variable {cache : ArpCache} {dest : Ipv4Address} {entry entry' e : ArpCacheEntry}

theorem lookup_some (h : cache.lookup dest = some entry) : entry ∈ cache.entries ∧ entry.ipv4_address = dest :=
  ⟨List.mem_of_find?_eq_some h, by simpa using List.find?_some h⟩

theorem lookup_none (h : cache.lookup dest = none) : ∀ e ∈ cache.entries, e.ipv4_address ≠ dest :=
  fun e he => by simpa using List.find?_eq_none.mp h e he

theorem mem_update (h : e ∈ (cache.update dest entry).entries) :
    e = entry ∨ e ∈ cache.entries ∧ e.ipv4_address ≠ dest := by
  obtain ⟨e', he', rfl⟩ := List.mem_map.mp h
  by_cases hdest : e'.ipv4_address = dest
  · exact .inl (if_pos hdest)
  · right
    rw [if_neg hdest]
    exact ⟨he', hdest⟩

theorem addresses_update (hdest : entry.ipv4_address = dest) :
    (cache.update dest entry).entries.map (·.ipv4_address) = cache.entries.map (·.ipv4_address) := by
  rw [update, List.map_map]
  refine List.map_congr_left fun e _ => ?_
  rw [Function.comp_apply]
  split
  next h => rw [hdest, h]
  next => rfl

theorem add_some {cache' : ArpCache} (h : cache.add dest = some cache') :
    cache.lookup dest = none ∧
      cache' = { cache with
        entries := cache.entries.orderedInsert (fun e e' => e.ipv4_address ≤ e'.ipv4_address) { ipv4_address := dest } } := by
  unfold add at h
  split at h
  · cases h
  next hnone => exact ⟨Option.not_isSome_iff_eq_none.mp hnone, (Option.some.inj h).symm⟩

end Ns3.ArpCache

namespace Ns3.ArpL3Protocol

variable {s s' : ArpL3Protocol} {entry entry' e : ArpCacheEntry} {a : ArpCacheAttributes} {now t : Time}
  {dest : Ipv4Address} {waiting : Ipv4PayloadHeaderPair}

/-- Only an entry that waits has packets, and not too many, all for its address. -/
structure EntryGood (a : ArpCacheAttributes) (now : Time) (entry : ArpCacheEntry) : Prop where
  idle : entry.state ≠ .WAIT_REPLY → entry.pending = [] ∧ entry.retries = 0
  room : entry.pending.length ≤ max 1 a.pending_queue_size.toNat
  tries : entry.retries ≤ a.max_retries
  address : ∀ p ∈ entry.pending, p.destination = entry.ipv4_address
  seen : 0 ≤ entry.last_seen ∧ entry.last_seen ≤ now

/-- The timer ends no later than the entry expires, and in the round that the entry is in. -/
def Timed (s : ArpL3Protocol) (entry : ArpCacheEntry) : Prop :=
  entry.state = .WAIT_REPLY → ∃ ev ∈ s.simulator.pending, s.cache.wait_reply_timer = some ev.uid ∧
    ev.ts ≤ entry.last_seen + s.cache.attrs.wait_reply_timeout ∧
    ev.ts ≤ entry.since + (entry.retries.toNat + 1) * s.cache.attrs.wait_reply_timeout

/-- The invariant of the cache and its timer. -/
structure Sound (s : ArpL3Protocol) : Prop where
  agenda : s.simulator.Valid
  clock : 0 ≤ s.simulator.now ∧ s.simulator.now ≤ get_maximum_simulation_time
  issued : ∀ uid, s.cache.wait_reply_timer = some uid → uid < s.simulator.next_uid
  only : ∀ ev ∈ s.simulator.pending, ev.call = .handle_wait_reply_timeout ↔ s.cache.wait_reply_timer = some ev.uid
  ahead : ∀ ev ∈ s.simulator.pending, ev.call = .handle_wait_reply_timeout →
    s.simulator.now ≤ ev.ts ∧ ev.ts ≤ s.simulator.now + s.cache.attrs.wait_reply_timeout
  addresses : (s.cache.entries.map (·.ipv4_address)).Nodup
  entries : ∀ e ∈ s.cache.entries, EntryGood s.cache.attrs s.simulator.now e
  timed : ∀ e ∈ s.cache.entries, s.Timed e

theorem Sound.running_iff (h : s.Sound) :
    s.is_running = true ↔ ∃ ev ∈ s.simulator.pending, s.cache.wait_reply_timer = some ev.uid := by
  unfold is_running
  constructor
  · intro hrun
    obtain ⟨ev, hev⟩ := Option.isSome_iff_exists.mp hrun
    obtain ⟨hmem, huid⟩ := Agenda.find_some _ hev
    exact ⟨ev, hmem, huid.symm⟩
  · rintro ⟨ev, hev, huid⟩
    rw [huid, h.agenda.find hev]
    rfl

theorem Sound.not_expired (h : s.Sound) (he : entry ∈ s.cache.entries) (hstate : entry.state = .WAIT_REPLY) :
    entry.is_expired s.cache.attrs s.simulator.now = false := by
  obtain ⟨ev, hev, htimer, hts, -⟩ := h.timed entry he hstate
  obtain ⟨hnow, -⟩ := h.ahead ev hev ((h.only ev hev).mpr htimer)
  have htimeout : entry.get_timeout s.cache.attrs = s.cache.attrs.wait_reply_timeout := by
    rw [ArpCacheEntry.get_timeout, hstate]
  rw [ArpCacheEntry.is_expired, htimeout]
  exact decide_eq_false (not_lt.mpr (by linarith))

theorem Sound.permanent (h : s.Sound) (he : entry ∈ s.cache.entries)
    (hstate : entry.state = .PERMANENT ∨ entry.state = .STATIC_AUTOGENERATED) :
    entry.is_expired s.cache.attrs s.simulator.now = false := by
  obtain ⟨hseen, -⟩ := (h.entries entry he).seen
  obtain ⟨-, hclock⟩ := h.clock
  have htimeout : entry.get_timeout s.cache.attrs = get_maximum_simulation_time := by
    unfold ArpCacheEntry.get_timeout
    rcases hstate with hstate | hstate <;> rw [hstate]
  rw [ArpCacheEntry.is_expired, htimeout]
  exact decide_eq_false (not_lt.mpr (by linarith))

theorem Sound.with_entries {l : List ArpCacheEntry} (h : s.Sound)
    (haddresses : l.map (·.ipv4_address) = s.cache.entries.map (·.ipv4_address))
    (hl : ∀ e ∈ l, EntryGood s.cache.attrs s.simulator.now e ∧ s.Timed e) :
    (s.with_cache { s.cache with entries := l }).Sound := by
  refine ⟨h.agenda, h.clock, h.issued, h.only, h.ahead, ?_, fun e he => (hl e he).1, fun e he => (hl e he).2⟩
  change (l.map (·.ipv4_address)).Nodup
  rw [haddresses]
  exact h.addresses

theorem Sound.update (h : s.Sound) (hdest : entry.ipv4_address = dest)
    (hgood : EntryGood s.cache.attrs s.simulator.now entry) (htimed : s.Timed entry) :
    (s.with_cache (s.cache.update dest entry)).Sound := by
  refine h.with_entries (ArpCache.addresses_update hdest) fun e he => ?_
  rcases ArpCache.mem_update he with rfl | ⟨he, -⟩
  · exact ⟨hgood, htimed⟩
  · exact ⟨h.entries e he, h.timed e he⟩

theorem Sound.act (h : s.Sound) (actions : List ArpAction) : (s.act actions).Sound :=
  { h with }

theorem Sound.schedule_timer (h : s.Sound) (hstop : ∀ ev ∈ s.simulator.pending, s.cache.wait_reply_timer ≠ some ev.uid)
    (htimed : ∀ e ∈ s.cache.entries, e.state = .WAIT_REPLY →
      s.simulator.now ≤ e.last_seen ∧ s.simulator.now + s.cache.attrs.wait_reply_timeout ≤
        e.since + (e.retries.toNat + 1) * s.cache.attrs.wait_reply_timeout) :
    s.schedule_wait_reply_timer.Sound := by
  have hpos := s.cache.attrs.wait_reply_timeout_nonneg
  refine ⟨h.agenda.schedule _ _, h.clock, ?_, ?_, ?_, h.addresses, h.entries, ?_⟩
  · intro uid huid
    obtain rfl := Option.some.inj huid
    exact Nat.lt_succ_self _
  · intro ev hev
    rcases Agenda.mem_schedule.mp hev with hold | rfl
    · have hcall : ev.call ≠ .handle_wait_reply_timeout := fun hc => hstop ev hold ((h.only ev hold).mp hc)
      have hfresh := h.agenda.fresh ev hold
      refine ⟨fun hc => absurd hc hcall, fun huid => ?_⟩
      have huid := Option.some.inj huid
      omega
    · exact ⟨fun _ => rfl, fun _ => rfl⟩
  · intro ev hev hcall
    rcases Agenda.mem_schedule.mp hev with hold | rfl
    · exact h.ahead ev hold hcall
    · exact ⟨le_add_of_nonneg_right hpos, le_rfl⟩
  · intro e he hstate
    obtain ⟨hseen, hround⟩ := htimed e he hstate
    exact ⟨_, Agenda.mem_schedule.mpr (.inr rfl), rfl, add_le_add_left hseen _, hround⟩

theorem Sound.start (h : s.Sound) : s.start_wait_reply_timer.Sound ∧
    ∃ ev ∈ s.start_wait_reply_timer.simulator.pending, s.start_wait_reply_timer.cache.wait_reply_timer = some ev.uid ∧
      ev.ts ≤ s.simulator.now + s.cache.attrs.wait_reply_timeout := by
  unfold start_wait_reply_timer
  split
  next hrun =>
    obtain ⟨ev, hev, huid⟩ := h.running_iff.mp hrun
    exact ⟨h, ev, hev, huid, (h.ahead ev hev ((h.only ev hev).mpr huid)).2⟩
  next hstop =>
    have hnone : ∀ ev ∈ s.simulator.pending, s.cache.wait_reply_timer ≠ some ev.uid :=
      fun ev hev huid => hstop (h.running_iff.mpr ⟨ev, hev, huid⟩)
    refine ⟨h.schedule_timer hnone fun e he hstate => ?_, _, Agenda.mem_schedule.mpr (.inr rfl), rfl, le_rfl⟩
    obtain ⟨ev, hev, huid, -⟩ := h.timed e he hstate
    exact absurd huid (hnone ev hev)

theorem Sound.schedule_request (h : s.Sound) (jitter : Time) :
    Sound { s with simulator := s.simulator.schedule jitter (.send_arp_request dest) } := by
  refine ⟨h.agenda.schedule _ _, h.clock, ?_, ?_, ?_, h.addresses, h.entries, ?_⟩
  · exact fun uid huid => Nat.lt_succ_of_lt (h.issued uid huid)
  · intro ev hev
    rcases Agenda.mem_schedule.mp hev with hold | rfl
    · exact h.only ev hold
    · exact ⟨nofun, fun huid => absurd (h.issued _ huid) (lt_irrefl _)⟩
  · intro ev hev hcall
    rcases Agenda.mem_schedule.mp hev with hold | rfl
    · exact h.ahead ev hold hcall
    · cases hcall
  · intro e he hstate
    obtain ⟨ev, hev, hrest⟩ := h.timed e he hstate
    exact ⟨ev, Agenda.mem_schedule.mpr (.inl hev), hrest⟩

theorem resolve_some {jitter : Time} (h : s.resolve entry waiting jitter = some s') :
    ∃ entry', entry.mark_wait_reply s.simulator.now waiting = some entry' ∧
      s' = { s.start_wait_reply_timer.with_cache
          (s.start_wait_reply_timer.cache.update entry'.ipv4_address entry') with
        simulator := s.start_wait_reply_timer.simulator.schedule jitter (.send_arp_request entry'.ipv4_address) } := by
  obtain ⟨entry', hmark, rfl⟩ := Option.map_eq_some_iff.mp h
  refine ⟨entry', hmark, ?_⟩
  by_cases hrun : s.is_running = true
  · have hrun' : (s.with_cache (s.cache.update entry'.ipv4_address entry')).is_running = true := hrun
    rw [start_wait_reply_timer, start_wait_reply_timer, if_pos hrun, if_pos hrun']
    rfl
  · have hrun' : ¬ (s.with_cache (s.cache.update entry'.ipv4_address entry')).is_running = true := hrun
    rw [start_wait_reply_timer, start_wait_reply_timer, if_neg hrun, if_neg hrun']
    rfl

theorem start_cache : s.start_wait_reply_timer.cache.entries = s.cache.entries ∧
    s.start_wait_reply_timer.cache.attrs = s.cache.attrs ∧ s.start_wait_reply_timer.simulator.now = s.simulator.now := by
  unfold start_wait_reply_timer
  split <;> exact ⟨rfl, rfl, rfl⟩

theorem mark_wait_reply_some (h : entry.mark_wait_reply now waiting = some entry') :
    entry' = { entry with state := .WAIT_REPLY, pending := [waiting], last_seen := now, since := now } := by
  unfold ArpCacheEntry.mark_wait_reply at h
  split at h
  · exact (Option.some.inj h).symm
  · cases h

theorem Sound.resolve {e : ArpCacheEntry} (h : s.Sound) (hentry : EntryGood s.cache.attrs s.simulator.now e)
    (hstate : e.state = .ALIVE ∨ e.state = .DEAD) (hdest : waiting.destination = e.ipv4_address)
    (jitter : Time) : ∃ s', s.resolve e waiting jitter = some s' ∧ s'.Sound := by
  have hidle := hentry.idle (by rcases hstate with hstate | hstate <;> rw [hstate] <;> decide)
  have hmark : e.mark_wait_reply s.simulator.now waiting =
      some { e with
        state := .WAIT_REPLY, pending := [waiting], last_seen := s.simulator.now, since := s.simulator.now } :=
    if_pos ⟨hstate, hidle.1⟩
  have hsome : (s.resolve e waiting jitter).isSome := by
    rw [ArpL3Protocol.resolve, hmark]
    rfl
  obtain ⟨s', hs'⟩ := Option.isSome_iff_exists.mp hsome
  refine ⟨s', hs', ?_⟩
  obtain ⟨entry', hmark', rfl⟩ := resolve_some hs'
  obtain rfl := Option.some.inj (hmark.symm.trans hmark')
  obtain ⟨hstart, ev, hev, huid, hts⟩ := h.start
  obtain ⟨-, hattrs, hnow⟩ := start_cache (s := s)
  refine (hstart.update rfl ⟨fun hc => absurd rfl hc, ?_, ?_, ?_, ?_⟩ fun _ => ⟨ev, hev, huid, ?_, ?_⟩).schedule_request
    jitter
  · exact le_max_left 1 _
  · rw [hattrs]
    exact hentry.tries
  · intro p hp
    rw [List.mem_singleton.mp hp]
    exact hdest
  · rw [hnow]
    exact ⟨h.clock.1, le_rfl⟩
  · rw [hattrs]
    exact hts
  · rw [hattrs]
    change ev.ts ≤ s.simulator.now + (e.retries.toNat + 1) * s.cache.attrs.wait_reply_timeout
    rw [hidle.2]
    have hzero : ((0 : UInt32).toNat : ℤ) = 0 := rfl
    rw [hzero, zero_add, one_mul]
    exact hts

theorem Sound.add {cache' : ArpCache} (h : s.Sound) (hadd : s.cache.add dest = some cache') :
    (s.with_cache cache').Sound ∧ EntryGood s.cache.attrs s.simulator.now { ipv4_address := dest } := by
  obtain ⟨hnone, rfl⟩ := ArpCache.add_some hadd
  have hgood : EntryGood s.cache.attrs s.simulator.now { ipv4_address := dest } :=
    ⟨fun _ => ⟨rfl, rfl⟩, Nat.zero_le _, UInt32.zero_le, fun p hp => absurd hp List.not_mem_nil, le_rfl, h.clock.1⟩
  have hmem : ∀ {e}, e ∈ s.cache.entries.orderedInsert (fun e e' => e.ipv4_address ≤ e'.ipv4_address)
      { ipv4_address := dest } → e = { ipv4_address := dest } ∨ e ∈ s.cache.entries := fun he =>
    (List.mem_orderedInsert _).mp he
  refine ⟨⟨h.agenda, h.clock, h.issued, h.only, h.ahead, ?_, fun e he => ?_, fun e he => ?_⟩, hgood⟩
  · have hperm := (List.perm_orderedInsert (fun e e' : ArpCacheEntry => e.ipv4_address ≤ e'.ipv4_address)
      { ipv4_address := dest } s.cache.entries).map (·.ipv4_address)
    refine hperm.nodup_iff.mpr (List.nodup_cons.mpr ⟨fun hc => ?_, h.addresses⟩)
    obtain ⟨e, he, hdest⟩ := List.mem_map.mp hc
    exact ArpCache.lookup_none hnone e he hdest
  · rcases hmem he with rfl | hold
    · exact hgood
    · exact h.entries e hold
  · rcases hmem he with rfl | hold
    · exact nofun
    · exact h.timed e hold

theorem Sound.lookup_packet (h : s.Sound) (waiting : Ipv4PayloadHeaderPair) (jitter : Time) :
    ∃ r, s.lookup_packet waiting jitter = some r ∧ r.2.Sound := by
  unfold ArpL3Protocol.lookup_packet
  split
  next entry hlookup =>
    obtain ⟨hmem, hdest⟩ := ArpCache.lookup_some hlookup
    have hgood := h.entries entry hmem
    have hresolve : entry.state = .ALIVE ∨ entry.state = .DEAD →
        ∃ r, ((s.resolve entry waiting jitter).map fun s => ((none : Option Address), s)) = some r ∧ r.2.Sound := by
      intro hstate
      obtain ⟨s', hs', hsound⟩ := h.resolve hgood hstate hdest.symm jitter
      exact ⟨(none, s'), by rw [hs', Option.map_some], hsound⟩
    split
    next hexpired =>
      cases hstate : entry.state with
      | DEAD => exact hresolve (.inr hstate)
      | ALIVE => exact hresolve (.inl hstate)
      | WAIT_REPLY => exact absurd hexpired (Bool.eq_false_iff.mp (h.not_expired hmem hstate))
      | PERMANENT => exact absurd hexpired (Bool.eq_false_iff.mp (h.permanent hmem (.inl hstate)))
      | STATIC_AUTOGENERATED => exact absurd hexpired (Bool.eq_false_iff.mp (h.permanent hmem (.inr hstate)))
    next =>
      cases hstate : entry.state with
      | DEAD => exact ⟨_, rfl, h.act _⟩
      | ALIVE => exact ⟨_, rfl, h⟩
      | PERMANENT => exact ⟨_, rfl, h⟩
      | STATIC_AUTOGENERATED => exact ⟨_, rfl, h⟩
      | WAIT_REPLY =>
        dsimp only
        rw [ArpCacheEntry.update_wait_reply, if_pos hstate]
        split
        · refine ⟨_, rfl, Sound.act ?_ _⟩
          exact h.update rfl hgood (h.timed entry hmem)
        next hroom =>
          refine ⟨_, rfl, h.update rfl ⟨fun hc => absurd hstate hc, ?_, hgood.tries, ?_, hgood.seen⟩
            (h.timed entry hmem)⟩
          · rw [List.length_append, List.length_singleton]
            omega
          · intro p hp
            rcases List.mem_append.mp hp with hold | hnew
            · exact hgood.address p hold
            · rw [List.mem_singleton.mp hnew]
              exact hdest.symm
  next hlookup =>
    have hadd : ∃ cache', s.cache.add waiting.destination = some cache' := by
      unfold ArpCache.add
      rw [hlookup]
      exact ⟨_, rfl⟩
    obtain ⟨cache', hadd⟩ := hadd
    obtain ⟨hsound, hgood⟩ := h.add hadd
    obtain ⟨-, hcache⟩ := ArpCache.add_some hadd
    have hattrs : cache'.attrs = s.cache.attrs := by rw [hcache]
    obtain ⟨s', hs', hsound'⟩ := hsound.resolve (e := { ipv4_address := waiting.destination })
      (by rw [← hattrs] at hgood; exact hgood) (.inl rfl) rfl jitter
    refine ⟨(none, s'), ?_, hsound'⟩
    rw [hadd, Option.bind_some, hs']
    rfl

theorem Sound.of_same (h : s.Sound) (hcache : s'.cache = s.cache) (hsimulator : s'.simulator = s.simulator) :
    s'.Sound := by
  obtain ⟨cache, address, simulator, lookups, refused, discarded, log⟩ := s
  obtain ⟨cache', address', simulator', lookups', refused', discarded', log'⟩ := s'
  cases hcache
  cases hsimulator
  exact { h with }

theorem entryGood_of_empty (hpending : entry.pending = []) (hretries : entry.retries = 0)
    (hseen : 0 ≤ entry.last_seen ∧ entry.last_seen ≤ now) : EntryGood a now entry := by
  refine ⟨fun _ => ⟨hpending, hretries⟩, ?_, ?_, ?_, hseen⟩
  · rw [hpending]
    exact Nat.zero_le _
  · rw [hretries]
    exact UInt32.zero_le
  · rw [hpending]
    exact fun p hp => absurd hp List.not_mem_nil

theorem Sound.receive_reply (h : s.Sound) (arp : ArpHeader) : ∃ s', s.receive_reply arp = some s' ∧ s'.Sound := by
  unfold ArpL3Protocol.receive_reply
  split
  next entry hlookup =>
    split
    next hstate =>
      let alive : ArpCacheEntry := { entry with
        state := .ALIVE, mac_address := arp.mac_source, retries := 0, last_seen := s.simulator.now, pending := [] }
      have hgood : EntryGood s.cache.attrs s.simulator.now alive := entryGood_of_empty rfl rfl ⟨h.clock.1, le_rfl⟩
      have hsound : Sound (s.with_cache (s.cache.update entry.ipv4_address alive)) := h.update rfl hgood nofun
      rw [ArpCacheEntry.mark_alive, if_pos hstate]
      exact ⟨_, rfl, hsound.act _⟩
    next => exact ⟨_, rfl, h.act _⟩
  next => exact ⟨_, rfl, h.act _⟩

theorem Sound.receive (h : s.Sound) (addresses : List Ipv4Address) (arp : Option ArpHeader) :
    ∃ s', s.receive addresses arp = some s' ∧ s'.Sound := by
  unfold ArpL3Protocol.receive
  split
  · exact ⟨s, rfl, h⟩
  next arp =>
    split
    · exact ⟨s, rfl, h⟩
    · split
      · exact ⟨_, rfl, h.act _⟩
      · exact h.receive_reply arp

theorem Sound.take (h : s.Sound) {uid : ℕ} {call : ArpCall} {simulator : Agenda ArpCall}
    (htake : s.simulator.take uid = some (call, simulator)) (hcall : call ≠ .handle_wait_reply_timeout) :
    Sound { s with simulator } := by
  obtain ⟨ev, hev, huid, hev_call, -, rfl⟩ := Agenda.take_some htake
  refine ⟨h.agenda.cancel _, h.clock, h.issued, fun ev' hev' => h.only ev' (Agenda.mem_cancel.mp hev').1,
    fun ev' hev' => h.ahead ev' (Agenda.mem_cancel.mp hev').1, h.addresses, h.entries, fun e he hstate => ?_⟩
  obtain ⟨ev', hev', htimer, hts⟩ := h.timed e he hstate
  refine ⟨ev', Agenda.mem_cancel.mpr ⟨hev', fun hsame => ?_⟩, htimer, hts⟩
  obtain rfl := h.agenda.ext hev' hev (by rw [huid]; exact Option.some.inj hsame)
  exact hcall (hev_call.symm.trans ((h.only ev' hev').mpr htimer))

theorem expire_address : (expire a now entry).1.ipv4_address = entry.ipv4_address := by
  unfold expire
  split
  · split <;> rfl
  · rfl

theorem expire_waits (hstate : (expire a now entry).1.state = .WAIT_REPLY) :
    entry.state = .WAIT_REPLY ∧ entry.retries < a.max_retries ∧ expire a now entry =
      (entry.increment_retries now, [.request entry.ipv4_address], true) := by
  unfold expire at hstate ⊢
  split at hstate
  next hwait =>
    split at hstate
    next hless => exact ⟨hwait, hless, by rw [if_pos hwait, if_pos hless]⟩
    next => cases hstate
  next hwait => exact absurd hstate hwait

theorem EntryGood.expire (hgood : EntryGood a now entry) (hclock : 0 ≤ now) :
    EntryGood a now (expire a now entry).1 := by
  unfold ArpL3Protocol.expire
  split
  next hwait =>
    split
    next hless =>
      refine ⟨fun hc => absurd hwait hc, hgood.room, ?_, hgood.address, hclock, le_rfl⟩
      change entry.retries + 1 ≤ a.max_retries
      have hless : entry.retries.toNat < a.max_retries.toNat := UInt32.lt_iff_toNat_lt.mp hless
      have hmax := a.max_retries.toNat_lt
      have hsum : (entry.retries + 1).toNat = entry.retries.toNat + 1 := by
        rw [UInt32.toNat_add]
        exact Nat.mod_eq_of_lt (by change _ + 1 < 2 ^ 32; omega)
      rw [UInt32.le_iff_toNat_le, hsum]
      omega
    next => exact entryGood_of_empty rfl rfl ⟨hclock, le_rfl⟩
  next => exact hgood

/-- The timer's event runs the handler, which restarts it while an entry waits. -/
theorem Sound.handle (h : s.Sound) {uid : ℕ} {simulator : Agenda ArpCall}
    (htake : s.simulator.take uid = some (.handle_wait_reply_timeout, simulator)) :
    Sound (handle_wait_reply_timeout { s with simulator }) := by
  obtain ⟨ev, hev, huid, hcall, hts, rfl⟩ := Agenda.take_some htake
  have htimer := (h.only ev hev).mp hcall
  set s₁ : ArpL3Protocol := { s with simulator := s.simulator.cancel (some uid) } with hs₁
  -- without its event, the timer is stopped
  have hstop : ∀ ev' ∈ s₁.simulator.pending, s₁.cache.wait_reply_timer ≠ some ev'.uid := by
    intro ev' hev' htimer'
    obtain ⟨-, hne⟩ := Agenda.mem_cancel.mp hev'
    have hsame : some ev.uid = some ev'.uid := htimer.symm.trans htimer'
    exact hne (by rw [← hsame, huid])
  set l := s₁.cache.entries.map (expire s₁.cache.attrs s₁.simulator.now) with hl
  set s₂ : ArpL3Protocol := (s₁.with_cache { s₁.cache with entries := l.map (·.1) }).act (l.flatMap (·.2.1)) with hs₂
  have hentries : ∀ {e}, e ∈ s₂.cache.entries → ∃ e₀ ∈ s.cache.entries, e = (expire s.cache.attrs s.simulator.now e₀).1 := by
    intro e he
    obtain ⟨r, hr, rfl⟩ := List.mem_map.mp he
    obtain ⟨e₀, he₀, rfl⟩ := List.mem_map.mp hr
    exact ⟨e₀, he₀, rfl⟩
  have hgood : ∀ e ∈ s₂.cache.entries, EntryGood s.cache.attrs s.simulator.now e := by
    intro e he
    obtain ⟨e₀, he₀, rfl⟩ := hentries he
    exact (h.entries e₀ he₀).expire h.clock.1
  have haddresses : (s₂.cache.entries.map (·.ipv4_address)).Nodup := by
    have hsame : s₂.cache.entries.map (·.ipv4_address) = s.cache.entries.map (·.ipv4_address) := by
      change (l.map (·.1)).map (·.ipv4_address) = _
      rw [hl, List.map_map, List.map_map]
      exact List.map_congr_left fun e _ => expire_address
    rw [hsame]
    exact h.addresses
  have hcalls : ∀ ev' ∈ s₁.simulator.pending, ev'.call = .handle_wait_reply_timeout ↔
      s₁.cache.wait_reply_timer = some ev'.uid := fun ev' hev' => h.only ev' (Agenda.mem_cancel.mp hev').1
  have hahead : ∀ ev' ∈ s₁.simulator.pending, ev'.call = .handle_wait_reply_timeout → s.simulator.now ≤ ev'.ts ∧
      ev'.ts ≤ s.simulator.now + s.cache.attrs.wait_reply_timeout :=
    fun ev' hev' => h.ahead ev' (Agenda.mem_cancel.mp hev').1
  change Sound (if l.any (·.2.2) then s₂.schedule_wait_reply_timer else s₂)
  by_cases hidle : ∀ e ∈ s₂.cache.entries, e.state ≠ .WAIT_REPLY
  · have hsound : s₂.Sound := ⟨h.agenda.cancel _, h.clock, h.issued, hcalls, hahead, haddresses, hgood,
      fun e he hstate => absurd hstate (hidle e he)⟩
    split
    · exact hsound.schedule_timer hstop fun e he hstate => absurd hstate (hidle e he)
    · exact hsound
  · push Not at hidle
    obtain ⟨e, he, hstate⟩ := hidle
    have hany : l.any (·.2.2) = true := by
      obtain ⟨r, hr, rfl⟩ := List.mem_map.mp he
      obtain ⟨e₀, he₀, rfl⟩ := List.mem_map.mp hr
      obtain ⟨-, -, heq⟩ := expire_waits hstate
      exact List.any_eq_true.mpr ⟨_, hr, by rw [heq]⟩
    rw [if_pos hany]
    have hpos := s.cache.attrs.wait_reply_timeout_nonneg
    refine ⟨(h.agenda.cancel _).schedule _ _, h.clock, fun uid huid => ?_, fun ev' hev' => ?_, fun ev' hev' hcall' => ?_,
      haddresses, hgood, fun e he hstate => ?_⟩
    · obtain rfl := Option.some.inj huid
      exact Nat.lt_succ_self _
    · rcases Agenda.mem_schedule.mp hev' with hold | rfl
      · have hne : ev'.call ≠ .handle_wait_reply_timeout := fun hc => hstop ev' hold ((hcalls ev' hold).mp hc)
        have hfresh := h.agenda.fresh ev' (Agenda.mem_cancel.mp hold).1
        exact ⟨fun hc => absurd hc hne, fun huid => absurd (Option.some.inj huid) (Nat.ne_of_gt hfresh)⟩
      · exact ⟨fun _ => rfl, fun _ => rfl⟩
    · rcases Agenda.mem_schedule.mp hev' with hold | rfl
      · exact hahead ev' hold hcall'
      · exact ⟨le_add_of_nonneg_right hpos, le_rfl⟩
    · obtain ⟨e₀, he₀, rfl⟩ := hentries he
      obtain ⟨hwait, hless, heq⟩ := expire_waits hstate
      obtain ⟨ev₀, hev₀, htimer₀, -, hround⟩ := h.timed e₀ he₀ hwait
      obtain rfl := h.agenda.ext hev₀ hev (Option.some.inj (htimer₀.symm.trans htimer))
      refine ⟨_, Agenda.mem_schedule.mpr (.inr rfl), rfl, ?_, ?_⟩
      · rw [heq]
        exact le_rfl
      · rw [heq]
        have hsum : ((e₀.retries + 1).toNat : ℤ) = e₀.retries.toNat + 1 := by
          have hless : e₀.retries.toNat < s.cache.attrs.max_retries.toNat := UInt32.lt_iff_toNat_lt.mp hless
          have hmax := s.cache.attrs.max_retries.toNat_lt
          rw [UInt32.toNat_add, Nat.mod_eq_of_lt (by change _ + 1 < 2 ^ 32; omega)]
          rfl
        change s.simulator.now + s.cache.attrs.wait_reply_timeout ≤
          e₀.since + (((e₀.retries + 1).toNat : ℤ) + 1) * s.cache.attrs.wait_reply_timeout
        rw [hsum]
        linarith

theorem Sound.delete (h : s.Sound) (p : ArpCacheEntry → Bool) : (s.delete p).Sound :=
  ⟨h.agenda, h.clock, h.issued, h.only, h.ahead, h.addresses.sublist (List.filter_sublist.map _),
    fun e he => h.entries e (List.mem_of_mem_filter he), fun e he => h.timed e (List.mem_of_mem_filter he)⟩

theorem Sound.flush (h : s.Sound) : s.flush.Sound := by
  have hdelete := h.delete fun _ => true
  have hempty : (s.delete fun _ => true).cache.entries = [] := by
    change s.cache.entries.filter _ = []
    exact List.filter_eq_nil_iff.mpr fun _ _ => Bool.false_ne_true
  unfold ArpL3Protocol.flush
  dsimp only
  split
  · refine ⟨hdelete.agenda.cancel _, h.clock, h.issued, fun ev hev => h.only ev (Agenda.mem_cancel.mp hev).1,
      fun ev hev => h.ahead ev (Agenda.mem_cancel.mp hev).1, hdelete.addresses, fun e he => ?_, fun e he => ?_⟩
    all_goals
      have he : e ∈ (s.delete fun _ => true).cache.entries := he
      rw [hempty] at he
      exact absurd he List.not_mem_nil
  · exact hdelete

theorem Sound.packet_seen (h : s.Sound) (source : Ipv4Address) (sender : Address) : (s.packet_seen source sender).Sound := by
  refine h.with_entries ?_ fun e he => ?_
  · rw [List.map_map]
    refine List.map_congr_left fun e _ => ?_
    rw [Function.comp_apply]
    split <;> rfl
  · obtain ⟨e₀, he₀, rfl⟩ := List.mem_map.mp he
    have hgood := h.entries e₀ he₀
    split
    next hseen =>
      have halive : e₀.state = .ALIVE := of_decide_eq_true (Bool.and_eq_true_iff.mp hseen).2
      have hidle := hgood.idle (by rw [halive]; decide)
      exact ⟨entryGood_of_empty hidle.1 hidle.2 ⟨h.clock.1, le_rfl⟩, fun hc => nomatch hc.symm.trans halive⟩
    next => exact ⟨hgood, h.timed e₀ he₀⟩

theorem Sound.change {f : ArpCacheEntry → Option ArpCacheEntry} (h : s.Sound) (hchange : s.change dest f = some s')
    (hf : ∀ e e', s.cache.lookup dest = some e → f e = some e' → e'.ipv4_address = e.ipv4_address ∧
      (EntryGood s.cache.attrs s.simulator.now e → EntryGood s.cache.attrs s.simulator.now e') ∧
      (s.Timed e → s.Timed e')) : s'.Sound := by
  obtain ⟨e, hlookup, hchange⟩ := Option.bind_eq_some_iff.mp hchange
  obtain ⟨e', he', rfl⟩ := Option.map_eq_some_iff.mp hchange
  obtain ⟨hmem, hdest⟩ := ArpCache.lookup_some hlookup
  obtain ⟨haddress, hgood, htimed⟩ := hf e e' hlookup he'
  exact h.update (haddress.trans hdest) (hgood (h.entries e hmem)) (htimed (h.timed e hmem))

theorem Sound.advance (h : s.Sound) (ht : t ≤ get_maximum_simulation_time) {simulator : Agenda ArpCall}
    (hadvance : s.simulator.advance t = some simulator) : Sound { s with simulator } := by
  have hnow := Agenda.advance_some hadvance
  unfold Agenda.advance at hadvance
  split at hadvance
  next hle =>
    subst hnow
    obtain ⟨hle, hnext⟩ := hle
    refine ⟨⟨h.agenda.fresh, h.agenda.distinct⟩, ⟨h.clock.1.trans hle, ht⟩, h.issued, h.only, fun ev hev hcall => ?_,
      h.addresses, fun e he => ?_, h.timed⟩
    · obtain ⟨-, hts⟩ := h.ahead ev hev hcall
      exact ⟨hnext ev hev, hts.trans (add_le_add_left hle _)⟩
    · have hgood := h.entries e he
      exact ⟨hgood.idle, hgood.room, hgood.tries, hgood.address, hgood.seen.1, hgood.seen.2.trans hle⟩
  next => cases hadvance

theorem sound_mark {state : ArpCacheEntryState} (h : s.Sound) (hstate : state ≠ .WAIT_REPLY)
    (hall : (s.cache.lookup dest).all (·.state ≠ .WAIT_REPLY) = true)
    {f : ArpCacheEntry → Option ArpCacheEntry}
    (hf : ∀ e e', f e = some e' → e' = { e with state, retries := 0, last_seen := s.simulator.now })
    (hchange : s.change dest f = some s') : s'.Sound := by
  refine h.change hchange fun e e' hlookup he' => ?_
  obtain rfl := hf e e' he'
  have hidle : e.state ≠ .WAIT_REPLY := by simpa [hlookup] using hall
  exact ⟨rfl, fun hgood => entryGood_of_empty (hgood.idle hidle).1 rfl ⟨h.clock.1, le_rfl⟩,
    fun _ hc => absurd hc hstate⟩

theorem Sound.step {e : Event} (h : s.Sound) (hadmissible : s.Admissible e) (hstep : s.step e = some s') : s'.Sound := by
  cases e with
  | lookup packet header dest jitter =>
    obtain ⟨r, hlookup, rfl⟩ := Option.map_eq_some_iff.mp hstep
    obtain ⟨r', hpacket, rfl⟩ := Option.map_eq_some_iff.mp hlookup
    obtain ⟨r'', hr'', hsound⟩ := h.lookup_packet _ jitter
    obtain rfl := Option.some.inj (hr''.symm.trans hpacket)
    exact hsound.of_same rfl rfl
  | receive addresses arp =>
    obtain ⟨s'', hs'', hsound⟩ := h.receive addresses arp
    obtain rfl := Option.some.inj (hs''.symm.trans hstep)
    exact hsound
  | packet_seen source sender =>
    obtain rfl := Option.some.inj hstep
    exact h.packet_seen source sender
  | advance t =>
    dsimp only [ArpL3Protocol.step] at hstep
    split at hstep
    next ht =>
      obtain ⟨simulator, hadvance, rfl⟩ := Option.map_eq_some_iff.mp hstep
      exact h.advance ht hadvance
    next => cases hstep
  | run uid =>
    dsimp only [ArpL3Protocol.step] at hstep
    split at hstep
    next htake =>
      obtain rfl := Option.some.inj hstep
      exact h.handle htake
    next htake =>
      obtain rfl := Option.some.inj hstep
      exact (h.take htake nofun).act _
    next => cases hstep
  | flush =>
    obtain rfl := Option.some.inj hstep
    exact h.flush
  | remove dest =>
    obtain rfl := Option.some.inj hstep
    exact h.delete _
  | add dest =>
    obtain ⟨cache', hadd, rfl⟩ := Option.map_eq_some_iff.mp hstep
    exact (h.add hadd).1
  | set_mac_address dest mac_address =>
    refine h.change hstep fun e e' _ he' => ?_
    obtain rfl := Option.some.inj he'
    exact ⟨rfl, fun hgood => { hgood with }, fun htimed => htimed⟩
  | mark_permanent dest =>
    refine sound_mark h (show ArpCacheEntryState.PERMANENT ≠ .WAIT_REPLY by decide) hadmissible (fun e e' he' => ?_) hstep
    unfold ArpCacheEntry.mark_permanent at he'
    split at he'
    · cases he'
    · exact (Option.some.inj he').symm
  | mark_auto_generated dest =>
    refine sound_mark h (show ArpCacheEntryState.STATIC_AUTOGENERATED ≠ .WAIT_REPLY by decide) hadmissible (fun e e' he' => ?_) hstep
    unfold ArpCacheEntry.mark_auto_generated at he'
    split at he'
    · cases he'
    · exact (Option.some.inj he').symm
  | remove_auto_generated_entries =>
    obtain rfl := Option.some.inj hstep
    exact h.delete _

end Ns3.ArpL3Protocol
