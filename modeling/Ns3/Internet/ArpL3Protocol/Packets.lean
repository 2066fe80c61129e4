import Ns3.Foundation.Reachable
import Ns3.Internet.ArpL3Protocol.Timer

namespace Ns3.ArpAction

def sent : ArpAction → List Ipv4PayloadHeaderPair
  | .send p _ => [p]
  | _ => []

def dropped : ArpAction → List Ipv4PayloadHeaderPair
  | .cache_drop p => [p]
  | .drop p => [p]
  | _ => []

end Ns3.ArpAction

namespace Ns3.ArpL3Protocol

open Transition (Reachable)

variable {s s' : ArpL3Protocol} {entry entry' e : ArpCacheEntry} {a : ArpCacheAttributes} {now t : Time}
  {dest : Ipv4Address} {waiting p : Ipv4PayloadHeaderPair} {l : List ArpCacheEntry}

def pending (s : ArpL3Protocol) : List Ipv4PayloadHeaderPair := s.cache.entries.flatMap (·.pending)

/-- The packets that have been handed to `Send` of the interface. -/
def sent (s : ArpL3Protocol) : List Ipv4PayloadHeaderPair := s.log.flatMap ArpAction.sent

/-- The packets that a drop trace has reported. -/
def dropped (s : ArpL3Protocol) : List Ipv4PayloadHeaderPair := s.log.flatMap ArpAction.dropped

def held (s : ArpL3Protocol) (p : Ipv4PayloadHeaderPair) : ℕ :=
  s.pending.count p + s.sent.count p + s.dropped.count p + s.discarded.count p

theorem count_update (hnodup : (l.map (·.ipv4_address)).Nodup) (he : entry ∈ l) :
    ((l.map fun e => if e.ipv4_address = entry.ipv4_address then entry' else e).flatMap (·.pending)).count p +
        entry.pending.count p =
      (l.flatMap (·.pending)).count p + entry'.pending.count p := by
  induction l with
  | nil => exact absurd he List.not_mem_nil
  | cons e l ih =>
    obtain ⟨hnot, hnodup⟩ := List.nodup_cons.mp hnodup
    simp only [List.map_cons, List.flatMap_cons, List.count_append]
    rcases List.mem_cons.mp he with rfl | he
    · have hsame : (l.map fun e => if e.ipv4_address = entry.ipv4_address then entry' else e) = l.map id :=
        List.map_congr_left fun e he => if_neg fun hc => hnot (List.mem_map.mpr ⟨e, he, hc⟩)
      rw [if_pos rfl, hsame, List.map_id]
      omega
    · have hne : e.ipv4_address ≠ entry.ipv4_address := fun hc => hnot (List.mem_map.mpr ⟨entry, he, hc.symm⟩)
      have hrec := ih hnodup he
      rw [if_neg hne]
      omega

theorem Sound.count_update {u : ArpCacheEntry} (h : s.Sound) (hlookup : s.cache.lookup dest = some entry) :
    (s.with_cache (s.cache.update dest u)).pending.count p + entry.pending.count p =
      s.pending.count p + u.pending.count p := by
  obtain ⟨hmem, rfl⟩ := ArpCache.lookup_some hlookup
  exact ArpL3Protocol.count_update h.addresses hmem

/-- The same packets are accounted for, and what is sent goes where it was to go. -/
structure Keeps (s s' : ArpL3Protocol) : Prop where
  held : ∀ p, s'.held p = s.held p
  refused : s'.refused = s.refused
  lookups : s'.lookups = s.lookups
  delivered : (∀ p dest, ArpAction.send p dest ∈ s.log → p.destination = dest) →
    ∀ p dest, ArpAction.send p dest ∈ s'.log → p.destination = dest

theorem Keeps.refl (s : ArpL3Protocol) : Keeps s s := ⟨fun _ => rfl, rfl, rfl, fun h => h⟩

theorem keeps_of_pending (hpending : ∀ p, s'.pending.count p = s.pending.count p) (hlog : s'.log = s.log)
    (hdiscarded : s'.discarded = s.discarded) (hrefused : s'.refused = s.refused) (hlookups : s'.lookups = s.lookups) :
    Keeps s s' := by
  refine ⟨fun p => ?_, hrefused, hlookups, fun h => by rwa [hlog]⟩
  rw [held, held, hpending, hdiscarded, sent, sent, dropped, dropped, hlog]

theorem held_act (actions : List ArpAction) : (s.act actions).held p =
    s.held p + (actions.flatMap ArpAction.sent).count p + (actions.flatMap ArpAction.dropped).count p := by
  have hs : (s.act actions).sent = s.sent ++ actions.flatMap ArpAction.sent := List.flatMap_append
  have hd : (s.act actions).dropped = s.dropped ++ actions.flatMap ArpAction.dropped := List.flatMap_append
  unfold held
  rw [hs, hd, List.count_append, List.count_append]
  change s.pending.count p + _ + _ + s.discarded.count p = _
  omega

theorem keeps_act {action : ArpAction} (hsent : action.sent = []) (hdropped : action.dropped = []) :
    Keeps s (s.act [action]) := by
  refine ⟨fun p => ?_, rfl, rfl, fun h p dest hmem => ?_⟩
  · rw [held_act, List.flatMap_singleton, List.flatMap_singleton, hsent, hdropped]
    rfl
  · rcases List.mem_append.mp hmem with hold | hnew
    · exact h p dest hold
    · rw [← List.mem_singleton.mp hnew] at hsent
      cases hsent

theorem Sound.held_update {u : ArpCacheEntry} (h : s.Sound) (hlookup : s.cache.lookup dest = some entry) :
    (s.with_cache (s.cache.update dest u)).held p + entry.pending.count p = s.held p + u.pending.count p := by
  have hcount := h.count_update (p := p) (u := u) hlookup
  unfold held
  change _ + s.sent.count p + s.dropped.count p + s.discarded.count p + _ = _
  omega

theorem Sound.keeps_receive_reply (h : s.Sound) {arp : ArpHeader} (hreply : s.receive_reply arp = some s') :
    Keeps s s' := by
  unfold ArpL3Protocol.receive_reply at hreply
  split at hreply
  next entry hlookup =>
    obtain ⟨hmem, hdest⟩ := ArpCache.lookup_some hlookup
    split at hreply
    next hstate =>
      rw [ArpCacheEntry.mark_alive, if_pos hstate] at hreply
      obtain rfl := Option.some.inj hreply
      refine ⟨fun p => ?_, rfl, rfl, fun hold p dest hsend => ?_⟩
      · have hown : s.cache.lookup entry.ipv4_address = some entry := by rw [hdest, hlookup]
        have hheld := h.held_update (p := p) (u := { entry with
          state := .ALIVE, mac_address := arp.mac_source, retries := 0, last_seen := s.simulator.now, pending := [] })
          hown
        have hsent : (entry.pending.map fun pending => ArpAction.send pending arp.ipv4_source).flatMap ArpAction.sent =
            entry.pending := by
          rw [List.flatMap_map]
          exact List.flatMap_singleton' _
        have hdropped : (entry.pending.map fun pending =>
            ArpAction.send pending arp.ipv4_source).flatMap ArpAction.dropped = [] := by
          rw [List.flatMap_map]
          exact List.flatMap_eq_nil_iff.mpr fun _ _ => rfl
        rw [held_act, hsent, hdropped]
        simp only [List.count_nil] at hheld ⊢
        exact hheld
      · rcases List.mem_append.mp hsend with hsend | hnew
        · exact hold p dest hsend
        · obtain ⟨p', hp', heq⟩ := List.mem_map.mp hnew
          cases heq
          exact ((h.entries entry hmem).address p hp').trans hdest
    next =>
      obtain rfl := Option.some.inj hreply
      exact keeps_act rfl rfl
  next =>
    obtain rfl := Option.some.inj hreply
    exact keeps_act rfl rfl

theorem Sound.keeps_receive (h : s.Sound) {addresses : List Ipv4Address} {arp : Option ArpHeader}
    (hreceive : s.receive addresses arp = some s') : Keeps s s' := by
  unfold ArpL3Protocol.receive at hreceive
  split at hreceive
  · exact Option.some.inj hreceive ▸ Keeps.refl s
  · split at hreceive
    · exact Option.some.inj hreceive ▸ Keeps.refl s
    · split at hreceive
      · obtain rfl := Option.some.inj hreceive
        exact keeps_act rfl rfl
      · exact h.keeps_receive_reply hreceive

theorem count_expire {t : Time} {e : ArpCacheEntry} : (expire a t e).1.pending.count p +
    ((expire a t e).2.1.flatMap ArpAction.dropped).count p = e.pending.count p ∧
      (expire a t e).2.1.flatMap ArpAction.sent = [] := by
  unfold expire
  split
  · split
    · exact ⟨rfl, rfl⟩
    · refine ⟨?_, ?_⟩
      · have hdropped : (e.pending.map ArpAction.cache_drop).flatMap ArpAction.dropped = e.pending := by
          rw [List.flatMap_map]
          exact List.flatMap_singleton' _
        change List.count p [] + ((e.pending.map ArpAction.cache_drop).flatMap ArpAction.dropped).count p = _
        rw [hdropped, List.count_nil, zero_add]
      · change (e.pending.map ArpAction.cache_drop).flatMap ArpAction.sent = []
        rw [List.flatMap_map]
        exact List.flatMap_eq_nil_iff.mpr fun _ _ => rfl
  · exact ⟨rfl, rfl⟩

theorem count_expire_all {t : Time} (l : List ArpCacheEntry) :
    (((l.map (expire a t)).map (·.1)).flatMap (·.pending)).count p +
        (((l.map (expire a t)).flatMap (·.2.1)).flatMap ArpAction.dropped).count p = (l.flatMap (·.pending)).count p ∧
      ((l.map (expire a t)).flatMap (·.2.1)).flatMap ArpAction.sent = [] := by
  induction l with
  | nil => exact ⟨rfl, rfl⟩
  | cons e l ih =>
    obtain ⟨hcount, hsent⟩ := count_expire (p := p) (a := a) (t := t) (e := e)
    simp only [List.map_cons, List.flatMap_cons, List.flatMap_append, List.count_append, hsent, ih.2, List.append_nil,
      and_true]
    omega

theorem keeps_handle {simulator : Agenda ArpCall} : Keeps s (handle_wait_reply_timeout { s with simulator }) := by
  obtain ⟨hcount, hsent⟩ := And.intro
    (fun p => (count_expire_all (p := p) (a := s.cache.attrs) (t := simulator.now) s.cache.entries).1)
    (count_expire_all (p := ⟨0, ⟨0, 0, 0, 0⟩, 0, 0⟩) (a := s.cache.attrs) (t := simulator.now) s.cache.entries).2
  set l := s.cache.entries.map (expire s.cache.attrs simulator.now) with hl
  set s₂ : ArpL3Protocol := (with_cache { s with simulator } { s.cache with entries := l.map (·.1) }).act
    (l.flatMap (·.2.1)) with hs₂
  have hkeeps : Keeps s s₂ := by
    refine ⟨fun p => ?_, rfl, rfl, fun h p dest hmem => ?_⟩
    · rw [hs₂, held_act, hsent, List.count_nil, add_zero]
      have hall := hcount p
      unfold held
      change ((l.map (·.1)).flatMap (·.pending)).count p + s.sent.count p + s.dropped.count p + s.discarded.count p + _ =
        (s.cache.entries.flatMap (·.pending)).count p + s.sent.count p + s.dropped.count p + s.discarded.count p
      omega
    · rcases List.mem_append.mp hmem with hold | hnew
      · exact h p dest hold
      · have hp : p ∈ (l.flatMap (·.2.1)).flatMap ArpAction.sent :=
          List.mem_flatMap.mpr ⟨_, hnew, List.mem_singleton_self p⟩
        rw [hsent] at hp
        exact absurd hp List.not_mem_nil
  change Keeps s (if l.any (·.2.2) then s₂.schedule_wait_reply_timer else s₂)
  split
  · exact { hkeeps with }
  · exact hkeeps

theorem count_filter (f : ArpCacheEntry → Bool) : ((l.filter fun e => !f e).flatMap (·.pending)).count p +
    ((l.filter f).flatMap (·.pending)).count p = (l.flatMap (·.pending)).count p := by
  induction l with
  | nil => rfl
  | cons e l ih =>
    rw [List.filter_cons, List.filter_cons, List.flatMap_cons, List.count_append]
    cases he : f e with
    | true =>
      rw [if_neg (by decide), if_pos rfl, List.flatMap_cons, List.count_append]
      omega
    | false =>
      rw [if_pos (show (!false) = true from rfl), if_neg Bool.false_ne_true, List.flatMap_cons, List.count_append]
      omega

theorem keeps_delete (f : ArpCacheEntry → Bool) : Keeps s (s.delete f) := by
  refine ⟨fun p => ?_, rfl, rfl, fun h => h⟩
  have hcount := count_filter (p := p) (l := s.cache.entries) f
  unfold held
  change _ + s.sent.count p + s.dropped.count p + (s.discarded ++ _).count p = _
  rw [List.count_append]
  change ((s.cache.entries.filter fun e => !f e).flatMap (·.pending)).count p + _ + _ + _ = _
  unfold pending
  omega

theorem Sound.keeps_change {f : ArpCacheEntry → Option ArpCacheEntry} (h : s.Sound) (hchange : s.change dest f = some s')
    (hf : ∀ e e', f e = some e' → e'.pending = e.pending) : Keeps s s' := by
  obtain ⟨e, hlookup, hchange⟩ := Option.bind_eq_some_iff.mp hchange
  obtain ⟨e', he', rfl⟩ := Option.map_eq_some_iff.mp hchange
  refine keeps_of_pending (fun p => ?_) rfl rfl rfl rfl
  have hcount := h.count_update (p := p) (u := e') hlookup
  rw [hf e e' he'] at hcount
  omega

theorem keeps_add {cache' : ArpCache} (hadd : s.cache.add dest = some cache') : Keeps s (s.with_cache cache') := by
  obtain ⟨-, rfl⟩ := ArpCache.add_some hadd
  refine keeps_of_pending (fun p => ?_) rfl rfl rfl rfl
  have hperm := (List.perm_orderedInsert (fun e e' : ArpCacheEntry => e.ipv4_address ≤ e'.ipv4_address)
    { ipv4_address := dest } s.cache.entries).flatMap_right
    fun e : ArpCacheEntry => e.pending
  exact hperm.count_eq p

theorem keeps_packet_seen (source : Ipv4Address) (sender : Address) : Keeps s (s.packet_seen source sender) := by
  refine keeps_of_pending (fun p => ?_) rfl rfl rfl rfl
  have hsame : (s.packet_seen source sender).pending = s.pending := by
    unfold pending ArpL3Protocol.packet_seen with_cache
    rw [List.flatMap_map]
    congr 1
    funext e
    split <;> rfl
  rw [hsame]

theorem keeps_start : Keeps s s.start_wait_reply_timer := by
  unfold start_wait_reply_timer
  split
  · exact Keeps.refl s
  · exact keeps_of_pending (fun _ => rfl) rfl rfl rfl rfl

/-- A packet is kept, and nothing else changes hands. -/
structure Takes (s s' : ArpL3Protocol) (waiting : Ipv4PayloadHeaderPair) : Prop where
  held : ∀ p, s'.held p = s.held p + [waiting].count p
  refused : s'.refused = s.refused
  lookups : s'.lookups = s.lookups
  delivered : (∀ p dest, ArpAction.send p dest ∈ s.log → p.destination = dest) →
    ∀ p dest, ArpAction.send p dest ∈ s'.log → p.destination = dest

theorem Takes.of_keeps {s₁ : ArpL3Protocol} (hkeeps : Keeps s s₁) (htakes : Takes s₁ s' waiting) : Takes s s' waiting :=
  ⟨fun p => by rw [htakes.held, hkeeps.held], htakes.refused.trans hkeeps.refused, htakes.lookups.trans hkeeps.lookups,
    fun h => htakes.delivered (hkeeps.delivered h)⟩

theorem takes_drop : Takes s (s.act [.drop waiting]) waiting := by
  refine ⟨fun p => held_act _, rfl, rfl, fun h p dest hmem => ?_⟩
  rcases List.mem_append.mp hmem with hold | hnew
  · exact h p dest hold
  · cases List.mem_singleton.mp hnew

theorem Sound.takes_resolve {jitter : Time} (h : s.Sound) (hlookup : s.cache.lookup dest = some entry)
    (hresolve : s.resolve entry waiting jitter = some s') : Takes s s' waiting := by
  obtain ⟨hmem, rfl⟩ := ArpCache.lookup_some hlookup
  obtain ⟨entry', hmark, rfl⟩ := resolve_some hresolve
  have hempty : entry.pending = [] := by
    unfold ArpCacheEntry.mark_wait_reply at hmark
    split at hmark
    next hc => exact hc.2
    next => cases hmark
  obtain rfl := mark_wait_reply_some hmark
  obtain ⟨hentries, -, -⟩ := start_cache (s := s)
  have hown : s.start_wait_reply_timer.cache.lookup entry.ipv4_address = some entry := by
    rw [ArpCache.lookup, hentries]
    exact hlookup
  refine Takes.of_keeps keeps_start ⟨fun p => ?_, rfl, rfl, fun h => h⟩
  have hheld := h.start.1.held_update (p := p) (u := { entry with
    state := .WAIT_REPLY, pending := [waiting], last_seen := s.simulator.now, since := s.simulator.now }) hown
  rw [hempty, List.count_nil] at hheld
  exact hheld

theorem Sound.lookup_takes (h : s.Sound) {jitter : Time} {r : Option Address × ArpL3Protocol}
    (hlookup : s.lookup_packet waiting jitter = some r) : (r.1.isSome ∧ r.2 = s) ∨ (r.1 = none ∧ Takes s r.2 waiting) := by
  unfold ArpL3Protocol.lookup_packet at hlookup
  split at hlookup
  next entry hentry =>
    obtain ⟨hmem, hdest⟩ := ArpCache.lookup_some hentry
    have hresolve : ((s.resolve entry waiting jitter).map fun s => ((none : Option Address), s)) = some r →
        (r.1.isSome ∧ r.2 = s) ∨ (r.1 = none ∧ Takes s r.2 waiting) := by
      intro hr
      obtain ⟨s', hs', rfl⟩ := Option.map_eq_some_iff.mp hr
      exact .inr ⟨rfl, h.takes_resolve hentry hs'⟩
    split at hlookup
    · split at hlookup
      · exact hresolve hlookup
      · exact hresolve hlookup
      · cases hlookup
    · split at hlookup
      · cases hlookup
        exact .inr ⟨rfl, takes_drop⟩
      · cases hlookup
        exact .inl ⟨rfl, rfl⟩
      next hstate =>
        obtain ⟨⟨room, entry'⟩, hupdate, rfl⟩ := Option.map_eq_some_iff.mp hlookup
        right
        rw [ArpCacheEntry.update_wait_reply, if_pos hstate] at hupdate
        have hown : s.cache.lookup entry.ipv4_address = some entry := by rw [hdest, hentry]
        split at hupdate
        · cases hupdate
          have hsame : Keeps s (s.with_cache (s.cache.update entry.ipv4_address entry)) := by
            refine keeps_of_pending (fun p => ?_) rfl rfl rfl rfl
            have hcount := h.count_update (p := p) (u := entry) hown
            omega
          exact ⟨rfl, Takes.of_keeps hsame takes_drop⟩
        · cases hupdate
          refine ⟨rfl, fun p => ?_, rfl, rfl, fun h => h⟩
          have hheld := h.held_update (p := p) (u := { entry with pending := entry.pending ++ [waiting] }) hown
          rw [List.count_append] at hheld
          have hheld : (s.with_cache (s.cache.update entry.ipv4_address
              { entry with pending := entry.pending ++ [waiting] })).held p = s.held p + [waiting].count p := by omega
          exact hheld
      · cases hlookup
        exact .inl ⟨rfl, rfl⟩
      · cases hlookup
        exact .inl ⟨rfl, rfl⟩
  next hentry =>
    obtain ⟨cache', hadd, hresolve⟩ := Option.bind_eq_some_iff.mp hlookup
    obtain ⟨s', hs', rfl⟩ := Option.map_eq_some_iff.mp hresolve
    refine .inr ⟨rfl, Takes.of_keeps (keeps_add hadd) ?_⟩
    obtain ⟨hsound, -⟩ := h.add hadd
    have hmem : { ipv4_address := waiting.destination : ArpCacheEntry } ∈ (s.with_cache cache').cache.entries := by
      obtain ⟨-, rfl⟩ := ArpCache.add_some hadd
      exact (List.mem_orderedInsert _).mpr (.inl rfl)
    cases hfind : (s.with_cache cache').cache.lookup waiting.destination with
    | none => exact absurd rfl (ArpCache.lookup_none hfind _ hmem)
    | some entry =>
      obtain ⟨hmem', haddress⟩ := ArpCache.lookup_some hfind
      have hsame : { ipv4_address := waiting.destination : ArpCacheEntry } = entry :=
        List.inj_on_of_nodup_map hsound.addresses hmem hmem' haddress.symm
      exact hsound.takes_resolve (hsame ▸ hfind) hs'

/-- Every packet for which a lookup returned false is accounted for once. -/
structure Conserved (s : ArpL3Protocol) : Prop where
  balance : ∀ p, s.refused.count p = s.held p
  serials : (s.refused.map (·.serial)).Nodup
  numbered : ∀ p ∈ s.refused, p.serial < s.lookups
  delivered : ∀ p dest, ArpAction.send p dest ∈ s.log → p.destination = dest

theorem Conserved.keeps (h : s.Conserved) (hkeeps : Keeps s s') : s'.Conserved := by
  refine ⟨fun p => ?_, ?_, ?_, hkeeps.delivered h.delivered⟩
  · rw [hkeeps.refused, hkeeps.held, h.balance]
  · rw [hkeeps.refused]
    exact h.serials
  · rw [hkeeps.refused, hkeeps.lookups]
    exact h.numbered

theorem Conserved.lookup (h : s.Conserved) (hsound : s.Sound) {packet : ℕ} {header : Ipv4Header} {jitter : Time}
    {r : Option Address × ArpL3Protocol} (hlookup : s.lookup packet header dest jitter = some r) : r.2.Conserved := by
  obtain ⟨r', hpacket, rfl⟩ := Option.map_eq_some_iff.mp hlookup
  rcases hsound.lookup_takes hpacket with ⟨hsome, hsame⟩ | ⟨hnone, htakes⟩
  · have hfalse : r'.1.isNone = false := by rw [← Option.not_isSome, hsome]; rfl
    refine ⟨fun p => ?_, ?_, ?_, ?_⟩
    · simp only [hfalse, hsame]
      exact h.balance p
    · simp only [hfalse]
      exact h.serials
    · simp only [hfalse]
      exact fun p hp => Nat.lt_succ_of_lt (h.numbered p hp)
    · simp only [hsame]
      exact h.delivered
  · have htrue : r'.1.isNone = true := by rw [hnone]; rfl
    refine ⟨fun p => ?_, ?_, ?_, htakes.delivered h.delivered⟩
    · simp only [htrue, if_true, List.count_append]
      rw [h.balance]
      exact (htakes.held p).symm
    · simp only [htrue, if_true, List.map_append, List.map_cons, List.map_nil]
      refine List.nodup_append.mpr ⟨h.serials, List.nodup_singleton _, fun n hn m hm => ?_⟩
      obtain ⟨p, hp, rfl⟩ := List.mem_map.mp hn
      rw [List.mem_singleton.mp hm]
      exact (h.numbered p hp).ne
    · simp only [htrue, if_true]
      intro p hp
      rcases List.mem_append.mp hp with hold | hnew
      · exact Nat.lt_succ_of_lt (h.numbered p hold)
      · rw [List.mem_singleton.mp hnew]
        exact Nat.lt_succ_self _

theorem keeps_flush : Keeps s s.flush := by
  have hdelete := keeps_delete (s := s) fun _ => true
  unfold flush
  dsimp only
  split
  · exact { hdelete with }
  · exact hdelete

theorem Conserved.step {e : Event} (h : s.Conserved) (hsound : s.Sound) (hstep : s.step e = some s') :
    s'.Conserved := by
  cases e with
  | lookup packet header dest jitter =>
    obtain ⟨r, hlookup, rfl⟩ := Option.map_eq_some_iff.mp hstep
    exact h.lookup hsound hlookup
  | receive addresses arp => exact h.keeps (hsound.keeps_receive hstep)
  | packet_seen source sender => exact Option.some.inj hstep ▸ h.keeps (keeps_packet_seen source sender)
  | advance t =>
    dsimp only [ArpL3Protocol.step] at hstep
    split at hstep
    · obtain ⟨simulator, -, rfl⟩ := Option.map_eq_some_iff.mp hstep
      exact h.keeps (keeps_of_pending (fun _ => rfl) rfl rfl rfl rfl)
    · cases hstep
  | run uid =>
    dsimp only [ArpL3Protocol.step] at hstep
    split at hstep
    · exact Option.some.inj hstep ▸ h.keeps keeps_handle
    next dest simulator _ =>
      have hkeeps : Keeps s { s with simulator } := keeps_of_pending (fun _ => rfl) rfl rfl rfl rfl
      exact Option.some.inj hstep ▸ (h.keeps hkeeps).keeps (keeps_act rfl rfl)
    · cases hstep
  | flush => exact Option.some.inj hstep ▸ h.keeps keeps_flush
  | remove dest => exact Option.some.inj hstep ▸ h.keeps (keeps_delete _)
  | add dest =>
    obtain ⟨cache', hadd, rfl⟩ := Option.map_eq_some_iff.mp hstep
    exact h.keeps (keeps_add hadd)
  | set_mac_address dest mac_address =>
    exact h.keeps (hsound.keeps_change hstep fun e e' he' => Option.some.inj he' ▸ rfl)
  | mark_permanent dest =>
    refine h.keeps (hsound.keeps_change hstep fun e e' he' => ?_)
    unfold ArpCacheEntry.mark_permanent at he'
    split at he'
    · cases he'
    · exact Option.some.inj he' ▸ rfl
  | mark_auto_generated dest =>
    refine h.keeps (hsound.keeps_change hstep fun e e' he' => ?_)
    unfold ArpCacheEntry.mark_auto_generated at he'
    split at he'
    · cases he'
    · exact Option.some.inj he' ▸ rfl
  | remove_auto_generated_entries => exact Option.some.inj hstep ▸ h.keeps (keeps_delete _)

theorem sent_act {actions : List ArpAction} (hsent : actions.flatMap ArpAction.sent = []) : (s.act actions).sent = s.sent := by
  have happend : (s.act actions).sent = s.sent ++ actions.flatMap ArpAction.sent := List.flatMap_append
  rw [happend, hsent, List.append_nil]

theorem resolve_same {jitter : Time} (h : s.resolve entry waiting jitter = some s') :
    s'.sent = s.sent ∧ s'.discarded = s.discarded := by
  obtain ⟨entry', -, rfl⟩ := resolve_some h
  change s.start_wait_reply_timer.sent = s.sent ∧ s.start_wait_reply_timer.discarded = s.discarded
  unfold start_wait_reply_timer
  split <;> exact ⟨rfl, rfl⟩

theorem lookup_packet_same {jitter : Time} {r : Option Address × ArpL3Protocol}
    (h : s.lookup_packet waiting jitter = some r) : r.2.sent = s.sent ∧ r.2.discarded = s.discarded := by
  unfold lookup_packet at h
  split at h
  next entry _ =>
    have hresolve : ((s.resolve entry waiting jitter).map fun s => ((none : Option Address), s)) = some r →
        r.2.sent = s.sent ∧ r.2.discarded = s.discarded := by
      intro hr
      obtain ⟨s', hs', rfl⟩ := Option.map_eq_some_iff.mp hr
      exact resolve_same hs'
    split at h
    · split at h
      · exact hresolve h
      · exact hresolve h
      · cases h
    · split at h
      · cases h
        exact ⟨sent_act rfl, rfl⟩
      · cases h
        exact ⟨rfl, rfl⟩
      · obtain ⟨⟨room, entry'⟩, -, rfl⟩ := Option.map_eq_some_iff.mp h
        dsimp only
        split
        · exact ⟨rfl, rfl⟩
        · exact ⟨sent_act rfl, rfl⟩
      · cases h
        exact ⟨rfl, rfl⟩
      · cases h
        exact ⟨rfl, rfl⟩
  next =>
    obtain ⟨cache', -, hresolve⟩ := Option.bind_eq_some_iff.mp h
    obtain ⟨s', hs', rfl⟩ := Option.map_eq_some_iff.mp hresolve
    have hsame := resolve_same hs'
    exact hsame

theorem change_same {f : ArpCacheEntry → Option ArpCacheEntry} (h : s.change dest f = some s') :
    s'.sent = s.sent ∧ s'.discarded = s.discarded := by
  obtain ⟨e, -, h⟩ := Option.bind_eq_some_iff.mp h
  obtain ⟨e', -, rfl⟩ := Option.map_eq_some_iff.mp h
  exact ⟨rfl, rfl⟩

theorem handle_same {simulator : Agenda ArpCall} : (handle_wait_reply_timeout { s with simulator }).sent = s.sent ∧
    (handle_wait_reply_timeout { s with simulator }).discarded = s.discarded := by
  have hsent := (count_expire_all (p := ⟨0, ⟨0, 0, 0, 0⟩, 0, 0⟩) (a := s.cache.attrs) (t := simulator.now)
    s.cache.entries).2
  unfold handle_wait_reply_timeout
  dsimp only
  split
  · exact ⟨sent_act hsent, rfl⟩
  · exact ⟨sent_act hsent, rfl⟩

/-- What a reply for this node sends: the packets for its address. -/
theorem Sound.receive_sends (h : s.Sound) {addresses : List Ipv4Address} {arp : Option ArpHeader}
    (hreceive : s.receive addresses arp = some s') : s'.discarded = s.discarded ∧ (s'.sent = s.sent ∨ ∃ arp', arp = some arp' ∧
      arp'.is_reply = true ∧ ∃ new, s'.sent = s.sent ++ new ∧ ∀ p ∈ new, p.destination = arp'.ipv4_source) := by
  unfold ArpL3Protocol.receive at hreceive
  split at hreceive
  · cases hreceive
    exact ⟨rfl, .inl rfl⟩
  next arp =>
    split at hreceive
    · cases hreceive
      exact ⟨rfl, .inl rfl⟩
    next address hfind =>
      split at hreceive
      · cases hreceive
        exact ⟨rfl, .inl (sent_act rfl)⟩
      next hrequest =>
        have hreply : arp.is_reply = true := by
          have hmatch := List.find?_some hfind
          rw [Bool.eq_false_iff.mpr hrequest] at hmatch
          simp only [Bool.false_and, Bool.false_or, Bool.and_eq_true] at hmatch
          exact hmatch.1.1
        unfold ArpL3Protocol.receive_reply at hreceive
        split at hreceive
        next entry hlookup =>
          obtain ⟨hmem, hdest⟩ := ArpCache.lookup_some hlookup
          split at hreceive
          · obtain ⟨alive, -, rfl⟩ := Option.map_eq_some_iff.mp hreceive
            refine ⟨rfl, .inr ⟨arp, rfl, hreply, entry.pending, ?_, fun p hp => ?_⟩⟩
            · have hsent : (entry.pending.map fun pending =>
                  ArpAction.send pending arp.ipv4_source).flatMap ArpAction.sent = entry.pending := by
                rw [List.flatMap_map]
                exact List.flatMap_singleton' _
              have happend := @List.flatMap_append _ _ s.log (entry.pending.map fun pending =>
                ArpAction.send pending arp.ipv4_source) ArpAction.sent
              rw [hsent] at happend
              exact happend
            · exact ((h.entries entry hmem).address p hp).trans hdest
          · cases hreceive
            exact ⟨rfl, .inl (sent_act rfl)⟩
        next =>
          cases hreceive
          exact ⟨rfl, .inl (sent_act rfl)⟩

theorem Sound.step_moves {e : Event} (h : s.Sound) (hstep : s.step e = some s') :
    (s'.sent = s.sent ∨ ∃ addresses arp, e = .receive addresses (some arp) ∧ arp.is_reply = true ∧
      ∃ new, s'.sent = s.sent ++ new ∧ ∀ p ∈ new, p.destination = arp.ipv4_source) ∧
    (s'.discarded = s.discarded ∨ e = .flush ∨ ∃ dest, e = .remove dest) := by
  cases e with
  | lookup packet header dest jitter =>
    obtain ⟨r, hlookup, rfl⟩ := Option.map_eq_some_iff.mp hstep
    obtain ⟨r', hpacket, rfl⟩ := Option.map_eq_some_iff.mp hlookup
    obtain ⟨hsent, hdiscarded⟩ := lookup_packet_same hpacket
    exact ⟨.inl hsent, .inl hdiscarded⟩
  | receive addresses arp =>
    obtain ⟨hdiscarded, hsent⟩ := h.receive_sends hstep
    refine ⟨hsent.imp_right ?_, .inl hdiscarded⟩
    rintro ⟨arp', rfl, hrest⟩
    exact ⟨addresses, arp', rfl, hrest⟩
  | packet_seen source sender => exact Option.some.inj hstep ▸ ⟨.inl rfl, .inl rfl⟩
  | advance t =>
    dsimp only [ArpL3Protocol.step] at hstep
    split at hstep
    · obtain ⟨simulator, -, rfl⟩ := Option.map_eq_some_iff.mp hstep
      exact ⟨.inl rfl, .inl rfl⟩
    · cases hstep
  | run uid =>
    dsimp only [ArpL3Protocol.step] at hstep
    split at hstep
    · cases hstep
      exact ⟨.inl handle_same.1, .inl handle_same.2⟩
    · cases hstep
      exact ⟨.inl (sent_act rfl), .inl rfl⟩
    · cases hstep
  | flush =>
    refine Option.some.inj hstep ▸ ⟨.inl ?_, .inr (.inl rfl)⟩
    unfold ArpL3Protocol.flush
    dsimp only
    split <;> rfl
  | remove dest => exact Option.some.inj hstep ▸ ⟨.inl rfl, .inr (.inr ⟨dest, rfl⟩)⟩
  | add dest =>
    obtain ⟨cache', -, rfl⟩ := Option.map_eq_some_iff.mp hstep
    exact ⟨.inl rfl, .inl rfl⟩
  | set_mac_address dest mac_address => exact ⟨.inl (change_same hstep).1, .inl (change_same hstep).2⟩
  | mark_permanent dest => exact ⟨.inl (change_same hstep).1, .inl (change_same hstep).2⟩
  | mark_auto_generated dest => exact ⟨.inl (change_same hstep).1, .inl (change_same hstep).2⟩
  | remove_auto_generated_entries =>
    refine Option.some.inj hstep ▸ ⟨.inl rfl, .inl ?_⟩
    have hnone : ((s.cache.entries.filter (·.state = .STATIC_AUTOGENERATED)).flatMap (·.pending)) = [] := by
      refine List.flatMap_eq_nil_iff.mpr fun e he => ?_
      obtain ⟨hmem, hstate⟩ := List.mem_filter.mp he
      have hstate : e.state = .STATIC_AUTOGENERATED := of_decide_eq_true hstate
      exact ((h.entries e hmem).idle (by rw [hstate]; decide)).1
    change s.discarded ++ _ = _
    rw [hnone, List.append_nil]

theorem Fresh.sound (h : s.Fresh) : s.Sound ∧ s.Conserved := by
  obtain ⟨hentries, htimer, hsimulator, hlookups, hrefused, hdiscarded, hlog⟩ := h
  refine ⟨⟨?_, ?_, ?_, ?_, ?_, ?_, ?_, ?_⟩, ⟨?_, ?_, ?_, ?_⟩⟩
  · rw [hsimulator]
    exact ⟨fun ev hev => absurd hev List.not_mem_nil, List.nodup_nil⟩
  · rw [hsimulator]
    decide
  · rw [htimer]
    exact nofun
  · rw [hsimulator]
    exact fun ev hev => absurd hev List.not_mem_nil
  · rw [hsimulator]
    exact fun ev hev => absurd hev List.not_mem_nil
  · rw [hentries]
    exact List.nodup_nil
  · rw [hentries]
    exact fun e he => absurd he List.not_mem_nil
  · rw [hentries]
    exact fun e he => absurd he List.not_mem_nil
  · intro p
    simp only [held, pending, sent, dropped, hentries, hlog, hrefused, hdiscarded, List.flatMap_nil, List.count_nil]
  · rw [hrefused]
    exact List.nodup_nil
  · rw [hrefused]
    exact fun p hp => absurd hp List.not_mem_nil
  · rw [hlog]
    exact fun p dest hmem => absurd hmem List.not_mem_nil

/-- The runs of the protocol in which no entry is made permanent while it is waiting. -/
def Run : ArpL3Protocol → Prop := Reachable Fresh step Admissible

theorem Run.sound (hrun : Run s) : s.Sound ∧ s.Conserved := by
  have hinvariant : ∀ s e s', (Sound s ∧ Conserved s) → Admissible s e → step s e = some s' → Sound s' ∧ Conserved s' :=
    fun _ _ _ h hadmissible hstep => ⟨h.1.step hadmissible hstep, h.2.step h.1 hstep⟩
  exact Reachable.invariant (fun _ h => Fresh.sound h) hinvariant hrun

/-- A packet that was sent has been handed over by a reply for its address; packets are discarded
where entries are deleted. -/
def Accounted (s : ArpL3Protocol) : Prop :=
  (∀ p ∈ s.refused, s.pending.count p + s.sent.count p + s.dropped.count p + s.discarded.count p = 1) ∧
    ∀ e s', s.step e = some s' →
      (s'.sent = s.sent ∨ ∃ addresses arp, e = .receive addresses (some arp) ∧ arp.is_reply = true ∧
        ∃ new, s'.sent = s.sent ++ new ∧ ∀ p ∈ new, p.destination = arp.ipv4_source) ∧
      (s'.discarded = s.discarded ∨ e = .flush ∨ ∃ dest, e = .remove dest)

/-- Only an entry that is waiting has packets, all for its address and not too many; while it is
waiting the timer is running, and it has not been waiting for too long. -/
def Bounded (s : ArpL3Protocol) (e : ArpCacheEntry) : Prop :=
  (e.state ≠ .WAIT_REPLY → e.pending = []) ∧
    e.pending.length ≤ max 1 s.cache.attrs.pending_queue_size.toNat ∧
    (∀ p ∈ e.pending, p.destination = e.ipv4_address) ∧
    (e.state = .WAIT_REPLY → (s.simulator.find s.cache.wait_reply_timer).any (·.call = .handle_wait_reply_timeout) = true ∧
      s.simulator.now ≤ e.since + (s.cache.attrs.max_retries.toNat + 1) * s.cache.attrs.wait_reply_timeout)

/-- The theorem on the resolution of addresses. -/
theorem resolution_safe (hrun : Run s) : s.Accounted ∧ (∀ e ∈ s.cache.entries, s.Bounded e) ∧
    ∀ packet header dest jitter, (s.lookup packet header dest jitter).isSome := by
  obtain ⟨hsound, hconserved⟩ := hrun.sound
  refine ⟨⟨fun p hp => ?_, fun e s' hstep => hsound.step_moves hstep⟩, fun e he => ?_, fun packet header dest jitter => ?_⟩
  · have hbalance := hconserved.balance p
    rw [List.count_eq_one_of_mem hconserved.serials.of_map hp] at hbalance
    exact hbalance.symm
  · have hgood := hsound.entries e he
    refine ⟨fun hstate => (hgood.idle hstate).1, hgood.room, hgood.address, fun hstate => ?_⟩
    obtain ⟨ev, hev, htimer, -, hround⟩ := hsound.timed e he hstate
    have hcall := (hsound.only ev hev).mpr htimer
    refine ⟨?_, ?_⟩
    · rw [htimer, hsound.agenda.find hev, Option.any_some]
      exact decide_eq_true hcall
    · have hpos := s.cache.attrs.wait_reply_timeout_nonneg
      have htries : (e.retries.toNat : ℤ) ≤ s.cache.attrs.max_retries.toNat :=
        Int.ofNat_le.mpr (UInt32.le_iff_toNat_le.mp hgood.tries)
      have hmul : ((e.retries.toNat : ℤ) + 1) * s.cache.attrs.wait_reply_timeout ≤
          (s.cache.attrs.max_retries.toNat + 1) * s.cache.attrs.wait_reply_timeout :=
        mul_le_mul_of_nonneg_right (by linarith) hpos
      have hahead := (hsound.ahead ev hev hcall).1
      linarith
  · obtain ⟨r, hr, -⟩ := hsound.lookup_packet
      { packet, header, serial := s.lookups, destination := dest : Ipv4PayloadHeaderPair } jitter
    unfold ArpL3Protocol.lookup
    dsimp only
    rw [hr]
    rfl

def node : ArpL3Protocol := { cache := { attrs := {} }, device_address := {} }

def header : Ipv4Header := ⟨1, 5, 64, 17⟩

theorem run_of_execute {events : List Event} (hevents : ∀ e ∈ events, ∀ s, Admissible s e)
    (h : events.foldlM step node = some s) : Run s := by
  have hgen : ∀ {s₀ : ArpL3Protocol}, Run s₀ → events.foldlM step s₀ = some s → Run s := by
    clear h
    induction events with
    | nil => exact fun hrun h => Option.some.inj h ▸ hrun
    | cons e events ih =>
      intro s₀ hrun h
      obtain ⟨s₁, hstep, h⟩ := Option.bind_eq_some_iff.mp h
      exact ih (fun e he => hevents e (List.mem_cons_of_mem _ he))
        (hrun.step (hevents e List.mem_cons_self s₀) hstep) h
  exact hgen (.init ⟨rfl, rfl, rfl, rfl, rfl, rfl, rfl⟩) h

/-- One address is resolved while another one is waiting. -/
theorem resolution_pending : ∃ s : ArpL3Protocol, s.sent ≠ [] ∧ s.pending ≠ [] ∧ s.Accounted ∧ (∀ e ∈ s.cache.entries, s.Bounded e) ∧
    ∀ packet header dest jitter, (s.lookup packet header dest jitter).isSome := by
  have hany : ([.lookup 0 header 5 0, .lookup 1 header 6 0,
      .receive [1] (some ⟨2, ⟨1, [5]⟩, {}, 5, 1⟩)].foldlM step node).any
        (fun s : ArpL3Protocol => decide (s.sent ≠ [] ∧ s.pending ≠ [])) = true := by decide +kernel
  obtain ⟨s, hs, hne⟩ := (Option.any_eq_true _ _).mp hany
  obtain ⟨hsent, hpending⟩ := of_decide_eq_true hne
  have hrun : Run s := by
    refine run_of_execute (fun e he s => ?_) hs
    simp only [List.mem_cons, List.not_mem_nil, or_false] at he
    rcases he with rfl | rfl | rfl <;> trivial
  exact ⟨s, hsent, hpending, resolution_safe hrun⟩

/-- A packet that is pending when the link changes is neither sent nor reported. -/
theorem flush_forgets : ∃ s : ArpL3Protocol, Run s ∧ ∃ p ∈ s.refused, p ∉ s.pending ∧ p ∉ s.sent ∧ p ∉ s.dropped := by
  have hany : ([.lookup 0 header 5 0, .flush].foldlM step node).any
      (fun s : ArpL3Protocol => decide (∃ p ∈ s.refused, p ∉ s.pending ∧ p ∉ s.sent ∧ p ∉ s.dropped)) = true := by decide +kernel
  obtain ⟨s, hs, hlost⟩ := (Option.any_eq_true _ _).mp hany
  refine ⟨s, run_of_execute (fun e he s => ?_) hs, of_decide_eq_true hlost⟩
  simp only [List.mem_cons, List.not_mem_nil, or_false] at he
  rcases he with rfl | rfl <;> trivial

end Ns3.ArpL3Protocol
