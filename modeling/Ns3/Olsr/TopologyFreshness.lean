import Ns3.Olsr.Step

namespace Ns3.Olsr

/-- The order of the standard on sequence numbers, which goes around at 2 ^ 16. -/
def newer (s1 s2 : UInt16) : Bool :=
  (s1 > s2 && s1 - s2 ≤ 32767) || (s2 > s1 && s2 - s1 > 32767)

/-- A TC message as a node has received it: `expirationTime` is the time that it was received and
its validity time. -/
structure ReceivedTc where
  ansn : UInt16
  neighborAddresses : List Ipv4Address
  expirationTime : Time
deriving DecidableEq, Repr

namespace ReceivedTc

/-- The numbers lie within fewer than 2 ^ 15 increments. -/
def Window (received : List ReceivedTc) : Prop :=
  ∃ start : UInt16, ∀ m ∈ received, m.ansn - start < 32768

/-- The numbers lie within fewer than 2 ^ 15 increments that do not go around. -/
def PlainWindow (received : List ReceivedTc) : Prop :=
  ∃ start : ℕ, ∀ m ∈ received, start ≤ m.ansn.toNat ∧ m.ansn.toNat < start + 32768

/-- The expiry that the last message with the number that advertises the destination gives. -/
def confirmed (ansn : UInt16) (received : List ReceivedTc) (destAddr : Ipv4Address) : Option Time :=
  (received.filter fun m => m.ansn == ansn && m.neighborAddresses.contains destAddr).getLast?.map
    (·.expirationTime)

/-- The expiry that the last of the newest messages that advertises the destination gives. -/
def last_confirmed (received : List ReceivedTc) (destAddr : Ipv4Address) : Option Time :=
  (received.filter fun m => received.all (fun m' => !newer m'.ansn m.ansn) &&
    m.neighborAddresses.contains destAddr).getLast?.map (·.expirationTime)

end ReceivedTc

open ReceivedTc

namespace Node

/-- The unexpired tuples of an originator are one for each destination that its newest messages
advertise, each with the expiry of the last of them that does. -/
structure Fresh (n : Node) (lastAddr : Ipv4Address) (received : List ReceivedTc) : Prop where
  one : ((n.m_state.m_topologySet.filter fun t => t.lastAddr == lastAddr).map (·.destAddr)).Nodup
  exact : ∀ destAddr expirationTime, n.now ≤ expirationTime →
    ((∃ t ∈ n.m_state.m_topologySet, t.lastAddr = lastAddr ∧ t.destAddr = destAddr ∧
        t.expirationTime = expirationTime) ↔
      last_confirmed received destAddr = some expirationTime)

/-- The node has a tuple of the originator. -/
def holds (n : Node) (lastAddr : Ipv4Address) : Bool :=
  n.m_state.m_topologySet.any fun t => t.lastAddr == lastAddr

def received (n : Node) (msg : MessageHeader) (tc : Tc) : ReceivedTc :=
  ⟨tc.ansn, tc.neighborAddresses, n.now + msg.get_vtime⟩

/-- A run of a node, with all messages of the originator that it has received through symmetric
links, and with those since it last had no tuple of the originator. -/
inductive Receives (lastAddr : Ipv4Address) : Node → List ReceivedTc → List ReceivedTc → Prop
  | start (n : Node) (hempty : n.m_state.m_topologySet = []) : Receives lastAddr n [] []
  | tc {n : Node} {all recent : List ReceivedTc} (h : Receives lastAddr n all recent)
      (msg : MessageHeader) (tc : Tc) (senderIface : Ipv4Address)
      (horiginator : msg.m_originatorAddress = lastAddr)
      (hsymmetric : (n.m_state.find_sym_link_tuple senderIface n.now).isSome) :
      Receives lastAddr (n.process_tc msg tc senderIface) (all ++ [n.received msg tc])
        ((if n.holds lastAddr then recent else []) ++ [n.received msg tc])
  | other_tc {n : Node} {all recent : List ReceivedTc} (h : Receives lastAddr n all recent)
      (msg : MessageHeader) (tc : Tc) (senderIface : Ipv4Address)
      (horiginator : msg.m_originatorAddress ≠ lastAddr) :
      Receives lastAddr (n.process_tc msg tc senderIface) all recent
  | expire {n : Node} {all recent : List ReceivedTc} (h : Receives lastAddr n all recent)
      (destAddr lastAddr' : Ipv4Address) :
      Receives lastAddr (n.topology_tuple_timer_expire destAddr lastAddr') all recent
  /-- Whatever leaves the topology set as it is, and the time that passes. -/
  | other {n : Node} {all recent : List ReceivedTc} (h : Receives lastAddr n all recent) (n' : Node)
      (hset : n'.m_state.m_topologySet = n.m_state.m_topologySet) (hnow : n.now ≤ n'.now) :
      Receives lastAddr n' all recent

section Tuples

/-! The tuples are found by destination and originator. -/

variable {n : Node} {d lastAddr : Ipv4Address} {t : TopologyTuple}

def tuple_key (t : TopologyTuple) : Ipv4Address × Ipv4Address := (t.destAddr, t.lastAddr)

/-- The set has no two tuples of one destination and originator. -/
def OneEach (n : Node) : Prop := (n.m_state.m_topologySet.map tuple_key).Nodup

theorem key_of_find (h : n.m_state.find_topology_tuple d lastAddr = some t) :
    t.destAddr = d ∧ t.lastAddr = lastAddr := by
  have htest := List.find?_some h
  rwa [Bool.and_eq_true, beq_iff_eq, beq_iff_eq] at htest

theorem mem_of_find (h : n.m_state.find_topology_tuple d lastAddr = some t) :
    t ∈ n.m_state.m_topologySet := List.mem_of_find?_eq_some h

theorem find_of_mem (hone : n.OneEach) (h : t ∈ n.m_state.m_topologySet) :
    n.m_state.find_topology_tuple t.destAddr t.lastAddr = some t := by
  cases hfind : n.m_state.find_topology_tuple t.destAddr t.lastAddr with
  | none =>
    have hno := List.find?_eq_none.mp hfind t h
    simp at hno
  | some t' =>
    obtain ⟨hdest, hlast⟩ := key_of_find hfind
    have hkey : tuple_key t' = tuple_key t := Prod.ext hdest hlast
    rw [List.inj_on_of_nodup_map hone (mem_of_find hfind) h hkey]

theorem holds_iff : n.holds lastAddr = true ↔ ∃ t ∈ n.m_state.m_topologySet, t.lastAddr = lastAddr := by
  simp [holds]

theorem find_eq_some_iff {a : Ipv4Address} (hone : n.OneEach) :
    n.m_state.find_topology_tuple d a = some t ↔
      t ∈ n.m_state.m_topologySet ∧ t.destAddr = d ∧ t.lastAddr = a := by
  constructor
  · intro h
    exact ⟨mem_of_find h, key_of_find h⟩
  · rintro ⟨hmem, rfl, rfl⟩
    exact find_of_mem hone hmem

end Tuples

section ProcessTc

variable {n : Node} {msg : MessageHeader} {tc : Tc} {lastAddr : Ipv4Address}

theorem now_process_tc_address (n : Node) (addr : Ipv4Address) :
    (process_tc_address msg tc n addr).now = n.now := by
  simp only [process_tc_address]
  split <;> rfl

theorem oneEach_process_tc_address (h : n.OneEach) (addr : Ipv4Address) :
    (process_tc_address msg tc n addr).OneEach := by
  unfold OneEach at h ⊢
  simp only [process_tc_address]
  split
  next =>
    refine Eq.mpr (congrArg List.Nodup ?_) h
    exact List.map_modifyFirst (f := fun t : TopologyTuple =>
      { t with expirationTime := n.now + msg.get_vtime }) fun t _ => rfl
  next hnone =>
    change ((n.m_state.m_topologySet ++ [_]).map tuple_key).Nodup
    rw [List.map_append]
    refine List.nodup_append.mpr ⟨h, List.nodup_singleton _, ?_⟩
    intro key hkey other hother heq
    obtain ⟨t, ht, rfl⟩ := List.mem_map.mp hkey
    obtain rfl := List.mem_singleton.mp hother
    obtain ⟨hdest, hlast⟩ := Prod.ext_iff.mp heq
    exact List.find?_eq_none.mp hnone t ht (by simpa [tuple_key] using And.intro hdest hlast)

theorem find_process_tc_address {addr : Ipv4Address}
    (hansn : ∀ t, n.m_state.find_topology_tuple addr msg.m_originatorAddress = some t →
      t.sequenceNumber = tc.ansn) (d : Ipv4Address) :
    (process_tc_address msg tc n addr).m_state.find_topology_tuple d msg.m_originatorAddress =
      if d = addr then some ⟨addr, msg.m_originatorAddress, tc.ansn, n.now + msg.get_vtime⟩
      else n.m_state.find_topology_tuple d msg.m_originatorAddress := by
  simp only [process_tc_address]
  cases hfind : n.m_state.find_topology_tuple addr msg.m_originatorAddress with
  | some t₀ =>
    obtain ⟨hdest, hlast⟩ := key_of_find hfind
    dsimp only
    split
    next heq =>
      subst heq
      refine (List.find?_modifyFirst
        (p := fun t : TopologyTuple => t.destAddr == d && t.lastAddr == msg.m_originatorAddress)
        (f := fun t : TopologyTuple => { t with expirationTime := n.now + msg.get_vtime })
        fun t ht => ht).trans ?_
      have hfound := congrArg (Option.map fun t : TopologyTuple =>
        { t with expirationTime := n.now + msg.get_vtime }) hfind
      refine hfound.trans ?_
      rw [Option.map_some, ← hdest, ← hlast, ← hansn t₀ hfind]
    next hne =>
      refine List.find?_modifyFirst_ne (fun t ht ht' => hne ?_) fun t ht ht' => hne ?_
      all_goals
        simp only [Bool.and_eq_true, beq_iff_eq] at ht ht'
        exact ht'.1.symm.trans ht.1
  | none =>
    dsimp only
    change (n.m_state.m_topologySet ++ [_]).find? _ = _
    rw [List.find?_append]
    split
    next heq =>
      subst heq
      rw [show n.m_state.m_topologySet.find? _ = none from hfind]
      simp
    next hne =>
      have hlast : List.find? (fun t : TopologyTuple => t.destAddr == d &&
          t.lastAddr == msg.m_originatorAddress)
          [⟨addr, msg.m_originatorAddress, tc.ansn, n.now + msg.get_vtime⟩] = none := by
        simpa using Ne.symm hne
      rw [hlast, Option.or_none]
      rfl

theorem find_process_tc_address_ne (hne : msg.m_originatorAddress ≠ lastAddr) (addr d : Ipv4Address) :
    (process_tc_address msg tc n addr).m_state.find_topology_tuple d lastAddr =
      n.m_state.find_topology_tuple d lastAddr := by
  simp only [process_tc_address]
  split
  next =>
    refine List.find?_modifyFirst_ne (fun t ht ht' => hne ?_) fun t ht ht' => hne ?_
    all_goals
      simp only [Bool.and_eq_true, beq_iff_eq] at ht ht'
      exact ht.2.symm.trans ht'.2
  next =>
    change (n.m_state.m_topologySet ++ [_]).find? _ = _
    have hlast : List.find? (fun t : TopologyTuple => t.destAddr == d && t.lastAddr == lastAddr)
        [⟨addr, msg.m_originatorAddress, tc.ansn, n.now + msg.get_vtime⟩] = none := by
      simpa using fun _ => hne
    rw [List.find?_append, hlast, Option.or_none]
    rfl

theorem foldl_process_tc_address (addrs : List Ipv4Address) (hone : n.OneEach)
    (hansn : ∀ d t, n.m_state.find_topology_tuple d msg.m_originatorAddress = some t →
      t.sequenceNumber = tc.ansn) :
    (addrs.foldl (process_tc_address msg tc) n).OneEach ∧
      (addrs.foldl (process_tc_address msg tc) n).now = n.now ∧
      ∀ d, (addrs.foldl (process_tc_address msg tc) n).m_state.find_topology_tuple d
          msg.m_originatorAddress =
        if d ∈ addrs then some ⟨d, msg.m_originatorAddress, tc.ansn, n.now + msg.get_vtime⟩
        else n.m_state.find_topology_tuple d msg.m_originatorAddress := by
  induction addrs generalizing n with
  | nil => exact ⟨hone, rfl, fun d => rfl⟩
  | cons addr addrs ih =>
    have hfirst := find_process_tc_address (hansn addr)
    have hansn' : ∀ d t, (process_tc_address msg tc n addr).m_state.find_topology_tuple d
        msg.m_originatorAddress = some t → t.sequenceNumber = tc.ansn := by
      intro d t ht
      rw [hfirst] at ht
      split at ht
      · rw [← Option.some.inj ht]
      · exact hansn d t ht
    obtain ⟨hone', hnow', hfind'⟩ := ih (oneEach_process_tc_address hone addr) hansn'
    rw [now_process_tc_address] at hnow'
    refine ⟨hone', hnow', fun d => ?_⟩
    rw [List.foldl_cons, hfind', hfirst, now_process_tc_address]
    by_cases hrest : d ∈ addrs
    · rw [if_pos hrest, if_pos (List.mem_cons_of_mem _ hrest)]
    · by_cases heq : d = addr
      · rw [if_neg hrest, if_pos heq, if_pos (heq ▸ List.mem_cons_self), heq]
      · rw [if_neg hrest, if_neg heq, if_neg (by simp [hrest, heq])]

theorem foldl_process_tc_address_ne (tc : Tc) (addrs : List Ipv4Address) (hone : n.OneEach)
    (hne : msg.m_originatorAddress ≠ lastAddr) :
    (addrs.foldl (process_tc_address msg tc) n).OneEach ∧
      (addrs.foldl (process_tc_address msg tc) n).now = n.now ∧
      ∀ d, (addrs.foldl (process_tc_address msg tc) n).m_state.find_topology_tuple d lastAddr =
        n.m_state.find_topology_tuple d lastAddr := by
  induction addrs generalizing n with
  | nil => exact ⟨hone, rfl, fun d => rfl⟩
  | cons addr addrs ih =>
    obtain ⟨hone', hnow', hfind'⟩ := ih (oneEach_process_tc_address hone addr)
    rw [now_process_tc_address] at hnow'
    refine ⟨hone', hnow', fun d => ?_⟩
    rw [List.foldl_cons, hfind', find_process_tc_address_ne hne]

theorem oneEach_erase_older {a : Ipv4Address} (hone : n.OneEach) (ansn : UInt16) :
    (n.set_state (n.m_state.erase_older_topology_tuples a ansn)).OneEach :=
  hone.sublist (List.filter_sublist.map _)

theorem find_erase_older (hone : n.OneEach) (d : Ipv4Address) (ansn : UInt16) :
    (n.m_state.erase_older_topology_tuples lastAddr ansn).find_topology_tuple d lastAddr =
      (n.m_state.find_topology_tuple d lastAddr).filter fun t => !(t.sequenceNumber < ansn) := by
  ext t
  have hiff := find_eq_some_iff (d := d) (a := lastAddr) (t := t)
    (oneEach_erase_older (a := lastAddr) hone ansn)
  rw [Option.filter_eq_some_iff, find_eq_some_iff hone]
  refine hiff.trans ?_
  change t ∈ List.filter _ _ ∧ _ ↔ _
  rw [List.mem_filter]
  constructor
  · rintro ⟨⟨hmem, htest⟩, hdest, hlast⟩
    refine ⟨⟨hmem, hdest, hlast⟩, ?_⟩
    simpa [hlast] using htest
  · rintro ⟨⟨hmem, hdest, hlast⟩, htest⟩
    exact ⟨⟨hmem, by simpa [hlast] using htest⟩, hdest, hlast⟩

theorem find_erase_older_ne (hone : n.OneEach) {lastAddr' : Ipv4Address} (hne : lastAddr' ≠ lastAddr)
    (d : Ipv4Address) (ansn : UInt16) :
    (n.m_state.erase_older_topology_tuples lastAddr' ansn).find_topology_tuple d lastAddr =
      n.m_state.find_topology_tuple d lastAddr := by
  ext t
  have hiff := find_eq_some_iff (d := d) (a := lastAddr) (t := t)
    (oneEach_erase_older (a := lastAddr') hone ansn)
  rw [find_eq_some_iff hone]
  refine hiff.trans ?_
  change t ∈ List.filter _ _ ∧ _ ↔ _
  rw [List.mem_filter]
  constructor
  · rintro ⟨⟨hmem, -⟩, hkey⟩
    exact ⟨hmem, hkey⟩
  · rintro ⟨hmem, hdest, hlast⟩
    exact ⟨⟨hmem, by simp [hlast, hne.symm]⟩, hdest, hlast⟩

end ProcessTc

/-- What the node has of an originator is what the messages with the highest number confirm. -/
structure Kept (n : Node) (lastAddr : Ipv4Address) (recent : List ReceivedTc) (ansn : UInt16) :
    Prop where
  oneEach : n.OneEach
  le : ∀ m ∈ recent, m.ansn ≤ ansn
  carried : recent = [] ∨ ∃ m ∈ recent, m.ansn = ansn
  found : ∀ d t, n.m_state.find_topology_tuple d lastAddr = some t →
    t.sequenceNumber = ansn ∧ confirmed ansn recent d = some t.expirationTime
  cover : ∀ d e, confirmed ansn recent d = some e →
    (n.m_state.find_topology_tuple d lastAddr).isSome ∨ e < n.now

section Run

variable {n n' : Node} {lastAddr : Ipv4Address} {all recent : List ReceivedTc} {ansn : UInt16}

theorem confirmed_append_singleton (ansn : UInt16) (recent : List ReceivedTc) (m : ReceivedTc)
    (d : Ipv4Address) :
    confirmed ansn (recent ++ [m]) d =
      if m.ansn = ansn ∧ d ∈ m.neighborAddresses then some m.expirationTime
      else confirmed ansn recent d := by
  unfold confirmed
  rw [List.filter_append]
  split
  next h =>
    have htest : (m.ansn == ansn && m.neighborAddresses.contains d) = true := by simpa using h
    rw [List.filter_singleton, htest, cond_true, List.getLast?_concat, Option.map_some]
  next h =>
    have htest : (m.ansn == ansn && m.neighborAddresses.contains d) = false := by simpa using h
    rw [List.filter_singleton, htest, cond_false, List.append_nil]

theorem confirmed_eq_none {l : List ReceivedTc} {s : UInt16} (hlt : ∀ m ∈ l, m.ansn < s) (d : Ipv4Address) :
    confirmed s l d = none := by
  have hnil : (l.filter fun m => m.ansn == s && m.neighborAddresses.contains d) = [] := by
    refine List.filter_eq_nil_iff.mpr fun m hm htest => ?_
    rw [Bool.and_eq_true, beq_iff_eq] at htest
    exact absurd (hlt m hm) (htest.1 ▸ UInt16.lt_irrefl _)
  rw [confirmed, hnil]
  rfl

theorem Kept.congr (h : n.Kept lastAddr recent ansn) (hone : n'.OneEach) (hnow : n.now ≤ n'.now)
    (hfind : ∀ d, n'.m_state.find_topology_tuple d lastAddr =
      n.m_state.find_topology_tuple d lastAddr) : n'.Kept lastAddr recent ansn where
  oneEach := hone
  le := h.le
  carried := h.carried
  found := fun d t ht => h.found d t (hfind d ▸ ht)
  cover := fun d e he => (h.cover d e he).imp (fun hsome => (hfind d).symm ▸ hsome)
    fun hlt => lt_of_lt_of_le hlt hnow

theorem find_eq_none_of_holds (h : n.holds lastAddr = false) (d : Ipv4Address) :
    n.m_state.find_topology_tuple d lastAddr = none := by
  cases hfind : n.m_state.find_topology_tuple d lastAddr with
  | none => rfl
  | some t =>
    have hholds := holds_iff.mpr ⟨t, mem_of_find hfind, (key_of_find hfind).2⟩
    rw [h] at hholds
    cases hholds

/-- An accepted message: older tuples go, the advertised ones come or are refreshed. -/
theorem kept_of_accepted {l : List ReceivedTc} {msg : MessageHeader} {tc : Tc} (hone : n.OneEach)
    (hle : ∀ m ∈ l, m.ansn ≤ tc.ansn)
    (hfound : ∀ d t, n.m_state.find_topology_tuple d msg.m_originatorAddress = some t →
      t.sequenceNumber = tc.ansn ∧ confirmed tc.ansn l d = some t.expirationTime)
    (hcover : ∀ d e, confirmed tc.ansn l d = some e →
      (n.m_state.find_topology_tuple d msg.m_originatorAddress).isSome ∨ e < n.now) :
    (tc.neighborAddresses.foldl (process_tc_address msg tc) n).Kept msg.m_originatorAddress
      (l ++ [n.received msg tc]) tc.ansn := by
  obtain ⟨hone', hnow', hfind'⟩ := foldl_process_tc_address tc.neighborAddresses hone
    fun d t ht => (hfound d t ht).1
  have hconfirmed (d : Ipv4Address) : confirmed tc.ansn (l ++ [n.received msg tc]) d =
      if d ∈ tc.neighborAddresses then some (n.now + msg.get_vtime)
      else confirmed tc.ansn l d := by
    rw [confirmed_append_singleton]
    simp only [received, true_and]
  refine ⟨hone', ?_, .inr ⟨n.received msg tc, by simp, rfl⟩, ?_, ?_⟩
  · intro m hm
    rcases List.mem_append.mp hm with hm | hm
    · exact hle m hm
    · rw [List.mem_singleton.mp hm]
      exact UInt16.le_refl _
  · intro d t ht
    rw [hfind'] at ht
    rw [hconfirmed]
    split at ht
    next hmem =>
      rw [if_pos hmem, ← Option.some.inj ht]
      exact ⟨rfl, rfl⟩
    next hmem =>
      rw [if_neg hmem]
      exact hfound d t ht
  · intro d e he
    rw [hconfirmed] at he
    rw [hfind', hnow']
    split at he
    next hmem =>
      rw [if_pos hmem]
      exact .inl rfl
    next hmem =>
      rw [if_neg hmem]
      exact hcover d e he

theorem Kept.append_older (h : n.Kept lastAddr recent ansn) {m : ReceivedTc} (hlt : m.ansn < ansn)
    (hnonempty : recent ≠ []) : n.Kept lastAddr (recent ++ [m]) ansn := by
  have hconfirmed (d : Ipv4Address) : confirmed ansn (recent ++ [m]) d = confirmed ansn recent d := by
    rw [confirmed_append_singleton, if_neg]
    rintro ⟨heq, -⟩
    exact absurd hlt (heq ▸ UInt16.lt_irrefl _)
  refine ⟨h.oneEach, ?_, ?_, ?_, ?_⟩
  · intro m' hm'
    rcases List.mem_append.mp hm' with hm' | hm'
    · exact h.le m' hm'
    · rw [List.mem_singleton.mp hm']
      exact UInt16.le_of_lt hlt
  · obtain ⟨m', hm', heq⟩ := h.carried.resolve_left hnonempty
    exact .inr ⟨m', List.mem_append_left _ hm', heq⟩
  · intro d t ht
    rw [hconfirmed]
    exact h.found d t ht
  · intro d e he
    rw [hconfirmed] at he
    exact h.cover d e he

theorem process_tc_eq {msg : MessageHeader} {senderIface : Ipv4Address} (tc : Tc)
    (hsymmetric : (n.m_state.find_sym_link_tuple senderIface n.now).isSome) :
    n.process_tc msg tc senderIface =
      if (n.m_state.find_newer_topology_tuple msg.m_originatorAddress tc.ansn).isSome then
        n.record .processed msg
      else
        tc.neighborAddresses.foldl (process_tc_address msg tc) ((n.record .processed msg).set_state
          (n.m_state.erase_older_topology_tuples msg.m_originatorAddress tc.ansn)) := by
  obtain ⟨l, hl⟩ := Option.isSome_iff_exists.mp hsymmetric
  have hstate : (n.record .processed msg).m_state = n.m_state := rfl
  rw [process_tc, hl]
  dsimp only
  rw [hstate]
  cases n.m_state.find_newer_topology_tuple msg.m_originatorAddress tc.ansn <;> rfl

theorem Kept.process_tc {msg : MessageHeader} {tc : Tc} {senderIface : Ipv4Address}
    (h : n.Kept msg.m_originatorAddress recent ansn)
    (hsymmetric : (n.m_state.find_sym_link_tuple senderIface n.now).isSome) :
    ∃ ansn', (n.process_tc msg tc senderIface).Kept msg.m_originatorAddress
      ((if n.holds msg.m_originatorAddress then recent else []) ++ [n.received msg tc]) ansn' := by
  have hansn {t : TopologyTuple} (ht : t ∈ n.m_state.m_topologySet)
      (hlast : t.lastAddr = msg.m_originatorAddress) : t.sequenceNumber = ansn ∧ recent ≠ [] := by
    obtain ⟨hseq, hconfirmed⟩ := h.found t.destAddr t (hlast ▸ find_of_mem h.oneEach ht)
    refine ⟨hseq, ?_⟩
    rintro rfl
    cases hconfirmed
  rw [process_tc_eq tc hsymmetric]
  split
  next hnewer =>
    obtain ⟨t, ht⟩ := Option.isSome_iff_exists.mp hnewer
    have htest := List.find?_some ht
    rw [Bool.and_eq_true, beq_iff_eq, decide_eq_true_iff] at htest
    have hmem : t ∈ n.m_state.m_topologySet := List.mem_of_find?_eq_some ht
    obtain ⟨hseq, hnonempty⟩ := hansn hmem htest.1
    rw [if_pos (holds_iff.mpr ⟨t, hmem, htest.1⟩)]
    have hkept : (n.record .processed msg).Kept msg.m_originatorAddress recent ansn :=
      h.congr h.oneEach le_rfl fun d => rfl
    exact ⟨ansn, hkept.append_older (hseq ▸ htest.2) hnonempty⟩
  next hnewer =>
    have hle {t : TopologyTuple} (ht : t ∈ n.m_state.m_topologySet)
        (hlast : t.lastAddr = msg.m_originatorAddress) : t.sequenceNumber ≤ tc.ansn := by
      have hno := List.find?_eq_none.mp (Option.not_isSome_iff_eq_none.mp hnewer) t ht
      rw [Bool.and_eq_true, beq_iff_eq, decide_eq_true_iff] at hno
      exact UInt16.not_lt.mp fun hlt => hno ⟨hlast, hlt⟩
    refine ⟨tc.ansn, ?_⟩
    set n₁ := (n.record .processed msg).set_state
      (n.m_state.erase_older_topology_tuples msg.m_originatorAddress tc.ansn)
    have hone : n₁.OneEach := oneEach_erase_older (n := n.record .processed msg) h.oneEach tc.ansn
    have hfind (d : Ipv4Address) : n₁.m_state.find_topology_tuple d msg.m_originatorAddress =
        (n.m_state.find_topology_tuple d msg.m_originatorAddress).filter
          fun t => !(t.sequenceNumber < tc.ansn) := find_erase_older h.oneEach d tc.ansn
    split
    next hholds =>
      obtain ⟨t₀, ht₀, hlast₀⟩ := holds_iff.mp hholds
      rcases UInt16.le_iff_lt_or_eq.mp ((hansn ht₀ hlast₀).1 ▸ hle ht₀ hlast₀) with hlt | heq
      · -- all tuples of the originator are older
        have hnone (d : Ipv4Address) :
            n₁.m_state.find_topology_tuple d msg.m_originatorAddress = none := by
          rw [hfind]
          cases hd : n.m_state.find_topology_tuple d msg.m_originatorAddress with
          | none => rfl
          | some t => simp [(h.found d t hd).1, hlt]
        have hconfirmed := confirmed_eq_none (l := recent) (s := tc.ansn)
          fun m hm => UInt16.lt_of_le_of_lt (h.le m hm) hlt
        refine kept_of_accepted hone (fun m hm => UInt16.le_of_lt
          (UInt16.lt_of_le_of_lt (h.le m hm) hlt)) (fun d t ht => ?_) fun d e he => ?_
        · rw [hnone] at ht
          cases ht
        · rw [hconfirmed] at he
          cases he
      · -- all tuples of the originator carry the number of the message
        have hsame (d : Ipv4Address) : n₁.m_state.find_topology_tuple d msg.m_originatorAddress =
            n.m_state.find_topology_tuple d msg.m_originatorAddress := by
          rw [hfind]
          cases hd : n.m_state.find_topology_tuple d msg.m_originatorAddress with
          | none => rfl
          | some t => simp [(h.found d t hd).1, heq]
        rw [heq] at h
        refine kept_of_accepted hone h.le (fun d t ht => ?_) fun d e he => ?_
        · exact h.found d t (hsame d ▸ ht)
        · rw [hsame]
          exact h.cover d e he
    next hholds =>
      have hnone (d : Ipv4Address) :
          n₁.m_state.find_topology_tuple d msg.m_originatorAddress = none := by
        rw [hfind, find_eq_none_of_holds (by simpa using hholds)]
        rfl
      refine kept_of_accepted (l := []) hone (by simp) (fun d t ht => ?_) fun d e he => ?_
      · rw [hnone] at ht
        cases ht
      · cases he

theorem Kept.process_tc_ne (h : n.Kept lastAddr recent ansn) {msg : MessageHeader}
    (hne : msg.m_originatorAddress ≠ lastAddr) (tc : Tc) (senderIface : Ipv4Address) :
    (n.process_tc msg tc senderIface).Kept lastAddr recent ansn := by
  cases hsymmetric : n.m_state.find_sym_link_tuple senderIface n.now with
  | none =>
    rw [Node.process_tc, hsymmetric]
    exact h
  | some l =>
    rw [process_tc_eq tc (by rw [hsymmetric]; rfl)]
    split
    · exact h.congr h.oneEach le_rfl fun d => rfl
    · obtain ⟨hone, hnow, hfind⟩ := foldl_process_tc_address_ne tc tc.neighborAddresses
        (oneEach_erase_older (n := n.record .processed msg) (a := msg.m_originatorAddress)
          h.oneEach tc.ansn) hne
      exact h.congr hone hnow.ge fun d =>
        (hfind d).trans (find_erase_older_ne h.oneEach hne d tc.ansn)

theorem Kept.topology_tuple_timer_expire (h : n.Kept lastAddr recent ansn)
    (destAddr lastAddr' : Ipv4Address) :
    (n.topology_tuple_timer_expire destAddr lastAddr').Kept lastAddr recent ansn := by
  unfold Node.topology_tuple_timer_expire tuple_timer_expire
  split
  next => exact h
  next t ht =>
    obtain ⟨hdest, hlast⟩ := key_of_find ht
    split
    next hexpired =>
      set n' := n.remove_topology_tuple t
      have hnow : n'.now = n.now := rfl
      obtain ⟨t', l₁, l₂, -, htest, hsplit, herased⟩ := List.exists_of_eraseP
        (p := fun t' : TopologyTuple => t'.destAddr == t.destAddr && t'.lastAddr == t.lastAddr &&
          t'.sequenceNumber == t.sequenceNumber) (mem_of_find ht) (by simp)
      have hset : n'.m_state.m_topologySet = l₁ ++ l₂ := herased
      have hkey : tuple_key t' = tuple_key t := by
        simp only [Bool.and_eq_true, beq_iff_eq] at htest
        exact Prod.ext htest.1.1 htest.1.2
      have hone := h.oneEach
      rw [OneEach, hsplit] at hone
      obtain ⟨hone', hother⟩ := List.nodup_map_middle tuple_key hone
      have hone'' : n'.OneEach := by
        rw [OneEach, hset]
        exact hone'
      have hgone {d : Ipv4Address} {t₁ : TopologyTuple}
          (hd : n.m_state.find_topology_tuple d lastAddr = some t₁) :
          n'.m_state.find_topology_tuple d lastAddr = some t₁ ∨ t₁ = t := by
        have hmem := mem_of_find hd
        rw [hsplit, List.mem_append, List.mem_cons] at hmem
        by_cases heq : tuple_key t₁ = tuple_key t
        · exact .inr (List.inj_on_of_nodup_map h.oneEach (mem_of_find hd) (mem_of_find ht) heq)
        · have hrest : t₁ ∈ l₁ ++ l₂ := by
            rw [List.mem_append]
            rcases hmem with hmem | rfl | hmem
            · exact .inl hmem
            · exact absurd hkey heq
            · exact .inr hmem
          obtain ⟨hd₁, hl₁⟩ := key_of_find hd
          exact .inl ((find_eq_some_iff hone'').mpr ⟨hset ▸ hrest, hd₁, hl₁⟩)
      refine ⟨hone'', h.le, h.carried, fun d t₁ ht₁ => ?_, fun d e he => ?_⟩
      · obtain ⟨hmem, hd₁, hl₁⟩ := (find_eq_some_iff hone'').mp ht₁
        refine h.found d t₁ ((find_eq_some_iff h.oneEach).mpr ⟨?_, hd₁, hl₁⟩)
        rw [hset] at hmem
        rw [hsplit]
        exact List.mem_append.mpr ((List.mem_append.mp hmem).imp_right (List.mem_cons_of_mem _))
      · rcases h.cover d e he with hsome | hlt
        · obtain ⟨t₁, ht₁⟩ := Option.isSome_iff_exists.mp hsome
          rcases hgone ht₁ with hstill | rfl
          · exact .inl (hstill ▸ rfl)
          · -- the tuple that is removed has expired
            have hconfirmed := (h.found d t₁ ht₁).2
            rw [he] at hconfirmed
            rw [Option.some.inj hconfirmed]
            exact .inr hexpired
        · exact .inr hlt
    next => exact h.congr h.oneEach le_rfl fun d => rfl

theorem Receives.kept (h : Receives lastAddr n all recent) :
    ∃ ansn, n.Kept lastAddr recent ansn := by
  induction h with
  | start n hempty =>
    have hnone (d : Ipv4Address) : n.m_state.find_topology_tuple d lastAddr = none := by
      rw [OlsrState.find_topology_tuple, hempty]
      rfl
    refine ⟨0, ?_, by simp, .inl rfl, fun d t ht => ?_, fun d e he => ?_⟩
    · rw [OneEach, hempty]
      exact List.nodup_nil
    · rw [hnone] at ht
      cases ht
    · cases he
  | tc h msg tc senderIface horiginator hsymmetric ih =>
    obtain ⟨ansn, hkept⟩ := ih
    subst horiginator
    exact hkept.process_tc hsymmetric
  | other_tc h msg tc senderIface horiginator ih =>
    obtain ⟨ansn, hkept⟩ := ih
    exact ⟨ansn, hkept.process_tc_ne horiginator tc senderIface⟩
  | expire h destAddr lastAddr' ih =>
    obtain ⟨ansn, hkept⟩ := ih
    exact ⟨ansn, hkept.topology_tuple_timer_expire destAddr lastAddr'⟩
  | other h n' hset hnow ih =>
    obtain ⟨ansn, hkept⟩ := ih
    refine ⟨ansn, hkept.congr ?_ hnow fun d => ?_⟩
    · rw [OneEach, hset]
      exact hkept.oneEach
    · rw [OlsrState.find_topology_tuple, hset]
      rfl

end Run

section Freshness

variable {n : Node} {lastAddr : Ipv4Address} {all recent : List ReceivedTc} {ansn : UInt16}

theorem newer_iff {s1 s2 : UInt16} {start : ℕ} (h1 : start ≤ s1.toNat) (h1' : s1.toNat < start + 32768)
    (h2 : start ≤ s2.toNat) (h2' : s2.toNat < start + 32768) : newer s1 s2 = true ↔ s2 < s1 := by
  have hbound : (32767 : UInt16).toNat = 32767 := rfl
  unfold newer
  rw [Bool.or_eq_true, Bool.and_eq_true, Bool.and_eq_true, decide_eq_true_iff, decide_eq_true_iff,
    decide_eq_true_iff, decide_eq_true_iff]
  constructor
  · rintro (h | ⟨hlt, hfar⟩)
    · exact h.1
    · have hsub := UInt16.toNat_sub_of_le s2 s1 (UInt16.le_of_lt hlt)
      have hfar := UInt16.lt_iff_toNat_lt.mp hfar
      omega
  · intro hlt
    have hsub := UInt16.toNat_sub_of_le s1 s2 (UInt16.le_of_lt hlt)
    refine .inl ⟨hlt, UInt16.le_iff_toNat_le.mpr ?_⟩
    omega

theorem last_confirmed_eq (hwindow : PlainWindow recent) (hle : ∀ m ∈ recent, m.ansn ≤ ansn)
    (hcarried : recent = [] ∨ ∃ m ∈ recent, m.ansn = ansn) (d : Ipv4Address) :
    last_confirmed recent d = confirmed ansn recent d := by
  obtain ⟨start, hstart⟩ := hwindow
  have hnewest {m : ReceivedTc} (hm : m ∈ recent) :
      (recent.all fun m' => !newer m'.ansn m.ansn) = (m.ansn == ansn) := by
    rw [Bool.eq_iff_iff, List.all_eq_true, beq_iff_eq]
    constructor
    · intro hall
      obtain ⟨m', hm', heq⟩ := hcarried.resolve_left (List.ne_nil_of_mem hm)
      have hnot := hall m' hm'
      rw [Bool.not_eq_true', ← Bool.not_eq_true, newer_iff (hstart m' hm').1 (hstart m' hm').2
        (hstart m hm).1 (hstart m hm).2, heq] at hnot
      exact UInt16.le_antisymm (hle m hm) (UInt16.not_lt.mp hnot)
    · intro heq m' hm'
      rw [Bool.not_eq_true', ← Bool.not_eq_true, newer_iff (hstart m' hm').1 (hstart m' hm').2
        (hstart m hm).1 (hstart m hm).2, heq]
      exact UInt16.not_lt.mpr (hle m' hm')
  have hfilter : (recent.filter fun m => recent.all (fun m' => !newer m'.ansn m.ansn) &&
      m.neighborAddresses.contains d) =
      recent.filter fun m => m.ansn == ansn && m.neighborAddresses.contains d :=
    List.filter_congr fun m hm => by rw [hnewest hm]
  rw [last_confirmed, hfilter]
  rfl

/-- While the node has tuples of an originator, they are those of its newest messages. -/
theorem tc_freshness (h : Receives lastAddr n all recent) (hwindow : PlainWindow recent) :
    n.Fresh lastAddr recent := by
  obtain ⟨ansn, hkept⟩ := h.kept
  have hlast := last_confirmed_eq hwindow hkept.le hkept.carried
  refine ⟨?_, fun d e hunexpired => ?_⟩
  · have hmap : ((n.m_state.m_topologySet.filter fun t => t.lastAddr == lastAddr).map
        (·.destAddr)).map (fun d => (d, lastAddr)) =
        (n.m_state.m_topologySet.filter fun t => t.lastAddr == lastAddr).map tuple_key := by
      rw [List.map_map]
      refine List.map_congr_left fun t ht => ?_
      have hlast : t.lastAddr = lastAddr := by simpa using (List.mem_filter.mp ht).2
      simp [tuple_key, hlast]
    refine List.Nodup.of_map (fun d => (d, lastAddr)) ?_
    rw [hmap]
    exact hkept.oneEach.sublist (List.filter_sublist.map _)
  · rw [hlast]
    constructor
    · rintro ⟨t, ht, hlastAddr, hdest, rfl⟩
      rw [← hdest]
      exact (hkept.found t.destAddr t (hlastAddr ▸ find_of_mem hkept.oneEach ht)).2
    · intro hconfirmed
      rcases hkept.cover d e hconfirmed with hsome | hexpired
      · obtain ⟨t, ht⟩ := Option.isSome_iff_exists.mp hsome
        have htime := (hkept.found d t ht).2
        rw [hconfirmed] at htime
        obtain ⟨hdest, hlastAddr⟩ := key_of_find ht
        exact ⟨t, mem_of_find ht, hlastAddr, hdest, (Option.some.inj htime).symm⟩
      · exact absurd hexpired (not_lt.mpr hunexpired)

/-- A node with a symmetric link, and a TC message of another node. -/
def linked : Node :=
  { m_mainAddress := 0x0a000001
    m_ipv4 := [[0x0a000001]]
    m_state := { m_linkSet := [⟨0x0a000001, 0x0a000002, seconds 6, seconds 6, seconds 6⟩] } }

def tc_message (tc : Tc) : MessageHeader := ⟨0x86, 0x0a000003, 255, 0, 0, .tc tc, 255, []⟩

theorem tc_freshness_first :
    (linked.process_tc (tc_message ⟨[0x0a000005], 1⟩) ⟨[0x0a000005], 1⟩ 0x0a000002).Fresh 0x0a000003
      [⟨1, [0x0a000005], 6000000000⟩] :=
  tc_freshness (.tc (.start linked rfl) _ ⟨[0x0a000005], 1⟩ 0x0a000002 rfl (by decide))
    ⟨0, by decide⟩

/-- Two things are lost. After a newer message that advertises nothing the node has no tuple that
tells it that an older one is stale. And when the number goes around the newer message is refused. -/
theorem tc_freshness_lost :
    (¬ ∀ (n : Node) (lastAddr : Ipv4Address) (all recent : List ReceivedTc),
      Receives lastAddr n all recent → PlainWindow all → n.Fresh lastAddr all) ∧
    ¬ ∀ (n : Node) (lastAddr : Ipv4Address) (all recent : List ReceivedTc),
      Receives lastAddr n all recent → Window recent → n.Fresh lastAddr recent := by
  constructor
  · intro hall
    have hrun := Receives.tc (.tc (.start linked rfl) (tc_message ⟨[], 2⟩) ⟨[], 2⟩ 0x0a000002 rfl
      (by decide)) (tc_message ⟨[0x0a000005], 1⟩) ⟨[0x0a000005], 1⟩ 0x0a000002 rfl (by decide)
    have hfresh := hall _ _ _ _ hrun ⟨0, by decide⟩
    have hconfirmed := (hfresh.exact 0x0a000005 6000000000 (by decide)).mp (by decide)
    exact absurd hconfirmed (by decide)
  · intro hall
    have hrun := Receives.tc (.tc (.start linked rfl) (tc_message ⟨[0x0a000005], 65535⟩)
      ⟨[0x0a000005], 65535⟩ 0x0a000002 rfl (by decide)) (tc_message ⟨[0x0a000006], 0⟩)
      ⟨[0x0a000006], 0⟩ 0x0a000002 rfl (by decide)
    have hfresh := hall _ _ _ _ hrun ⟨65535, by decide⟩
    have htuple := (hfresh.exact 0x0a000006 6000000000 (by decide)).mpr (by decide)
    exact absurd htuple (by decide)

end Freshness

end Node

end Ns3.Olsr
