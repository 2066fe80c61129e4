import Ns3.Network.Address
import Ns3.Foundation.Reachable

namespace Ns3.Aodv

structure UniqueId where
  context : Ipv4Address
  id : UInt32
  expire : Time
deriving DecidableEq, Repr

/-- Recently seen identifiers. One cache holds the RREQ identifiers, another the
uids of broadcast data packets. -/
structure IdCache where
  id_cache : List UniqueId := []
  lifetime : Time
deriving DecidableEq, Repr

namespace IdCache

def purge (c : IdCache) (now : Time) : IdCache :=
  { c with id_cache := c.id_cache.filter fun u => ¬ u.expire < now }

/-- `IsDuplicate` answers whether the pair is cached and caches it if it is not. -/
def is_duplicate (c : IdCache) (now : Time) (addr : Ipv4Address) (id : UInt32) : Bool × IdCache :=
  let c := c.purge now
  if c.id_cache.any fun u => u.context == addr && u.id == id then (true, c)
  else (false, { c with id_cache := c.id_cache ++ [{ context := addr, id, expire := c.lifetime + now }] })

/-- `GetSize`, a 32-bit number. -/
def get_size (c : IdCache) (now : Time) : UInt32 × IdCache :=
  (UInt32.ofNat (c.purge now).id_cache.length, c.purge now)

def set_lifetime (c : IdCache) (lifetime : Time) : IdCache := { c with lifetime }

end IdCache

end Ns3.Aodv

namespace Ns3.Aodv

def UniqueId.pair (u : UniqueId) : Ipv4Address × UInt32 := (u.context, u.id)

namespace IdCache

open Transition (Reachable Always)

/-- A call of `IsDuplicate` that has returned, with the lifetime in force. -/
structure Query where
  time : Time
  addr : Ipv4Address
  id : UInt32
  lifetime : Time
  answer : Bool
deriving DecidableEq

/-- The query found its pair unknown, and had it cached. -/
def Query.Fresh (q : Query) (addr : Ipv4Address) (id : UInt32) : Prop :=
  q.addr = addr ∧ q.id = id ∧ q.answer = false

instance (q : Query) (addr : Ipv4Address) (id : UInt32) : Decidable (q.Fresh addr id) :=
  inferInstanceAs (Decidable (_ ∧ _ ∧ _))

inductive Operation
  | is_duplicate (addr : Ipv4Address) (id : UInt32)
  | purge
  | get_size
  | set_lifetime (lifetime : Time)

/-- A cache with its past: the time of the last call and the queries, the last one first. -/
structure History where
  cache : IdCache
  now : Time
  queries : List Query

namespace History

def call (h : History) (t : Time) : Operation → History
  | .is_duplicate addr id =>
    let r := h.cache.is_duplicate t addr id
    ⟨r.2, t, ⟨t, addr, id, h.cache.lifetime, r.1⟩ :: h.queries⟩
  | .purge => { h with now := t, cache := h.cache.purge t }
  | .get_size => { h with now := t, cache := (h.cache.get_size t).2 }
  | .set_lifetime lifetime => { h with now := t, cache := h.cache.set_lifetime lifetime }

/-- A call at a time that is not earlier than the last one. -/
def step (h : History) (e : Time × Operation) : Option History :=
  if h.now ≤ e.1 then some (h.call e.1 e.2) else none

/-- A cache that has just been constructed. -/
def Initial (h : History) : Prop := h.cache.id_cache = [] ∧ h.queries = []

/-- The last query that returned false for a pair. -/
def lastFresh (h : History) (addr : Ipv4Address) (id : UInt32) : Option Query :=
  h.queries.find? fun q => q.Fresh addr id

/-- A query has returned false for the pair, no later one has, and its lifetime reaches `t`. -/
def Remembers (h : History) (t : Time) (addr : Ipv4Address) (id : UInt32) : Prop :=
  ∃ q, h.lastFresh addr id = some q ∧ t ≤ q.time + q.lifetime

end History

/-- The pairs for which `IsDuplicate` would return true. -/
def duplicates (c : IdCache) (t : Time) : Set (Ipv4Address × UInt32) :=
  {p | (c.is_duplicate t p.1 p.2).1 = true}

variable {c : IdCache} {t : Time} {addr : Ipv4Address} {id : UInt32}

theorem mem_purge {u : UniqueId} : u ∈ (c.purge t).id_cache ↔ u ∈ c.id_cache ∧ t ≤ u.expire := by
  simp [purge, List.mem_filter]

theorem is_duplicate_fst : (c.is_duplicate t addr id).1 = true ↔
    ∃ u ∈ c.id_cache, u.pair = (addr, id) ∧ t ≤ u.expire := by
  have hfound : ((c.purge t).id_cache.any fun u => u.context == addr && u.id == id) = true ↔
      ∃ u ∈ c.id_cache, u.pair = (addr, id) ∧ t ≤ u.expire := by
    simp only [List.any_eq_true, mem_purge, UniqueId.pair, Bool.and_eq_true, beq_iff_eq, Prod.mk.injEq]
    exact ⟨fun ⟨u, ⟨hu, hlive⟩, hpair⟩ => ⟨u, hu, hpair, hlive⟩,
      fun ⟨u, hu, hpair, hlive⟩ => ⟨u, ⟨hu, hlive⟩, hpair⟩⟩
  rw [← hfound, is_duplicate]
  split
  next h => simp [h]
  next h => simp [h]

theorem is_duplicate_snd_of_true (h : (c.is_duplicate t addr id).1 = true) :
    (c.is_duplicate t addr id).2 = c.purge t := by
  unfold is_duplicate at h ⊢
  dsimp only at h ⊢
  split
  · rfl
  next hnew =>
    rw [if_neg hnew] at h
    cases h

theorem is_duplicate_snd_of_false (h : (c.is_duplicate t addr id).1 = false) :
    (c.is_duplicate t addr id).2 =
      { c.purge t with id_cache := (c.purge t).id_cache ++ [⟨addr, id, c.lifetime + t⟩] } := by
  unfold is_duplicate at h ⊢
  dsimp only at h ⊢
  split
  next hfound =>
    rw [if_pos hfound] at h
    cases h
  · rfl

namespace History

/-- The records of the cache are those of the last fresh queries, as far as they have not
expired, and each pair has one. -/
structure Good (h : History) : Prop where
  pairs : (h.cache.id_cache.map (·.pair)).Nodup
  recorded : ∀ u ∈ h.cache.id_cache, ∃ q, h.lastFresh u.context u.id = some q ∧ u.expire = q.time + q.lifetime
  kept : ∀ addr id q, h.lastFresh addr id = some q → h.now ≤ q.time + q.lifetime →
    ∃ u ∈ h.cache.id_cache, u.pair = (addr, id)

variable {h : History}

theorem Initial.good (hinit : Initial h) : h.Good where
  pairs := by simp [hinit.1]
  recorded := by simp [hinit.1]
  kept := by simp [lastFresh, hinit.2]

theorem Good.purge (hgood : h.Good) (ht : h.now ≤ t) : Good { h with now := t, cache := h.cache.purge t } where
  pairs := hgood.pairs.sublist (List.filter_sublist.map _)
  recorded u hu := hgood.recorded u (mem_purge.mp hu).1
  kept addr id q hq hlive := by
    obtain ⟨u, hu, hpair⟩ := hgood.kept addr id q hq (ht.trans hlive)
    obtain ⟨rfl, rfl⟩ := Prod.mk.inj hpair
    obtain ⟨q', hq', hexpire⟩ := hgood.recorded u hu
    rw [show h.lastFresh u.context u.id = some q from hq] at hq'
    obtain rfl := Option.some.inj hq'
    exact ⟨u, mem_purge.mpr ⟨hu, hexpire ▸ hlive⟩, rfl⟩

theorem Good.is_duplicate_iff (hgood : h.Good) (ht : h.now ≤ t) :
    (h.cache.is_duplicate t addr id).1 = true ↔ h.Remembers t addr id := by
  rw [is_duplicate_fst]
  constructor
  · rintro ⟨u, hu, hpair, hlive⟩
    obtain ⟨rfl, rfl⟩ := Prod.mk.inj hpair
    obtain ⟨q, hq, hexpire⟩ := hgood.recorded u hu
    exact ⟨q, hq, hexpire ▸ hlive⟩
  · rintro ⟨q, hq, hlive⟩
    obtain ⟨u, hu, hpair⟩ := hgood.kept addr id q hq (ht.trans hlive)
    obtain ⟨q', hq', hexpire⟩ := hgood.recorded u hu
    obtain ⟨rfl, rfl⟩ := Prod.mk.inj hpair
    rw [hq] at hq'
    obtain rfl := Option.some.inj hq'
    exact ⟨u, hu, rfl, hexpire ▸ hlive⟩

theorem lastFresh_cons {c : IdCache} {q : Query} :
    (History.mk c t (q :: h.queries)).lastFresh addr id =
      if q.Fresh addr id then some q else h.lastFresh addr id := by
  unfold lastFresh
  rw [List.find?_cons]
  split
  next hfresh => rw [if_pos (by simpa using hfresh)]
  next hfresh => rw [if_neg (by simpa using hfresh)]

theorem Good.query (hgood : h.Good) (ht : h.now ≤ t) :
    Good ⟨(h.cache.is_duplicate t addr id).2, t,
      ⟨t, addr, id, h.cache.lifetime, (h.cache.is_duplicate t addr id).1⟩ :: h.queries⟩ := by
  have hpurged := hgood.purge ht
  cases hanswer : (h.cache.is_duplicate t addr id).1 with
  | true =>
    have hsame : ∀ addr' id', (History.mk (h.cache.purge t) t
        (⟨t, addr, id, h.cache.lifetime, true⟩ :: h.queries)).lastFresh addr' id' = h.lastFresh addr' id' := by
      intro addr' id'
      rw [lastFresh_cons, if_neg]
      rintro ⟨-, -, hfalse⟩
      cases hfalse
    rw [is_duplicate_snd_of_true hanswer]
    refine ⟨hpurged.pairs, ?_, ?_⟩
    · intro u hu
      rw [hsame]
      exact hpurged.recorded u hu
    · intro addr' id' q hq hlive
      rw [hsame] at hq
      exact hpurged.kept addr' id' q hq hlive
  | false =>
    have hnone : ∀ u ∈ (h.cache.purge t).id_cache, u.pair ≠ (addr, id) := by
      intro u hu hpair
      have hfound := is_duplicate_fst.mpr ⟨u, (mem_purge.mp hu).1, hpair, (mem_purge.mp hu).2⟩
      rw [hanswer] at hfound
      cases hfound
    have hother : ∀ addr' id', (addr', id') ≠ (addr, id) → ∀ c' : IdCache, (History.mk c' t
        (⟨t, addr, id, h.cache.lifetime, false⟩ :: h.queries)).lastFresh addr' id' = h.lastFresh addr' id' := by
      intro addr' id' hne c'
      rw [lastFresh_cons, if_neg]
      rintro ⟨rfl, rfl, -⟩
      exact hne rfl
    rw [is_duplicate_snd_of_false hanswer]
    refine ⟨?_, ?_, ?_⟩
    · rw [List.map_append, List.nodup_append]
      refine ⟨hpurged.pairs, by simp, ?_⟩
      simp only [List.mem_map, List.map_cons, List.map_nil, List.mem_singleton]
      rintro _ ⟨u, hu, rfl⟩ _ rfl
      exact hnone u hu
    · intro u hu
      rcases List.mem_append.mp hu with hu | hu
      · rw [hother _ _ (hnone u hu)]
        exact hpurged.recorded u hu
      · obtain rfl := List.mem_singleton.mp hu
        refine ⟨⟨t, addr, id, h.cache.lifetime, false⟩, ?_, add_comm _ _⟩
        rw [lastFresh_cons, if_pos ⟨rfl, rfl, rfl⟩]
    · intro addr' id' q hq hlive
      by_cases hpair : (addr', id') = (addr, id)
      · obtain ⟨rfl, rfl⟩ := Prod.mk.inj hpair
        exact ⟨⟨addr', id', h.cache.lifetime + t⟩, by simp, rfl⟩
      · rw [hother _ _ hpair] at hq
        obtain ⟨u, hu, hup⟩ := hpurged.kept addr' id' q hq hlive
        exact ⟨u, List.mem_append_left _ hu, hup⟩

theorem Good.step {h' : History} {e : Time × Operation} (hgood : h.Good) (hstep : h.step e = some h') :
    h'.Good := by
  obtain ⟨t, op⟩ := e
  unfold History.step at hstep
  split at hstep
  next ht =>
    obtain rfl := Option.some.inj hstep
    cases op with
    | is_duplicate addr id => exact hgood.query ht
    | purge => exact hgood.purge ht
    | get_size => exact hgood.purge ht
    | set_lifetime lifetime =>
      exact ⟨hgood.pairs, hgood.recorded, fun addr id q hq hlive => hgood.kept addr id q hq (ht.trans hlive)⟩
  next => cases hstep

theorem good_of_reachable (hreach : Reachable Initial step Always h) : h.Good :=
  hreach.invariant (fun _ hinit => hinit.good) fun _ _ _ hgood _ hstep => hgood.step hstep

theorem Good.ncard_duplicates (hgood : h.Good) (ht : h.now ≤ t) :
    (h.cache.duplicates t).ncard = (h.cache.purge t).id_cache.length := by
  have hset : h.cache.duplicates t = ((h.cache.purge t).id_cache.map (·.pair)).toFinset := by
    ext p
    rw [duplicates, Set.mem_ofPred_eq, is_duplicate_fst, Finset.mem_coe, List.mem_toFinset, List.mem_map]
    exact ⟨fun ⟨u, hu, hpair, hlive⟩ => ⟨u, mem_purge.mpr ⟨hu, hlive⟩, hpair⟩,
      fun ⟨u, hu, hpair⟩ => ⟨u, (mem_purge.mp hu).1, hpair, (mem_purge.mp hu).2⟩⟩
  rw [hset, Set.ncard_coe_finset, List.toFinset_card_of_nodup (hgood.purge ht).pairs, List.length_map]

/-- A cache of lifetime 10 that is asked for one pair at time 0. -/
def asked : History := (History.mk { lifetime := 10 } 0 []).call 0 (.is_duplicate 0x01020304 3)

/-- The records of the first `n` identifiers of the address 0.0.0.0. -/
def flood (n : Nat) : List UniqueId := (List.range n).map fun i => ⟨0, UInt32.ofNat i, 1⟩

theorem purge_flood (n : Nat) : (purge { id_cache := flood n, lifetime := 1 } 0).id_cache = flood n := by
  refine List.filter_eq_self.mpr ?_
  intro u hu
  obtain ⟨i, -, rfl⟩ := List.mem_map.mp hu
  simp

theorem flood_reachable (n : Nat) (hn : n ≤ 2 ^ 32) : ∃ h : History, Reachable Initial step Always h ∧
    h.now = 0 ∧ h.cache = { id_cache := flood n, lifetime := 1 } := by
  induction n with
  | zero => exact ⟨⟨{ lifetime := 1 }, 0, []⟩, .init ⟨rfl, rfl⟩, rfl, rfl⟩
  | succ n ih =>
    obtain ⟨h, hreach, hnow, hcache⟩ := ih (by omega)
    have hnew : (h.cache.is_duplicate 0 0 (UInt32.ofNat n)).1 = false := by
      rw [Bool.eq_false_iff, ne_eq, is_duplicate_fst, hcache]
      rintro ⟨u, hu, hpair, -⟩
      obtain ⟨i, hi, rfl⟩ := List.mem_map.mp hu
      have hid := congrArg UInt32.toNat (Prod.mk.inj hpair).2
      rw [List.mem_range] at hi
      simp only [UInt32.toNat_ofNat'] at hid
      omega
    refine ⟨_, hreach.step trivial (e := (0, .is_duplicate 0 (UInt32.ofNat n))) (if_pos hnow.le), rfl, ?_⟩
    change (h.cache.is_duplicate 0 0 (UInt32.ofNat n)).2 = _
    rw [is_duplicate_snd_of_false hnew, hcache, purge_flood, flood, flood, List.range_succ, List.map_append]
    rfl

end History

end IdCache

end Ns3.Aodv
