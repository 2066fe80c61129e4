import Ns3.Foundation.Reachable
import Ns3.Foundation.Lists
import Ns3.Internet.Ipv4Fragmentation.Partial

namespace Ns3.Ipv4L3Protocol

open Transition

/-- An element of `m_timeoutEventList`, with the identity that iterators have of it. -/
structure FragmentsTimeout where
  iter : ℕ
  expiry : Time
  key : FragmentKey
  header : FragmentHeader
  iif : UInt32
deriving DecidableEq, Repr

/-- The fragments of a datagram with the iterator of their timeout. -/
structure TimedFragments extends Fragments where
  timeout_iter : ℕ
deriving DecidableEq, Repr

/-- What stops the program. -/
inductive Failure
  | negative_delay
  | missing_key
  | invalid_iterator
deriving DecidableEq, Repr

/-- The reassembly of a node: its clock, the pending events of `HandleTimeout`, and what it has dropped, with
the datagrams for which it has sent an ICMP message. -/
structure Timers where
  now : Time := 0
  fragment_expiration_timeout : Time := 30
  fragments : FragmentKey → Option TimedFragments := fun _ => none
  timeout_event_list : List FragmentsTimeout := []
  next_iter : ℕ := 0
  events : List Time := []
  time_exceeded : List (FragmentHeader × PacketBytes) := []
  drop_trace : List (FragmentHeader × PacketBytes × UInt32) := []

namespace Timers

/-- `Simulator::Schedule` of `HandleTimeout`. -/
def schedule (s : Timers) (delay : Time) : Except Failure Timers :=
  if 0 ≤ delay then .ok { s with events := s.events ++ [s.now + delay] } else .error .negative_delay

/-- `m_timeoutEventList.erase`. -/
def erase (s : Timers) (iter : ℕ) : Except Failure Timers :=
  if s.timeout_event_list.any fun x => x.iter = iter then
    .ok { s with timeout_event_list := s.timeout_event_list.eraseP fun x => x.iter = iter }
  else .error .invalid_iterator

def set_timeout (s : Timers) (key : FragmentKey) (header : FragmentHeader) (iif : UInt32) :
    Except Failure (ℕ × Timers) :=
  (if s.timeout_event_list.isEmpty then s.schedule s.fragment_expiration_timeout else .ok s).map fun s =>
    (s.next_iter, { s with
      timeout_event_list := s.timeout_event_list ++
        [⟨s.next_iter, s.now + s.fragment_expiration_timeout, key, header, iif⟩]
      next_iter := s.next_iter + 1 })

/-- The first part of `ProcessFragment`: the fragments of the key, which are made if there are none. -/
def find_fragments (s : Timers) (key : FragmentKey) (header : FragmentHeader) (iif : UInt32) :
    Except Failure (TimedFragments × Timers) :=
  match s.fragments key with
  | some fragments => .ok (fragments, s)
  | none => do
    let (iter, s) ← s.set_timeout key header iif
    let fragments : TimedFragments := { timeout_iter := iter }
    return (fragments, { s with fragments := Function.update s.fragments key fragments })

/-- `ProcessFragment`: the packet and the result. -/
def process_fragment (s : Timers) (packet : PacketBytes) (header : FragmentHeader) (iif : UInt32) :
    Except Failure (PacketBytes × Bool × Timers) := do
  let key := fragment_key header
  let (fragments, s) ← s.find_fragments key header iif
  let fragments := { fragments with
    toFragments := fragments.add_fragment packet header.fragment_offset (!header.is_last_fragment) }
  if fragments.is_entire then
    let s ← s.erase fragments.timeout_iter
    return (fragments.get_packet, true, { s with fragments := Function.update s.fragments key none })
  else return (packet, false, { s with fragments := Function.update s.fragments key (some fragments) })

def handle_fragments_timeout (s : Timers) (key : FragmentKey) (header : FragmentHeader) (iif : UInt32) :
    Except Failure Timers :=
  match (s.fragments key).bind fun fragments => fragments.get_partial_packet with
  | none => .error .missing_key
  | some (packet, _) => .ok { s with
      time_exceeded := if packet.get_size > 8 then s.time_exceeded ++ [(header, packet)] else s.time_exceeded
      drop_trace := s.drop_trace ++ [(header, packet, iif)]
      fragments := Function.update s.fragments key none }

/-- The loop of `HandleTimeout`. -/
def handle_expired (s : Timers) : List FragmentsTimeout → Except Failure Timers
  | [] => .ok { s with timeout_event_list := [] }
  | x :: xs =>
    if x.expiry = s.now then do
      let s ← s.handle_fragments_timeout x.key x.header x.iif
      s.handle_expired xs
    else .ok { s with timeout_event_list := x :: xs }

def handle_timeout (s : Timers) : Except Failure Timers := do
  let s ← s.handle_expired s.timeout_event_list
  match s.timeout_event_list with
  | [] => return s
  | x :: _ => s.schedule (x.expiry - s.now)

def held (s : Timers) : MapFragments := fun key => (s.fragments key).map TimedFragments.toFragments

end Timers

/-- The clock goes on, a fragment arrives, or an event of `HandleTimeout` is run. -/
inductive TimerEvent
  | advance (now : Time)
  | fragment (packet : PacketBytes) (header : FragmentHeader) (iif : UInt32)
  | timeout

/-- The timers, and when the first fragment of each datagram that is held has arrived. -/
structure Journal extends Timers where
  first : FragmentKey → Time := fun _ => 0

namespace Journal

def step (j : Journal) : TimerEvent → Except Failure Journal
  | .advance now => .ok { j with now := now }
  | .fragment packet header iif => do
    let (_, _, s) ← j.process_fragment packet header iif
    let first := if (j.fragments (fragment_key header)).isNone then
      Function.update j.first (fragment_key header) j.now else j.first
    return ⟨s, first⟩
  | .timeout => do
    let s ← { j.toTimers with events := j.events.erase j.now }.handle_timeout
    return ⟨s, j.first⟩

/-- The simulator runs no event before its time, and none later. -/
def Admitted (j : Journal) : TimerEvent → Prop
  | .advance now => j.now ≤ now ∧ ∀ e ∈ j.events, now ≤ e
  | .fragment .. => True
  | .timeout => j.now ∈ j.events

instance (j : Journal) (e : TimerEvent) : Decidable (j.Admitted e) :=
  match e with
  | .advance _ => inferInstanceAs (Decidable (_ ∧ _))
  | .fragment .. => inferInstanceAs (Decidable True)
  | .timeout => inferInstanceAs (Decidable (_ ∈ _))

def Initial (j : Journal) : Prop := ∃ timeout, j = { fragment_expiration_timeout := timeout }

def next (j : Journal) (e : TimerEvent) : Option Journal := (j.step e).toOption

/-- Every datagram that is held has its timeout, in the order of their expiries, and some event of `HandleTimeout`
comes no later than the first of them. -/
structure OnSchedule (j : Journal) : Prop where
  nodup : (j.timeout_event_list.map FragmentsTimeout.key).Nodup
  keys : ∀ key, key ∈ j.timeout_event_list.map FragmentsTimeout.key ↔ (j.fragments key).isSome
  sorted : j.timeout_event_list.Pairwise fun x y => x.expiry ≤ y.expiry
  pending : ∀ x ∈ j.timeout_event_list.head?, ∃ e ∈ j.events, e ≤ x.expiry
  due : ∀ key, (j.fragments key).isSome → j.now ≤ j.first key + j.fragment_expiration_timeout ∧
    (j.now = j.first key + j.fragment_expiration_timeout → j.now ∈ j.events)

/-- A step removes a datagram when its timeout is over, or with the fragment that completes it. -/
def RemovesOnTime (j j' : Journal) : TimerEvent → Prop
  | .advance _ => j'.fragments = j.fragments
  | .fragment packet header _ =>
    (∀ key, key ≠ fragment_key header → j'.fragments key = j.fragments key) ∧
    j'.held = (Ipv4L3Protocol.process_fragment j.held packet header).1
  | .timeout => ∀ key, (j.fragments key).isSome →
    j'.fragments key =
      if j.now = j.first key + j.fragment_expiration_timeout then none else j.fragments key

end Journal

namespace Timers

variable {s s' : Timers} {key : FragmentKey} {header : FragmentHeader} {iif : UInt32} {packet : PacketBytes}
  {first : FragmentKey → Time} {l : List FragmentsTimeout}

/-- The list of the timeouts and the map go together. The timeouts are those of the first arrivals, and none is over. -/
structure Matched (s : Timers) (first : FragmentKey → Time) : Prop where
  keys : (s.timeout_event_list.map FragmentsTimeout.key).Nodup
  iters : (s.timeout_event_list.map FragmentsTimeout.iter).Nodup
  fresh : ∀ x ∈ s.timeout_event_list, x.iter < s.next_iter
  listed : ∀ x ∈ s.timeout_event_list, ∃ f, s.fragments x.key = some f ∧ f.timeout_iter = x.iter
  held : ∀ key, (s.fragments key).isSome → ∃ x ∈ s.timeout_event_list, x.key = key
  sorted : s.timeout_event_list.Pairwise fun x y => x.expiry ≤ y.expiry
  expiry : ∀ x ∈ s.timeout_event_list, x.expiry = first x.key + s.fragment_expiration_timeout
  started : ∀ x ∈ s.timeout_event_list, first x.key ≤ s.now
  due : ∀ x ∈ s.timeout_event_list, s.now ≤ x.expiry

/-- Some event comes no later than the first timeout. -/
structure Timed (s : Timers) (first : FragmentKey → Time) : Prop extends Matched s first where
  pending : ∀ x ∈ s.timeout_event_list.head?, ∃ e ∈ s.events, e ≤ x.expiry
  events : ∀ e ∈ s.events, s.now ≤ e

/-- Each datagram that is held has a fragment. -/
def Filled (s : Timers) : Prop := ∀ key f, s.fragments key = some f → f.fragments ≠ []

theorem Timed.pending_of_mem (h : s.Timed first) {x : FragmentsTimeout} (hx : x ∈ s.timeout_event_list) :
    ∃ e ∈ s.events, e ≤ x.expiry := by
  obtain ⟨y, ys, hlist⟩ := List.exists_cons_of_ne_nil (List.ne_nil_of_mem hx)
  obtain ⟨e, he, hle⟩ := h.pending y (by rw [hlist]; rfl)
  refine ⟨e, he, hle.trans ?_⟩
  have hsorted := h.sorted
  rw [hlist] at hsorted hx
  rcases List.mem_cons.mp hx with rfl | hx
  · exact le_rfl
  · exact List.rel_of_pairwise_cons hsorted hx

theorem Matched.erase_spec (h : s.Matched first) {f : TimedFragments} (hf : s.fragments key = some f) :
    ∃ l, s.erase f.timeout_iter = .ok { s with timeout_event_list := l } ∧ l.Sublist s.timeout_event_list ∧
      ∀ x, x ∈ l ↔ x ∈ s.timeout_event_list ∧ x.key ≠ key := by
  obtain ⟨x, hx, hkey⟩ := h.held key (by rw [hf]; rfl)
  obtain ⟨f', hf', hiter⟩ := h.listed x hx
  rw [hkey, hf, Option.some.injEq] at hf'
  subst hf'
  have hany : (s.timeout_event_list.any fun y => y.iter = f.timeout_iter) = true :=
    List.any_eq_true.mpr ⟨x, hx, by simpa using hiter.symm⟩
  have hsame : ∀ y ∈ s.timeout_event_list, y.key = key ↔ y = x := fun y hy =>
    ⟨fun heq => List.inj_on_of_nodup_map h.keys hy hx (heq.trans hkey.symm), fun heq => by rw [heq, hkey]⟩
  have herase : (s.timeout_event_list.eraseP fun y => y.iter = f.timeout_iter) = s.timeout_event_list.erase x :=
    SortedList.eraseP_eq_erase_of_unique (by simpa using hiter.symm) fun y hy hp =>
      List.inj_on_of_nodup_map h.iters hy hx ((of_decide_eq_true hp).trans hiter)
  refine ⟨_, by rw [erase, if_pos hany, herase], List.erase_sublist, fun y => ?_⟩
  rw [(h.keys.of_map _).mem_erase_iff, and_comm]
  exact and_congr_right fun hy => not_congr (hsame y hy).symm

theorem Matched.remove (h : s.Matched first) (hsub : l.Sublist s.timeout_event_list)
    (hmem : ∀ x, x ∈ l ↔ x ∈ s.timeout_event_list ∧ x.key ≠ key) :
    Matched { s with timeout_event_list := l, fragments := Function.update s.fragments key none } first where
  keys := h.keys.sublist (hsub.map _)
  iters := h.iters.sublist (hsub.map _)
  fresh x hx := h.fresh x (hsub.subset hx)
  listed x hx := by
    obtain ⟨f, hf, hiter⟩ := h.listed x (hsub.subset hx)
    exact ⟨f, (Function.update_of_ne ((hmem x).mp hx).2 ..).trans hf, hiter⟩
  held k hk := by
    by_cases heq : k = key
    · simp only [heq, Function.update_self] at hk
      cases hk
    · simp only [Function.update_of_ne heq] at hk
      obtain ⟨x, hx, hkey⟩ := h.held k hk
      exact ⟨x, (hmem x).mpr ⟨hx, hkey ▸ heq⟩, hkey⟩
  sorted := h.sorted.sublist hsub
  expiry x hx := h.expiry x (hsub.subset hx)
  started x hx := h.started x (hsub.subset hx)
  due x hx := h.due x (hsub.subset hx)

theorem Matched.update (h : s.Matched first) {f f' : TimedFragments} (hf : s.fragments key = some f)
    (hiter : f'.timeout_iter = f.timeout_iter) :
    Matched { s with fragments := Function.update s.fragments key (some f') } first where
  keys := h.keys
  iters := h.iters
  fresh := h.fresh
  listed x hx := by
    obtain ⟨g, hg, hid⟩ := h.listed x hx
    by_cases heq : x.key = key
    · rw [heq, hf, Option.some.injEq] at hg
      exact ⟨f', by simp only [heq, Function.update_self], by rw [hiter, hg, hid]⟩
    · exact ⟨g, (Function.update_of_ne heq ..).trans hg, hid⟩
  held k hk := by
    by_cases heq : k = key
    · exact h.held k (by rw [heq, hf]; rfl)
    · exact h.held k (by simpa only [Function.update_of_ne heq] using hk)
  sorted := h.sorted
  expiry := h.expiry
  started := h.started
  due := h.due

theorem set_timeout_spec (key : FragmentKey) (header : FragmentHeader) (iif : UInt32) (h : s.Timed first) (htimeout : 0 ≤ s.fragment_expiration_timeout) :
    ∃ events x, s.set_timeout key header iif = .ok (s.next_iter, { s with
        timeout_event_list := s.timeout_event_list ++ [x], next_iter := s.next_iter + 1, events := events }) ∧
      x = ⟨s.next_iter, s.now + s.fragment_expiration_timeout, key, header, iif⟩ ∧ (∀ e ∈ events, s.now ≤ e) ∧
      ∀ y ∈ (s.timeout_event_list ++ [x]).head?, ∃ e ∈ events, e ≤ y.expiry := by
  rw [set_timeout]
  cases hlist : s.timeout_event_list with
  | nil =>
    rw [List.isEmpty_nil, if_pos rfl, schedule, if_pos htimeout]
    refine ⟨_, _, by rw [Except.map, hlist], rfl, ?_, ?_⟩
    · intro e he
      rcases List.mem_append.mp he with he | he
      · exact h.events e he
      · rw [List.mem_singleton.mp he]
        linarith
    · intro y hy
      obtain rfl := Option.some.inj hy
      exact ⟨_, by simp, le_rfl⟩
  | cons y ys =>
    refine ⟨s.events, _, by rw [if_neg (by simp), Except.map, hlist], rfl, h.events, ?_⟩
    intro z hz
    exact h.pending z (by rw [hlist]; exact hz)

theorem find_fragments_eq {iter : ℕ} (hnone : s.fragments key = none)
    (hset : s.set_timeout key header iif = .ok (iter, s')) :
    s.find_fragments key header iif = .ok ({ timeout_iter := iter },
      { s' with fragments := Function.update s'.fragments key (some { timeout_iter := iter }) }) := by
  rw [find_fragments, hnone, hset]
  rfl

theorem find_fragments_new (header : FragmentHeader) (iif : UInt32) (h : s.Timed first) (hnone : s.fragments key = none)
    (htimeout : 0 ≤ s.fragment_expiration_timeout) :
    ∃ f s', s.find_fragments key header iif = .ok (f, s') ∧ f.toFragments = {} ∧
      s'.Timed (Function.update first key s.now) ∧ s'.fragments = Function.update s.fragments key (some f) ∧
      s'.now = s.now ∧ s'.fragment_expiration_timeout = s.fragment_expiration_timeout := by
  have hother : ∀ x ∈ s.timeout_event_list, x.key ≠ key := fun x hx heq => by
    obtain ⟨f, hf, -⟩ := h.listed x hx
    rw [heq, hnone] at hf
    cases hf
  have hkey : key ∉ s.timeout_event_list.map FragmentsTimeout.key := fun hmem => by
    obtain ⟨x, hx, heq⟩ := List.mem_map.mp hmem
    exact hother x hx heq
  have hiter : s.next_iter ∉ s.timeout_event_list.map FragmentsTimeout.iter := fun hmem => by
    obtain ⟨x, hx, heq⟩ := List.mem_map.mp hmem
    exact (h.fresh x hx).ne heq
  have hlast : ∀ x ∈ s.timeout_event_list, x.expiry ≤ s.now + s.fragment_expiration_timeout := fun x hx => by
    rw [h.expiry x hx]
    linarith [h.started x hx]
  obtain ⟨events, x, hset, hx, hevents, hhead⟩ := set_timeout_spec key header iif h htimeout
  refine ⟨_, _, find_fragments_eq hnone hset, rfl, ?_, rfl, rfl, rfl⟩
  subst hx
  refine ⟨⟨?_, ?_, ?_, ?_, ?_, ?_, ?_, ?_, ?_⟩, hhead, hevents⟩
  · simpa using h.keys.concat hkey
  · simpa using h.iters.concat hiter
  · intro y hy
    rcases List.mem_append.mp hy with hy | hy
    · exact (h.fresh y hy).trans (Nat.lt_succ_self _)
    · rw [List.mem_singleton.mp hy]
      exact Nat.lt_succ_self _
  · intro y hy
    rcases List.mem_append.mp hy with hy | hy
    · obtain ⟨f, hf, hid⟩ := h.listed y hy
      exact ⟨f, (Function.update_of_ne (hother y hy) ..).trans hf, hid⟩
    · rw [List.mem_singleton.mp hy]
      exact ⟨_, Function.update_self .., rfl⟩
  · intro k hk
    by_cases heq : k = key
    · exact ⟨_, List.mem_append_right _ (List.mem_singleton_self _), heq.symm⟩
    · simp only [Function.update_of_ne heq] at hk
      obtain ⟨y, hy, hkey⟩ := h.held k hk
      exact ⟨y, List.mem_append_left _ hy, hkey⟩
  · exact List.pairwise_append.mpr ⟨h.sorted, List.pairwise_singleton .., fun y hy z hz => by
      rw [List.mem_singleton.mp hz]
      exact hlast y hy⟩
  · intro y hy
    rcases List.mem_append.mp hy with hy | hy
    · rw [Function.update_of_ne (hother y hy)]
      exact h.expiry y hy
    · rw [List.mem_singleton.mp hy, Function.update_self]
  · intro y hy
    rcases List.mem_append.mp hy with hy | hy
    · rw [Function.update_of_ne (hother y hy)]
      exact h.started y hy
    · rw [List.mem_singleton.mp hy, Function.update_self]
  · intro y hy
    rcases List.mem_append.mp hy with hy | hy
    · exact h.due y hy
    · rw [List.mem_singleton.mp hy]
      simp only
      linarith

/-- When the first fragment of each datagram has arrived, after another one. -/
def arrived (s : Timers) (first : FragmentKey → Time) (key : FragmentKey) : FragmentKey → Time :=
  if (s.fragments key).isNone then Function.update first key s.now else first

theorem find_fragments_spec (key : FragmentKey) (header : FragmentHeader) (iif : UInt32) (h : s.Timed first) (htimeout : 0 ≤ s.fragment_expiration_timeout) :
    ∃ f s', s.find_fragments key header iif = .ok (f, s') ∧ s'.Timed (s.arrived first key) ∧
      s'.fragments key = some f ∧ f.toFragments = (s.held key).getD {} ∧
      (∀ k, k ≠ key → s'.fragments k = s.fragments k) ∧ s'.now = s.now ∧
      s'.fragment_expiration_timeout = s.fragment_expiration_timeout := by
  rw [arrived, Timers.held]
  cases hf : s.fragments key with
  | none =>
    obtain ⟨f, s', hfind, hempty, hs', hfragments, hnow, hsame⟩ :=
      find_fragments_new header iif h hf htimeout
    refine ⟨f, s', hfind, hs', by rw [hfragments, Function.update_self], hempty, fun k hk => ?_, hnow, hsame⟩
    rw [hfragments, Function.update_of_ne hk]
  | some f => exact ⟨f, s, by rw [find_fragments, hf], h, hf, rfl, fun _ _ => rfl, rfl, rfl⟩

theorem add_fragment_ne_nil {f : Fragments} {offset : ℕ} {more : Bool} :
    (f.add_fragment packet offset more).fragments ≠ [] := by
  rw [Fragments.add_fragment]
  cases f.fragments with
  | nil => exact List.cons_ne_nil _ _
  | cons x xs =>
    rw [Fragments.insert]
    split_ifs <;> exact List.cons_ne_nil _ _

theorem process_fragment_spec (packet : PacketBytes) (header : FragmentHeader) (iif : UInt32) (h : s.Timed first)
    (hfilled : s.Filled) (htimeout : 0 ≤ s.fragment_expiration_timeout) :
    ∃ p complete s', s.process_fragment packet header iif = .ok (p, complete, s') ∧
      s'.Timed (s.arrived first (fragment_key header)) ∧ s'.Filled ∧
      (∀ k, k ≠ fragment_key header → s'.fragments k = s.fragments k) ∧
      s'.held = (Ipv4L3Protocol.process_fragment s.held packet header).1 := by
  obtain ⟨f, s₁, hfind, hs₁, hf, hsame, hothers, -, -⟩ :=
    find_fragments_spec (fragment_key header) header iif h htimeout
  have hfilled₁ : ∀ k g, k ≠ fragment_key header → s₁.fragments k = some g → g.fragments ≠ [] := fun k g hk hg =>
    hfilled k g (by rw [← hothers k hk, hg])
  have hheld : ∀ k, k ≠ fragment_key header → s₁.held k = s.held k := fun k hk => by
    rw [Timers.held, Timers.held, hothers k hk]
  simp only [process_fragment, Ipv4L3Protocol.process_fragment, hfind, ← hsame]
  by_cases hentire :
      (f.add_fragment packet header.fragment_offset (!header.is_last_fragment)).is_entire = true
  · obtain ⟨l, herase, hsub, hmem⟩ := hs₁.erase_spec hf
    refine ⟨_, _, _, by simp only [bind, Except.bind, hentire, if_true, herase]; rfl,
      ⟨hs₁.remove hsub hmem, ?_, hs₁.events⟩, ?_, ?_, ?_⟩
    · exact fun x hx => hs₁.pending_of_mem (hsub.subset (List.mem_of_mem_head? hx))
    · intro k g hg
      by_cases hk : k = fragment_key header
      · simp only [hk, Function.update_self] at hg
        cases hg
      · simp only [Function.update_of_ne hk] at hg
        exact hfilled₁ k g hk hg
    · exact fun k hk => (Function.update_of_ne hk ..).trans (hothers k hk)
    · funext k
      by_cases hk : k = fragment_key header
      · simp [Timers.held, hk, hentire]
      · simpa [Timers.held, Function.update_of_ne hk, hentire] using hheld k hk
  · have hnext : Matched { s₁ with fragments := Function.update s₁.fragments (fragment_key header) (some { f with
        toFragments := f.add_fragment packet header.fragment_offset (!header.is_last_fragment) }) }
        (s.arrived first (fragment_key header)) := hs₁.update hf rfl
    refine ⟨_, _, _, by simp only [bind, Except.bind, hentire, Bool.false_eq_true, if_false]; rfl,
      ⟨hnext, hs₁.pending, hs₁.events⟩, ?_, ?_, ?_⟩
    · intro k g hg
      by_cases hk : k = fragment_key header
      · simp only [hk, Function.update_self, Option.some.injEq] at hg
        rw [← hg]
        exact add_fragment_ne_nil
      · simp only [Function.update_of_ne hk] at hg
        exact hfilled₁ k g hk hg
    · exact fun k hk => (Function.update_of_ne hk ..).trans (hothers k hk)
    · funext k
      by_cases hk : k = fragment_key header
      · simp [Timers.held, hk, hentire]
      · simpa [Timers.held, Function.update_of_ne hk, hentire] using hheld k hk

/-- Without a timeout the timers come to nothing: `Schedule` takes no negative delay. -/
theorem process_fragment_negative (h : s.Timed first) (htimeout : s.fragment_expiration_timeout < 0) :
    s.process_fragment packet header iif = .error .negative_delay := by
  have hnone : ∀ x, x ∉ s.timeout_event_list := fun x hx => by
    have hdue := h.due x hx
    rw [h.expiry x hx] at hdue
    linarith [h.started x hx]
  have hlist := List.eq_nil_iff_forall_not_mem.mpr hnone
  have hkey : s.fragments (fragment_key header) = none := by
    rw [← Option.not_isSome_iff_eq_none]
    intro hsome
    obtain ⟨x, hx, -⟩ := h.held _ hsome
    exact hnone x hx
  have hset : s.set_timeout (fragment_key header) header iif = .error .negative_delay := by
    rw [set_timeout, hlist, List.isEmpty_nil, if_pos rfl, schedule, if_neg (by linarith)]
    rfl
  rw [process_fragment, find_fragments, hkey, hset]
  rfl

theorem merge_partial_isSome (p : PacketBytes) (l : List (PacketBytes × ℕ)) : (Fragments.merge_partial p l).isSome := by
  induction l generalizing p with
  | nil => rfl
  | cons x xs ih =>
    have hcut : ∀ n, ∃ t, x.1.create_fragment n (x.1.get_size - n) = some t := fun n => by
      have hsum : n + (x.1.get_size - n) = x.1.get_size := by grind
      exact ⟨_, by rw [PacketBytes.create_fragment, hsum, if_pos (UInt32.le_refl _)]⟩
    obtain ⟨t, ht⟩ := hcut (UInt32.ofNat (p.length % 2 ^ 16 - x.2))
    rw [Fragments.merge_partial]
    simp only [ht, Option.bind_eq_bind, Option.bind_some]
    split_ifs
    · obtain ⟨r, hr⟩ := Option.isSome_iff_exists.mp (ih (p ++ t))
      rw [hr]
      rfl
    · exact ih _
    · exact ih _

theorem get_partial_packet_isSome {f : Fragments} (hne : f.fragments ≠ []) : f.get_partial_packet.isSome := by
  obtain ⟨x, xs, hlist⟩ := List.exists_cons_of_ne_nil hne
  rw [Fragments.get_partial_packet, hlist]
  simp only
  split_ifs
  · rfl
  · exact merge_partial_isSome ..

theorem handle_fragments_timeout_spec (header : FragmentHeader) (iif : UInt32) (hfilled : s.Filled) {f : TimedFragments} (hf : s.fragments key = some f) :
    ∃ icmp drops, s.handle_fragments_timeout key header iif =
      .ok { s with time_exceeded := icmp, drop_trace := drops, fragments := Function.update s.fragments key none } := by
  obtain ⟨⟨p, cuts⟩, hp⟩ := Option.isSome_iff_exists.mp (get_partial_packet_isSome (hfilled key f hf))
  rw [handle_fragments_timeout, hf, Option.bind_some, hp]
  exact ⟨_, _, rfl⟩

theorem handle_expired_spec (h : Matched { s with timeout_event_list := l } first) (hfilled : s.Filled) :
    ∃ s', s.handle_expired l = .ok s' ∧ s'.Matched first ∧ s'.Filled ∧ s'.events = s.events ∧ s'.now = s.now ∧
      s'.fragment_expiration_timeout = s.fragment_expiration_timeout ∧
      (∀ x ∈ s'.timeout_event_list, s.now < x.expiry) ∧
      ∀ key, s'.fragments key =
        if s.now = first key + s.fragment_expiration_timeout then none else s.fragments key := by
  induction l generalizing s with
  | nil =>
    refine ⟨_, rfl, h, hfilled, rfl, rfl, rfl, by simp, fun key => ?_⟩
    have hnone : s.fragments key = none := by
      rw [← Option.not_isSome_iff_eq_none]
      intro hkey
      obtain ⟨x, hx, -⟩ := h.held key hkey
      cases hx
    rw [hnone, ite_self]
  | cons x xs ih =>
    rw [handle_expired]
    by_cases hnow : x.expiry = s.now
    · obtain ⟨f, hf, -⟩ := h.listed x (by simp)
      obtain ⟨icmp, drops, htimeout⟩ := handle_fragments_timeout_spec x.header x.iif hfilled hf
      have hother : ∀ y ∈ xs, y.key ≠ x.key := fun y hy heq =>
        (List.nodup_cons.mp h.keys).1 (List.mem_map.mpr ⟨y, hy, heq⟩)
      have hmem : ∀ y, y ∈ xs ↔ y ∈ x :: xs ∧ y.key ≠ x.key := fun y =>
        ⟨fun hy => ⟨List.mem_cons_of_mem x hy, hother y hy⟩,
          fun ⟨hy, hne⟩ => (List.mem_cons.mp hy).resolve_left fun heq => hne (by rw [heq])⟩
      have hnext := h.remove (List.sublist_cons_self x xs) hmem
      rw [if_pos hnow, htimeout]
      obtain ⟨s', hrest, hmatched, hfilled', hevents, hnow', hsame, hlater, hkeys⟩ :=
        ih (s := { s with
          time_exceeded := icmp, drop_trace := drops, fragments := Function.update s.fragments x.key none })
          { hnext with } fun k g hg => by
              by_cases hk : k = x.key
              · simp only [hk, Function.update_self] at hg
                cases hg
              · simp only [Function.update_of_ne hk] at hg
                exact hfilled k g hg
      refine ⟨s', hrest, hmatched, hfilled', hevents, hnow', hsame, hlater, fun k => ?_⟩
      have hexpiry := h.expiry x (by simp)
      by_cases heq : k = x.key
      · rw [hkeys, heq, if_pos (hnow.symm.trans hexpiry), if_pos (hnow.symm.trans hexpiry)]
      · simpa only [Function.update_of_ne heq] using hkeys k
    · have hlater : ∀ y ∈ x :: xs, s.now < y.expiry := fun y hy => by
        have hfirst := lt_of_le_of_ne (h.due x (by simp)) (Ne.symm hnow)
        rcases List.mem_cons.mp hy with rfl | hy
        · exact hfirst
        · exact hfirst.trans_le (List.rel_of_pairwise_cons h.sorted hy)
      rw [if_neg hnow]
      refine ⟨_, rfl, h, hfilled, rfl, rfl, rfl, hlater, fun k => ?_⟩
      by_cases hk : (s.fragments k).isSome
      · obtain ⟨y, hy, rfl⟩ := h.held k hk
        rw [if_neg (fun heq => (hlater y hy).ne (heq.trans (h.expiry y hy).symm))]
      · rw [Option.not_isSome_iff_eq_none.mp hk, ite_self]

theorem handle_timeout_spec (h : s.Matched first) (hfilled : s.Filled) (hevents : ∀ e ∈ s.events, s.now ≤ e) :
    ∃ s', s.handle_timeout = .ok s' ∧ s'.Timed first ∧ s'.Filled ∧
      ∀ key, s'.fragments key =
        if s.now = first key + s.fragment_expiration_timeout then none else s.fragments key := by
  obtain ⟨s₁, hexpired, hmatched, hfilled₁, hsame, hnow, -, hlater, hkeys⟩ :=
    handle_expired_spec (l := s.timeout_event_list) h hfilled
  rw [← hsame, ← hnow] at hevents
  simp only [handle_timeout, hexpired, bind, Except.bind]
  cases hlist : s₁.timeout_event_list with
  | nil => exact ⟨s₁, rfl, ⟨hmatched, by simp [hlist], hevents⟩, hfilled₁, hkeys⟩
  | cons x xs =>
    have hx := hlater x (by rw [hlist]; simp)
    have hdelay : 0 ≤ x.expiry - s₁.now := by
      rw [hnow]
      linarith
    simp only [schedule, if_pos hdelay]
    refine ⟨_, rfl, ⟨{ hmatched with }, ?_, ?_⟩, hfilled₁, hkeys⟩
    · intro y hy
      rw [hlist] at hy
      obtain rfl := Option.some.inj hy
      exact ⟨s₁.now + (x.expiry - s₁.now), by simp, by simp⟩
    · intro e he
      rcases List.mem_append.mp he with he | he
      · exact hevents e he
      · rw [List.mem_singleton.mp he]
        simp only
        linarith

end Timers

namespace Journal

variable {j j' : Journal} {e : TimerEvent}

/-- Every admitted step keeps the timers and removes the datagrams on time. Only a negative timeout stops the program,
at the first fragment. -/
theorem step_spec (h : j.Timed j.first) (hfilled : j.Filled) (hadmitted : j.Admitted e) :
    (∃ j', j.step e = .ok j' ∧ j'.Timed j'.first ∧ j'.Filled ∧ j.RemovesOnTime j' e) ∨
      j.fragment_expiration_timeout < 0 ∧ j.step e = .error .negative_delay := by
  cases e with
  | advance now =>
    obtain ⟨hle, hevents⟩ := hadmitted
    refine .inl ⟨_, rfl, ⟨⟨h.keys, h.iters, h.fresh, h.listed, h.held, h.sorted, h.expiry, ?_, ?_⟩, h.pending, hevents⟩,
      hfilled, rfl⟩
    · exact fun x hx => (h.started x hx).trans hle
    · intro x hx
      obtain ⟨e, he, hle⟩ := h.pending_of_mem hx
      exact (hevents e he).trans hle
  | fragment packet header iif =>
    by_cases htimeout : 0 ≤ j.fragment_expiration_timeout
    · obtain ⟨p, complete, s', hprocess, hs', hfilled', hothers, hheld⟩ :=
        Timers.process_fragment_spec packet header iif h hfilled htimeout
      refine .inl ⟨⟨s', j.arrived j.first (fragment_key header)⟩, ?_, hs', hfilled', hothers, hheld⟩
      rw [step, hprocess]
      rfl
    · refine .inr ⟨by linarith, ?_⟩
      rw [step, Timers.process_fragment_negative h (by linarith)]
      rfl
  | timeout =>
    have hevents : ∀ e ∈ j.events.erase j.now, j.now ≤ e := fun e he => h.events e (List.mem_of_mem_erase he)
    obtain ⟨s', htimeout, hs', hfilled', hkeys⟩ :=
      Timers.handle_timeout_spec (s := { j.toTimers with events := j.events.erase j.now })
        (show Timers.Matched _ j.first from { h with }) hfilled hevents
    refine .inl ⟨⟨s', j.first⟩, ?_, hs', hfilled', fun key _ => hkeys key⟩
    rw [step, htimeout]
    rfl

theorem timed_of_reachable (hreach : Reachable Initial next Admitted j) : j.Timed j.first ∧ j.Filled := by
  refine hreach.invariant (I := fun j => j.Timed j.first ∧ j.Filled) ?_ ?_
  · rintro _ ⟨timeout, rfl⟩
    refine ⟨⟨⟨?_, ?_, ?_, ?_, ?_, ?_, ?_, ?_, ?_⟩, ?_, ?_⟩, ?_⟩ <;> simp [Timers.Filled]
  · intro j e j' hj hadmitted hnext
    rw [next] at hnext
    rcases step_spec hj.1 hj.2 hadmitted with ⟨j₁, hstep, hj₁, hfilled, -⟩ | ⟨-, hstep⟩
    · rw [hstep] at hnext
      obtain rfl := Option.some.inj hnext
      exact ⟨hj₁, hfilled⟩
    · rw [hstep] at hnext
      cases hnext

theorem onSchedule_of_timed (h : j.Timed j.first) : j.OnSchedule where
  nodup := h.keys
  keys key := by
    rw [List.mem_map]
    refine ⟨?_, h.held key⟩
    rintro ⟨x, hx, rfl⟩
    obtain ⟨f, hf, -⟩ := h.listed x hx
    rw [hf]
    rfl
  sorted := h.sorted
  pending := h.pending
  due key hkey := by
    obtain ⟨x, hx, rfl⟩ := h.held key hkey
    have hdue := h.due x hx
    rw [h.expiry x hx] at hdue
    refine ⟨hdue, fun heq => ?_⟩
    obtain ⟨e, he, hle⟩ := h.pending_of_mem hx
    rw [h.expiry x hx, ← heq] at hle
    rwa [← hle.antisymm (h.events e he)]

/-- A datagram is completed and another one begins while the event for the first one is pending, so that there are
two events; the first of them finds nothing that is over and schedules a third. -/
def sampleEvents : List TimerEvent :=
  let header : FragmentHeader := { source := ⟨1⟩, destination := ⟨2⟩, protocol := 17, ttl := 64 }
  [.fragment [0, 1, 2, 3, 4, 5, 6, 7] { header with more_fragments := true } 0, .advance 10,
    .fragment [8] { header with fragment_offset := 8 } 0,
    .fragment [0, 1, 2, 3, 4, 5, 6, 7] { header with identification := 1, more_fragments := true } 0,
    .advance 30, .timeout]

end Journal

end Ns3.Ipv4L3Protocol
