import Ns3.Core.Scheduler

namespace Ns3.CalendarScheduler

open PriorityQueue (Operation Response Answers IsLeast Legal Serves)
open Scheduler (Event EventKey)
open Transition (Reachable)

variable {c c' : CalendarScheduler} {ev next : Event}

def contents (c : CalendarScheduler) : Multiset Event :=
  ∑ i ∈ Finset.range c.n_buckets.toNat, (↑(c.buckets i) : Multiset Event)

def Sorted (c : CalendarScheduler) (l : List Event) : Prop :=
  l.Pairwise fun a b => if c.reverse then b.order ≤ a.order else a.order ≤ b.order

/-- Every event is in the bucket of its time, in order. -/
structure Arranged (c : CalendarScheduler) : Prop where
  some_bucket : 0 < c.n_buckets.toNat
  few_buckets : c.n_buckets.toNat < 2 ^ 16
  wide : 0 < c.width.toNat
  hashed : ∀ i < c.n_buckets.toNat, ∀ ev ∈ c.buckets i, (c.hash ev.key.ts).toNat = i
  sorted : ∀ i < c.n_buckets.toNat, c.Sorted (c.buckets i)

/-- The search starts in the bucket of the last time, which no event is before. -/
structure Positioned (c : CalendarScheduler) : Prop where
  last_bucket : c.last_bucket = c.hash c.last_prio
  bucket_top : c.bucket_top = (c.last_prio / c.width + 1) * c.width
  late : ∀ ev ∈ c.contents, c.last_prio.toNat ≤ ev.key.ts.toNat
  bounded : ∀ ev ∈ c.contents, ev.key.ts.toNat < 2 ^ 63

section Buckets

theorem mem_contents : ev ∈ c.contents ↔ ∃ i < c.n_buckets.toNat, ev ∈ c.buckets i := by
  simp [contents, Multiset.mem_sum]

theorem hash_toNat (h : c.Arranged) (ts : UInt64) :
    (c.hash ts).toNat = ts.toNat / c.width.toNat % c.n_buckets.toNat := by
  have hlt := Nat.mod_lt (ts.toNat / c.width.toNat) h.some_bucket
  have hfew := h.few_buckets
  rw [hash, UInt64.toNat_toUInt32, UInt64.toNat_mod, UInt64.toNat_div, UInt32.toNat_toUInt64]
  exact Nat.mod_eq_of_lt (by omega)

theorem hash_lt (h : c.Arranged) (ts : UInt64) : (c.hash ts).toNat < c.n_buckets.toNat := by
  rw [hash_toNat h]
  exact Nat.mod_lt _ h.some_bucket

theorem contents_update {i : ℕ} (hi : i < c.n_buckets.toNat) (l : List Event) :
    contents { c with buckets := Function.update c.buckets i l } + ↑(c.buckets i) = c.contents + ↑l := by
  have hmem : i ∈ Finset.range c.n_buckets.toNat := Finset.mem_range.mpr hi
  have hrest : ∑ j ∈ (Finset.range c.n_buckets.toNat).erase i, (↑(Function.update c.buckets i l j) : Multiset Event) =
      ∑ j ∈ (Finset.range c.n_buckets.toNat).erase i, (↑(c.buckets j) : Multiset Event) := by
    refine Finset.sum_congr rfl fun j hj => ?_
    rw [Function.update_of_ne (Finset.ne_of_mem_erase hj)]
  simp only [contents]
  rw [← Finset.add_sum_erase _ _ hmem, hrest, Function.update_self, ← Finset.add_sum_erase _ (fun j =>
    (↑(c.buckets j) : Multiset Event)) hmem]
  simp only [add_comm, add_left_comm]

theorem next_event_eq_none {l : List Event} : c.next_event l = none ↔ l = [] := by
  unfold next_event
  split <;> simp

theorem mem_of_next_event {l : List Event} (h : c.next_event l = some next) : next ∈ l := by
  unfold next_event at h
  split at h
  · exact List.mem_of_getLast? h
  · exact List.mem_of_head? h

theorem next_event_le {l : List Event} (hsorted : c.Sorted l) (h : c.next_event l = some next) :
    ∀ ev ∈ l, next.order ≤ ev.order := by
  unfold next_event at h
  intro ev hev
  split at h
  next hreverse =>
    simp only [Sorted, hreverse, if_true] at hsorted
    obtain ⟨l', rfl⟩ := List.getLast?_eq_some_iff.mp h
    rcases List.mem_append.mp hev with hev | hev
    · exact (List.pairwise_append.mp hsorted).2.2 ev hev next (by simp)
    · rw [List.mem_singleton.mp hev]
  next hforward =>
    simp only [Sorted, hforward] at hsorted
    obtain ⟨l', rfl⟩ := List.head?_eq_some_iff.mp h
    rcases List.mem_cons.mp hev with rfl | hev
    · exact le_rfl
    · simpa using (List.pairwise_cons.mp hsorted).1 ev hev

theorem pop_spec {l : List Event} (h : c.next_event l = some next) :
    (↑l : Multiset Event) = next ::ₘ ↑(c.pop l) ∧ (c.pop l).Sublist l := by
  unfold next_event at h
  unfold pop
  split at h
  next hreverse =>
    obtain ⟨l', rfl⟩ := List.getLast?_eq_some_iff.mp h
    simp [hreverse]
  next hforward =>
    obtain ⟨l', rfl⟩ := List.head?_eq_some_iff.mp h
    simp [hforward]

theorem Sorted.sublist {l l' : List Event} (h : c.Sorted l) (hsub : l'.Sublist l) : c.Sorted l' :=
  List.Pairwise.sublist hsub h

theorem Sorted.place {l : List Event} (h : c.Sorted l) (ev : Event) : c.Sorted (SortedList.place c.order ev l) := by
  unfold Sorted at h ⊢
  cases hreverse : c.reverse with
  | false =>
    simp only [hreverse] at h ⊢
    refine SortedList.place_pairwise Event.order (fun a b => ?_) h
    simp only [order, hreverse]
    exact EventKey.less_iff a.key b.key
  | true =>
    simp only [hreverse, if_true] at h ⊢
    refine SortedList.place_pairwise (fun e : Event => OrderDual.toDual e.order) (fun a b => ?_) h
    simp only [order, hreverse, if_true]
    exact EventKey.less_iff b.key a.key

theorem Arranged.update (h : c.Arranged) {i : ℕ} {l : List Event}
    (hhashed : ∀ ev ∈ l, (c.hash ev.key.ts).toNat = i) (hsorted : c.Sorted l) :
    Arranged { c with buckets := Function.update c.buckets i l } := by
  refine ⟨h.some_bucket, h.few_buckets, h.wide, fun j hj ev hev => ?_, fun j hj => ?_⟩
  · by_cases hji : j = i
    · subst hji
      exact hhashed ev (by simpa using hev)
    · exact h.hashed j hj ev (by simpa [hji] using hev)
  · by_cases hji : j = i
    · subst hji
      simp only [Function.update_self]
      exact hsorted
    · simp only [Function.update_of_ne hji]
      exact h.sorted j hj

theorem do_insert_spec (h : c.Arranged) (ev : Event) :
    (c.do_insert ev).Arranged ∧ (c.do_insert ev).contents = ev ::ₘ c.contents := by
  have hlt := hash_lt h ev.key.ts
  constructor
  · refine h.update (fun e he => ?_) ((h.sorted _ hlt).place ev)
    rcases List.mem_cons.mp ((SortedList.place_perm _ _ _).mem_iff.mp he) with rfl | he
    · rfl
    · exact h.hashed _ hlt e he
  · have hupdate := contents_update (c := c) hlt (SortedList.place c.order ev (c.buckets (c.hash ev.key.ts).toNat))
    rw [Multiset.coe_eq_coe.mpr (SortedList.place_perm _ _ _), ← Multiset.cons_coe, Multiset.add_cons,
      ← Multiset.cons_add] at hupdate
    exact Multiset.add_left_inj.mp hupdate

end Buckets

section Scan

/-- The number of the bucket of a time when the years are put in a row. -/
def slot (c : CalendarScheduler) (ts : UInt64) : ℕ := ts.toNat / c.width.toNat

def first (c : CalendarScheduler) : ℕ := c.slot c.last_prio

/-- After `k` buckets without an event of the year, `min` is the least of their next events. -/
structure Scanned (c : CalendarScheduler) (k : ℕ) (min : Option (UInt32 × Event)) : Prop where
  none_of_year : ∀ j < k, ∀ next, c.next_event (c.buckets ((c.first + j) % c.n_buckets.toNat)) = some next →
    (c.first + j + 1) * c.width.toNat ≤ next.key.ts.toNat
  least : ∀ j < k, ∀ next, c.next_event (c.buckets ((c.first + j) % c.n_buckets.toNat)) = some next →
    ∃ m, min = some m ∧ m.2.order ≤ next.order
  found : ∀ m, min = some m → m.1.toNat < c.n_buckets.toNat ∧ c.next_event (c.buckets m.1.toNat) = some m.2

def Selects (c : CalendarScheduler) : Found → Prop
  | .year i bucket_top next =>
    i.toNat < c.n_buckets.toNat ∧ c.next_event (c.buckets i.toNat) = some next ∧
      IsLeast Event.order c.contents next ∧ i = c.hash next.key.ts ∧
      bucket_top = (next.key.ts / c.width + 1) * c.width
  | .direct min => ∃ i next, min = some (i, next) ∧ i.toNat < c.n_buckets.toNat ∧
      c.next_event (c.buckets i.toNat) = some next ∧ IsLeast Event.order c.contents next

theorem mul_succ_lt {v w ts : ℕ} (hw : w < 2 ^ 64) (hts : ts < 2 ^ 63) (hv : v * w ≤ ts) : (v + 1) * w < 2 ^ 64 := by
  rcases Nat.eq_zero_or_pos v with rfl | hpos
  · omega
  · have hle : w ≤ v * w := Nat.le_mul_of_pos_left w hpos
    rw [Nat.add_one_mul]
    omega

theorem slot_ge (h : c.Arranged) (hp : c.Positioned) {k : ℕ} (hk : k < c.n_buckets.toNat)
    (hev : ev ∈ c.buckets ((c.first + k) % c.n_buckets.toNat)) : c.first + k ≤ c.slot ev.key.ts := by
  have hlt := Nat.mod_lt (c.first + k) h.some_bucket
  have hbucket := h.hashed _ hlt ev hev
  rw [hash_toNat h] at hbucket
  have hlate : c.first ≤ c.slot ev.key.ts :=
    Nat.div_le_div_right (hp.late ev (mem_contents.mpr ⟨_, hlt, hev⟩))
  change c.slot ev.key.ts % _ = _ at hbucket
  obtain ⟨d, hd⟩ := Nat.exists_eq_add_of_le hlate
  rw [hd] at hbucket ⊢
  have hmod : d % c.n_buckets.toNat = k := by
    have hcongr : c.first + d ≡ c.first + k [MOD c.n_buckets.toNat] := hbucket
    have hdk : d % c.n_buckets.toNat = k % c.n_buckets.toNat := Nat.ModEq.add_left_cancel' _ hcongr
    rw [hdk, Nat.mod_eq_of_lt hk]
  have hle := Nat.mod_le d c.n_buckets.toNat
  omega

theorem slot_mul_le (c : CalendarScheduler) (ts : UInt64) : c.slot ts * c.width.toNat ≤ ts.toNat :=
  Nat.div_mul_le_self _ _

theorem lt_slot_succ_mul (h : c.Arranged) (ts : UInt64) : ts.toNat < (c.slot ts + 1) * c.width.toNat := by
  have hdiv := Nat.lt_div_mul_add h.wide (a := ts.toNat)
  rw [Nat.add_one_mul]
  exact hdiv

theorem top_of_slot (hbound : ev.key.ts.toNat < 2 ^ 63) :
    ((ev.key.ts / c.width + 1) * c.width).toNat = (c.slot ev.key.ts + 1) * c.width.toNat := by
  have htop := mul_succ_lt c.width.toNat_lt hbound (c.slot_mul_le ev.key.ts)
  have hslot : c.slot ev.key.ts + 1 < 2 ^ 64 := by
    have hle := Nat.div_le_self ev.key.ts.toNat c.width.toNat
    change c.slot ev.key.ts ≤ _ at hle
    omega
  rw [UInt64.toNat_mul, UInt64.toNat_add, UInt64.toNat_div, UInt64.toNat_one]
  change ((c.slot ev.key.ts + 1) % 2 ^ 64 * c.width.toNat) % 2 ^ 64 = _
  rw [Nat.mod_eq_of_lt hslot, Nat.mod_eq_of_lt htop]

theorem year_selects (h : c.Arranged) (hp : c.Positioned) {k : ℕ} {min : Option (UInt32 × Event)}
    (hk : k < c.n_buckets.toNat) (hscanned : c.Scanned k min)
    (hnext : c.next_event (c.buckets ((c.first + k) % c.n_buckets.toNat)) = some next)
    (hyear : next.key.ts.toNat < (c.first + k + 1) * c.width.toNat) :
    c.slot next.key.ts = c.first + k ∧ IsLeast Event.order c.contents next := by
  have hlt := Nat.mod_lt (c.first + k) h.some_bucket
  have hmem := mem_of_next_event hnext
  have hslot : c.slot next.key.ts = c.first + k := by
    refine le_antisymm (Nat.lt_succ_iff.mp ?_) (slot_ge h hp hk hmem)
    exact (Nat.div_lt_iff_lt_mul h.wide).mpr hyear
  refine ⟨hslot, mem_contents.mpr ⟨_, hlt, hmem⟩, fun ev hev => ?_⟩
  obtain ⟨i, hi, hbucket⟩ := mem_contents.mp hev
  have hhash := h.hashed i hi ev hbucket
  rw [hash_toNat h] at hhash
  change c.slot ev.key.ts % _ = i at hhash
  have hlate : c.first ≤ c.slot ev.key.ts := Nat.div_le_div_right (hp.late ev hev)
  rcases Nat.lt_trichotomy (c.slot ev.key.ts) (c.first + k) with hbefore | hsame | hafter
  · obtain ⟨j, hj⟩ := Nat.exists_eq_add_of_le hlate
    rw [hj] at hhash
    obtain ⟨head, hhead⟩ := Option.ne_none_iff_exists'.mp fun hnone : c.next_event (c.buckets i) = none => by
      rw [next_event_eq_none.mp hnone] at hbucket
      exact List.not_mem_nil hbucket
    have hle := next_event_le (h.sorted i hi) hhead ev hbucket
    have hout := hscanned.none_of_year j (by omega) head (hhash ▸ hhead)
    have hin := lt_slot_succ_mul h ev.key.ts
    rw [hj] at hin
    have htime : head.key.ts.toNat ≤ ev.key.ts.toNat := by
      rcases (Prod.Lex.toLex_le_toLex.mp hle) with hlt | ⟨heq, _⟩
      · exact hlt.le
      · exact heq.le
    omega
  · rw [hsame] at hhash
    exact next_event_le (h.sorted _ hlt) hnext ev (by rw [hhash]; exact hbucket)
  · have hmul : (c.first + k + 1) * c.width.toNat ≤ c.slot ev.key.ts * c.width.toNat :=
      Nat.mul_le_mul_right _ hafter
    have hts := c.slot_mul_le ev.key.ts
    refine (Prod.Lex.toLex_lt_toLex.mpr (.inl ?_)).le
    show next.key.ts.toNat < ev.key.ts.toNat
    omega

theorem direct_selects (h : c.Arranged) {min : Option (UInt32 × Event)} (hsome : c.contents ≠ 0)
    (hscanned : c.Scanned c.n_buckets.toNat min) : c.Selects (.direct min) := by
  have hleast : ∀ ev ∈ c.contents, ∃ m, min = some m ∧ m.2.order ≤ ev.order := by
    intro ev hev
    obtain ⟨i, hi, hbucket⟩ := mem_contents.mp hev
    obtain ⟨head, hhead⟩ := Option.ne_none_iff_exists'.mp fun hnone : c.next_event (c.buckets i) = none => by
      rw [next_event_eq_none.mp hnone] at hbucket
      exact List.not_mem_nil hbucket
    obtain ⟨j, hj, hji⟩ : ∃ j < c.n_buckets.toNat, (c.first + j) % c.n_buckets.toNat = i := by
      have hfirst := Nat.mod_lt c.first h.some_bucket
      refine ⟨(i + c.n_buckets.toNat - c.first % c.n_buckets.toNat) % c.n_buckets.toNat,
        Nat.mod_lt _ h.some_bucket, ?_⟩
      rw [Nat.add_mod, Nat.mod_mod, ← Nat.add_mod, ← Nat.mod_add_mod,
        show c.first % c.n_buckets.toNat + (i + c.n_buckets.toNat - c.first % c.n_buckets.toNat) =
          i + c.n_buckets.toNat by omega, Nat.add_mod_right, Nat.mod_eq_of_lt hi]
    obtain ⟨m, hm, hle⟩ := hscanned.least j hj head (by rw [hji]; exact hhead)
    exact ⟨m, hm, hle.trans (next_event_le (h.sorted i hi) hhead ev hbucket)⟩
  obtain ⟨ev, hev⟩ := Multiset.exists_mem_of_ne_zero hsome
  obtain ⟨⟨i, next⟩, rfl, _⟩ := hleast ev hev
  obtain ⟨hi, hnext⟩ := hscanned.found (i, next) rfl
  refine ⟨i, next, rfl, hi, hnext, mem_contents.mpr ⟨_, hi, mem_of_next_event hnext⟩, fun b hb => ?_⟩
  obtain ⟨m, hm, hle⟩ := hleast b hb
  cases hm
  exact hle

theorem Scanned.succ {k : ℕ} {min min' : Option (UInt32 × Event)} (hscanned : c.Scanned k min)
    (hyear : ∀ next, c.next_event (c.buckets ((c.first + k) % c.n_buckets.toNat)) = some next →
      (c.first + k + 1) * c.width.toNat ≤ next.key.ts.toNat ∧ ∃ m, min' = some m ∧ m.2.order ≤ next.order)
    (hless : ∀ m, min = some m → ∃ m', min' = some m' ∧ m'.2.order ≤ m.2.order)
    (hfound : ∀ m, min' = some m → m.1.toNat < c.n_buckets.toNat ∧ c.next_event (c.buckets m.1.toNat) = some m.2) :
    c.Scanned (k + 1) min' := by
  refine ⟨fun j hj next hnext => ?_, fun j hj next hnext => ?_, hfound⟩
  · rcases Nat.lt_succ_iff_lt_or_eq.mp hj with hj | rfl
    · exact hscanned.none_of_year j hj next hnext
    · exact (hyear next hnext).1
  · rcases Nat.lt_succ_iff_lt_or_eq.mp hj with hj | rfl
    · obtain ⟨m, hm, hle⟩ := hscanned.least j hj next hnext
      obtain ⟨m', hm', hle'⟩ := hless m hm
      exact ⟨m', hm', hle'.trans hle⟩
    · exact (hyear next hnext).2

theorem scan_spec (h : c.Arranged) (hp : c.Positioned) (hsome : c.contents ≠ 0) (limit : EventKey)
    (hlimit : limit.ts = 0xffffffffffffffff) {turns k : ℕ} {i : UInt32} {bucket_top : UInt64}
    {min : Option (UInt32 × Event)} (hturns : c.n_buckets.toNat = k + turns) (hpos : 0 < turns)
    (hi : i.toNat = (c.first + k) % c.n_buckets.toNat)
    (htop : bucket_top.toNat = (c.first + k + 1) * c.width.toNat % 2 ^ 64) (hscanned : c.Scanned k min) :
    ∃ found, c.scan limit turns i bucket_top min = some found ∧ c.Selects found := by
  induction turns generalizing k i bucket_top min with
  | zero => omega
  | succ turns ih =>
    have hk : k < c.n_buckets.toNat := by omega
    have hfew := h.few_buckets
    have hlast : c.last_bucket.toNat = c.first % c.n_buckets.toNat := by
      rw [hp.last_bucket, hash_toNat h]
      rfl
    have hnext_i : ((i + 1) % c.n_buckets).toNat = (c.first + (k + 1)) % c.n_buckets.toNat := by
      have hlt := Nat.mod_lt (c.first + k) h.some_bucket
      have hsum : (i + 1).toNat = i.toNat + 1 := by
        rw [UInt32.toNat_add, UInt32.toNat_one, Nat.mod_eq_of_lt (by omega)]
      rw [UInt32.toNat_mod, hsum, hi, Nat.mod_add_mod, Nat.add_assoc]
    have hnext_top : (bucket_top + c.width).toNat = (c.first + (k + 1) + 1) * c.width.toNat % 2 ^ 64 := by
      rw [UInt64.toNat_add, htop, Nat.mod_add_mod, ← Nat.add_assoc, Nat.add_one_mul (c.first + k + 1)]
    have hcontinue : ∀ min', c.Scanned (k + 1) min' → ∃ found,
        (if (i + 1) % c.n_buckets = c.last_bucket then some (Found.direct min')
          else c.scan limit turns ((i + 1) % c.n_buckets) (bucket_top + c.width) min') = some found ∧
          c.Selects found := by
      intro min' hscanned'
      split
      next hend =>
        have hall : k + 1 = c.n_buckets.toNat := by
          have hmod : (c.first + (k + 1)) % c.n_buckets.toNat = c.first % c.n_buckets.toNat := by
            rw [← hnext_i, hend, hlast]
          have hdvd : c.n_buckets.toNat ∣ k + 1 := (Nat.modEq_zero_iff_dvd).mp
            (Nat.ModEq.add_left_cancel' c.first (show c.first + (k + 1) ≡ c.first + 0 [MOD _] from hmod))
          have hle := Nat.le_of_dvd (Nat.succ_pos k) hdvd
          omega
        exact ⟨_, rfl, direct_selects h hsome (hall ▸ hscanned')⟩
      next hgo =>
        have hturns' : 0 < turns := by
          refine Nat.pos_of_ne_zero fun hzero => hgo ?_
          refine UInt32.toNat_inj.mp ?_
          rw [hnext_i, hlast, show c.first + (k + 1) = c.first + c.n_buckets.toNat by omega, Nat.add_mod_right]
        exact ih (by omega) hturns' hnext_i hnext_top hscanned'
    rw [scan]
    simp only [hi]
    split
    next hempty =>
      refine hcontinue min (hscanned.succ (fun next hnext => ?_) (fun m hm => ⟨m, hm, le_rfl⟩) hscanned.found)
      rw [hempty] at hnext
      cases hnext
    next next hnext =>
      have hmem := mem_of_next_event hnext
      have hlt := Nat.mod_lt (c.first + k) h.some_bucket
      have hbound := hp.bounded next (mem_contents.mpr ⟨_, hlt, hmem⟩)
      have hexact : bucket_top.toNat = (c.first + k + 1) * c.width.toNat := by
        rw [htop, Nat.mod_eq_of_lt (mul_succ_lt c.width.toNat_lt hbound ?_)]
        exact (Nat.mul_le_mul_right _ (slot_ge h hp hk hmem)).trans (c.slot_mul_le _)
      split
      next hyear =>
        rw [UInt64.lt_iff_toNat_lt, hexact] at hyear
        obtain ⟨hslot, hleast⟩ := year_selects h hp hk hscanned hnext hyear
        refine ⟨_, rfl, by omega, by rw [hi]; exact hnext, hleast, ?_, ?_⟩
        · refine UInt32.toNat_inj.mp ?_
          rw [hash_toNat h, hi, ← hslot]
          rfl
        · refine UInt64.toNat_inj.mp ?_
          rw [top_of_slot hbound, hexact, hslot]
      next hlater =>
        rw [UInt64.lt_iff_toNat_lt, hexact, not_lt] at hlater
        refine hcontinue _ (hscanned.succ (fun next' hnext' => ?_) (fun m hm => ?_) (fun m hm => ?_))
        · obtain rfl := Option.some.inj (hnext.symm.trans hnext')
          refine ⟨hlater, ?_⟩
          split
          next => exact ⟨_, rfl, le_rfl⟩
          next hnot =>
            cases min with
            | none =>
              refine absurd ((EventKey.less_iff _ _).mpr ?_) hnot
              refine Prod.Lex.toLex_lt_toLex.mpr (.inl ?_)
              rw [Option.map_none, Option.getD_none, hlimit]
              show next.key.ts.toNat < (0xffffffffffffffff : UInt64).toNat
              exact hbound.trans (by decide)
            | some m => exact ⟨m, rfl, (EventKey.less_eq_false _ _).mp (Bool.eq_false_iff.mpr hnot)⟩
        · subst hm
          split
          next hless => exact ⟨_, rfl, ((EventKey.less_iff _ _).mp hless).le⟩
          next => exact ⟨m, rfl, le_rfl⟩
        · split at hm
          next =>
            cases hm
            exact ⟨by rw [hi]; exact hlt, by rw [hi]; exact hnext⟩
          next => exact hscanned.found m hm

theorem search_spec (h : c.Arranged) (hp : c.Positioned) (hsome : c.contents ≠ 0) (limit : EventKey)
    (hlimit : limit.ts = 0xffffffffffffffff) :
    ∃ found, c.scan limit c.n_buckets.toNat c.last_bucket c.bucket_top none = some found ∧ c.Selects found := by
  refine scan_spec h hp hsome _ hlimit (k := 0) (by omega) h.some_bucket ?_ ?_ ⟨by omega, by omega, by simp⟩
  · rw [hp.last_bucket, hash_toNat h]
    rfl
  · rw [hp.bucket_top, UInt64.toNat_mul, UInt64.toNat_add, UInt64.toNat_div, UInt64.toNat_one, Nat.mod_mul_mod]
    rfl

end Scan

section Operations

/-- The calendar is as it was but for its events and the position of the search. -/
structure SameYears (c c' : CalendarScheduler) : Prop where
  reverse : c'.reverse = c.reverse
  n_buckets : c'.n_buckets = c.n_buckets
  width : c'.width = c.width
  q_size : c'.q_size = c.q_size

theorem ts_le_of_order_le {a b : Event} (h : a.order ≤ b.order) : a.key.ts.toNat ≤ b.key.ts.toNat := by
  rcases Prod.Lex.toLex_le_toLex.mp h with hlt | ⟨heq, _⟩
  · exact hlt.le
  · exact heq.le

theorem take_next (h : c.Arranged) (hp : c.Positioned) {i : ℕ} (hi : i < c.n_buckets.toNat)
    (hnext : c.next_event (c.buckets i) = some next) (hleast : IsLeast Event.order c.contents next)
    {last_bucket : UInt32} {bucket_top : UInt64} (hlast : last_bucket = c.hash next.key.ts)
    (htop : bucket_top = (next.key.ts / c.width + 1) * c.width) :
    let c' := { c with
      last_bucket := last_bucket, last_prio := next.key.ts, bucket_top := bucket_top
      buckets := Function.update c.buckets i (c.pop (c.buckets i)) }
    c'.Arranged ∧ c'.Positioned ∧ c.contents = next ::ₘ c'.contents := by
  obtain ⟨hpop, hsub⟩ := pop_spec hnext
  have harranged : Arranged { c with buckets := Function.update c.buckets i (c.pop (c.buckets i)) } :=
    h.update (fun ev hev => h.hashed i hi ev (hsub.subset hev)) ((h.sorted i hi).sublist hsub)
  have hcontents : c.contents =
      next ::ₘ contents { c with buckets := Function.update c.buckets i (c.pop (c.buckets i)) } := by
    have hupdate := contents_update hi (c.pop (c.buckets i))
    rw [hpop, Multiset.add_cons, ← Multiset.cons_add] at hupdate
    exact (Multiset.add_left_inj.mp hupdate).symm
  refine ⟨{ harranged with },
    ⟨hlast, htop, fun ev hev => ?_, fun ev hev => ?_⟩, hcontents⟩
  · exact ts_le_of_order_le (hleast.2 ev (by rw [hcontents]; exact Multiset.mem_cons_of_mem hev))
  · exact hp.bounded ev (by rw [hcontents]; exact Multiset.mem_cons_of_mem hev)

theorem do_remove_next_spec (h : c.Arranged) (hp : c.Positioned) (hcount : c.is_empty = false) (hsome : c.contents ≠ 0) :
    ∃ next c', c.do_remove_next = some (next, c') ∧ IsLeast Event.order c.contents next ∧ c'.Arranged ∧
      c'.Positioned ∧ c.contents = next ::ₘ c'.contents ∧ SameYears c c' ∧ c'.last_prio = next.key.ts := by
  obtain ⟨found, hscan, hselects⟩ := search_spec h hp hsome ⟨0xffffffffffffffff, 0, 0xffffffff⟩ rfl
  unfold do_remove_next
  rw [hcount, hscan, Option.bind_some]
  cases found with
  | year i bucket_top next =>
    obtain ⟨hi, hnext, hleast, hlast, htop⟩ := hselects
    obtain ⟨harranged, hpositioned, hcontents⟩ := take_next h hp hi hnext hleast hlast htop
    exact ⟨next, _, rfl, hleast, harranged, hpositioned, hcontents, ⟨rfl, rfl, rfl, rfl⟩, rfl⟩
  | direct min =>
    obtain ⟨i, next, rfl, hi, hnext, hleast⟩ := hselects
    obtain ⟨harranged, hpositioned, hcontents⟩ := take_next h hp hi hnext hleast rfl rfl
    refine ⟨next, _, ?_, hleast, harranged, hpositioned, hcontents, ⟨rfl, rfl, rfl, rfl⟩, rfl⟩
    simp only [hnext]
    rfl

theorem peek_next_spec (h : c.Arranged) (hp : c.Positioned) (hcount : c.is_empty = false) (hsome : c.contents ≠ 0) :
    ∃ next, c.peek_next = some next ∧ IsLeast Event.order c.contents next := by
  obtain ⟨found, hscan, hselects⟩ := search_spec h hp hsome ⟨0xffffffffffffffff, 0xffffffff, 0⟩ rfl
  unfold peek_next
  rw [hcount, hscan, Option.bind_some]
  cases found with
  | year i bucket_top next =>
    obtain ⟨_, _, hleast, _, _⟩ := hselects
    exact ⟨next, rfl, hleast⟩
  | direct min =>
    obtain ⟨i, next, rfl, _, _, hleast⟩ := hselects
    exact ⟨next, rfl, hleast⟩

theorem insert_all_spec (h : c.Arranged) (l : List Event) :
    (l.foldl do_insert c).Arranged ∧ (l.foldl do_insert c).contents = ↑l + c.contents ∧
      l.foldl do_insert c = { c with buckets := (l.foldl do_insert c).buckets } := by
  induction l generalizing c with
  | nil => exact ⟨h, by simp, rfl⟩
  | cons ev rest ih =>
    obtain ⟨harranged, hcontents⟩ := do_insert_spec h ev
    obtain ⟨harranged', hcontents', hframe⟩ := ih harranged
    refine ⟨harranged', ?_, ?_⟩
    · rw [List.foldl_cons, hcontents', hcontents, ← Multiset.cons_coe, Multiset.cons_add, Multiset.add_cons]
    · rw [List.foldl_cons, hframe]
      rfl

theorem take_samples_spec (h : c.Arranged) (hp : c.Positioned) {n : ℕ} (hcount : c.is_empty = false)
    (hn : n ≤ c.contents.card) :
    ∃ l c', take_samples n c = some (l, c') ∧ c'.Arranged ∧ c.contents = ↑l + c'.contents ∧ SameYears c c' := by
  induction n generalizing c with
  | zero => exact ⟨[], c, rfl, h, by simp, rfl, rfl, rfl, rfl⟩
  | succ n ih =>
    have hsome : c.contents ≠ 0 := by
      rintro hnone
      rw [hnone, Multiset.card_zero] at hn
      omega
    obtain ⟨next, c₁, hremove, _, harranged, hpositioned, hcontents, hsame, _⟩ :=
      do_remove_next_spec h hp hcount hsome
    have hcount₁ : c₁.is_empty = false := by
      rw [is_empty, hsame.q_size]
      exact hcount
    have hn₁ : n ≤ c₁.contents.card := by
      rw [hcontents, Multiset.card_cons] at hn
      omega
    obtain ⟨l, c', htake, harranged', hcontents', hsame'⟩ := ih harranged hpositioned hcount₁ hn₁
    refine ⟨next :: l, c', ?_, harranged', ?_, hsame'.reverse.trans hsame.reverse,
      hsame'.n_buckets.trans hsame.n_buckets, hsame'.width.trans hsame.width, hsame'.q_size.trans hsame.q_size⟩
    · rw [take_samples, hremove, Option.bind_some, htake]
      rfl
    · rw [hcontents, hcontents', ← Multiset.cons_coe, Multiset.cons_add]

theorem sample_count_le (c : CalendarScheduler) : c.sample_count.toNat ≤ c.q_size.toNat := by
  have hmin : c.sample_count.toNat ≤ (if c.q_size ≤ 5 then c.q_size else 5 + c.q_size / 10).toNat := by
    have hcases : ∀ n : UInt32, (if n ≤ 25 then n else 25).toNat ≤ n.toNat := by
      intro n
      split
      next => exact le_rfl
      next hlarge => exact (UInt32.lt_iff_toNat_lt.mp (UInt32.not_le.mp hlarge)).le
    exact hcases _
  refine hmin.trans ?_
  split
  next => exact le_rfl
  next hmany =>
    have hsix : 5 < c.q_size.toNat := by simpa [UInt32.le_iff_toNat_le] using hmany
    have hlt := c.q_size.toNat_lt
    rw [UInt32.toNat_add, UInt32.toNat_div]
    simp only [UInt32.reduceToNat]
    omega

theorem width_of_pos (samples : List Event) : 0 < (width_of samples).toNat := by
  have hcases : ∀ n : UInt64, 0 < (if n ≤ 1 then 1 else n).toNat := by
    intro n
    split
    next => decide
    next hlarge => exact (by decide : 0 < (1 : UInt64).toNat).trans (UInt64.lt_iff_toNat_lt.mp (UInt64.not_le.mp hlarge))
  exact hcases _

theorem calculate_new_width_spec (h : c.Arranged) (hp : c.Positioned) (hsize : c.q_size.toNat ≤ c.contents.card) :
    ∃ width c', c.calculate_new_width = some (width, c') ∧ 0 < width.toNat ∧ c'.Arranged ∧
      c'.contents = c.contents ∧ SameYears c c' ∧ c'.last_prio = c.last_prio := by
  unfold calculate_new_width
  split
  next => exact ⟨1, c, rfl, by decide, h, rfl, ⟨rfl, rfl, rfl, rfl⟩, rfl⟩
  next hmany =>
    have hcount : c.is_empty = false := by
      rw [is_empty, beq_eq_false_iff_ne]
      rintro hzero
      exact hmany (by rw [hzero]; decide)
    obtain ⟨l, c₁, htake, harranged, hcontents, hsame⟩ :=
      take_samples_spec h hp hcount (c.sample_count_le.trans hsize)
    obtain ⟨harranged', hcontents', hframe⟩ := insert_all_spec harranged l
    rw [htake, Option.map_some]
    refine ⟨_, _, rfl, width_of_pos l, { harranged' with }, hcontents'.trans hcontents.symm, ?_, rfl⟩
    exact ⟨by rw [hframe]; exact hsame.reverse, by rw [hframe]; exact hsame.n_buckets,
      by rw [hframe]; exact hsame.width, by rw [hframe]; exact hsame.q_size⟩

theorem do_resize_spec (newSize : UInt32) (newWidth : UInt64) (hsize : 0 < newSize.toNat)
    (hfew : newSize.toNat < 2 ^ 16) (hwidth : 0 < newWidth.toNat) :
    (c.do_resize newSize newWidth).Arranged ∧ (c.do_resize newSize newWidth).contents = c.contents ∧
      c.do_resize newSize newWidth =
        { c.initialise newSize newWidth c.last_prio with buckets := (c.do_resize newSize newWidth).buckets } := by
  have hempty : (c.initialise newSize newWidth c.last_prio).Arranged :=
    ⟨hsize, hfew, hwidth, fun i _ ev hev => absurd hev List.not_mem_nil, fun i _ => List.Pairwise.nil⟩
  obtain ⟨harranged, hcontents, hframe⟩ := insert_all_spec hempty ((List.range c.n_buckets.toNat).flatMap c.buckets)
  refine ⟨harranged, ?_, hframe⟩
  have hnone : (c.initialise newSize newWidth c.last_prio).contents = 0 :=
    Finset.sum_eq_zero fun i _ => rfl
  have hall : (↑((List.range c.n_buckets.toNat).flatMap c.buckets) : Multiset Event) = c.contents := by
    rw [← Multiset.coe_bind, contents, Finset.sum_eq_multiset_sum, Multiset.bind, Multiset.join]
    rfl
  rw [hnone, add_zero, hall] at hcontents
  exact hcontents

structure Holds (c : CalendarScheduler) (m : Multiset Event) : Prop where
  arranged : c.Arranged
  positioned : c.Positioned
  contents : c.contents = m
  q_size : c.q_size = UInt32.ofNat m.card

theorem resize_spec {m : Multiset Event} (h : c.Holds m) {newSize : UInt32} (hsize : 0 < newSize.toNat)
    (hfew : newSize.toNat < 2 ^ 16) :
    ∃ c', c.resize newSize = some c' ∧ c'.Holds m ∧ c'.last_prio = c.last_prio := by
  have hcard : c.q_size.toNat ≤ c.contents.card := by
    rw [h.q_size, h.contents, UInt32.toNat_ofNat']
    exact Nat.mod_le _ _
  obtain ⟨width, c₁, hwidth, hpos, harranged, hcontents, hsame, hlast⟩ :=
    calculate_new_width_spec h.arranged h.positioned hcard
  obtain ⟨harranged', hcontents', hframe⟩ := do_resize_spec (c := c₁) newSize width hsize hfew hpos
  have hall : (c₁.do_resize newSize width).contents = c.contents := hcontents'.trans hcontents
  have hprio : (c₁.do_resize newSize width).last_prio = c.last_prio := by
    rw [hframe]
    exact hlast
  refine ⟨c₁.do_resize newSize width, ?_, ⟨harranged', ⟨?_, ?_, ?_, ?_⟩, hall.trans h.contents, ?_⟩, hprio⟩
  · rw [resize, hwidth]
    rfl
  · rw [hframe]
    rfl
  · rw [hframe]
    rfl
  · intro ev hev
    rw [hprio]
    exact h.positioned.late ev (hall ▸ hev)
  · exact fun ev hev => h.positioned.bounded ev (hall ▸ hev)
  · rw [hframe]
    exact hsame.q_size.trans h.q_size

theorem resize_up_spec {m : Multiset Event} (h : c.Holds m) :
    ∃ c', c.resize_up = some c' ∧ c'.Holds m ∧ c'.last_prio = c.last_prio := by
  unfold resize_up
  split
  next hgrow =>
    have hpos := h.arranged.some_bucket
    have hfew : c.n_buckets.toNat < 32768 := UInt32.lt_iff_toNat_lt.mp hgrow.2
    have hdouble : (c.n_buckets * 2).toNat = c.n_buckets.toNat * 2 := by
      rw [UInt32.toNat_mul]
      exact Nat.mod_eq_of_lt (by simp only [UInt32.reduceToNat]; omega)
    exact resize_spec h (by omega) (by omega)
  next => exact ⟨c, rfl, h, rfl⟩

theorem resize_down_spec {m : Multiset Event} (h : c.Holds m) :
    ∃ c', c.resize_down = some c' ∧ c'.Holds m ∧ c'.last_prio = c.last_prio := by
  unfold resize_down
  split
  next hshrink =>
    have hfew := h.arranged.few_buckets
    have hhalf : (c.n_buckets / 2).toNat = c.n_buckets.toNat / 2 := by
      rw [UInt32.toNat_div]
      rfl
    have hlt := UInt32.lt_iff_toNat_lt.mp hshrink
    exact resize_spec h (by omega) (by omega)
  next => exact ⟨c, rfl, h, rfl⟩

variable {m : Multiset Event}

theorem insert_spec (h : c.Holds m) (hlate : c.last_prio.toNat ≤ ev.key.ts.toNat) (hbound : ev.key.ts.toNat < 2 ^ 63) :
    ∃ c', c.insert ev = some c' ∧ c'.Holds (ev ::ₘ m) ∧ c'.last_prio = c.last_prio := by
  obtain ⟨harranged, hcontents⟩ := do_insert_spec h.arranged ev
  rw [h.contents] at hcontents
  refine resize_up_spec (c := { c.do_insert ev with q_size := c.q_size + 1 }) ⟨{ harranged with },
    ⟨h.positioned.last_bucket, h.positioned.bucket_top, fun e he => ?_, fun e he => ?_⟩, hcontents, ?_⟩
  · change e ∈ (c.do_insert ev).contents at he
    rw [hcontents] at he
    rcases Multiset.mem_cons.mp he with rfl | he
    · exact hlate
    · exact h.positioned.late e (h.contents ▸ he)
  · change e ∈ (c.do_insert ev).contents at he
    rw [hcontents] at he
    rcases Multiset.mem_cons.mp he with rfl | he
    · exact hbound
    · exact h.positioned.bounded e (h.contents ▸ he)
  · rw [Multiset.card_cons, UInt32.ofNat_add, ← h.q_size]
    rfl

/-- The count tells whether the queue is empty while it does not overflow. -/
theorem is_empty_iff (h : c.Holds m) (hfew : m.card < 2 ^ 32) : c.is_empty = true ↔ m = 0 := by
  rw [is_empty, beq_iff_eq, h.q_size, ← UInt32.toNat_inj, UInt32.toNat_ofNat_of_lt' hfew]
  exact Multiset.card_eq_zero

theorem count_erase (h : c.Holds m) (hmem : ev ∈ m) : c.q_size - 1 = UInt32.ofNat (m.erase ev).card := by
  have hcard : m.card = (m.erase ev).card + 1 := (Multiset.card_erase_add_one hmem).symm
  rw [h.q_size, hcard, UInt32.ofNat_add]
  exact UInt32.add_sub_cancel _ _

theorem remove_next_spec (h : c.Holds m) (hfew : m.card < 2 ^ 32) (hsome : m ≠ 0) :
    ∃ next c', c.remove_next = some (next, c') ∧ IsLeast Event.order m next ∧ c'.Holds (m.erase next) ∧
      c'.last_prio = next.key.ts := by
  have hcount : c.is_empty = false := Bool.eq_false_iff.mpr fun hempty => hsome ((is_empty_iff h hfew).mp hempty)
  have hcontents := h.contents
  obtain ⟨next, c₁, hremove, hleast, harranged, hpositioned, hsplit, hsame, hprio⟩ :=
    do_remove_next_spec h.arranged h.positioned hcount (hcontents ▸ hsome)
  rw [hcontents] at hleast hsplit
  have herase : c₁.contents = m.erase next := by rw [hsplit, Multiset.erase_cons_head]
  have hholds : Holds { c₁ with q_size := c₁.q_size - 1 } (m.erase next) :=
    ⟨{ harranged with },
      { hpositioned with }, herase,
      by rw [← count_erase h hleast.1, hsame.q_size]⟩
  obtain ⟨c', hresize, hholds', hlast⟩ := resize_down_spec hholds
  refine ⟨next, c', ?_, hleast, hholds', hlast.trans hprio⟩
  rw [remove_next, hremove, Option.bind_some, hresize]
  rfl

theorem remove_spec (h : c.Holds m) (hfew : m.card < 2 ^ 32) (hmem : ev ∈ m)
    (hunique : ∀ b ∈ m, b.key.uid = ev.key.uid → b = ev) :
    ∃ c', c.remove ev = some c' ∧ c'.Holds (m.erase ev) ∧ c'.last_prio = c.last_prio := by
  have hsome : m ≠ 0 := by
    rintro rfl
    exact Multiset.notMem_zero _ hmem
  have hcount : c.is_empty = false := Bool.eq_false_iff.mpr fun hempty => hsome ((is_empty_iff h hfew).mp hempty)
  have hcontents := h.contents
  obtain ⟨i, hi, hbucket⟩ := mem_contents.mp (hcontents ▸ hmem)
  have hhash := h.arranged.hashed i hi ev hbucket
  have honly : ∀ b ∈ c.buckets i, (b.key.uid == ev.key.uid) = true → b = ev := fun b hb huid =>
    hunique b (hcontents ▸ mem_contents.mpr ⟨i, hi, hb⟩) (by simpa using huid)
  have hfind : (c.buckets i).find? (fun b => b.key.uid == ev.key.uid) = some ev :=
    SortedList.find?_eq_of_unique hbucket (by simp) honly
  have herase : (c.buckets i).eraseP (fun b => b.key.uid == ev.key.uid) = (c.buckets i).erase ev :=
    SortedList.eraseP_eq_erase_of_unique (by simp) honly
  have hsub : ((c.buckets i).erase ev).Sublist (c.buckets i) := List.erase_sublist
  have harranged := h.arranged.update (i := i) (fun e he => h.arranged.hashed i hi e (hsub.subset he))
    ((h.arranged.sorted i hi).sublist hsub)
  have hsplit : contents { c with buckets := Function.update c.buckets i ((c.buckets i).erase ev) } = m.erase ev := by
    have hupdate := contents_update hi ((c.buckets i).erase ev)
    have hcons : (↑(c.buckets i) : Multiset Event) = ev ::ₘ ↑((c.buckets i).erase ev) := by
      rw [← Multiset.coe_erase, Multiset.cons_erase (Multiset.mem_coe.mpr hbucket)]
    rw [hcons, Multiset.add_cons, ← Multiset.cons_add] at hupdate
    rw [← hcontents, ← Multiset.add_left_inj.mp hupdate, Multiset.erase_cons_head]
  have hholds : Holds { c with
      buckets := Function.update c.buckets i ((c.buckets i).erase ev), q_size := c.q_size - 1 } (m.erase ev) := by
    refine ⟨{ harranged with },
      ⟨h.positioned.last_bucket, h.positioned.bucket_top, fun e he => ?_, fun e he => ?_⟩, hsplit, count_erase h hmem⟩
    · have he : e ∈ m := Multiset.mem_of_mem_erase (hsplit ▸ he)
      exact h.positioned.late e (hcontents ▸ he)
    · have he : e ∈ m := Multiset.mem_of_mem_erase (hsplit ▸ he)
      exact h.positioned.bounded e (hcontents ▸ he)
  obtain ⟨c', hresize, hholds', hlast⟩ := resize_down_spec hholds
  refine ⟨c', ?_, hholds', hlast⟩
  unfold remove
  simp only [hcount, hhash, hfind, herase, if_true]
  exact hresize

end Operations

/-- An operation, beside the time of the last event `RemoveNext` returned. -/
def timed_operate (q : CalendarScheduler × UInt64) (op : Operation Event) :
    Option ((CalendarScheduler × UInt64) × Response Event) :=
  (q.1.operate op).map fun r =>
    ((r.1, match op, r.2 with
      | .remove_next, .item ev => ev.key.ts
      | _, _ => q.2), r.2)

/-- The scheduler before its first event, for either value of the attribute `Reverse`. -/
def Fresh (s : (CalendarScheduler × UInt64) × Multiset Event) : Prop := ∃ reverse, s = ((init reverse, 0), 0)

/-- The use of the scheduler: distinct keys, no event before the last one returned, and times
that a `Time` can have. -/
def Usual (s : (CalendarScheduler × UInt64) × Multiset Event) : Operation Event → Prop
  | .insert ev => (∀ b ∈ s.2, b.order ≠ ev.order) ∧ s.1.2 ≤ ev.key.ts ∧ ev.key.ts.toNat < 2 ^ 63
  | op => Legal Event.order s.2 op

instance (s : (CalendarScheduler × UInt64) × Multiset Event) : (op : Operation Event) → Decidable (Usual s op)
  | .insert ev => inferInstanceAs (Decidable ((∀ b ∈ s.2, b.order ≠ ev.order) ∧ s.1.2 ≤ ev.key.ts ∧ _))
  | .remove ev => inferInstanceAs (Decidable (ev ∈ s.2))
  | .remove_next | .peek_next => inferInstanceAs (Decidable (s.2 ≠ 0))
  | .is_empty => inferInstanceAs (Decidable True)

/-- What the scheduler needs besides: a removed event is the only one with its identifier, and
the count of events fits in 32 bits. -/
def Countable (m : Multiset Event) : Operation Event → Prop
  | .insert _ => m.card + 1 < 2 ^ 32
  | .remove ev => ∀ b ∈ m, b.key.uid = ev.key.uid → b = ev
  | _ => True

instance (m : Multiset Event) : (op : Operation Event) → Decidable (Countable m op)
  | .insert _ => inferInstanceAs (Decidable (m.card + 1 < 2 ^ 32))
  | .remove ev => inferInstanceAs (Decidable (∀ b ∈ m, b.key.uid = ev.key.uid → b = ev))
  | .remove_next | .peek_next | .is_empty => inferInstanceAs (Decidable True)

theorem fresh_holds (reverse : Bool) : (init reverse).Holds 0 ∧ (init reverse).last_prio = 0 := by
  have hnone : (init reverse).contents = 0 := Finset.sum_eq_zero fun i _ => rfl
  have hbuckets : (init reverse).n_buckets.toNat = 2 := rfl
  have hwidth : (init reverse).width.toNat = 1 := rfl
  refine ⟨⟨⟨by omega, by omega, by omega, fun i _ ev hev => absurd hev List.not_mem_nil,
    fun i _ => List.Pairwise.nil⟩, ⟨rfl, rfl, fun ev hev => ?_, fun ev hev => ?_⟩, hnone, rfl⟩, rfl⟩
  · rw [hnone] at hev
    exact absurd hev (Multiset.notMem_zero ev)
  · rw [hnone] at hev
    exact absurd hev (Multiset.notMem_zero ev)

theorem timed_operate_spec {q : CalendarScheduler × UInt64} {m : Multiset Event} {op : Operation Event}
    (h : q.1.Holds m) (hlast : q.1.last_prio = q.2) (hfew : m.card < 2 ^ 32) (husual : Usual (q, m) op)
    (hcountable : Countable m op) :
    ∃ r, timed_operate q op = some r ∧ Answers Event.order m op r.2 ∧
      r.1.1.Holds (PriorityQueue.after m op r.2) ∧ r.1.1.last_prio = r.1.2 ∧
        (PriorityQueue.after m op r.2).card < 2 ^ 32 := by
  obtain ⟨c, last⟩ := q
  obtain rfl : c.last_prio = last := hlast
  cases op with
  | insert ev =>
    obtain ⟨_, hlate, hbound⟩ := husual
    obtain ⟨c', hinsert, hholds, hprio⟩ := insert_spec h (UInt64.le_iff_toNat_le.mp hlate) hbound
    refine ⟨((c', c.last_prio), .done), by simp only [timed_operate, operate, hinsert]; rfl, rfl, hholds, hprio, ?_⟩
    rw [PriorityQueue.after, Multiset.card_cons]
    exact hcountable
  | remove ev =>
    obtain ⟨c', hremove, hholds, hprio⟩ := remove_spec h hfew husual hcountable
    refine ⟨((c', c.last_prio), .done), by simp only [timed_operate, operate, hremove]; rfl, rfl, hholds, hprio, ?_⟩
    exact (Multiset.card_le_card (Multiset.erase_le ev m)).trans_lt hfew
  | remove_next =>
    obtain ⟨next, c', hremove, hleast, hholds, hprio⟩ := remove_next_spec h hfew husual
    refine ⟨((c', next.key.ts), .item next), by simp only [timed_operate, operate, hremove]; rfl, ⟨next, rfl, hleast⟩,
      hholds, hprio, ?_⟩
    exact (Multiset.card_le_card (Multiset.erase_le next m)).trans_lt hfew
  | peek_next =>
    have hcount : c.is_empty = false :=
      Bool.eq_false_iff.mpr fun hempty => husual ((is_empty_iff h hfew).mp hempty)
    obtain ⟨next, hpeek, hleast⟩ := peek_next_spec h.arranged h.positioned hcount (h.contents ▸ husual)
    rw [h.contents] at hleast
    exact ⟨((c, c.last_prio), .item next), by simp only [timed_operate, operate, hpeek]; rfl, ⟨next, rfl, hleast⟩, h,
      rfl, hfew⟩
  | is_empty => exact ⟨((c, c.last_prio), .flag c.is_empty), rfl, ⟨_, rfl, is_empty_iff h hfew⟩, h, rfl, hfew⟩

/-- In every run, for either order of the buckets, the calendar serves every operation as a
priority queue that holds what has been inserted and not been removed, and counts it. -/
theorem calendar_scheduler_serves {s : (CalendarScheduler × UInt64) × Multiset Event}
    (hrun : Reachable Fresh (PriorityQueue.step timed_operate) (fun s op => Usual s op ∧ Countable s.2 op) s) :
    s.1.1.contents = s.2 ∧ s.1.1.q_size.toNat = s.2.card ∧
      ∀ op, Usual s op ∧ Countable s.2 op → Serves Event.order timed_operate s op := by
  have hinit : ∀ s : (CalendarScheduler × UInt64) × Multiset Event, Fresh s →
      s.1.1.Holds s.2 ∧ s.1.1.last_prio = s.1.2 ∧ s.2.card < 2 ^ 32 := by
    rintro s ⟨reverse, rfl⟩
    obtain ⟨hholds, hprio⟩ := fresh_holds reverse
    exact ⟨hholds, hprio, by simp⟩
  obtain ⟨⟨hholds, _, hfew⟩, hserves⟩ := PriorityQueue.serves_of_simulation
    (R := fun q m => q.1.Holds m ∧ q.1.last_prio = q.2 ∧ m.card < 2 ^ 32) hinit
    (fun q m op hr hcond => timed_operate_spec hr.1 hr.2.1 hr.2.2 hcond.1 hcond.2) hrun
  refine ⟨hholds.contents, ?_, hserves⟩
  rw [hholds.q_size, UInt32.toNat_ofNat_of_lt' hfew]

namespace Sample

def event (ts : UInt64) (uid : UInt32) : Event := ⟨0, ⟨ts, uid, 0⟩⟩

def resized : List (Operation Event) :=
  [.insert (event 3 4), .insert (event 9223372036854775807 5), .insert (event 0 6), .insert (event 7 7),
    .insert (event 5 8), .remove_next, .remove (event 7 7), .remove_next, .insert (event 4 9), .peek_next]

theorem fresh : Fresh ((init true, 0), 0) := ⟨true, rfl⟩

end Sample

theorem calendar_scheduler_serves_sample : ∃ s : (CalendarScheduler × UInt64) × Multiset Event,
    Reachable Fresh (PriorityQueue.step timed_operate) (fun s op => Usual s op ∧ Countable s.2 op) s ∧
      s.1.1.contents = s.2 ∧ s.1.1.q_size.toNat = s.2.card ∧
        ∀ op, Usual s op ∧ Countable s.2 op → Serves Event.order timed_operate s op := by
  obtain ⟨s, hs⟩ := Option.isSome_iff_exists.mp
    (show (Transition.execute (PriorityQueue.step timed_operate) (fun s op => Usual s op ∧ Countable s.2 op)
      ((init true, 0), 0) Sample.resized).isSome = true by decide +kernel)
  have hrun := (Reachable.init Sample.fresh).execute hs
  exact ⟨s, hrun, calendar_scheduler_serves hrun⟩

section Count

def row (n : ℕ) : Multiset Event := (Multiset.range n).map fun i => Sample.event (UInt64.ofNat i) 0

theorem row_reachable {n : ℕ} (hn : n ≤ 2 ^ 32) : ∃ c : CalendarScheduler,
    Reachable Fresh (PriorityQueue.step timed_operate) Usual ((c, 0), row n) ∧ c.Holds (row n) ∧ c.last_prio = 0 := by
  induction n with
  | zero =>
    obtain ⟨hholds, hprio⟩ := fresh_holds true
    exact ⟨init true, .init Sample.fresh, hholds, hprio⟩
  | succ n ih =>
    obtain ⟨c, hreach, hholds, hprio⟩ := ih (by omega)
    have hts : ∀ i ≤ n, (UInt64.ofNat i).toNat = i := fun i hi =>
      UInt64.toNat_ofNat_of_lt' (by rw [UInt64.size]; omega)
    have hrow : row (n + 1) = Sample.event (UInt64.ofNat n) 0 ::ₘ row n := by
      rw [row, Multiset.range_succ, Multiset.map_cons, row]
    have hlate : c.last_prio.toNat ≤ (Sample.event (UInt64.ofNat n) 0).key.ts.toNat := by
      rw [hprio]
      exact Nat.zero_le _
    have hbound : (Sample.event (UInt64.ofNat n) 0).key.ts.toNat < 2 ^ 63 := by
      show (UInt64.ofNat n).toNat < 2 ^ 63
      rw [hts n le_rfl]
      omega
    obtain ⟨c', hinsert, hholds', hprio'⟩ := insert_spec hholds hlate hbound
    refine ⟨c', hreach.step (e := .insert (Sample.event (UInt64.ofNat n) 0)) ⟨?_, UInt64.zero_le, hbound⟩ ?_,
      hrow ▸ hholds', hprio'.trans hprio⟩
    · intro b hb heq
      have hmem : b ∈ row n := hb
      obtain ⟨i, hi, rfl⟩ := Multiset.mem_map.mp hmem
      have hi := Multiset.mem_range.mp hi
      have htime : (UInt64.ofNat i).toNat = (UInt64.ofNat n).toNat := congrArg (fun o => (ofLex o).1) heq
      rw [hts i hi.le, hts n le_rfl] at htime
      omega
    · simp only [PriorityQueue.step, timed_operate, operate, hinsert, hrow]
      rfl

end Count

/-- Of two events in one bucket with one identifier the wrong one may be found, and the count
of 2 ^ 32 events is that of none. -/
theorem calendar_scheduler_miscounts :
    (∃ s ev, Reachable Fresh (PriorityQueue.step timed_operate) Usual s ∧ Usual s (.remove ev) ∧
      ¬ Serves Event.order timed_operate s (.remove ev)) ∧
    ∃ s, Reachable Fresh (PriorityQueue.step timed_operate) Usual s ∧
      ¬ Serves Event.order timed_operate s .is_empty := by
  constructor
  · have hrun : (Transition.execute (PriorityQueue.step timed_operate) Usual ((init false, 0), 0)
        [.insert ⟨1, ⟨0, 4, 0⟩⟩, .insert ⟨2, ⟨2, 4, 0⟩⟩]).map (fun s =>
          (decide (Usual s (.remove ⟨2, ⟨2, 4, 0⟩⟩)), (timed_operate s.1 (.remove ⟨2, ⟨2, 4, 0⟩⟩)).isSome)) =
        some (true, false) := by decide +kernel
    obtain ⟨s, hs, hfacts⟩ := Option.map_eq_some_iff.mp hrun
    simp only [Prod.mk.injEq, decide_eq_true_eq] at hfacts
    refine ⟨s, ⟨2, ⟨2, 4, 0⟩⟩, (Reachable.init ⟨false, rfl⟩).execute hs, hfacts.1, ?_⟩
    rintro ⟨r, hr, _⟩
    rw [hr] at hfacts
    cases hfacts.2
  · obtain ⟨c, hreach, hholds, _⟩ := row_reachable (n := 2 ^ 32) le_rfl
    refine ⟨_, hreach, ?_⟩
    rintro ⟨r, hr, b, hb, hiff⟩
    have hcard : (row (2 ^ 32)).card = 2 ^ 32 := by rw [row, Multiset.card_map, Multiset.card_range]
    have hempty : c.is_empty = true := by
      rw [is_empty, beq_iff_eq, hholds.q_size, hcard]
      rfl
    cases hr
    cases hb
    have hnone := hiff.mp hempty
    simp only at hnone
    rw [hnone, Multiset.card_zero] at hcard
    cases hcard

end Ns3.CalendarScheduler
