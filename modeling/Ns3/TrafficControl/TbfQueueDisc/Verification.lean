import Ns3.Core.Int64x64.Invert
import Ns3.Foundation.TokenBucket
import Ns3.TrafficControl.TbfQueueDisc

namespace Ns3

namespace DataRate

open Int64x64

theorem toInt_bps (r : DataRate) (hr : r.bps ≠ 0) :
    r.bps.toBitVec.toInt ≠ 0 ∧ -2 ^ 63 ≤ r.bps.toBitVec.toInt ∧ r.bps.toBitVec.toInt < 2 ^ 63 ∧
      (0 < r.bps.toBitVec.toInt → r.bps.toBitVec.toInt = r.bps.toNat) ∧
      (r.bps.toNat < 2 ^ 63 → r.bps.toBitVec.toInt = r.bps.toNat) := by
  have hcond := BitVec.toInt_eq_toNat_cond r.bps.toBitVec
  have hnat : r.bps.toBitVec.toNat = r.bps.toNat := rfl
  have hpos : r.bps.toNat ≠ 0 := fun h => hr (UInt64.toNat_inj.mp h)
  have hlt := r.bps.toNat_lt
  rw [hnat] at hcond
  norm_num only at hcond hlt ⊢
  split at hcond <;> omega

theorem div_bits (r : DataRate) (hr : r.bps ≠ 0) (bits : UInt32) :
    ∃ c, Int64x64.div (DIGITS + 1) (of_long (bits.toBitVec.setWidth 64)) (of_long r.bps.toBitVec) = some c ∧
      val c = (bits.toNat * 2 ^ 64 : ℤ).tdiv r.bps.toBitVec.toInt ∧ (val c).natAbs < 2 ^ 96 := by
  obtain ⟨hne, -⟩ := toInt_bps r hr
  have hquotient : ((bits.toNat * 2 ^ 64 : ℤ).tdiv r.bps.toBitVec.toInt).natAbs < 2 ^ 96 := by
    have hlt := bits.toNat_lt
    calc ((bits.toNat * 2 ^ 64 : ℤ).tdiv r.bps.toBitVec.toInt).natAbs
        = bits.toNat * 2 ^ 64 / r.bps.toBitVec.toInt.natAbs := by
          rw [Int.natAbs_tdiv, Int.natAbs_mul, Int.natAbs_natCast]
          rfl
      _ ≤ bits.toNat * 2 ^ 64 := Nat.div_le_self _ _
      _ < 2 ^ 96 := by
          norm_num only at hlt ⊢
          omega
  have hbits : val (of_long (bits.toBitVec.setWidth 64)) = bits.toNat * 2 ^ 64 := by
    have hlt := bits.toNat_lt
    have hnat : (bits.toBitVec.setWidth 64).toNat = bits.toNat := by
      rw [BitVec.toNat_setWidth]
      exact Nat.mod_eq_of_lt (by change bits.toNat < _; norm_num only at hlt ⊢; omega)
    rw [val_of_word, BitVec.toInt_eq_toNat_of_lt (by rw [hnat]; norm_num only at hlt ⊢; omega), hnat]
  have hvalue : (val (of_long (bits.toBitVec.setWidth 64)) * 2 ^ 64).tdiv (val (of_long r.bps.toBitVec)) =
      (bits.toNat * 2 ^ 64 : ℤ).tdiv r.bps.toBitVec.toInt := by
    rw [hbits, val_of_word]
    exact Int.mul_tdiv_mul_of_pos_left _ _ (by norm_num)
  have hnonzero : (of_long r.bps.toBitVec).v ≠ 0 := by
    intro hzero
    have hval := val_of_word r.bps.toBitVec
    rw [val, hzero] at hval
    rw [show (0 : BitVec 128).toInt = 0 from rfl] at hval
    norm_num only at hval
    omega
  have hfits : Fits ((bits.toNat * 2 ^ 64 : ℤ).tdiv r.bps.toBitVec.toInt) := by
    unfold Fits
    norm_num only at hquotient ⊢
    omega
  obtain ⟨c, hc, hval⟩ := div_right hnonzero (by rw [hvalue]; exact hfits) (DIGITS + 1) (Nat.lt_succ_self _)
  rw [hvalue] at hval
  exact ⟨c, hc, hval, by rw [hval]; exact hquotient⟩

theorem mul_nanoseconds {c : Int64x64} (h : (val c).natAbs < 2 ^ 96) :
    ∃ m, c.mul (of_long 1000000000) = some m ∧ val m = val c * 1000000000 := by
  have hfactor : val (of_long 1000000000) = 1000000000 * 2 ^ 64 := val_of_word 1000000000
  have hproduct : (val c * val (of_long 1000000000)).tdiv (2 ^ 64) = val c * 1000000000 := by
    rw [hfactor, ← mul_assoc]
    exact Int.mul_tdiv_cancel _ (by norm_num)
  have hfits : Fits ((val c * val (of_long 1000000000)).tdiv (2 ^ 64)) := by
    rw [hproduct]
    unfold Fits
    norm_num only at h ⊢
    omega
  obtain ⟨habort, hval⟩ := ((exact_iff c (of_long 1000000000)).mpr hfits).1
  cases hmul : c.mul (of_long 1000000000) with
  | none => exact absurd hfits (habort.mp hmul)
  | some m => exact ⟨m, rfl, (hval m hmul).trans hproduct⟩

/-- The time to send some bits is at most half a tick longer than at the rate. A rate that is read as
a negative number gives no positive time. -/
theorem calculate_bits_tx_time_spec (r : DataRate) (hr : r.bps ≠ 0) (bits : UInt32) :
    ∃ d, r.calculate_bits_tx_time bits = some d ∧
      (d : ℚ) ≤ bits.toNat * 10 ^ 9 / r.bps.toNat + 1 / 2 ∧ (r.bps.toNat < 2 ^ 63 → 0 ≤ d) := by
  obtain ⟨c, hc, hval, hsmall⟩ := div_bits r hr bits
  obtain ⟨m, hm, hmval⟩ := mul_nanoseconds hsmall
  obtain ⟨hne, -, -, hpos, hread⟩ := toInt_bps r hr
  have hround := toInt_round (x := m) (by rw [hmval]; norm_num only at hsmall ⊢; omega)
  refine ⟨m.round.toInt, ?_, ?_, ?_⟩
  · rw [calculate_bits_tx_time, hc, Option.bind_some, hm, Option.map_some]
  · have hnonneg : (0 : ℚ) ≤ bits.toNat * 10 ^ 9 / r.bps.toNat := by positivity
    rcases le_or_gt (val m) 0 with hle | hgt
    · -- the rate was read as a negative number, or there are no bits
      have hround_le : m.round.toInt ≤ 0 := by
        rw [hround]
        split <;> norm_num only <;> omega
      have hcast : (m.round.toInt : ℚ) ≤ 0 := by exact_mod_cast hround_le
      linarith
    · rw [if_neg (by omega)] at hround
      have hrate : 0 < r.bps.toBitVec.toInt := by
        by_contra hneg
        have hquotient : (bits.toNat * 2 ^ 64 : ℤ).tdiv r.bps.toBitVec.toInt ≤ 0 :=
          Int.tdiv_nonpos_of_nonneg_of_nonpos (by positivity) (by omega)
        rw [hmval, hval] at hgt
        omega
      have hrateval := hpos hrate
      have hposrate : (0 : ℚ) < r.bps.toNat := by exact_mod_cast hrateval ▸ hrate
      have hdown : val c * r.bps.toNat ≤ bits.toNat * 2 ^ 64 := by
        rw [hval, ← hrateval, mul_comm]
        exact Int.mul_tdiv_self_le (by positivity)
      have hticks : m.round.toInt * 2 ^ 64 ≤ val m + 2 ^ 63 := by
        rw [hround]
        exact Int.ediv_mul_le _ (by norm_num)
      have hdownQ : (val c : ℚ) * r.bps.toNat ≤ bits.toNat * 2 ^ 64 := by exact_mod_cast hdown
      have hticksQ : (m.round.toInt : ℚ) * 2 ^ 64 ≤ val c * 1000000000 + 2 ^ 63 := by
        rw [hmval] at hticks
        exact_mod_cast hticks
      have hquotient : (val c : ℚ) ≤ bits.toNat * 2 ^ 64 / r.bps.toNat := (le_div_iff₀ hposrate).mpr hdownQ
      calc (m.round.toInt : ℚ) ≤ (val c * 1000000000 + 2 ^ 63) / 2 ^ 64 := (le_div_iff₀ (by norm_num)).mpr hticksQ
        _ ≤ (bits.toNat * 2 ^ 64 / r.bps.toNat * 1000000000 + 2 ^ 63) / 2 ^ 64 := by gcongr
        _ = bits.toNat * 10 ^ 9 / r.bps.toNat + 1 / 2 := by ring
  · intro hlt
    have hquotient : 0 ≤ val c := by
      rw [hval, hread hlt]
      exact Int.tdiv_nonneg (by positivity) (by positivity)
    rw [hround, if_neg (by omega)]
    exact Int.ediv_nonneg (by omega) (by norm_num)

end DataRate

namespace TrafficControl

/-- The packet that `Peek` shows stands in front of the queue disc until `Dequeue` returns it. -/
structure Overrides.HeadKept {σ : Type} (o : Overrides σ) (Front : QueueDisc σ → Option QueueDiscItem → Prop) : Prop where
  fresh : ∀ q, q.requeued = none → Front q none
  peek : ∀ q front now shown q₁ events, Front q front → o.peek q now = some (shown, q₁, events) →
    Front q₁ shown ∧ ∀ x, front = some x → shown = some x
  enqueue : ∀ q front now item q₁ events, Front q front → o.enqueue q now item = some (q₁, events) → Front q₁ front
  dequeue : ∀ q x now served q₁ events, Front q (some x) → o.dequeue q now = some (served, q₁, events) →
    Front q₁ none ∧ ∃ y, served = some y ∧ y.size = x.size

def Overrides.KeepsHead {σ : Type} (o : Overrides σ) : Prop := ∃ Front, o.HeadKept Front

theorem Overrides.keepsHead_of_base {σ : Type} {o : Overrides σ} (hpeek : o.do_peek = none) : o.KeepsHead := by
  refine ⟨fun q front => q.requeued.map (·.1) = front, ⟨?_, ?_, ?_, ?_⟩⟩
  · intro q hq
    rw [hq]
    rfl
  · intro q front now shown q₁ events hfront h
    cases hrequeued : q.requeued with
    | some x =>
      rw [peek_of_requeued hpeek hrequeued] at h
      cases h
      rw [← hfront, hrequeued]
      exact ⟨rfl, fun y hy => hy⟩
    | none =>
      rw [peek_of_none hpeek hrequeued] at h
      obtain ⟨d, -, heq⟩ := Option.map_eq_some_iff.mp h
      cases heq
      rw [← hfront, hrequeued]
      exact ⟨by cases d.1 <;> rfl, nofun⟩
  · intro q front now item q₁ events hfront h
    obtain ⟨d, -, heq⟩ := Option.map_eq_some_iff.mp h
    cases heq
    exact hfront
  · intro q x now served q₁ events hfront h
    obtain ⟨y, hy, rfl⟩ := Option.map_eq_some_iff.mp hfront
    rw [dequeue_of_requeued hy] at h
    cases h
    exact ⟨rfl, y.1, rfl, rfl⟩

theorem CoDelQueueDisc.keepsHead : overrides.KeepsHead := Overrides.keepsHead_of_base rfl

theorem FqCoDelQueueDisc.keepsHead (n : ℕ) : (overrides n).KeepsHead := Overrides.keepsHead_of_base rfl

theorem FifoQueueDisc.keepsHead : overrides.KeepsHead := by
  refine ⟨fun q front => q.requeued = none ∧ ∀ x, front = some x → q.disc.packets.head? = some x, ⟨?_, ?_, ?_, ?_⟩⟩
  · exact fun q hq => ⟨hq, nofun⟩
  · intro q front now shown q₁ events hfront h
    cases h
    exact ⟨⟨hfront.1, fun _ hx => hx⟩, hfront.2⟩
  · intro q front now item q₁ events hfront h
    cases h
    refine ⟨hfront.1, fun x hx => ?_⟩
    have hhead := hfront.2 x hx
    dsimp only
    split
    · exact hhead
    · dsimp only
      rw [List.head?_append, hhead]
      rfl
  · intro q x now served q₁ events hfront h
    rw [Overrides.dequeue_of_none hfront.1] at h
    cases h
    exact ⟨⟨hfront.1, nofun⟩, x, hfront.2 x rfl, rfl⟩

namespace TbfQueueDisc

open Transition

theorem round_le {x : ℚ} (h : 0 ≤ x) : (round x : ℚ) ≤ x + 1 / 2 := by
  rw [round, if_pos h]
  exact Int.floor_le _

theorem lt_round {x : ℚ} (h : 0 ≤ x) : x - 1 / 2 < round x := by
  rw [round, if_pos h]
  have := Int.lt_floor_add_one (x + 1 / 2)
  linarith

theorem get_seconds_nonneg {t : Time} (h : 0 ≤ t) : 0 ≤ get_seconds t := by
  rw [get_seconds]
  positivity

theorem get_seconds_sub (t u : Time) : get_seconds (t - u) = get_seconds t - get_seconds u := by
  rw [get_seconds, get_seconds, get_seconds, Int.cast_sub]
  ring

theorem get_seconds_le {t u : Time} (h : t ≤ u) : get_seconds t ≤ get_seconds u := by
  rw [get_seconds, get_seconds]
  gcongr

theorem whole_bytes_le (r : DataRate) : ((r.get_bit_rate / 8).toNat : ℚ) ≤ r.bps.toNat / 8 := by
  rw [UInt64.toNat_div]
  exact Nat.cast_div_le

theorem toks_eq {tokens t : ℤ} {rate : DataRate} {limit pktSize : UInt32} {delta : ℚ}
    (h : toks tokens rate limit delta pktSize = some t) :
    t + pktSize.toNat = min (tokens + round (delta * (rate.get_bit_rate / 8).toNat)) limit.toNat := by
  obtain ⟨x, hx, rfl⟩ := Option.map_eq_some_iff.mp h
  unfold to_int64 at hx
  split at hx
  · cases hx
    split <;> omega
  · cases hx

theorem toks_le {tokens t : ℤ} {rate : DataRate} {limit pktSize : UInt32} {delta : ℚ} (hdelta : 0 ≤ delta)
    (h : toks tokens rate limit delta pktSize = some t) :
    (pktSize.toNat + t : ℚ) ≤ limit.toNat ∧ (pktSize.toNat + t : ℚ) ≤ tokens + rate.bps.toNat / 8 * delta + 1 / 2 := by
  have heq := toks_eq h
  have hlimit : t + pktSize.toNat ≤ limit.toNat := heq ▸ min_le_right _ _
  have hearned : t + pktSize.toNat ≤ tokens + round (delta * (rate.get_bit_rate / 8).toNat) := heq ▸ min_le_left _ _
  have hround := round_le (x := delta * (rate.get_bit_rate / 8).toNat) (by positivity)
  have hbytes := mul_le_mul_of_nonneg_left (whole_bytes_le rate) hdelta
  have hlimitQ : (t : ℚ) + pktSize.toNat ≤ limit.toNat := by exact_mod_cast hlimit
  have hearnedQ : (t : ℚ) + pktSize.toNat ≤ tokens + round (delta * (rate.get_bit_rate / 8).toNat) := by
    exact_mod_cast hearned
  constructor <;> linarith

theorem toks_gain {tokens t t' : ℤ} {rate : DataRate} {limit pktSize : UInt32} {delta delta' : ℚ} (hdelta : 0 ≤ delta)
    (hle : delta ≤ delta') (h : toks tokens rate limit delta pktSize = some t)
    (h' : toks tokens rate limit delta' pktSize = some t') :
    (t' : ℚ) ≤ t + rate.bps.toNat / 8 * (delta' - delta) + 1 := by
  have heq := toks_eq h
  have heq' := toks_eq h'
  have hlow := lt_round (x := delta * (rate.get_bit_rate / 8).toNat) (by positivity)
  have hdelta' : 0 ≤ delta' := hdelta.trans hle
  have hhigh := round_le (x := delta' * (rate.get_bit_rate / 8).toNat) (by positivity)
  have hbytes := mul_le_mul_of_nonneg_left (whole_bytes_le rate) (sub_nonneg.mpr hle)
  have hnonneg : (0 : ℚ) ≤ rate.bps.toNat / 8 * (delta' - delta) := mul_nonneg (by positivity) (sub_nonneg.mpr hle)
  have hlimit : t' + pktSize.toNat ≤ limit.toNat := heq' ▸ min_le_right _ _
  have hearned : t' + pktSize.toNat ≤ tokens + round (delta' * (rate.get_bit_rate / 8).toNat) := heq' ▸ min_le_left _ _
  have hlimitQ : (t' : ℚ) + pktSize.toNat ≤ limit.toNat := by exact_mod_cast hlimit
  have hearnedQ : (t' : ℚ) + pktSize.toNat ≤ tokens + round (delta' * (rate.get_bit_rate / 8).toNat) := by
    exact_mod_cast hearned
  rcases min_choice (tokens + round (delta * (rate.get_bit_rate / 8).toNat)) (limit.toNat : ℤ) with hmin | hmin
  · rw [hmin] at heq
    have heqQ : (t : ℚ) + pktSize.toNat = tokens + round (delta * (rate.get_bit_rate / 8).toNat) := by
      exact_mod_cast heq
    linarith
  · rw [hmin] at heq
    have heqQ : (t : ℚ) + pktSize.toNat = limit.toNat := by exact_mod_cast heq
    linarith

variable {σ : Type} {o : Overrides σ} {a : Attributes}

theorem both_toks_cases {s : TbfQueueDisc σ} {now : Time} {pktSize : UInt32} {btoks ptoks : ℤ}
    (h : both_toks a s now pktSize = some (btoks, ptoks)) :
    toks s.btokens a.rate a.burst (get_seconds (now - s.time_check_point)) pktSize = some btoks ∧
      (a.peak_rate.bps ≠ 0 →
        toks s.ptokens a.peak_rate a.mtu (get_seconds (now - s.time_check_point)) pktSize = some ptoks) ∧
      (a.peak_rate.bps = 0 → ptoks = 0) := by
  obtain ⟨p, hp, hrest⟩ := Option.bind_eq_some_iff.mp h
  obtain ⟨b, hb, heq⟩ := Option.map_eq_some_iff.mp hrest
  cases heq
  refine ⟨hb, fun hpeak => ?_, fun hpeak => ?_⟩
  · rwa [if_pos (show a.peak_rate.get_bit_rate > 0 from UInt64.pos_iff_ne_zero.mpr hpeak)] at hp
  · rw [DataRate.get_bit_rate, hpeak, if_neg (by decide)] at hp
    exact (Option.some.inj hp).symm

/-- What `DoDequeue` can do: it finds no packet, it loses the packet it has found, it returns a packet,
or the packet it has found is blocked. -/
inductive Attempt (o : Overrides σ) (a : Attributes) (s : TbfQueueDisc σ) (now : Time) :
    Option QueueDiscItem → TbfQueueDisc σ → Prop
  | empty {child : QueueDisc σ} {events : List QueueDiscEvent} (hpeek : o.peek s.child now = some (none, child, events)) :
      Attempt o a s now none { s with child }
  | lost {head : QueueDiscItem} {child child' : QueueDisc σ} {events events' : List QueueDiscEvent} {btoks ptoks : ℤ}
      (hpeek : o.peek s.child now = some (some head, child, events))
      (htoks : both_toks a s now head.size = some (btoks, ptoks)) (hb : 0 ≤ btoks) (hp : 0 ≤ ptoks)
      (hdequeue : o.dequeue child now = some (none, child', events')) :
      Attempt o a s now none { s with child := child' }
  | served {head item : QueueDiscItem} {child child' : QueueDisc σ} {events events' : List QueueDiscEvent} {btoks ptoks : ℤ}
      (hpeek : o.peek s.child now = some (some head, child, events))
      (htoks : both_toks a s now head.size = some (btoks, ptoks)) (hb : 0 ≤ btoks) (hp : 0 ≤ ptoks)
      (hdequeue : o.dequeue child now = some (some item, child', events')) :
      Attempt o a s now (some item)
        { s with
          child := child', time_check_point := now, btokens := btoks % 2 ^ 32, ptokens := ptoks % 2 ^ 32 }
  | waits {head : QueueDiscItem} {child : QueueDisc σ} {events : List QueueDiscEvent} {btoks ptoks : ℤ} {w : Time}
      (hpeek : o.peek s.child now = some (some head, child, events))
      (htoks : both_toks a s now head.size = some (btoks, ptoks)) (hshort : ¬ (0 ≤ btoks ∧ 0 ≤ ptoks))
      (hid : s.id = some w) : Attempt o a s now none { s with child }
  | arms {head : QueueDiscItem} {child : QueueDisc σ} {events : List QueueDiscEvent} {btoks ptoks : ℤ} {d : Time}
      (hpeek : o.peek s.child now = some (some head, child, events))
      (htoks : both_toks a s now head.size = some (btoks, ptoks)) (hshort : ¬ (0 ≤ btoks ∧ 0 ≤ ptoks))
      (hid : s.id = none) (hdelay : required_delay_time a btoks ptoks = some d) :
      Attempt o a s now none { s with child, id := some (now + d) }

theorem attempt_of_do_dequeue {s s' : TbfQueueDisc σ} {now : Time} {r : Option QueueDiscItem}
    (h : do_dequeue o a s now = some (r, s')) : Attempt o a s now r s' := by
  obtain ⟨⟨shown, child, events⟩, hpeek, hrest⟩ := Option.bind_eq_some_iff.mp h
  cases shown with
  | none =>
    cases hrest
    exact .empty hpeek
  | some head =>
    obtain ⟨⟨btoks, ptoks⟩, htoks, hattempt⟩ := Option.bind_eq_some_iff.mp hrest
    dsimp only at hattempt
    split at hattempt
    next henough =>
      obtain ⟨⟨served, child', events'⟩, hdequeue, heq⟩ := Option.map_eq_some_iff.mp hattempt
      cases served with
      | none =>
        cases heq
        exact .lost hpeek htoks henough.1 henough.2 hdequeue
      | some item =>
        cases heq
        exact .served hpeek htoks henough.1 henough.2 hdequeue
    next hshort =>
      cases hid : s.id with
      | some w =>
        rw [hid] at hattempt
        cases hattempt
        rw [← hid]
        exact .waits hpeek htoks hshort hid
      | none =>
        rw [hid] at hattempt
        obtain ⟨d, hdelay, heq⟩ := Option.map_eq_some_iff.mp hattempt
        cases heq
        exact .arms hpeek htoks hshort hid hdelay

/-- The nanoseconds in which missing tokens are earned at a rate; none without the rate. -/
def earn_time (rate : DataRate) (missing : ℤ) : ℚ := max missing 0 * 8 * 10 ^ 9 / rate.bps.toNat

/-- The time needed at the configured rates to earn the missing tokens. -/
def time_needed (a : Attributes) (btoks ptoks : ℤ) : ℚ :=
  max (earn_time a.rate (-btoks)) (earn_time a.peak_rate (-ptoks))

/-- The time to earn a byte at the slower one of the rates. -/
def byte_time (a : Attributes) : ℚ := max (earn_time a.rate 1) (earn_time a.peak_rate 1)

theorem earn_time_nonneg (rate : DataRate) (missing : ℤ) : 0 ≤ earn_time rate missing := by
  unfold earn_time
  positivity

theorem earn_time_of_nonpos (rate : DataRate) {missing : ℤ} (h : missing ≤ 0) : earn_time rate missing = 0 := by
  rw [earn_time, max_eq_right h]
  simp

theorem calculate_bytes_tx_time_le {r : DataRate} (hr : r.bps ≠ 0) (missing : ℤ) :
    ∃ d, r.calculate_bytes_tx_time (.ofNat missing.toNat) = some d ∧
      (d : ℚ) ≤ earn_time r missing + 1 / 2 ∧ (r.bps.toNat < 2 ^ 63 → 0 ≤ d) := by
  obtain ⟨d, hd, hle, hnonneg⟩ := r.calculate_bits_tx_time_spec hr (.ofNat missing.toNat * 8)
  refine ⟨d, hd, hle.trans ?_, hnonneg⟩
  have hbits : (UInt32.ofNat missing.toNat * 8).toNat ≤ (max missing 0).toNat * 8 := by
    rw [UInt32.toNat_mul, UInt32.toNat_ofNat']
    refine (Nat.mod_le _ _).trans (Nat.mul_le_mul ?_ (by decide))
    exact (Nat.mod_le _ _).trans (by omega)
  have hbitsQ : ((UInt32.ofNat missing.toNat * 8).toNat : ℚ) ≤ (max missing 0 : ℤ) * 8 := by
    have hcast : ((max missing 0).toNat : ℤ) = max missing 0 := Int.toNat_of_nonneg (le_max_right _ _)
    rw [← hcast]
    exact_mod_cast hbits
  rw [earn_time]
  gcongr

theorem required_delay_time_le {btoks ptoks : ℤ} {d : Time} (h : required_delay_time a btoks ptoks = some d) :
    0 ≤ d ∧ (d : ℚ) ≤ time_needed a btoks ptoks + 1 / 2 ∧ a.rate.bps ≠ 0 := by
  unfold required_delay_time at h
  dsimp only at h
  split at h
  · cases h
  next hrate =>
    obtain ⟨d₁, hd₁, hle₁, -⟩ := calculate_bytes_tx_time_le (r := a.rate) hrate (-btoks)
    obtain ⟨hdelay, hnonneg⟩ := Option.filter_eq_some_iff.mp h
    have hleft : earn_time a.rate (-btoks) ≤ time_needed a btoks ptoks := le_max_left _ _
    have hright : earn_time a.peak_rate (-ptoks) ≤ time_needed a btoks ptoks := le_max_right _ _
    refine ⟨of_decide_eq_true hnonneg, ?_, hrate⟩
    rw [hd₁] at hdelay
    split at hdelay
    · split at hdelay
      · cases hdelay
        linarith
      · cases hdelay
    next hpeak =>
      obtain ⟨d₂, hd₂, hle₂, -⟩ := calculate_bytes_tx_time_le (r := a.peak_rate) hpeak (-ptoks)
      rw [hd₂] at hdelay
      split at hdelay
      · cases hdelay
        linarith
      · split at hdelay
        · cases hdelay
          linarith
        · cases hdelay
          rw [Int.cast_max]
          exact max_le (by linarith) (by linarith)

theorem required_delay_time_isSome {btoks ptoks : ℤ} (hrate : a.rate.bps ≠ 0) (hlt : a.rate.bps.toNat < 2 ^ 63)
    (hpeak : a.peak_rate.bps.toNat < 2 ^ 63) (hshort : ¬ (0 ≤ btoks ∧ 0 ≤ ptoks))
    (hnone : a.peak_rate.bps = 0 → ptoks = 0) : ∃ d, required_delay_time a btoks ptoks = some d := by
  obtain ⟨d₁, hd₁, -, hpos₁⟩ := calculate_bytes_tx_time_le (r := a.rate) hrate (-btoks)
  have hnonneg₁ : 0 ≤ d₁ := hpos₁ hlt
  unfold required_delay_time
  dsimp only
  rw [if_neg (show a.rate.get_bit_rate ≠ 0 from hrate), hd₁]
  split
  next hzero =>
    have hp := hnone hzero
    rw [if_pos (by omega)]
    exact ⟨d₁, by simp [hnonneg₁]⟩
  next hne =>
    obtain ⟨d₂, hd₂, -, hpos₂⟩ := calculate_bytes_tx_time_le (r := a.peak_rate) hne (-ptoks)
    have hnonneg₂ : 0 ≤ d₂ := hpos₂ hpeak
    rw [hd₂]
    split
    · exact ⟨d₁, by simp [hnonneg₁]⟩
    · split
      · exact ⟨d₂, by simp [hnonneg₂]⟩
      · exact ⟨max d₁ d₂, by simp [hnonneg₁]⟩

theorem earn_time_le {rate : DataRate} {missing missing' : ℤ} {wait : ℚ} (hwait : 0 ≤ wait)
    (h : (missing : ℚ) ≤ missing' + rate.bps.toNat / 8 * (wait / 10 ^ 9) + 1) :
    earn_time rate missing ≤ earn_time rate missing' + wait + earn_time rate 1 := by
  rcases Nat.eq_zero_or_pos rate.bps.toNat with hzero | hpos
  · simp only [earn_time, hzero, Nat.cast_zero, div_zero]
    linarith
  · have hposQ : (0 : ℚ) < rate.bps.toNat := by exact_mod_cast hpos
    have hearned : 0 ≤ rate.bps.toNat / 8 * (wait / 10 ^ 9) := by positivity
    have hmax : max (missing : ℚ) 0 ≤ max (missing' : ℚ) 0 + rate.bps.toNat / 8 * (wait / 10 ^ 9) + 1 := by
      have hleft := le_max_left (missing' : ℚ) 0
      have hright := le_max_right (missing' : ℚ) 0
      exact max_le (by linarith) (by linarith)
    simp only [earn_time, Int.cast_max, Int.cast_zero, Int.cast_one, max_eq_left (zero_le_one' ℚ)]
    calc max (missing : ℚ) 0 * 8 * 10 ^ 9 / rate.bps.toNat
        ≤ (max (missing' : ℚ) 0 + rate.bps.toNat / 8 * (wait / 10 ^ 9) + 1) * 8 * 10 ^ 9 / rate.bps.toNat := by gcongr
      _ = max (missing' : ℚ) 0 * 8 * 10 ^ 9 / rate.bps.toNat + wait + 1 * 8 * 10 ^ 9 / rate.bps.toNat := by
          field_simp

theorem time_needed_le {s : TbfQueueDisc σ} {now later : Time} {pktSize : UInt32} {btoks ptoks btoks' ptoks' : ℤ}
    (hcheck : s.time_check_point ≤ now) (hlater : now ≤ later) (h : both_toks a s now pktSize = some (btoks, ptoks))
    (h' : both_toks a s later pktSize = some (btoks', ptoks')) :
    time_needed a btoks ptoks ≤ time_needed a btoks' ptoks' + (later - now) + byte_time a := by
  obtain ⟨hb, hp, hp₀⟩ := both_toks_cases h
  obtain ⟨hb', hp', hp₀'⟩ := both_toks_cases h'
  have hdelta : 0 ≤ get_seconds (now - s.time_check_point) := get_seconds_nonneg (sub_nonneg.mpr hcheck)
  have hle : get_seconds (now - s.time_check_point) ≤ get_seconds (later - s.time_check_point) :=
    get_seconds_le (sub_le_sub_right hlater _)
  have hwait : (0 : ℚ) ≤ later - now := by
    rw [sub_nonneg]
    exact_mod_cast hlater
  have hsince : get_seconds (later - s.time_check_point) - get_seconds (now - s.time_check_point) =
      (later - now : ℚ) / 10 ^ 9 := by
    rw [get_seconds_sub, get_seconds_sub, get_seconds, get_seconds, get_seconds]
    ring
  have hbucket : ∀ {rate : DataRate} {limit : UInt32} {tokens t t' : ℤ},
      toks tokens rate limit (get_seconds (now - s.time_check_point)) pktSize = some t →
      toks tokens rate limit (get_seconds (later - s.time_check_point)) pktSize = some t' →
      earn_time rate (-t) ≤ earn_time rate (-t') + (later - now) + earn_time rate 1 := by
    intro rate limit tokens t t' ht ht'
    have hgain := toks_gain hdelta hle ht ht'
    rw [hsince] at hgain
    refine earn_time_le hwait ?_
    push_cast
    linarith
  have hfirst := hbucket hb hb'
  have hsecond : earn_time a.peak_rate (-ptoks) ≤
      earn_time a.peak_rate (-ptoks') + (later - now) + earn_time a.peak_rate 1 := by
    by_cases hpeak : a.peak_rate.bps = 0
    · have := earn_time_nonneg a.peak_rate (-ptoks')
      have := earn_time_nonneg a.peak_rate 1
      have hmissing : -ptoks ≤ 0 := by rw [hp₀ hpeak]; decide
      rw [earn_time_of_nonpos a.peak_rate hmissing]
      linarith
    · exact hbucket (hp hpeak) (hp' hpeak)
  refine max_le ?_ ?_
  · refine hfirst.trans ?_
    gcongr
    · exact le_max_left _ _
    · exact le_max_left _ _
  · refine hsecond.trans ?_
    gcongr
    · exact le_max_right _ _
    · exact le_max_right _ _

theorem time_needed_of_enough {btoks ptoks : ℤ} (hb : 0 ≤ btoks) (hp : 0 ≤ ptoks) : time_needed a btoks ptoks = 0 := by
  rw [time_needed, earn_time_of_nonpos _ (by omega), earn_time_of_nonpos _ (by omega), max_self]

/-- What one step does to a queue disc. -/
inductive Moved (o : Overrides σ) (a : Attributes) (s : Clocked σ) (now : Time) : Clocked σ → Prop
  | enqueue {item : QueueDiscItem} {child : QueueDisc σ} {events : List QueueDiscEvent}
      (h : o.enqueue s.tbf.child now item = some (child, events)) :
      Moved o a s now { s with clock := now, tbf := { s.tbf with child } }
  | dequeue {r : Option QueueDiscItem} {tbf : TbfQueueDisc σ} (h : Attempt o a s.tbf now r tbf) :
      Moved o a s now { clock := now, tbf, sent := s.sent ++ (r.map (now, ·)).toList }
  | wake_up (h : s.tbf.id = some now) : Moved o a s now { s with clock := now, tbf := { s.tbf with id := none } }

theorem moved_of_step {s s' : Clocked σ} {e : Time × Event} (h : step o a s e = some s') :
    Due s e.1 ∧ Moved o a s e.1 s' := by
  unfold step at h
  split at h
  next hdue =>
    refine ⟨hdue, ?_⟩
    split at h
    · obtain ⟨tbf, henqueue, rfl⟩ := Option.map_eq_some_iff.mp h
      obtain ⟨⟨child, events⟩, hchild, rfl⟩ := Option.map_eq_some_iff.mp henqueue
      exact .enqueue hchild
    · obtain ⟨⟨r, tbf⟩, hattempt, rfl⟩ := Option.map_eq_some_iff.mp h
      exact .dequeue (attempt_of_do_dequeue hattempt)
    · split at h
      next hid =>
        cases h
        exact .wake_up hid
      next => cases h
  next => cases h

/-- What holds of the buckets and the timer with any child queue disc. -/
structure Filled (a : Attributes) (s : Clocked σ) : Prop where
  check_point : s.tbf.time_check_point ≤ s.clock
  btokens : 0 ≤ s.tbf.btokens ∧ s.tbf.btokens ≤ a.burst.toNat
  ptokens : 0 ≤ s.tbf.ptokens ∧ s.tbf.ptokens ≤ a.mtu.toNat
  pending : ∀ w ∈ s.tbf.id, s.clock ≤ w

theorem stored_toks {s : TbfQueueDisc σ} {now : Time} {pktSize : UInt32} {btoks ptoks : ℤ}
    (h : both_toks a s now pktSize = some (btoks, ptoks)) (hb : 0 ≤ btoks) (hp : 0 ≤ ptoks) :
    btoks % 2 ^ 32 = btoks ∧ ptoks % 2 ^ 32 = ptoks ∧ btoks ≤ a.burst.toNat ∧ ptoks ≤ a.mtu.toNat := by
  obtain ⟨hbucket, hpeak, hnone⟩ := both_toks_cases h
  have hburst : btoks ≤ a.burst.toNat := by
    have heq := toks_eq hbucket
    omega
  have hmtu : ptoks ≤ a.mtu.toNat := by
    by_cases hzero : a.peak_rate.bps = 0
    · rw [hnone hzero]
      positivity
    · have heq := toks_eq (hpeak hzero)
      omega
  have hburst_lt := a.burst.toNat_lt
  have hmtu_lt := a.mtu.toNat_lt
  norm_num only at hburst_lt hmtu_lt ⊢
  exact ⟨Int.emod_eq_of_lt hb (by omega), Int.emod_eq_of_lt hp (by omega), hburst, hmtu⟩

theorem filled_of_attempt {s : Clocked σ} {now : Time} {r : Option QueueDiscItem} {tbf : TbfQueueDisc σ}
    (h : Filled a s) (hdue : Due s now) (hattempt : Attempt o a s.tbf now r tbf) (sent : List (Time × QueueDiscItem)) :
    Filled a ⟨now, tbf, sent⟩ := by
  have hcheck := h.check_point.trans hdue.1
  cases hattempt with
  | empty hpeek => exact ⟨hcheck, h.btokens, h.ptokens, hdue.2⟩
  | lost hpeek htoks hb hp hdequeue => exact ⟨hcheck, h.btokens, h.ptokens, hdue.2⟩
  | served hpeek htoks hb hp hdequeue =>
    obtain ⟨hbtoks, hptoks, hburst, hmtu⟩ := stored_toks htoks hb hp
    refine ⟨le_rfl, ?_, ?_, hdue.2⟩
    · dsimp only
      rw [hbtoks]
      exact ⟨hb, hburst⟩
    · dsimp only
      rw [hptoks]
      exact ⟨hp, hmtu⟩
  | waits hpeek htoks hshort hid => exact ⟨hcheck, h.btokens, h.ptokens, hdue.2⟩
  | arms hpeek htoks hshort hid hdelay =>
    refine ⟨hcheck, h.btokens, h.ptokens, fun w hw => ?_⟩
    cases hw
    exact le_add_of_nonneg_right (required_delay_time_le hdelay).1

theorem filled_of_reachable {s : Clocked σ} (hs : Reachable (Initialized a) (step o a) Always s) : Filled a s := by
  refine hs.invariant ?_ ?_
  · rintro ⟨clock, tbf, sent⟩ ⟨hclock, -, child, -, rfl⟩
    exact ⟨hclock, ⟨Int.natCast_nonneg _, le_rfl⟩, ⟨Int.natCast_nonneg _, le_rfl⟩, nofun⟩
  · intro s e s' h _ hstep
    obtain ⟨hdue, hmoved⟩ := moved_of_step hstep
    cases hmoved with
    | enqueue henqueue => exact ⟨h.check_point.trans hdue.1, h.btokens, h.ptokens, hdue.2⟩
    | dequeue hattempt => exact filled_of_attempt h hdue hattempt _
    | wake_up hid => exact ⟨h.check_point.trans hdue.1, h.btokens, h.ptokens, nofun⟩

/-- When packets were returned, in seconds, and their sizes. -/
def history (s : Clocked σ) : List (ℚ × ℚ) := s.sent.map fun x => (get_seconds x.1, (x.2.size.toNat : ℚ))

/-- The pending wake-up is soon, or soon enough for the packet that stands in front. -/
def Waiting (a : Attributes) (s : Clocked σ) (front : Option QueueDiscItem) : Prop :=
  ∀ w ∈ s.tbf.id, (w : ℚ) ≤ s.clock + byte_time a + 1 / 2 ∨
    ∃ x, front = some x ∧ ∀ t ≥ s.clock, ∀ btoks ptoks, both_toks a s.tbf t x.size = some (btoks, ptoks) →
      (w : ℚ) ≤ t + time_needed a btoks ptoks + byte_time a + 1 / 2

/-- What holds of a queue disc with a child that keeps its head. -/
structure Held (a : Attributes) (Front : QueueDisc σ → Option QueueDiscItem → Prop) (s : Clocked σ) : Prop where
  filled : Filled a s
  first : TokenBucket.Conforms (a.burst.toNat : ℚ) (a.rate.bps.toNat / 8) (1 / 2) (history s)
    (get_seconds s.tbf.time_check_point) s.tbf.btokens
  second : a.peak_rate.bps ≠ 0 → TokenBucket.Conforms (a.mtu.toNat : ℚ) (a.peak_rate.bps.toNat / 8) (1 / 2) (history s)
    (get_seconds s.tbf.time_check_point) s.tbf.ptokens
  front : ∃ front, Front s.tbf.child front ∧ Waiting a s front

theorem Waiting.later {s : Clocked σ} {front : Option QueueDiscItem} (h : Waiting a s front) {now : Time}
    (hnow : s.clock ≤ now) (child : QueueDisc σ) (sent : List (Time × QueueDiscItem)) :
    Waiting a ⟨now, { s.tbf with child }, sent⟩ front := by
  intro w hw
  have hcast : (s.clock : ℚ) ≤ now := by exact_mod_cast hnow
  rcases h w hw with hsoon | ⟨x, hx, henough⟩
  · exact .inl (by dsimp only; linarith)
  · exact .inr ⟨x, hx, fun t ht => henough t (hnow.trans ht)⟩

theorem charged {s : Clocked σ} {now : Time} {item : QueueDiscItem} {tokens t : ℤ} {rate : DataRate}
    {limit : UInt32} (hcheck : s.tbf.time_check_point ≤ now)
    (h : TokenBucket.Conforms (limit.toNat : ℚ) (rate.bps.toNat / 8) (1 / 2) (history s)
      (get_seconds s.tbf.time_check_point) tokens)
    (htoks : toks tokens rate limit (get_seconds (now - s.tbf.time_check_point)) item.size = some t) (ht : 0 ≤ t)
    (tbf : TbfQueueDisc σ) :
    TokenBucket.Conforms (limit.toNat : ℚ) (rate.bps.toNat / 8) (1 / 2) (history ⟨now, tbf, s.sent ++ [(now, item)]⟩)
      (get_seconds now) t := by
  obtain ⟨hlimit, hearned⟩ := toks_le (get_seconds_nonneg (sub_nonneg.mpr hcheck)) htoks
  rw [get_seconds_sub] at hearned
  have hhistory : history ⟨now, tbf, s.sent ++ [(now, item)]⟩ = history s ++ [(get_seconds now, (item.size.toNat : ℚ))] := by
    simp [history]
  rw [hhistory]
  exact h.take (by positivity) (by norm_num) (get_seconds_le hcheck) (by exact_mod_cast ht) hlimit hearned

theorem held_of_attempt {Front : QueueDisc σ → Option QueueDiscItem → Prop} (hkept : o.HeadKept Front) {s : Clocked σ}
    (h : Held a Front s) {now : Time} (hdue : Due s now) {r : Option QueueDiscItem} {tbf : TbfQueueDisc σ}
    (hattempt : Attempt o a s.tbf now r tbf) :
    Held a Front ⟨now, tbf, s.sent ++ (r.map (now, ·)).toList⟩ := by
  have hfilled := filled_of_attempt h.filled hdue hattempt (s.sent ++ (r.map (now, ·)).toList)
  have hcheck := h.filled.check_point.trans hdue.1
  obtain ⟨front, hfront, hwaiting⟩ := h.front
  have hlater := fun child => hwaiting.later hdue.1 child (s.sent ++ (r.map (now, ·)).toList)
  cases hattempt with
  | @empty child events hpeek =>
    rw [Option.map_none, Option.toList_none, List.append_nil] at hfilled hlater ⊢
    obtain ⟨hchild, hsame⟩ := hkept.peek _ _ _ _ _ _ hfront hpeek
    cases front with
    | none => exact ⟨hfilled, h.first, h.second, none, hchild, hlater child⟩
    | some x => cases hsame x rfl
  | @lost head child child' events events' btoks ptoks hpeek htoks hb hp hdequeue =>
    obtain ⟨hchild, -⟩ := hkept.peek _ _ _ _ _ _ hfront hpeek
    obtain ⟨-, y, hy, -⟩ := hkept.dequeue _ _ _ _ _ _ hchild hdequeue
    cases hy
  | @served head item child child' events events' btoks ptoks hpeek htoks hb hp hdequeue =>
    obtain ⟨hchild, hsame⟩ := hkept.peek _ _ _ _ _ _ hfront hpeek
    obtain ⟨hnone, y, hy, hsize⟩ := hkept.dequeue _ _ _ _ _ _ hchild hdequeue
    cases hy
    obtain ⟨hbucket, hpeak, -⟩ := both_toks_cases htoks
    obtain ⟨hbtoks, hptoks, -, -⟩ := stored_toks htoks hb hp
    rw [← hsize] at hbucket hpeak
    refine ⟨hfilled, ?_, fun hzero => ?_, none, hnone, ?_⟩
    · dsimp only
      rw [hbtoks]
      exact charged hcheck h.first hbucket hb _
    · dsimp only
      rw [hptoks]
      exact charged hcheck (h.second hzero) (hpeak hzero) hp _
    · -- the wake-up was for this packet, and nothing is missing for it any more
      intro w hw
      refine .inl ?_
      rcases hlater child w hw with hsoon | ⟨x, hx, henough⟩
      · exact hsoon
      · cases hsame x hx
        have hlate := henough now le_rfl btoks ptoks htoks
        rw [time_needed_of_enough hb hp] at hlate
        dsimp only
        linarith
  | @waits head child events btoks ptoks w hpeek htoks hshort hid =>
    rw [Option.map_none, Option.toList_none, List.append_nil] at hfilled hlater ⊢
    obtain ⟨hchild, hsame⟩ := hkept.peek _ _ _ _ _ _ hfront hpeek
    refine ⟨hfilled, h.first, h.second, some head, hchild, fun w hw => ?_⟩
    rcases hlater child w hw with hsoon | ⟨x, hx, henough⟩
    · exact .inl hsoon
    · exact .inr ⟨x, hsame x hx, henough⟩
  | @arms head child events btoks ptoks d hpeek htoks hshort hid hdelay =>
    rw [Option.map_none, Option.toList_none, List.append_nil] at hfilled ⊢
    obtain ⟨hchild, -⟩ := hkept.peek _ _ _ _ _ _ hfront hpeek
    refine ⟨hfilled, h.first, h.second, some head, hchild, fun w hw => .inr ⟨head, rfl, ?_⟩⟩
    intro t ht btoks' ptoks' htoks'
    cases hw
    have hdelay_le := (required_delay_time_le hdelay).2.1
    have hneeded := time_needed_le hcheck ht htoks htoks'
    push_cast
    linarith

theorem held_of_reachable {Front : QueueDisc σ → Option QueueDiscItem → Prop} (hkept : o.HeadKept Front) {s : Clocked σ}
    (hs : Reachable (Initialized a) (step o a) Always s) : Held a Front s := by
  refine hs.invariant ?_ ?_
  · rintro ⟨clock, tbf, sent⟩ hinit
    have hfilled : Filled a ⟨clock, tbf, sent⟩ := filled_of_reachable (o := o) (.init hinit)
    obtain ⟨hclock, rfl, child, hchild, rfl⟩ := hinit
    refine ⟨hfilled, ?_, fun _ => ?_, none, hkept.fresh child hchild, nofun⟩
    · exact TokenBucket.conforms_of_full (by positivity) (by positivity) (by exact_mod_cast le_rfl)
    · exact TokenBucket.conforms_of_full (by positivity) (by positivity) (by exact_mod_cast le_rfl)
  · intro s e s' h _ hstep
    obtain ⟨hdue, hmoved⟩ := moved_of_step hstep
    have hcheck := h.filled.check_point.trans hdue.1
    obtain ⟨front, hfront, hwaiting⟩ := h.front
    cases hmoved with
    | enqueue henqueue =>
      exact ⟨⟨hcheck, h.filled.btokens, h.filled.ptokens, hdue.2⟩, h.first, h.second, front,
        hkept.enqueue _ _ _ _ _ _ hfront henqueue, hwaiting.later hdue.1 _ _⟩
    | dequeue hattempt => exact held_of_attempt hkept h hdue hattempt
    | wake_up hid =>
      exact ⟨⟨hcheck, h.filled.btokens, h.filled.ptokens, nofun⟩, h.first, h.second, front, hfront, nofun⟩

/-- The packet that is shown at this time is blocked, with these tokens. -/
def Blocks (o : Overrides σ) (a : Attributes) (s : TbfQueueDisc σ) (now : Time) (btoks ptoks : ℤ) : Prop :=
  ∃ head child events, o.peek s.child now = some (some head, child, events) ∧
    both_toks a s now head.size = some (btoks, ptoks) ∧ ¬ (0 ≤ btoks ∧ 0 ≤ ptoks)

theorem do_dequeue_of_blocks {s : TbfQueueDisc σ} {now : Time} {btoks ptoks : ℤ} (h : Blocks o a s now btoks ptoks)
    (hrate : a.rate.bps ≠ 0) (hlt : a.rate.bps.toNat < 2 ^ 63) (hpeak : a.peak_rate.bps.toNat < 2 ^ 63) :
    ∃ tbf, do_dequeue o a s now = some (none, tbf) := by
  obtain ⟨head, child, events, hpeek, htoks, hshort⟩ := h
  obtain ⟨d, hd⟩ := required_delay_time_isSome hrate hlt hpeak hshort (both_toks_cases htoks).2.2
  rw [do_dequeue, hpeek, Option.bind_some]
  dsimp only
  rw [htoks, Option.bind_some]
  dsimp only
  rw [if_neg hshort]
  cases s.id with
  | some w => exact ⟨_, rfl⟩
  | none => exact ⟨_, by rw [hd]; rfl⟩

theorem attempt_of_blocks {s tbf : TbfQueueDisc σ} {now : Time} {btoks ptoks : ℤ} {r : Option QueueDiscItem}
    (h : Blocks o a s now btoks ptoks) (hattempt : Attempt o a s now r tbf) :
    r = none ∧ tbf.btokens = s.btokens ∧ tbf.ptokens = s.ptokens ∧ tbf.time_check_point = s.time_check_point ∧
      ∃ w, tbf.id = some w ∧ (∀ w', s.id = some w' → w = w') ∧
        (s.id = none → (w : ℚ) ≤ now + time_needed a btoks ptoks + 1 / 2) := by
  obtain ⟨head, child, events, hpeek, htoks, hshort⟩ := h
  cases hattempt with
  | empty hpeek' =>
    rw [hpeek] at hpeek'
    cases hpeek'
  | lost hpeek' htoks' hb hp hdequeue =>
    rw [hpeek] at hpeek'
    cases hpeek'
    rw [htoks] at htoks'
    cases htoks'
    exact absurd ⟨hb, hp⟩ hshort
  | served hpeek' htoks' hb hp hdequeue =>
    rw [hpeek] at hpeek'
    cases hpeek'
    rw [htoks] at htoks'
    cases htoks'
    exact absurd ⟨hb, hp⟩ hshort
  | waits hpeek' htoks' hshort' hid =>
    rw [hid]
    exact ⟨rfl, rfl, rfl, rfl, _, rfl, fun w' hw' => Option.some.inj hw', nofun⟩
  | arms hpeek' htoks' hshort' hid hdelay =>
    rw [hpeek] at hpeek'
    cases hpeek'
    rw [htoks] at htoks'
    cases htoks'
    refine ⟨rfl, rfl, rfl, rfl, _, rfl, fun w' hw' => absurd hw' (by rw [hid]; nofun), fun _ => ?_⟩
    have hdelay_le := (required_delay_time_le hdelay).2.1
    push_cast
    linarith

theorem wake_up_of_blocks {Front : QueueDisc σ → Option QueueDiscItem → Prop} (hkept : o.HeadKept Front) {s : Clocked σ}
    (hheld : Held a Front s) {now w : Time} (hdue : Due s now) {btoks ptoks : ℤ}
    (h : Blocks o a s.tbf now btoks ptoks) (hkeeps : ∀ w', s.tbf.id = some w' → w = w')
    (harms : s.tbf.id = none → (w : ℚ) ≤ now + time_needed a btoks ptoks + 1 / 2) :
    (w : ℚ) ≤ now + time_needed a btoks ptoks + byte_time a + 1 / 2 := by
  obtain ⟨head, child, events, hpeek, htoks, -⟩ := h
  obtain ⟨front, hfront, hwaiting⟩ := hheld.front
  have hneeded : 0 ≤ time_needed a btoks ptoks := (earn_time_nonneg _ _).trans (le_max_left _ _)
  have hbyte : 0 ≤ byte_time a := (earn_time_nonneg _ _).trans (le_max_left _ _)
  cases hid : s.tbf.id with
  | none =>
    have := harms hid
    linarith
  | some w' =>
    rw [hkeeps w' hid]
    rcases hwaiting w' hid with hsoon | ⟨x, hx, henough⟩
    · have hclock : (s.clock : ℚ) ≤ now := by exact_mod_cast hdue.1
      linarith
    · cases (hkept.peek _ _ _ _ _ _ hfront hpeek).2 x hx
      exact henough now hdue.1 btoks ptoks htoks

/-- Over every interval the packets that are returned are worth at most a full bucket, what the rate
earns in the interval and half a byte each. -/
def Within (limit : UInt32) (rate : DataRate) (s : Clocked σ) : Prop :=
  ∀ start stop, start ≤ stop → TokenBucket.total (TokenBucket.during (history s) start stop) ≤
    limit.toNat + rate.bps.toNat * (stop - start) / 8 + (TokenBucket.during (history s) start stop).length / 2

theorem within_of_conforms {limit : UInt32} {rate : DataRate} {s : Clocked σ} {last tokens : ℚ}
    (h : TokenBucket.Conforms (limit.toNat : ℚ) (rate.bps.toNat / 8) (1 / 2) (history s) last tokens) :
    Within limit rate s := by
  intro start stop hle
  have hinterval := h.interval start stop hle
  linarith

/-- A bucket of ten bytes that earns a byte a second. -/
def slow : Attributes := { burst := 10, rate := ⟨8⟩ }

def packet (uid : ℕ) (size : UInt32) (h : size.toNat < 2 ^ 31 := by decide) : QueueDiscItem :=
  { uid, size, tos := none, size_lt := h }

/-- A packet that fits the bucket is blocked, and its wake-up is later than needed by more than that. -/
def Late (o : Overrides σ) (a : Attributes) (margin : ℚ) (s : Clocked σ) : Prop :=
  ∃ shown ∈ o.peek s.tbf.child s.clock, ∃ head ∈ shown.1, head.size ≤ a.burst ∧
    ∃ t ∈ both_toks a s.tbf s.clock head.size, ¬ (0 ≤ t.1 ∧ 0 ≤ t.2) ∧
      ∃ d ∈ do_dequeue o a s.tbf s.clock, ∃ w ∈ d.2.id, s.clock + time_needed a t.1 t.2 + margin < w

instance (o : Overrides σ) (a : Attributes) (margin : ℚ) (s : Clocked σ) : Decidable (Late o a margin s) := by
  unfold Late
  infer_instance

end TbfQueueDisc

end TrafficControl

end Ns3
