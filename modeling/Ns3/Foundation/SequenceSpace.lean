import Mathlib

/-! Sequence numbers that wrap, and the positions they stand for. -/

namespace SequenceSpace

/-- How far one number is ahead of another, in a space of `m` numbers. -/
def distance (m a b : ℕ) : ℕ := (a + m - b) % m

/-- The first position from a start on that has a number. -/
def position (m start a : ℕ) : ℕ := start + distance m a (start % m)

variable {m a b p q start start' : ℕ}

theorem distance_lt (hm : 0 < m) : distance m a b < m := Nat.mod_lt _ hm

theorem distance_mod (hqp : q ≤ p) (hp : p < q + m) : distance m (p % m) (q % m) = p - q := by
  obtain ⟨d, rfl⟩ := Nat.exists_eq_add_of_le hqp
  have hm : 0 < m := by omega
  have hq : q % m < m := Nat.mod_lt q hm
  rw [distance, Nat.add_sub_assoc hq.le, Nat.mod_add_mod, Nat.add_sub_cancel_left]
  have hsum : q + d + (m - q % m) = d + m * (q / m + 1) := by
    have hdiv := Nat.div_add_mod q m
    rw [Nat.mul_add]
    omega
  rw [hsum, Nat.add_mul_mod_self_left, Nat.mod_eq_of_lt (by omega)]

theorem distance_mod_behind (hpq : p < q) (hq : q < p + m) :
    distance m (p % m) (q % m) = m - (q - p) := by
  have h := distance_mod (m := m) (p := p + m) (q := q) (by omega) (by omega)
  rw [Nat.add_mod_right] at h
  omega

theorem add_distance_mod (ha : a < m) : (start + distance m a (start % m)) % m = a := by
  have hs : start % m < m := Nat.mod_lt start (by omega)
  rw [distance, Nat.add_mod_mod]
  have hsum : start + (a + m - start % m) = a + m * (start / m + 1) := by
    have hdiv := Nat.div_add_mod start m
    rw [Nat.mul_add]
    omega
  rw [hsum, Nat.add_mul_mod_self_left, Nat.mod_eq_of_lt ha]

theorem distance_inj {b c : ℕ} (hb : b < m) (ha : a < m) (hc : c < m) (h : distance m a b = distance m c b) : a = c := by
  have ha' : (b + distance m a (b % m)) % m = a := add_distance_mod ha
  have hc' : (b + distance m c (b % m)) % m = c := add_distance_mod hc
  rw [Nat.mod_eq_of_lt hb] at ha' hc'
  rw [← ha', ← hc', h]

theorem le_position : start ≤ position m start a := Nat.le_add_right ..

theorem position_lt {b : ℕ} (hm : 0 < m) : position m b a < b + m :=
  Nat.add_lt_add_left (distance_lt hm) b

theorem position_mod {b : ℕ} (ha : a < m) : position m b a % m = a := add_distance_mod ha

theorem distance_eq_position : distance m a (start % m) = position m start a - start := by
  rw [position, Nat.add_sub_cancel_left]

theorem position_of_mod {b : ℕ} (hle : b ≤ p) (hlt : p < b + m) : position m b (p % m) = p := by
  rw [position, distance_mod hle hlt]
  omega

theorem position_le (hle : start ≤ p) (hm : 0 < m) : position m start (p % m) ≤ p := by
  by_cases hlt : p < start + m
  · rw [position_of_mod hle hlt]
  · have hpos := position_lt (m := m) (b := start) (a := p % m) hm
    omega

theorem position_advance (ha : a < m) (hle : start ≤ start') (h : start' ≤ position m start a) :
    position m start' a = position m start a := by
  have hlt := position_lt (m := m) (b := start) (a := a) (by omega)
  have hmod := position_of_mod (m := m) (b := start') h (by omega)
  rwa [position_mod ha] at hmod

theorem position_self (hm : 0 < m) : position m start (start % m) = start :=
  position_of_mod le_rfl (by omega)

end SequenceSpace
