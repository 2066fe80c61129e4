import Mathlib

/-! Parts of a list of bytes, and parts that are written over. -/

namespace Slice

variable {α : Type*}

/-- The elements from one position up to another. -/
def slice (l : List α) (a b : ℕ) : List α := (l.drop a).take (b - a)

/-- The list with other elements from a position on. -/
def splice (l : List α) (a : ℕ) (m : List α) : List α := l.take a ++ m ++ l.drop (a + m.length)

variable {l l' m : List α} {a b c i : ℕ}

theorem length_slice (h : b ≤ l.length) : (slice l a b).length = b - a := by
  rw [slice, List.length_take, List.length_drop]
  omega

theorem slice_self : slice l a a = [] := by simp [slice]

theorem slice_append (hab : a ≤ b) (hbc : b ≤ c) : slice l a b ++ slice l b c = slice l a c := by
  have hsplit := List.take_append_drop (b - a) (slice l a c)
  have htake : (slice l a c).take (b - a) = slice l a b := by
    rw [slice, List.take_take, min_eq_left (by omega), slice]
  have hdrop : (slice l a c).drop (b - a) = slice l b c := by
    rw [slice, List.drop_take, List.drop_drop, slice, show c - a - (b - a) = c - b by omega,
      show a + (b - a) = b by omega]
  rw [← hsplit, htake, hdrop]

theorem getElem?_slice : (slice l a b)[i]? = if a + i < b then l[a + i]? else none := by
  rw [slice, List.getElem?_take]
  by_cases h : i < b - a
  · rw [if_pos h, if_pos (by omega), List.getElem?_drop]
  · rw [if_neg h, if_neg (by omega)]

theorem slice_congr (h : ∀ i, a ≤ i → i < b → l'[i]? = l[i]?) : slice l' a b = slice l a b := by
  apply List.ext_getElem?
  intro i
  rw [getElem?_slice, getElem?_slice]
  split
  next hi => exact h (a + i) (by omega) hi
  next => rfl

theorem drop_slice (n : ℕ) : (slice l a b).drop n = slice l (a + n) b := by
  rw [slice, slice, List.drop_take, List.drop_drop, Nat.sub_sub]

theorem take_slice {n : ℕ} (h : a + n ≤ b) : (slice l a b).take n = slice l a (a + n) := by
  rw [slice, slice, List.take_take, min_eq_left (by omega), Nat.add_sub_cancel_left]

theorem slice_take {n : ℕ} : (slice l a b).take n = slice l a (min b (a + n)) := by
  rw [slice, slice, List.take_take]
  congr 1
  omega

theorem slice_of_le (h : b ≤ a) : slice l a b = [] := by rw [slice, Nat.sub_eq_zero_of_le h, List.take_zero]

/-- Two parts are the same if their bounds are, or if both are empty. -/
theorem slice_same {a' b' : ℕ} (h : a = a' ∧ b = b' ∨ b ≤ a ∧ b' ≤ a') : slice l a b = slice l a' b' := by
  obtain ⟨rfl, rfl⟩ | ⟨hle, hle'⟩ := h
  · rfl
  · rw [slice_of_le hle, slice_of_le hle']

theorem length_splice (h : a + m.length ≤ l.length) : (splice l a m).length = l.length := by
  simp [splice]
  omega

theorem getElem?_splice (h : a + m.length ≤ l.length) :
    (splice l a m)[i]? = if i < a then l[i]? else if i < a + m.length then m[i - a]? else l[i]? := by
  have hlen : (l.take a).length = a := List.length_take_of_le (by omega)
  rw [splice, List.append_assoc]
  by_cases hi : i < a
  · rw [if_pos hi, List.getElem?_append_left (by omega), List.getElem?_take, if_pos hi]
  · rw [if_neg hi, List.getElem?_append_right (by omega), hlen]
    by_cases hm : i < a + m.length
    · rw [if_pos hm, List.getElem?_append_left (by omega)]
    · rw [if_neg hm, List.getElem?_append_right (by omega), List.getElem?_drop]
      congr 1
      omega

theorem slice_splice_self (h : a + m.length ≤ l.length) : slice (splice l a m) a (a + m.length) = m := by
  apply List.ext_getElem?
  intro i
  rw [getElem?_slice, getElem?_splice h]
  by_cases hi : i < m.length
  · rw [if_pos (by omega), if_neg (by omega), if_pos (by omega), Nat.add_sub_cancel_left]
  · rw [if_neg (by omega), List.getElem?_eq_none (by omega)]

theorem slice_splice_of_disjoint (h : a + m.length ≤ l.length) (hdisjoint : c ≤ a ∨ a + m.length ≤ b) :
    slice (splice l a m) b c = slice l b c := by
  apply slice_congr
  intro i hb hc
  rw [getElem?_splice h]
  by_cases hi : i < a
  · rw [if_pos hi]
  · rw [if_neg hi, if_neg (by omega)]

end Slice

/-! Pieces of a stream with their offsets, which may overlap, and how they are joined again. -/

namespace Pieces

open Slice

variable {α : Type*}

/-- A piece of a stream, with the offset of its first item. -/
def IsPiece (stream : List α) (x : List α × ℕ) : Prop :=
  x.2 + x.1.length ≤ stream.length ∧ x.1 = slice stream x.2 (x.2 + x.1.length)

def Covered (l : List (List α × ℕ)) (i : ℕ) : Prop := ∃ x ∈ l, x.2 ≤ i ∧ i < x.2 + x.1.length

def Ordered (l : List (List α × ℕ)) : Prop := l.Pairwise fun x y => x.2 ≤ y.2

/-- Whether each piece starts no later than where those before it end. -/
def gapless (e : ℕ) : List (List α × ℕ) → Bool
  | [] => true
  | x :: l => decide (x.2 ≤ e) && gapless (max e (x.2 + x.1.length)) l

/-- What each piece has beyond the items so far is put behind them. -/
def join (p : List α) : List (List α × ℕ) → List α
  | [] => p
  | x :: l => join (p ++ x.1.drop (p.length - x.2)) l

variable {stream : List α} {l l' : List (List α × ℕ)} {x y : List α × ℕ} {e i : ℕ}

theorem IsPiece.whole : IsPiece stream (stream, 0) := by
  refine ⟨by simp, ?_⟩
  simp [slice]

theorem IsPiece.piece {p q : List α} {a b : ℕ} (h : IsPiece stream (p, a)) (hq : IsPiece p (q, b)) :
    IsPiece stream (q, a + b) := by
  obtain ⟨hfits, heq⟩ := h
  obtain ⟨hqfits, hqeq⟩ := hq
  simp only at hfits heq hqfits hqeq
  have hpart : slice p b (b + q.length) = slice stream (a + b) (a + b + q.length) := by
    calc slice p b (b + q.length) = (p.drop b).take q.length := by rw [slice, Nat.add_sub_cancel_left]
      _ = ((slice stream a (a + p.length)).drop b).take q.length := by rw [← heq]
      _ = slice stream (a + b) (a + b + q.length) := by
        rw [drop_slice, take_slice (by omega)]
  refine ⟨?_, ?_⟩
  · simp only
    omega
  · rw [← hpart]
    exact hqeq

theorem IsPiece.slice {a b : ℕ} (hab : a ≤ b) (hb : b ≤ stream.length) :
    IsPiece stream (Slice.slice stream a b, a) := by
  have hlength := length_slice (a := a) hb
  refine ⟨?_, ?_⟩
  · simp only [hlength]
    omega
  · simp only [hlength]
    rw [Nat.add_sub_cancel' hab]

theorem Covered.of_perm (hperm : l.Perm l') (h : Covered l i) : Covered l' i := by
  obtain ⟨x, hx, hin⟩ := h
  exact ⟨x, hperm.mem_iff.mp hx, hin⟩

theorem covered_cons : Covered (x :: l) i ↔ (x.2 ≤ i ∧ i < x.2 + x.1.length) ∨ Covered l i := by
  simp [Covered]

theorem covered_of_gapless (h : gapless e l = true) (hx : x ∈ l) (hle : e ≤ i) (hlt : i < x.2 + x.1.length) :
    Covered l i := by
  induction l generalizing e with
  | nil => cases hx
  | cons y l ih =>
    rw [gapless, Bool.and_eq_true, decide_eq_true_eq] at h
    obtain ⟨hstart, hrest⟩ := h
    apply covered_cons.mpr
    by_cases hi : i < y.2 + y.1.length
    · exact .inl ⟨hstart.trans hle, hi⟩
    · obtain rfl | hx := List.mem_cons.mp hx
      · exact absurd hlt hi
      · exact .inr (ih hrest hx (max_le hle (not_lt.mp hi)))

theorem gapless_of_covered (hl : Ordered l) (h : ∀ x ∈ l, ∀ i, e ≤ i → i < x.2 → Covered l i) :
    gapless e l = true := by
  induction l generalizing e with
  | nil => rfl
  | cons y l ih =>
    obtain ⟨hfirst, hrest⟩ := List.pairwise_cons.mp hl
    have hstart : y.2 ≤ e := by
      by_contra hlate
      obtain ⟨x, hx, hle, _⟩ := h y (by simp) e le_rfl (not_le.mp hlate)
      obtain rfl | hx := List.mem_cons.mp hx
      · exact hlate hle
      · exact hlate ((hfirst x hx).trans hle)
    rw [gapless, Bool.and_eq_true, decide_eq_true_eq]
    refine ⟨hstart, ih hrest fun x hx i hi hlt => ?_⟩
    obtain ⟨_, hend⟩ | hcovered := covered_cons.mp (h x (by simp [hx]) i (le_of_max_le_left hi) hlt)
    · exact absurd hend (not_lt.mpr (le_of_max_le_right hi))
    · exact hcovered

theorem take_append_drop_piece (hx : IsPiece stream x) (hstart : x.2 ≤ e) :
    stream.take e ++ x.1.drop (e - x.2) = stream.take (max e (x.2 + x.1.length)) := by
  obtain ⟨hfits, heq⟩ := hx
  have hdrop : x.1.drop (e - x.2) = slice stream e (x.2 + x.1.length) := by
    rw [heq, drop_slice, Nat.add_sub_cancel' hstart, length_slice (by omega), Nat.add_sub_cancel_left]
  have htake : stream.take e = slice stream 0 e := by simp [slice]
  rw [hdrop, htake]
  by_cases hend : e ≤ x.2 + x.1.length
  · rw [slice_append (Nat.zero_le e) hend, max_eq_right hend]
    simp [slice]
  · rw [max_eq_left (by omega)]
    simp [slice, Nat.sub_eq_zero_of_le (show x.2 + x.1.length ≤ e by omega)]

theorem join_eq_take (hgap : gapless e l = true) (hpieces : ∀ x ∈ l, IsPiece stream x) (he : e ≤ stream.length) :
    ∃ e', e ≤ e' ∧ e' ≤ stream.length ∧ (∀ x ∈ l, x.2 + x.1.length ≤ e') ∧ join (stream.take e) l = stream.take e' := by
  induction l generalizing e with
  | nil => exact ⟨e, le_rfl, he, by simp, rfl⟩
  | cons y l ih =>
    rw [gapless, Bool.and_eq_true, decide_eq_true_eq] at hgap
    obtain ⟨hstart, hrest⟩ := hgap
    have hy := hpieces y (by simp)
    have hnext : max e (y.2 + y.1.length) ≤ stream.length := max_le he hy.1
    obtain ⟨e', hle, hbound, hends, hjoin⟩ := ih hrest (fun x hx => hpieces x (by simp [hx])) hnext
    refine ⟨e', (le_max_left e _).trans hle, hbound, fun x hx => ?_, ?_⟩
    · obtain rfl | hx := List.mem_cons.mp hx
      · exact (le_max_right e _).trans hle
      · exact hends x hx
    · rw [join, List.length_take_of_le he, take_append_drop_piece hy hstart, hjoin]

end Pieces
