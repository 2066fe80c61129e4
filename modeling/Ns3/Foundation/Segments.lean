import Mathlib

/-! Segments of a stream: lists of items with the position of the first one. -/

namespace Segments

variable {α : Type*}

/-- Segments in order, none of which overlaps another. -/
def Ordered (l : List (ℕ × List α)) : Prop := l.Pairwise fun s t => s.1 + s.2.length ≤ t.1

/-- Segments that follow each other from one position to another. -/
def Tiles : ℕ → List (ℕ × List α) → ℕ → Prop
  | a, [], b => a = b
  | a, s :: l, b => s.1 = a ∧ Tiles (a + s.2.length) l b

/-- A part of a stream, which is not empty. -/
def Part (stream : List α) (s : ℕ × List α) : Prop :=
  s.2 ≠ [] ∧ s.1 + s.2.length ≤ stream.length ∧ s.2 = (stream.drop s.1).take s.2.length

def Covered (l : List (ℕ × List α)) (i : ℕ) : Prop := ∃ s ∈ l, s.1 ≤ i ∧ i < s.1 + s.2.length

def total (l : List (ℕ × List α)) : ℕ := (l.map fun s => s.2.length).sum

def content (l : List (ℕ × List α)) : List α := l.flatMap Prod.snd

def place (s : ℕ × List α) : List (ℕ × List α) → List (ℕ × List α)
  | [] => [s]
  | t :: l => if t.1 < s.1 then t :: place s l else s :: t :: l

variable {stream : List α} {l l' : List (ℕ × List α)} {s t : ℕ × List α} {a b c i : ℕ}

theorem Part.length_pos (h : Part stream s) : 0 < s.2.length := List.length_pos_iff.mpr h.1

theorem Part.slice (hab : a < b) (hb : b ≤ stream.length) : Part stream (a, (stream.drop a).take (b - a)) := by
  have hlength : ((stream.drop a).take (b - a)).length = b - a := by
    rw [List.length_take, List.length_drop]
    omega
  refine ⟨List.ne_nil_of_length_pos (by simpa only [hlength] using Nat.sub_pos_of_lt hab), ?_, ?_⟩
  · simp only [hlength]
    omega
  · simp only [hlength]

theorem Part.drop {p : List α} (h : Part stream (a, p)) (hi : i < p.length) :
    Part stream (a + i, p.drop i) := by
  obtain ⟨_, hfits, heq⟩ := h
  refine ⟨List.ne_nil_of_length_pos (by rw [List.length_drop]; omega), ?_, ?_⟩
  · simp only [List.length_drop] at hfits ⊢
    omega
  · calc p.drop i = ((stream.drop a).take p.length).drop i := by rw [← heq]
      _ = (stream.drop (a + i)).take (p.drop i).length := by
        rw [List.drop_take, List.drop_drop, List.length_drop]

theorem Part.append (h : Part stream s) (more : List α) : Part (stream ++ more) s := by
  obtain ⟨hne, hle, heq⟩ := h
  refine ⟨hne, ?_, ?_⟩
  · rw [List.length_append]
    omega
  · rwa [List.drop_append_of_le_length (by omega), List.take_append_of_le_length (by rw [List.length_drop]; omega)]

theorem total_cons : total (s :: l) = s.2.length + total l := by
  simp [total]

theorem total_append : total (l ++ l') = total l + total l' := by
  simp [total]

theorem tiles_append (h : Tiles a l b) (h' : Tiles b l' c) : Tiles a (l ++ l') c := by
  induction l generalizing a with
  | nil =>
    obtain rfl : a = b := h
    exact h'
  | cons s l ih => exact ⟨h.1, ih h.2⟩

theorem Tiles.end_eq (h : Tiles a l b) : b = a + total l := by
  induction l generalizing a with
  | nil => exact h.symm
  | cons s l ih =>
    rw [total_cons, ih h.2]
    omega

theorem Tiles.mem (h : Tiles a l b) (hs : s ∈ l) : a ≤ s.1 ∧ s.1 + s.2.length ≤ b := by
  induction l generalizing a with
  | nil => cases hs
  | cons t l ih =>
    obtain ⟨hfirst, hrest⟩ := h
    rcases List.mem_cons.mp hs with rfl | hs
    · have hend := hrest.end_eq
      omega
    · obtain ⟨hle, hend⟩ := ih hrest hs
      exact ⟨by omega, hend⟩

theorem Tiles.content (h : Tiles a l b) (hparts : ∀ s ∈ l, Part stream s) :
    content l = (stream.drop a).take (b - a) := by
  induction l generalizing a with
  | nil =>
    obtain rfl : a = b := h
    simp [Segments.content]
  | cons s l ih =>
    obtain ⟨rfl, hrest⟩ := h
    obtain ⟨_, _, hpart⟩ := hparts s (by simp)
    have hsplit : b - s.1 = s.2.length + (b - (s.1 + s.2.length)) := by
      have hend := hrest.end_eq
      omega
    calc Segments.content (s :: l) = s.2 ++ Segments.content l := List.flatMap_cons
      _ = (stream.drop s.1).take s.2.length ++ (stream.drop (s.1 + s.2.length)).take (b - (s.1 + s.2.length)) := by
        rw [← hpart, ih hrest fun t ht => hparts t (by simp [ht])]
      _ = (stream.drop s.1).take (b - s.1) := by rw [hsplit, List.take_add, List.drop_drop]

theorem Tiles.end_le (h : Tiles a l b) (ha : a ≤ c) (hl : ∀ s ∈ l, s.1 + s.2.length ≤ c) : b ≤ c := by
  induction l generalizing a with
  | nil => exact le_of_eq_of_le h.symm ha
  | cons s l ih =>
    obtain ⟨rfl, hrest⟩ := h
    exact ih hrest (hl s (by simp)) fun t ht => hl t (by simp [ht])

theorem Tiles.ordered (h : Tiles a l b) : Ordered l := by
  induction l generalizing a with
  | nil => exact .nil
  | cons s l ih =>
    obtain ⟨rfl, hrest⟩ := h
    exact List.pairwise_cons.mpr ⟨fun t ht => (hrest.mem ht).1, ih hrest⟩

theorem Covered.mono (hl : ∀ s ∈ l, s ∈ l') (h : Covered l i) : Covered l' i := by
  obtain ⟨s, hs, hin⟩ := h
  exact ⟨s, hl s hs, hin⟩

theorem mem_place : t ∈ place s l ↔ t = s ∨ t ∈ l := by
  induction l with
  | nil => simp [place]
  | cons u l ih =>
    rw [place]
    split
    · rw [List.mem_cons, ih, List.mem_cons]
      tauto
    · simp

theorem place_append (h : ∀ t ∈ l, t.1 < s.1) : place s (l ++ l') = l ++ place s l' := by
  induction l with
  | nil => rfl
  | cons u l ih =>
    rw [List.cons_append, place, if_pos (h u (by simp)), ih fun t ht => h t (by simp [ht]), List.cons_append]

theorem total_place : total (place s l) = s.2.length + total l := by
  induction l with
  | nil => simp [place, total]
  | cons u l ih =>
    rw [place]
    split
    · rw [total_cons, ih, total_cons]
      omega
    · rw [total_cons]

theorem Ordered.place (h : Ordered l) (hpos : ∀ t ∈ l, 0 < t.2.length)
    (hclear : ∀ t ∈ l, t.1 + t.2.length ≤ s.1 ∨ s.1 + s.2.length ≤ t.1) : Ordered (place s l) := by
  induction l with
  | nil => exact List.pairwise_singleton _ s
  | cons u l ih =>
    obtain ⟨hfirst, hrest⟩ := List.pairwise_cons.mp h
    have hu := hclear u (by simp)
    have hlength := hpos u (by simp)
    rw [Segments.place]
    split
    next hlt =>
      refine List.pairwise_cons.mpr ⟨fun t ht => ?_, ih hrest (fun t ht => hpos t (by simp [ht]))
        fun t ht => hclear t (by simp [ht])⟩
      rcases mem_place.mp ht with rfl | ht
      · omega
      · exact hfirst t ht
    next hlt =>
      refine List.pairwise_cons.mpr ⟨fun t ht => ?_, h⟩
      rcases List.mem_cons.mp ht with rfl | ht
      · omega
      · have hle := hfirst t ht
        omega

theorem Ordered.total_le (h : Ordered l) (hl : ∀ s ∈ l, a ≤ s.1) (hc : ∀ s ∈ l, s.1 + s.2.length ≤ c) :
    total l ≤ c - a := by
  induction l generalizing a with
  | nil => exact Nat.zero_le _
  | cons s l ih =>
    obtain ⟨hfirst, hrest⟩ := List.pairwise_cons.mp h
    have hs := hl s (by simp)
    have hend := hc s (by simp)
    have hle := ih hrest hfirst fun t ht => hc t (by simp [ht])
    rw [total_cons]
    omega


theorem Ordered.append (h : Ordered l) (h' : Ordered l')
    (hbefore : ∀ s ∈ l, ∀ t ∈ l', s.1 + s.2.length ≤ t.1) : Ordered (l ++ l') :=
  List.pairwise_append.mpr ⟨h, h', hbefore⟩

end Segments
