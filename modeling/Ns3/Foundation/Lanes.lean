import Mathlib

/-! Items that pass through several first-in first-out lanes. -/

namespace Lanes

variable {ι κ α : Type*} {key : α → κ} {stamp : α → ℕ} {lanes lanes' : ι → List α} {out : List α} {next : ℕ}
  {i : ι} {p p' : α}

/-- The items carry the number of their arrival. The items of a key are all in one lane, each lane
holds its items in the order of their arrival, and items of a key leave in that order. `next` is
the number of arrivals. -/
structure InOrder (key : α → κ) (stamp : α → ℕ) (lanes : ι → List α) (out : List α) (next : ℕ) : Prop where
  sorted : ∀ i, (lanes i).Pairwise (stamp · < stamp ·)
  queued_lt : ∀ i, ∀ p ∈ lanes i, stamp p < next
  out_lt : ∀ p ∈ out, stamp p < next
  single : ∀ i j, ∀ p ∈ lanes i, ∀ p' ∈ lanes j, key p = key p' → i = j
  before : ∀ p ∈ out, ∀ i, ∀ p' ∈ lanes i, key p = key p' → stamp p < stamp p'
  out_sorted : out.Pairwise fun p p' => key p = key p' → stamp p < stamp p'

namespace InOrder

theorem empty : InOrder key stamp (fun _ : ι => ([] : List α)) [] next :=
  ⟨fun _ => List.Pairwise.nil, nofun, nofun, nofun, nofun, List.Pairwise.nil⟩

theorem skip (h : InOrder key stamp lanes out next) : InOrder key stamp lanes out (next + 1) :=
  { h with
    queued_lt := fun i p hp => Nat.lt_succ_of_lt (h.queued_lt i p hp)
    out_lt := fun p hp => Nat.lt_succ_of_lt (h.out_lt p hp) }

theorem sublist (h : InOrder key stamp lanes out next) (hsub : ∀ i, (lanes' i).Sublist (lanes i)) :
    InOrder key stamp lanes' out next where
  sorted i := (h.sorted i).sublist (hsub i)
  queued_lt i p hp := h.queued_lt i p ((hsub i).subset hp)
  out_lt := h.out_lt
  single i j p hp p' hp' := h.single i j p ((hsub i).subset hp) p' ((hsub j).subset hp')
  before p hp i p' hp' := h.before p hp i p' ((hsub i).subset hp')
  out_sorted := h.out_sorted

/-- A new item enters the lane that holds the items of its key, if there are any. -/
theorem push [DecidableEq ι] (h : InOrder key stamp lanes out next) (hstamp : stamp p = next)
    (hlane : ∀ j, ∀ p' ∈ lanes j, key p' = key p → j = i) :
    InOrder key stamp (Function.update lanes i (lanes i ++ [p])) out (next + 1) := by
  have hmem : ∀ j, ∀ p' ∈ Function.update lanes i (lanes i ++ [p]) j, p' ∈ lanes j ∨ j = i ∧ p' = p := by
    intro j p' hp'
    by_cases hj : j = i
    · subst hj
      rw [Function.update_self, List.mem_append, List.mem_singleton] at hp'
      exact hp'.imp_right fun hp => ⟨rfl, hp⟩
    · rw [Function.update_of_ne hj] at hp'
      exact .inl hp'
  constructor
  · intro j
    by_cases hj : j = i
    · subst hj
      rw [Function.update_self, List.pairwise_append]
      refine ⟨h.sorted j, List.pairwise_singleton _ _, fun p' hp' p'' hp'' => ?_⟩
      rw [List.mem_singleton.mp hp'', hstamp]
      exact h.queued_lt j p' hp'
    · rw [Function.update_of_ne hj]
      exact h.sorted j
  · intro j p' hp'
    rcases hmem j p' hp' with hold | ⟨-, rfl⟩
    · exact Nat.lt_succ_of_lt (h.queued_lt j p' hold)
    · rw [hstamp]
      exact Nat.lt_succ_self next
  · exact fun p' hp' => Nat.lt_succ_of_lt (h.out_lt p' hp')
  · intro j j' p' hp' p'' hp'' hkey
    rcases hmem j p' hp' with hold | ⟨rfl, rfl⟩ <;> rcases hmem j' p'' hp'' with hold' | ⟨rfl, rfl⟩
    · exact h.single j j' p' hold p'' hold' hkey
    · exact hlane j p' hold hkey
    · exact (hlane j' p'' hold' hkey.symm).symm
    · rfl
  · intro p' hp' j p'' hp'' hkey
    rcases hmem j p'' hp'' with hold | ⟨-, rfl⟩
    · exact h.before p' hp' j p'' hold hkey
    · rw [hstamp]
      exact h.out_lt p' hp'
  · exact h.out_sorted

theorem take [DecidableEq ι] {dropped rest : List α} (h : InOrder key stamp lanes out next)
    (hlane : lanes i = dropped ++ p :: rest) (hkey : key p' = key p) (hstamp : stamp p' = stamp p) :
    InOrder key stamp (Function.update lanes i rest) (out ++ [p']) next := by
  have hp : p ∈ lanes i := by
    rw [hlane]
    exact List.mem_append_right dropped List.mem_cons_self
  have hsub : ∀ j, (Function.update lanes i rest j).Sublist (lanes j) := by
    intro j
    by_cases hj : j = i
    · subst hj
      rw [Function.update_self, hlane]
      exact (List.sublist_cons_self p rest).trans (List.sublist_append_right dropped _)
    · rw [Function.update_of_ne hj]
  have hafter : ∀ p'' ∈ rest, stamp p < stamp p'' := by
    have hsorted := h.sorted i
    rw [hlane, List.pairwise_append, List.pairwise_cons] at hsorted
    exact hsorted.2.1.1
  have hless := h.sublist hsub
  refine ⟨hless.sorted, hless.queued_lt, ?_, hless.single, ?_, ?_⟩
  · intro p'' hp''
    rcases List.mem_append.mp hp'' with hout | hnew
    · exact h.out_lt p'' hout
    · rw [List.mem_singleton.mp hnew, hstamp]
      exact h.queued_lt i p hp
  · intro q hq j p'' hp'' hsame
    rcases List.mem_append.mp hq with hout | hnew
    · exact hless.before q hout j p'' hp'' hsame
    · rw [List.mem_singleton.mp hnew, hkey] at hsame
      rw [List.mem_singleton.mp hnew, hstamp]
      obtain rfl := h.single i j p hp p'' ((hsub j).subset hp'') hsame
      rw [Function.update_self] at hp''
      exact hafter p'' hp''
  · rw [List.pairwise_append]
    refine ⟨h.out_sorted, List.pairwise_singleton _ _, fun q hq q' hq' hsame => ?_⟩
    rw [List.mem_singleton.mp hq'] at hsame ⊢
    rw [hkey] at hsame
    rw [hstamp]
    exact h.before q hq i p hp hsame

end InOrder

end Lanes
