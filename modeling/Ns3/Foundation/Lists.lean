import Mathlib

/-! Lists kept in order by insertion, whose items are found by an identifier. -/

namespace SortedList

variable {α κ : Type*}

/-- Insertion before the first item that comes after the new one. -/
def place (before : α → α → Bool) (a : α) : List α → List α
  | [] => [a]
  | b :: rest => if before a b then a :: b :: rest else b :: place before a rest

theorem place_perm (before : α → α → Bool) (a : α) (l : List α) : (place before a l).Perm (a :: l) := by
  induction l with
  | nil => exact .refl _
  | cons b rest ih =>
    rw [place]
    split
    · exact .refl _
    · exact (ih.cons b).trans (.swap a b rest)

theorem place_pairwise [LinearOrder κ] {before : α → α → Bool} (key : α → κ)
    (hbefore : ∀ a b, before a b = true ↔ key a < key b) {a : α} {l : List α}
    (h : l.Pairwise fun b c => key b ≤ key c) : (place before a l).Pairwise fun b c => key b ≤ key c := by
  induction l with
  | nil => exact List.pairwise_singleton _ a
  | cons b rest ih =>
    obtain ⟨hfirst, hrest⟩ := List.pairwise_cons.mp h
    rw [place]
    split
    next hless =>
      have hless : key a ≤ key b := ((hbefore a b).mp hless).le
      refine List.pairwise_cons.mpr ⟨fun c hc => ?_, h⟩
      rcases List.mem_cons.mp hc with rfl | hc
      · exact hless
      · exact hless.trans (hfirst c hc)
    next hless =>
      have hless : key b ≤ key a := not_lt.mp fun hlt => hless ((hbefore a b).mpr hlt)
      refine List.pairwise_cons.mpr ⟨fun c hc => ?_, ih hrest⟩
      rcases List.mem_cons.mp ((place_perm before a rest).mem_iff.mp hc) with rfl | hc
      · exact hless
      · exact hfirst c hc

variable {p : α → Bool} {a : α} {l : List α}

theorem find?_eq_of_unique (ha : a ∈ l) (hp : p a = true) (hunique : ∀ b ∈ l, p b = true → b = a) :
    l.find? p = some a := by
  obtain ⟨b, hb⟩ := Option.isSome_iff_exists.mp (List.find?_isSome.mpr ⟨a, ha, hp⟩)
  rw [hb, hunique b (List.mem_of_find?_eq_some hb) (List.find?_some hb)]

theorem eraseP_eq_erase_of_unique [DecidableEq α] (hp : p a = true) (hunique : ∀ b ∈ l, p b = true → b = a) :
    l.eraseP p = l.erase a := by
  induction l with
  | nil => rfl
  | cons b rest ih =>
    by_cases hb : p b = true
    · obtain rfl := hunique b (by simp) hb
      simp [hb]
    · have hne : b ≠ a := fun heq => hb (heq ▸ hp)
      rw [List.eraseP_cons_of_neg hb, List.erase_cons_tail (by simpa using hne),
        ih fun c hc => hunique c (by simp [hc])]

end SortedList

/-! Tables that are searched from the front: only the first record under a key counts. -/

namespace List

variable {α : Type*} {p q : α → Bool} {f : α → α} {l : List α} {a b : α}

/-- Change the first element that meets a test. -/
def modifyFirst (p : α → Bool) (f : α → α) : List α → List α
  | [] => []
  | a :: l => if p a then f a :: l else a :: modifyFirst p f l

theorem modifyFirst_cons_pos (hp : p a) : modifyFirst p f (a :: l) = f a :: l := if_pos hp

theorem modifyFirst_cons_neg (hp : ¬ p a) :
    modifyFirst p f (a :: l) = a :: modifyFirst p f l := if_neg hp

theorem find?_modifyFirst (hf : ∀ a, p a → p (f a)) :
    (modifyFirst p f l).find? p = (l.find? p).map f := by
  induction l with
  | nil => rfl
  | cons a l ih =>
    by_cases hp : p a
    · rw [modifyFirst_cons_pos hp, find?_cons_of_pos (hf a hp), find?_cons_of_pos hp]
      rfl
    · rw [modifyFirst_cons_neg hp, find?_cons_of_neg hp, find?_cons_of_neg hp, ih]

theorem find?_modifyFirst_ne (hq : ∀ a, p a → ¬ q a) (hf : ∀ a, p a → ¬ q (f a)) :
    (modifyFirst p f l).find? q = l.find? q := by
  induction l with
  | nil => rfl
  | cons a l ih =>
    by_cases hp : p a
    · rw [modifyFirst_cons_pos hp, find?_cons_of_neg (hq a hp), find?_cons_of_neg (hf a hp)]
    · rw [modifyFirst_cons_neg hp, find?_cons, find?_cons, ih]

theorem map_modifyFirst {κ : Type*} {key : α → κ} (hf : ∀ a, p a → key (f a) = key a) :
    (modifyFirst p f l).map key = l.map key := by
  induction l with
  | nil => rfl
  | cons a l ih =>
    by_cases hp : p a
    · rw [modifyFirst_cons_pos hp, map_cons, map_cons, hf a hp]
    · rw [modifyFirst_cons_neg hp, map_cons, map_cons, ih]

theorem nodup_map_middle {κ : Type*} (key : α → κ) {l₁ l₂ : List α}
    (h : ((l₁ ++ a :: l₂).map key).Nodup) :
    ((l₁ ++ l₂).map key).Nodup ∧ ∀ b ∈ l₁ ++ l₂, key b ≠ key a := by
  rw [map_append, map_cons, nodup_middle, nodup_cons] at h
  refine ⟨by simpa using h.2, fun b hb hkey => h.1 ?_⟩
  rw [← map_append, mem_map]
  exact ⟨b, hb, hkey⟩

theorem find?_eraseP_ne (hq : ∀ a, p a → ¬ q a) : (l.eraseP p).find? q = l.find? q := by
  induction l with
  | nil => rfl
  | cons a l ih =>
    by_cases hp : p a
    · rw [eraseP_cons_of_pos hp, find?_cons_of_neg (hq a hp)]
    · rw [eraseP_cons_of_neg hp, find?_cons, find?_cons, ih]

end List

/-! The total weight of what a number of slots hold, and machine words that count such totals. -/

namespace Slots

variable {ι α M : Type*} [Fintype ι] [DecidableEq ι]

def total [AddCommMonoid M] (weight : α → M) (slots : ι → α) : M := ∑ i, weight (slots i)

theorem total_update [AddCommGroup M] (weight : α → M) (slots : ι → α) (i : ι) (a : α) :
    total weight (Function.update slots i a) = total weight slots - weight (slots i) + weight a := by
  have hcomp : ∀ j, weight (Function.update slots i a j) =
      Function.update (fun j => weight (slots j)) i (weight a) j := by
    intro j
    rw [Function.update_apply, Function.update_apply]
    split <;> rfl
  have hsplit := Finset.add_sum_erase Finset.univ (fun j => weight (slots j)) (Finset.mem_univ i)
  calc total weight (Function.update slots i a)
      = ∑ j, Function.update (fun j => weight (slots j)) i (weight a) j := Finset.sum_congr rfl fun j _ => hcomp j
    _ = weight a + ∑ j ∈ Finset.univ.erase i, weight (slots j) := by
      rw [Finset.sum_update_of_mem (Finset.mem_univ i), Finset.sdiff_singleton_eq_erase]
    _ = total weight slots - weight (slots i) + weight a := by
      rw [total, ← hsplit]
      abel

omit [DecidableEq ι] in
theorem le_total (weight : α → ℕ) (slots : ι → α) (i : ι) : weight (slots i) ≤ total weight slots :=
  Finset.single_le_sum (f := fun i => weight (slots i)) (fun _ _ => Nat.zero_le _) (Finset.mem_univ i)

omit [DecidableEq ι] in
/-- A word that counts the weights is their sum modulo the word size. -/
theorem toNat_total (weight : α → UInt32) (slots : ι → α) :
    (total weight slots).toNat = total (fun a => (weight a).toNat) slots % 2 ^ 32 := by
  have hsum : ∀ s : Finset ι, (∑ i ∈ s, weight (slots i)).toNat =
      (∑ i ∈ s, (weight (slots i)).toNat) % 2 ^ 32 := by
    intro s
    classical
    induction s using Finset.induction_on with
    | empty => rfl
    | insert i s hi ih =>
      rw [Finset.sum_insert hi, Finset.sum_insert hi, UInt32.toNat_add, ih, Nat.add_mod_mod]
  exact hsum Finset.univ

theorem toNat_list_sum (l : List UInt32) : l.sum.toNat = (l.map UInt32.toNat).sum % 2 ^ 32 := by
  induction l with
  | nil => rfl
  | cons a l ih => rw [List.sum_cons, UInt32.toNat_add, ih, List.map_cons, List.sum_cons, Nat.add_mod_mod]

end Slots
