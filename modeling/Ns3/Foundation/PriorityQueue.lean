import Mathlib
import Ns3.Foundation.Reachable

namespace PriorityQueue

variable {Q α κ : Type*}

inductive Operation (α : Type*)
  | insert (a : α)
  | remove (a : α)
  | remove_next
  | peek_next
  | is_empty
deriving DecidableEq

inductive Response (α : Type*)
  | done
  | item (a : α)
  | flag (b : Bool)
deriving DecidableEq

/-- What has been inserted and not been removed after an operation, from its answer. -/
def after [DecidableEq α] (m : Multiset α) : Operation α → Response α → Multiset α
  | .insert a, _ => a ::ₘ m
  | .remove a, _ => m.erase a
  | .remove_next, .item a => m.erase a
  | _, _ => m

def IsLeast [LE κ] (key : α → κ) (m : Multiset α) (a : α) : Prop := a ∈ m ∧ ∀ b ∈ m, key a ≤ key b

/-- The answer a priority queue gives when it holds `m`. -/
def Answers [LE κ] (key : α → κ) (m : Multiset α) : Operation α → Response α → Prop
  | .insert _, r => r = .done
  | .remove _, r => r = .done
  | .remove_next, r => ∃ a, r = .item a ∧ IsLeast key m a
  | .peek_next, r => ∃ a, r = .item a ∧ IsLeast key m a
  | .is_empty, r => ∃ b, r = .flag b ∧ (b = true ↔ m = 0)

/-- The use a queue with distinct keys allows: a removed item is present, and the next one
is asked for only while there is one. -/
def Legal (key : α → κ) (m : Multiset α) : Operation α → Prop
  | .insert a => ∀ b ∈ m, key b ≠ key a
  | .remove a => a ∈ m
  | .remove_next => m ≠ 0
  | .peek_next => m ≠ 0
  | .is_empty => True

instance [DecidableEq α] [DecidableEq κ] (key : α → κ) (m : Multiset α) :
    (op : Operation α) → Decidable (Legal key m op)
  | .insert a => inferInstanceAs (Decidable (∀ b ∈ m, key b ≠ key a))
  | .remove a => inferInstanceAs (Decidable (a ∈ m))
  | .remove_next => inferInstanceAs (Decidable (m ≠ 0))
  | .peek_next => inferInstanceAs (Decidable (m ≠ 0))
  | .is_empty => inferInstanceAs (Decidable True)

/-- An operation on an implementation, beside the account of what it should hold. -/
def step [DecidableEq α] (impl : Q → Operation α → Option (Q × Response α)) (s : Q × Multiset α)
    (op : Operation α) : Option (Q × Multiset α) :=
  (impl s.1 op).map fun r => (r.1, after s.2 op r.2)

/-- The implementation answers an operation as a priority queue that holds `m` does. -/
def Serves [LE κ] (key : α → κ) (impl : Q → Operation α → Option (Q × Response α)) (s : Q × Multiset α)
    (op : Operation α) : Prop :=
  ∃ r, impl s.1 op = some r ∧ Answers key s.2 op r.2

/-- An implementation that serves every operation on items with distinct identifiers, and
keeps what it holds. -/
structure Correct [DecidableEq α] [LE κ] {ι : Type*} (key : α → κ) (ident : α → ι)
    (impl : Q → Operation α → Option (Q × Response α)) (contents : Q → Multiset α) : Prop where
  serves : ∀ q op, ((contents q).map ident).Nodup → Legal ident (contents q) op →
    ∃ r, impl q op = some r ∧ Answers key (contents q) op r.2 ∧ contents r.1 = after (contents q) op r.2

open Transition (Reachable)

/-- A relation to what the queue holds, which every admitted operation answers by and keeps,
makes every run serve its operations. -/
theorem serves_of_simulation [DecidableEq α] [LE κ] {key : α → κ} {impl : Q → Operation α → Option (Q × Response α)}
    {init : Q × Multiset α → Prop} {cond : Q × Multiset α → Operation α → Prop} {R : Q → Multiset α → Prop}
    (hinit : ∀ s, init s → R s.1 s.2)
    (hstep : ∀ q m op, R q m → cond (q, m) op →
      ∃ r, impl q op = some r ∧ Answers key m op r.2 ∧ R r.1 (after m op r.2))
    {s : Q × Multiset α} (hreach : Reachable init (step impl) cond s) :
    R s.1 s.2 ∧ ∀ op, cond s op → Serves key impl s op := by
  have hkept : R s.1 s.2 := by
    refine hreach.invariant (I := fun s => R s.1 s.2) hinit ?_
    rintro ⟨q, m⟩ op s' hs hcond hrun
    obtain ⟨r, hr, _, hnext⟩ := hstep q m op hs hcond
    rw [step, hr, Option.map_some] at hrun
    cases hrun
    exact hnext
  refine ⟨hkept, fun op hcond => ?_⟩
  obtain ⟨r, hr, hanswers, _⟩ := hstep s.1 s.2 op hkept hcond
  exact ⟨r, hr, hanswers⟩

end PriorityQueue

/-! Binary heaps with their root at index 1, as functions from the index to the key. -/

namespace BinaryHeap

variable {κ : Type*} {f : ℕ → κ} {n i : ℕ}

/-- The keys with those of two indices exchanged. -/
def exchange (f : ℕ → κ) (a b : ℕ) : ℕ → κ := fun j => f (Equiv.swap a b j)

theorem exchange_left (f : ℕ → κ) (a b : ℕ) : exchange f a b a = f b := by
  rw [exchange, Equiv.swap_apply_left]

theorem exchange_right (f : ℕ → κ) (a b : ℕ) : exchange f a b b = f a := by
  rw [exchange, Equiv.swap_apply_right]

theorem exchange_of_ne (f : ℕ → κ) {a b j : ℕ} (ha : j ≠ a) (hb : j ≠ b) : exchange f a b j = f j := by
  rw [exchange, Equiv.swap_apply_of_ne_of_ne ha hb]

variable [LinearOrder κ]

/-- Below `n`, no key is less than that of its parent. -/
def Ordered (f : ℕ → κ) (n : ℕ) : Prop := ∀ j, 2 ≤ j → j < n → f (j / 2) ≤ f j

/-- Only the key at `i` may be less than its parent, and its parent may take its place. -/
structure OrderedAbove (f : ℕ → κ) (n i : ℕ) : Prop where
  edge : ∀ j, 2 ≤ j → j < n → j ≠ i → f (j / 2) ≤ f j
  lift : ∀ j, 2 ≤ j → j < n → j / 2 = i → 2 ≤ i → f (i / 2) ≤ f j

/-- Only the key at `i` may be greater than its children, and they may take its place. -/
structure OrderedBelow (f : ℕ → κ) (n i : ℕ) : Prop where
  edge : ∀ j, 2 ≤ j → j < n → j / 2 ≠ i → f (j / 2) ≤ f j
  lift : ∀ j, 2 ≤ j → j < n → j / 2 = i → 2 ≤ i → f (i / 2) ≤ f j

theorem Ordered.root_le (h : Ordered f n) : ∀ j, 1 ≤ j → j < n → f 1 ≤ f j := by
  intro j
  induction j using Nat.strong_induction_on with
  | _ j ih =>
    intro hpos hj
    rcases Nat.lt_or_ge j 2 with hroot | hchild
    · obtain rfl : j = 1 := by omega
      exact le_rfl
    · exact (ih (j / 2) (by omega) (by omega) (by omega)).trans (h j hchild hj)

theorem Ordered.push {g : ℕ → κ} (h : Ordered f n) (hsame : ∀ j < n, g j = f j) : OrderedAbove g (n + 1) n := by
  constructor
  · intro j hj hlt hne
    rw [hsame j (by omega), hsame (j / 2) (by omega)]
    exact h j hj (by omega)
  · intro j hj hlt hparent
    omega

namespace OrderedAbove

theorem ordered (h : OrderedAbove f n i) (hdone : i = 1 ∨ f (i / 2) ≤ f i) : Ordered f n := by
  intro j hj hlt
  by_cases hji : j = i
  · subst hji
    exact hdone.resolve_left (by omega)
  · exact h.edge j hj hlt hji

theorem exchange (h : OrderedAbove f n i) (hi : 2 ≤ i) (hlt : i < n) (hless : f i < f (i / 2)) :
    OrderedAbove (exchange f i (i / 2)) n (i / 2) := by
  have hparent : i / 2 ≠ i := by omega
  constructor
  · intro j hj hjn hjp
    by_cases hji : j = i
    · subst hji
      rw [exchange_right, exchange_left]
      exact hless.le
    · rw [exchange_of_ne f hji hjp]
      by_cases hjchild : j / 2 = i
      · rw [hjchild, exchange_left]
        exact h.lift j hj hjn hjchild hi
      · by_cases hjsibling : j / 2 = i / 2
        · rw [hjsibling, exchange_right]
          exact hless.le.trans (hjsibling ▸ h.edge j hj hjn hji)
        · rw [exchange_of_ne f hjchild hjsibling]
          exact h.edge j hj hjn hji
  · intro j hj hjn hjparent hroot
    have hup := h.edge (i / 2) hroot (by omega) hparent
    rw [exchange_of_ne f (show i / 2 / 2 ≠ i by omega) (show i / 2 / 2 ≠ i / 2 by omega)]
    by_cases hji : j = i
    · subst hji
      rw [exchange_left]
      exact hup
    · rw [exchange_of_ne f hji (show j ≠ i / 2 by omega)]
      exact hup.trans (hjparent ▸ h.edge j hj hjn hji)

end OrderedAbove

namespace OrderedBelow

theorem ordered (h : OrderedBelow f n i) (hdone : ∀ j, 2 ≤ j → j < n → j / 2 = i → f i ≤ f j) : Ordered f n := by
  intro j hj hlt
  by_cases hji : j / 2 = i
  · rw [hji]
    exact hdone j hj hlt hji
  · exact h.edge j hj hlt hji

theorem exchange {c : ℕ} (h : OrderedBelow f n i) (hc : 2 ≤ c) (hcn : c < n) (hchild : c / 2 = i)
    (hleast : ∀ j, 2 ≤ j → j < n → j / 2 = i → f c ≤ f j) (hless : f c ≤ f i) :
    OrderedBelow (exchange f i c) n c := by
  have hci : c ≠ i := by omega
  constructor
  · intro j hj hjn hjparent
    by_cases hjc : j = c
    · subst hjc
      rw [hchild, exchange_left, exchange_right]
      exact hless
    · by_cases hji : j = i
      · subst hji
        rw [exchange_left, exchange_of_ne f (show j / 2 ≠ j by omega) (show j / 2 ≠ c by omega)]
        exact h.lift c hc hcn hchild hj
      · rw [exchange_of_ne f hji hjc]
        by_cases hsibling : j / 2 = i
        · rw [hsibling, exchange_left]
          exact hleast j hj hjn hsibling
        · rw [exchange_of_ne f hsibling hjparent]
          exact h.edge j hj hjn hsibling
  · intro j hj hjn hjparent _
    rw [hchild, exchange_left, exchange_of_ne f (show j ≠ i by omega) (show j ≠ c by omega)]
    have hedge := h.edge j hj hjn (by omega)
    rwa [hjparent] at hedge

end OrderedBelow

/-- Moving the last key to `i` leaves the one exception there, when it is not less than the
parent of `i`. -/
theorem Ordered.replace {g : ℕ → κ} (h : Ordered f (n + 1)) (hi : i < n) (hlast : g i = f n)
    (hsame : ∀ j < n, j ≠ i → g j = f j) (hparent : i ≤ 1 ∨ f (i / 2) ≤ f n) : OrderedBelow g n i := by
  constructor
  · intro j hj hjn hji
    rw [hsame (j / 2) (by omega) hji]
    by_cases heq : j = i
    · subst heq
      rw [hlast]
      exact hparent.resolve_left (by omega)
    · rw [hsame j hjn heq]
      exact h j hj (by omega)
  · intro j hj hjn hji hroot
    rw [hsame (i / 2) (by omega) (by omega), hsame j hjn (by omega)]
    exact (h i hroot (by omega)).trans (hji ▸ h j hj (by omega))

end BinaryHeap
