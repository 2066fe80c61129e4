import Ns3.Core.Scheduler

namespace Ns3.HeapScheduler

open BinaryHeap (Ordered OrderedAbove OrderedBelow exchange)
open PriorityQueue (Operation Response Answers IsLeast Legal Serves)
open Scheduler (Event EventKey)
open Transition (Reachable)

variable {h h' : HeapScheduler}

def contents (h : HeapScheduler) : Multiset Event := ↑(h.heap.toList.drop 1)

def keys (h : HeapScheduler) (i : ℕ) : ℕ ×ₗ ℕ := (h.get i).order

/-- The array is a heap. -/
structure IsHeap (h : HeapScheduler) : Prop where
  wasted : 0 < h.heap.size
  ordered : Ordered h.keys h.heap.size

theorem is_less_strictly_iff (a b : ℕ) : h.is_less_strictly a b = true ↔ h.keys a < h.keys b :=
  EventKey.less_iff _ _

theorem get_eq_getElem {i : ℕ} (hi : i < h.heap.size) : h.get i = h.heap[i] := by
  simp [get, hi]

theorem mem_contents {ev : Event} : ev ∈ h.contents ↔ ∃ i, 1 ≤ i ∧ i < h.heap.size ∧ h.get i = ev := by
  simp only [contents, Multiset.mem_coe, List.mem_iff_getElem, List.getElem_drop, List.length_drop,
    Array.length_toList, Array.getElem_toList]
  constructor
  · rintro ⟨i, hi, heq⟩
    exact ⟨1 + i, by omega, by omega, (get_eq_getElem (by omega)).trans heq⟩
  · rintro ⟨i, hpos, hi, heq⟩
    refine ⟨i - 1, by omega, ?_⟩
    rw [← heq, get_eq_getElem hi]
    simp only [Nat.add_sub_cancel' hpos]

section Exch

variable {a b : ℕ}

theorem get_exch (hexch : h.exch a b = some h') (j : ℕ) : h'.get j = h.get (Equiv.swap a b j) := by
  unfold exch at hexch
  split at hexch
  next hbounds =>
    cases hexch
    have hget : ∀ i, h.get i = h.heap[i]?.getD ⟨0, ⟨0, 0, 0⟩⟩ := fun i => Array.getD_eq_getD_getElem?
    simp only [get, Array.getD_eq_getD_getElem?, Array.getElem?_swap]
    split
    next hjb =>
      subst hjb
      rw [Equiv.swap_apply_right]
      simp [hbounds.1]
    next hjb =>
      split
      next hja =>
        subst hja
        rw [Equiv.swap_apply_left]
        simp [hbounds.2]
      next hja => rw [Equiv.swap_apply_of_ne_of_ne (Ne.symm hja) (Ne.symm hjb)]
  next => cases hexch

theorem keys_exch (hexch : h.exch a b = some h') : h'.keys = exchange h.keys a b := by
  funext j
  rw [keys, get_exch hexch, exchange, keys]

theorem size_exch (hexch : h.exch a b = some h') : h'.heap.size = h.heap.size := by
  unfold exch at hexch
  split at hexch
  · cases hexch
    simp
  · cases hexch

theorem contents_exch (ha : 1 ≤ a) (hb : 1 ≤ b) (hexch : h.exch a b = some h') : h'.contents = h.contents := by
  unfold exch at hexch
  split at hexch
  next hbounds =>
    cases hexch
    have hperm := (Array.swap_perm hbounds.1 hbounds.2).toList
    obtain ⟨⟨l⟩⟩ := h
    cases l with
    | nil => exact absurd hbounds.1 (by simp)
    | cons x l =>
      obtain ⟨a, rfl⟩ := Nat.exists_eq_add_of_le' ha
      obtain ⟨b, rfl⟩ := Nat.exists_eq_add_of_le' hb
      simp only [contents, Array.toList_swap, List.set_cons_succ, List.drop_succ_cons, List.drop_zero] at hperm ⊢
      exact Multiset.coe_eq_coe.mpr ((List.perm_cons x).mp hperm)
  next => cases hexch

theorem exch_isSome (ha : a < h.heap.size) (hb : b < h.heap.size) : ∃ h', h.exch a b = some h' := by
  unfold exch
  rw [dif_pos ⟨ha, hb⟩]
  exact ⟨_, rfl⟩

end Exch

theorem bottom_up_spec (turns : ℕ) {i : ℕ} (horder : OrderedAbove h.keys h.heap.size i) (hpos : 1 ≤ i)
    (hi : i < h.heap.size) (hturns : i ≤ turns) :
    ∃ h', bottom_up turns h i = some h' ∧ h'.IsHeap ∧ h'.contents = h.contents := by
  induction turns generalizing h i with
  | zero => omega
  | succ turns ih =>
    rw [bottom_up]
    split
    next hswap =>
      obtain ⟨hroot, hless⟩ := hswap
      have hi2 : 2 ≤ i := by
        have : i ≠ 1 := by simpa [is_root, root] using hroot
        omega
      have hparent : parent i = i / 2 := rfl
      obtain ⟨h₁, hexch⟩ := exch_isSome (h := h) hi (show parent i < h.heap.size by omega)
      have horder₁ : OrderedAbove h₁.keys h₁.heap.size (parent i) := by
        rw [keys_exch hexch, size_exch hexch]
        exact horder.exchange hi2 hi (is_less_strictly_iff _ _ |>.mp hless)
      rw [hexch, Option.bind_some]
      obtain ⟨h', hrun, hheap, hcontents⟩ := ih horder₁ (by omega) (by rw [size_exch hexch]; omega) (by omega)
      exact ⟨h', hrun, hheap, hcontents.trans (contents_exch hpos (by omega) hexch)⟩
    next hstop =>
      refine ⟨h, rfl, ⟨by omega, horder.ordered ?_⟩, rfl⟩
      by_cases hroot : i = 1
      · exact .inl hroot
      · refine .inr (not_lt.mp fun hless => hstop ⟨by simpa [is_root, root] using hroot, ?_⟩)
        exact is_less_strictly_iff _ _ |>.mpr hless

section TopDown

variable {i : ℕ}

theorem smallest_le :
    (h.smallest (left_child i) (right_child i) = left_child i ∨
      h.smallest (left_child i) (right_child i) = right_child i) ∧
    ∀ j, 2 ≤ j → j / 2 = i → h.keys (h.smallest (left_child i) (right_child i)) ≤ h.keys j := by
  have hchild : ∀ j, j / 2 = i → j = left_child i ∨ j = right_child i := by
    intro j hj
    simp only [left_child, right_child]
    omega
  unfold smallest
  split
  next hless =>
    have hless := (is_less_strictly_iff _ _).mp hless
    refine ⟨.inl rfl, fun j _ hj => ?_⟩
    rcases hchild j hj with rfl | rfl
    · exact le_rfl
    · exact hless.le
  next hless =>
    have hless := not_lt.mp fun hlt => hless ((is_less_strictly_iff _ _).mpr hlt)
    refine ⟨.inr rfl, fun j _ hj => ?_⟩
    rcases hchild j hj with rfl | rfl
    · exact hless
    · exact le_rfl

theorem top_down_spec (turns : ℕ) (hwasted : 0 < h.heap.size) (horder : OrderedBelow h.keys h.heap.size i)
    (hpos : 1 ≤ i) (hsome : 0 < turns) (hturns : h.heap.size < i + turns) :
    ∃ h', top_down turns h i = some h' ∧ h'.IsHeap ∧ h'.contents = h.contents := by
  induction turns generalizing h i with
  | zero => omega
  | succ turns ih =>
    have hkeep : (∀ j, 2 ≤ j → j < h.heap.size → j / 2 = i → h.keys i ≤ h.keys j) →
        ∃ h', some h = some h' ∧ h'.IsHeap ∧ h'.contents = h.contents :=
      fun hdone => ⟨h, rfl, ⟨hwasted, horder.ordered hdone⟩, rfl⟩
    have hleft : left_child i = i * 2 := rfl
    have hright : right_child i = i * 2 + 1 := rfl
    rw [top_down]
    simp only [is_bottom, decide_eq_true_eq, not_le]
    split
    next hchildren =>
      obtain ⟨hsmallest, hleast⟩ := smallest_le (h := h) (i := i)
      generalize h.smallest (left_child i) (right_child i) = c at hsmallest hleast ⊢
      have hc : 2 ≤ c ∧ c < h.heap.size ∧ c / 2 = i := by omega
      split
      next hless => exact hkeep fun j hj _ hji => ((is_less_strictly_iff _ _).mp hless).le.trans (hleast j hj hji)
      next hless =>
        have hless := not_lt.mp fun hlt => hless ((is_less_strictly_iff _ _).mpr hlt)
        obtain ⟨h₁, hexch⟩ := exch_isSome (h := h) (show i < h.heap.size by omega) hc.2.1
        have horder₁ : OrderedBelow h₁.keys h₁.heap.size c := by
          rw [keys_exch hexch, size_exch hexch]
          exact horder.exchange hc.1 hc.2.1 hc.2.2 (fun j hj _ hji => hleast j hj hji) hless
        rw [hexch, Option.bind_some]
        obtain ⟨h', hrun, hheap, hcontents⟩ :=
          ih (by rw [size_exch hexch]; exact hwasted) horder₁ (by omega) (by omega)
            (by rw [size_exch hexch]; omega)
        exact ⟨h', hrun, hheap, hcontents.trans (contents_exch hpos (by omega) hexch)⟩
    next hchildren =>
      split
      next hbottom => exact hkeep fun j _ hj hji => by omega
      next hinside =>
        split
        next hbottom => exact hkeep fun j _ hj hji => by omega
        next hchild =>
          have honly : ∀ j, 2 ≤ j → j < h.heap.size → j / 2 = i → j = left_child i := by omega
          split
          next hless =>
            refine hkeep fun j hj hjn hji => ?_
            rw [honly j hj hjn hji]
            exact ((is_less_strictly_iff _ _).mp hless).le
          next hless =>
            have hless := not_lt.mp fun hlt => hless ((is_less_strictly_iff _ _).mpr hlt)
            obtain ⟨h', hexch⟩ := exch_isSome (h := h) (show i < h.heap.size by omega)
              (show left_child i < h.heap.size by omega)
            have hordered : OrderedBelow h'.keys h'.heap.size (left_child i) := by
              rw [keys_exch hexch, size_exch hexch]
              refine horder.exchange (by omega) (by omega) (by omega) (fun j hj hjn hji => ?_) hless
              rw [honly j hj hjn hji]
            refine ⟨h', hexch, ⟨by rw [size_exch hexch]; exact hwasted, hordered.ordered ?_⟩,
              contents_exch hpos (by omega) hexch⟩
            intro j _ hjn hji
            rw [size_exch hexch] at hjn
            omega

end TopDown

section Operations

theorem contents_push (ev : Event) (hwasted : 0 < h.heap.size) :
    (⟨h.heap.push ev⟩ : HeapScheduler).contents = ev ::ₘ h.contents := by
  obtain ⟨⟨l⟩⟩ := h
  cases l with
  | nil => exact absurd hwasted (by simp)
  | cons x l => simp [contents]

theorem get_push {ev : Event} {j : ℕ} (hj : j < h.heap.size) :
    (⟨h.heap.push ev⟩ : HeapScheduler).get j = h.get j := by
  have hlt : j < (h.heap.push ev).size := by simp; omega
  rw [get_eq_getElem hj]
  exact (get_eq_getElem (h := ⟨h.heap.push ev⟩) hlt).trans (Array.getElem_push_lt hj)

theorem get_pop_back {j : ℕ} (hj : j < h.heap.size - 1) : h.pop_back.get j = h.get j := by
  have hlt : j < h.pop_back.heap.size := by simpa [pop_back] using hj
  rw [get_eq_getElem hlt, get_eq_getElem (by omega)]
  simp [pop_back]

theorem contents_pop_back (htwo : 1 < h.heap.size) : h.contents = h.get h.last ::ₘ h.pop_back.contents := by
  obtain ⟨⟨l⟩⟩ := h
  cases l with
  | nil => exact absurd htwo (by simp)
  | cons x l =>
    have hne : l ≠ [] := by
      rintro rfl
      simp at htwo
    have hlast : (⟨⟨x :: l⟩⟩ : HeapScheduler).get (last ⟨⟨x :: l⟩⟩) = l.getLast hne := by
      rw [get_eq_getElem (by simp [last])]
      simp [last, List.getLast_eq_getElem, List.getElem_cons, hne]
    rw [hlast]
    obtain ⟨l', a, rfl⟩ := List.eq_nil_or_concat l |>.resolve_left hne
    simp [contents, pop_back, List.dropLast_cons_of_ne_nil]

theorem insert_spec (hheap : h.IsHeap) (ev : Event) :
    ∃ h', h.insert ev = some h' ∧ h'.IsHeap ∧ h'.contents = ev ::ₘ h.contents := by
  have hsize : (⟨h.heap.push ev⟩ : HeapScheduler).heap.size = h.heap.size + 1 := by simp
  have horder : OrderedAbove (keys ⟨h.heap.push ev⟩) (h.heap.size + 1) h.heap.size :=
    hheap.ordered.push fun j hj => by rw [keys, get_push hj, keys]
  have hwasted := hheap.wasted
  have hlast : (⟨h.heap.push ev⟩ : HeapScheduler).last = h.heap.size := by simp [last]
  obtain ⟨h', hrun, hheap', hcontents⟩ := bottom_up_spec (h := ⟨h.heap.push ev⟩) (h.heap.size + 1)
    (by rw [hsize]; exact horder) hwasted (by omega) (by omega)
  refine ⟨h', ?_, hheap', hcontents.trans (contents_push ev hwasted)⟩
  rw [insert, hlast, hsize]
  exact hrun

/-- The removal of the event at `i`: the last event takes its place and goes down. The heap
stays one when that event is not less than the parent of `i`. -/
theorem remove_at_spec {i : ℕ} (hheap : h.IsHeap) (hpos : 1 ≤ i) (hi : i < h.heap.size)
    (hplace : i = root ∨ i = h.last ∨ h.is_less_strictly h.last (parent i) = false) :
    ∃ h₁ h', h.exch i h.last = some h₁ ∧ top_down h₁.heap.size h₁.pop_back i = some h' ∧ h'.IsHeap ∧
      h.contents = h.get i ::ₘ h'.contents := by
  have hlast : h.last = h.heap.size - 1 := rfl
  obtain ⟨h₁, hexch⟩ := exch_isSome (h := h) hi (show h.last < h.heap.size by omega)
  have hsize := size_exch hexch
  have hpop : h₁.pop_back.heap.size = h.heap.size - 1 := by simp [pop_back, hsize]
  have hkeys : ∀ j < h.heap.size - 1, h₁.pop_back.keys j = exchange h.keys i h.last j := by
    intro j hj
    rw [keys, get_pop_back (by omega), ← keys_exch hexch, keys]
  have horder : OrderedBelow h₁.pop_back.keys h₁.pop_back.heap.size i := by
    have hordered : Ordered h.keys (h.heap.size - 1 + 1) := by
      rw [Nat.sub_add_cancel hheap.wasted]
      exact hheap.ordered
    rw [hpop]
    rcases Nat.lt_or_ge i (h.heap.size - 1) with hinside | hend
    · refine hordered.replace hinside ?_ (fun j hj hji => ?_) ?_
      · rw [hkeys i hinside, BinaryHeap.exchange_left, hlast]
      · rw [hkeys j hj, BinaryHeap.exchange_of_ne _ hji (by omega)]
      · rcases hplace with hroot | hend | hless
        · exact .inl (by rw [hroot]; exact le_rfl)
        · omega
        · refine .inr (not_lt.mp fun hlt => ?_)
          rw [(is_less_strictly_iff h.last (parent i)).mpr hlt] at hless
          cases hless
    · have hsame : ∀ j < h.heap.size - 1, h₁.pop_back.keys j = h.keys j := by
        intro j hj
        rw [hkeys j hj, BinaryHeap.exchange_of_ne _ (by omega) (by omega)]
      refine ⟨fun j hj hjn _ => ?_, by omega⟩
      rw [hsame j hjn, hsame (j / 2) (by omega)]
      exact hheap.ordered j hj (by omega)
  obtain ⟨h', hrun, hheap', hcontents⟩ := top_down_spec h₁.heap.size (by omega) horder hpos (by omega)
    (by omega)
  refine ⟨h₁, h', hexch, hrun, hheap', ?_⟩
  rw [hcontents, ← contents_exch hpos (by omega) hexch, contents_pop_back (h := h₁) (by omega)]
  have hlast₁ : h₁.last = h.last := by rw [last, last, hsize]
  rw [hlast₁, get_exch hexch, Equiv.swap_apply_right]

theorem position_spec {ev : Event} (hmem : ev ∈ h.contents) :
    ∃ i, h.position ev.key.uid = some i ∧ 1 ≤ i ∧ i < h.heap.size := by
  obtain ⟨j, hpos, hj, rfl⟩ := mem_contents.mp hmem
  have hindex : ∀ i, i ∈ (List.range h.heap.size).drop 1 ↔ 1 ≤ i ∧ i < h.heap.size := by
    intro i
    rw [List.range_eq_range', List.drop_range', List.mem_range'_1]
    omega
  have hfound : (h.position (h.get j).key.uid).isSome = true :=
    List.find?_isSome.mpr ⟨j, (hindex j).mpr ⟨hpos, hj⟩, by simp⟩
  obtain ⟨i, hi⟩ := Option.isSome_iff_exists.mp hfound
  exact ⟨i, hi, (hindex i).mp (List.mem_of_find?_eq_some hi)⟩

theorem is_empty_iff (hheap : h.IsHeap) : h.is_empty = true ↔ h.contents = 0 := by
  have hwasted := hheap.wasted
  simp only [is_empty, beq_iff_eq, contents, Multiset.coe_eq_zero, List.drop_eq_nil_iff, Array.length_toList]
  omega

theorem isLeast_root (hheap : h.IsHeap) (hsome : h.contents ≠ 0) :
    1 < h.heap.size ∧ IsLeast Event.order h.contents (h.get root) := by
  obtain ⟨ev, hev⟩ := Multiset.exists_mem_of_ne_zero hsome
  obtain ⟨i, hpos, hi, _⟩ := mem_contents.mp hev
  refine ⟨by omega, mem_contents.mpr ⟨1, le_rfl, by omega, rfl⟩, fun b hb => ?_⟩
  obtain ⟨j, hj, hjn, rfl⟩ := mem_contents.mp hb
  exact hheap.ordered.root_le j hj hjn

end Operations

/-- The removal of `ev` goes well: the first event with its identifier is itself, and the
last event, which takes its place, is not less than the parent of that place. -/
def Replaceable (h : HeapScheduler) (ev : Event) : Prop :=
  ∀ i ∈ h.position ev.key.uid,
    h.get i = ev ∧ (i = root ∨ i = h.last ∨ h.is_less_strictly h.last (parent i) = false)

instance (h : HeapScheduler) (ev : Event) : Decidable (h.Replaceable ev) :=
  inferInstanceAs (Decidable (∀ i ∈ h.position ev.key.uid, _))

/-- What the heap needs of an operation beyond the rules of use. -/
def Sound (h : HeapScheduler) : Operation Event → Prop
  | .remove ev => h.Replaceable ev
  | _ => True

instance (h : HeapScheduler) : (op : Operation Event) → Decidable (h.Sound op)
  | .remove ev => inferInstanceAs (Decidable (h.Replaceable ev))
  | .insert _ | .remove_next | .peek_next | .is_empty => inferInstanceAs (Decidable True)

theorem operate_spec {m : Multiset Event} {op : Operation Event} (hheap : h.IsHeap) (hm : h.contents = m)
    (hlegal : Legal Event.order m op) (hsound : h.Sound op) :
    ∃ r, h.operate op = some r ∧ Answers Event.order m op r.2 ∧
      r.1.IsHeap ∧ r.1.contents = PriorityQueue.after m op r.2 := by
  subst hm
  cases op with
  | insert ev =>
    obtain ⟨h', hrun, hheap', hcontents⟩ := insert_spec hheap ev
    exact ⟨(h', .done), by rw [operate, hrun]; rfl, rfl, hheap', hcontents⟩
  | remove ev =>
    obtain ⟨i, hposition, hpos, hi⟩ := position_spec hlegal
    obtain ⟨hget, hplace⟩ := hsound i hposition
    obtain ⟨h₁, h', hexch, hrun, hheap', hcontents⟩ := remove_at_spec hheap hpos hi hplace
    refine ⟨(h', .done), ?_, rfl, hheap', ?_⟩
    · rw [operate, remove, hposition, Option.bind_some, if_pos (by rw [hget]), hexch, Option.bind_some, hrun]
      rfl
    · rw [PriorityQueue.after, hcontents, hget, Multiset.erase_cons_head]
  | remove_next =>
    obtain ⟨htwo, hleast⟩ := isLeast_root hheap hlegal
    obtain ⟨h₁, h', hexch, hrun, hheap', hcontents⟩ :=
      remove_at_spec hheap (show 1 ≤ root from le_rfl) htwo (.inl rfl)
    refine ⟨(h', .item (h.get root)), ?_, ⟨_, rfl, hleast⟩, hheap', ?_⟩
    · rw [operate, remove_next, hexch, Option.bind_some, hrun]
      rfl
    · rw [PriorityQueue.after, hcontents, Multiset.erase_cons_head]
  | peek_next =>
    obtain ⟨htwo, hleast⟩ := isLeast_root hheap hlegal
    exact ⟨(h, .item h.peek_next), by rw [operate, if_pos (show root < _ from htwo)], ⟨_, rfl, hleast⟩, hheap, rfl⟩
  | is_empty => exact ⟨(h, .flag h.is_empty), rfl, ⟨_, rfl, is_empty_iff hheap⟩, hheap, rfl⟩

def Fresh (s : HeapScheduler × Multiset Event) : Prop := s = ({}, 0)

theorem fresh : Fresh ({}, 0) := rfl

/-- A step of a run: it follows the rules of use, and a removal goes well. -/
def Admitted (s : HeapScheduler × Multiset Event) (op : Operation Event) : Prop :=
  Legal Event.order s.2 op ∧ s.1.Sound op

instance (s : HeapScheduler × Multiset Event) (op : Operation Event) : Decidable (Admitted s op) :=
  inferInstanceAs (Decidable (_ ∧ _))

/-- In every run whose removals go well, the heap serves every operation as a priority
queue that holds what has been inserted and not been removed. -/
theorem heap_scheduler_serves {s : HeapScheduler × Multiset Event}
    (hrun : Reachable Fresh (PriorityQueue.step operate) Admitted s) :
    s.1.contents = s.2 ∧ ∀ op, Admitted s op → Serves Event.order operate s op := by
  have hinit : ∀ s : HeapScheduler × Multiset Event, Fresh s → s.1.IsHeap ∧ s.1.contents = s.2 := by
    rintro s rfl
    exact ⟨⟨by simp, fun j hj hlt => by simp at hlt; omega⟩, by simp [contents]⟩
  obtain ⟨⟨_, hcontents⟩, hserves⟩ := PriorityQueue.serves_of_simulation
    (R := fun h m => h.IsHeap ∧ h.contents = m) hinit
    (fun h m op hr hcond => operate_spec hr.1 hr.2 hcond.1 hcond.2) hrun
  exact ⟨hcontents, hserves⟩

/-! Runs on six events, one of which is removed from the middle of the heap. -/

namespace Sample

def event (ts : UInt64) (uid : UInt32) : Event := ⟨uid.toNat, ⟨ts, uid, 0⟩⟩

def filled : List (Operation Event) :=
  [.insert (event 1 4), .insert (event 10 5), .insert (event 2 6), .insert (event 11 7), .insert (event 12 8),
    .insert (event 3 9)]

end Sample

theorem heap_scheduler_serves_sample : ∃ s : HeapScheduler × Multiset Event,
    Reachable Fresh (PriorityQueue.step operate) Admitted s ∧
      s.1.contents = s.2 ∧ ∀ op, Admitted s op → Serves Event.order operate s op := by
  obtain ⟨s, hs⟩ := Option.isSome_iff_exists.mp
    (show (Transition.execute (PriorityQueue.step operate) Admitted ({}, 0)
      (Sample.filled ++ [.remove (Sample.event 2 6), .remove_next])).isSome = true by decide +kernel)
  have hrun : Reachable Fresh (PriorityQueue.step operate) Admitted s := (Reachable.init fresh).execute hs
  exact ⟨s, hrun, heap_scheduler_serves hrun⟩

/-- The event that replaces a removed one stays below a greater parent, and comes out late. -/
theorem removal_delays_event : ∃ s : HeapScheduler × Multiset Event,
    Reachable Fresh (PriorityQueue.step operate) (fun s op => Legal Event.order s.2 op) s ∧
      Legal Event.order s.2 .remove_next ∧ ¬ Serves Event.order operate s .remove_next := by
  have hrun : (Transition.execute (PriorityQueue.step operate) (fun s op => Legal Event.order s.2 op) ({}, 0)
      (Sample.filled ++ [.remove (Sample.event 11 7), .insert (Sample.event 13 10), .remove_next, .remove_next])).map
        (fun s => (decide (Sample.event 3 9 ∈ s.2), (s.1.operate .remove_next).map (·.2))) =
      some (true, some (.item (Sample.event 10 5))) := by decide +kernel
  obtain ⟨s, hs, hfacts⟩ := Option.map_eq_some_iff.mp hrun
  simp only [Prod.mk.injEq, decide_eq_true_eq] at hfacts
  obtain ⟨hmem, hanswer⟩ := hfacts
  refine ⟨s, (Reachable.init fresh).execute hs, fun hnone => ?_, ?_⟩
  · rw [hnone] at hmem
    exact Multiset.notMem_zero _ hmem
  · rintro ⟨r, hr, a, ha, _, hleast⟩
    rw [hr, Option.map_some, ha] at hanswer
    cases hanswer
    exact absurd (hleast _ hmem) (by decide)

end Ns3.HeapScheduler
