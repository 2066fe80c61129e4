import Mathlib

/-! Linked lists in a heap whose nodes several of them may share. -/

namespace SharedList

variable {ν : Type*}

/-- The nodes by address; a freed one is gone. -/
abbrev Heap (ν : Type*) := List (Option ν)

def read (heap : Heap ν) (a : ℕ) : Option ν := heap[a]?.join

variable {heap heap' : Heap ν} {a b : ℕ} {c c' : ν}

theorem read_lt (h : read heap a = some c) : a < heap.length := by
  by_contra hge
  rw [read, List.getElem?_eq_none (not_lt.mp hge)] at h
  cases h

theorem getElem?_of_read (h : read heap a = some c) : heap[a]? = some (some c) := by
  cases hcell : heap[a]? with
  | none => simp [read, hcell] at h
  | some cell => simp [read, hcell] at h; rw [h]

theorem read_set (hb : b < heap.length) (v : Option ν) :
    read (heap.set b v) a = if a = b then v else read heap a := by
  by_cases heq : a = b
  · subst heq
    simp [read, hb]
  · rw [if_neg heq, read, read, List.getElem?_set_ne (Ne.symm heq)]

theorem read_append (v : ν) : read (heap ++ [some v]) a = if a = heap.length then some v else read heap a := by
  rcases lt_trichotomy a heap.length with hlt | rfl | hgt
  · rw [if_neg hlt.ne, read, read, List.getElem?_append_left hlt]
  · simp [read]
  · rw [if_neg hgt.ne', read, read, List.getElem?_eq_none (by simp; omega), List.getElem?_eq_none hgt.le]

variable (next : ν → Option ℕ)

/-- The nodes on the way from one pointer to another. -/
def Walk (heap : Heap ν) : Option ℕ → List ℕ → Option ℕ → Prop
  | p, [], q => p = q
  | p, a :: l, q => p = some a ∧ ∃ c, read heap a = some c ∧ Walk heap (next c) l q

def incoming (heap : Heap ν) (a : ℕ) : ℕ := heap.countP fun v => decide (v.bind next = some a)

/-- The pointers to an address, from the roots and from the nodes. -/
def references (roots : List (Option ℕ)) (heap : Heap ν) (a : ℕ) : ℕ := roots.count (some a) + incoming next heap a

variable {next} {roots : List (Option ℕ)} {p q r : Option ℕ} {l l' : List ℕ}

theorem Walk.append (h : Walk next heap p l q) (h' : Walk next heap q l' r) : Walk next heap p (l ++ l') r := by
  induction l generalizing p with
  | nil =>
    obtain rfl : p = q := h
    exact h'
  | cons a l ih =>
    obtain ⟨rfl, c, hread, hrest⟩ := h
    exact ⟨rfl, c, hread, ih hrest⟩

theorem Walk.split (h : Walk next heap p (l ++ l') r) : ∃ q, Walk next heap p l q ∧ Walk next heap q l' r := by
  induction l generalizing p with
  | nil => exact ⟨p, rfl, h⟩
  | cons a l ih =>
    obtain ⟨rfl, c, hread, hrest⟩ := h
    obtain ⟨q, hfirst, hlast⟩ := ih hrest
    exact ⟨q, ⟨rfl, c, hread, hfirst⟩, hlast⟩

theorem Walk.live (h : Walk next heap p l q) (ha : a ∈ l) : ∃ c, read heap a = some c := by
  induction l generalizing p with
  | nil => cases ha
  | cons b l ih =>
    obtain ⟨_, c, hread, hrest⟩ := h
    rcases List.mem_cons.mp ha with rfl | ha
    · exact ⟨c, hread⟩
    · exact ih hrest ha

theorem Walk.unique (h : Walk next heap p l none) (h' : Walk next heap p l' none) : l = l' := by
  induction l generalizing p l' with
  | nil =>
    obtain rfl : p = none := h
    cases l' with
    | nil => rfl
    | cons => cases h'.1
  | cons a l ih =>
    obtain ⟨rfl, c, hread, hrest⟩ := h
    cases l' with
    | nil => cases h'
    | cons b l' =>
      obtain ⟨heq, c', hread', hrest'⟩ := h'
      cases heq
      obtain rfl : c = c' := Option.some.inj (hread.symm.trans hread')
      rw [ih hrest hrest']

theorem Walk.nodup (h : Walk next heap p l none) : l.Nodup := by
  induction l generalizing p with
  | nil => exact List.nodup_nil
  | cons a l ih =>
    have hwhole := h
    obtain ⟨rfl, c, hread, hrest⟩ := h
    refine List.nodup_cons.mpr ⟨fun hmem => ?_, ih hrest⟩
    obtain ⟨l₁, l₂, rfl⟩ := List.append_of_mem hmem
    obtain ⟨q, _, hagain⟩ := hrest.split
    obtain rfl := hagain.1
    have hsame := congrArg List.length (hagain.unique hwhole)
    simp at hsame
    omega

theorem Walk.length_le (h : Walk next heap p l none) : l.length ≤ heap.length := by
  have hsub : l.toFinset ⊆ Finset.range heap.length := fun a ha => by
    obtain ⟨c, hread⟩ := h.live (List.mem_toFinset.mp ha)
    exact Finset.mem_range.mpr (read_lt hread)
  have hcard := Finset.card_le_card hsub
  rwa [List.toFinset_card_of_nodup h.nodup, Finset.card_range] at hcard

theorem Walk.congr (h : Walk next heap p l q)
    (hsame : ∀ a ∈ l, ∀ c, read heap a = some c → ∃ c', read heap' a = some c' ∧ next c' = next c) :
    Walk next heap' p l q := by
  induction l generalizing p with
  | nil => exact h
  | cons a l ih =>
    obtain ⟨rfl, c, hread, hrest⟩ := h
    obtain ⟨c', hread', hnext⟩ := hsame a (by simp) c hread
    exact ⟨rfl, c', hread', hnext ▸ ih hrest fun b hb => hsame b (by simp [hb])⟩

theorem Walk.predecessor (h : Walk next heap p l q) (ha : a ∈ l) :
    p = some a ∨ ∃ b ∈ l, ∃ c, read heap b = some c ∧ next c = some a := by
  induction l generalizing p with
  | nil => cases ha
  | cons b l ih =>
    obtain ⟨rfl, c, hread, hrest⟩ := h
    rcases List.mem_cons.mp ha with rfl | ha
    · exact .inl rfl
    · rcases ih hrest ha with hnext | ⟨b', hb', hpoints⟩
      · exact .inr ⟨b, by simp, c, hread, hnext⟩
      · exact .inr ⟨b', by simp [hb'], hpoints⟩

theorem incoming_append (v : ν) (a : ℕ) :
    incoming next (heap ++ [some v]) a = incoming next heap a + if next v = some a then 1 else 0 := by
  simp [incoming, List.countP_append, List.countP_cons]

variable (next) in
theorem incoming_set (hread : read heap b = some c) (v : Option ν) (a : ℕ) :
    incoming next (heap.set b v) a + (if next c = some a then 1 else 0) =
      incoming next heap a + if v.bind next = some a then 1 else 0 := by
  have hlt := read_lt hread
  have hcell : heap[b] = some c := by
    have hget := getElem?_of_read hread
    rw [List.getElem?_eq_getElem hlt] at hget
    exact Option.some.inj hget
  have hle : (if next c = some a then 1 else 0) ≤ incoming next heap a := by
    split
    next hpoints =>
      exact List.countP_pos_iff.mpr ⟨some c, hcell ▸ List.getElem_mem hlt, by simpa using hpoints⟩
    next => exact Nat.zero_le _
  rw [incoming, List.countP_set hlt, hcell]
  simp only [Option.bind_some, decide_eq_true_eq, incoming] at hle ⊢
  omega

theorem count_set {x : ℕ} (hx : roots[x]? = some p) (q : Option ℕ) (a : ℕ) :
    (roots.set x q).count (some a) + (if p = some a then 1 else 0) =
      roots.count (some a) + if q = some a then 1 else 0 := by
  obtain ⟨hlt, hget⟩ := List.getElem?_eq_some_iff.mp hx
  have hle : (if p = some a then 1 else 0) ≤ roots.count (some a) := by
    split
    next heq => exact List.count_pos_iff.mpr (heq ▸ hget ▸ List.getElem_mem hlt)
    next => exact Nat.zero_le _
  rw [List.count_set hlt, hget]
  simp only [beq_iff_eq] at hle ⊢
  omega

theorem root_references {x : ℕ} (hx : roots[x]? = some (some a)) : 0 < roots.count (some a) :=
  List.count_pos_iff.mpr (List.mem_of_getElem? hx)

variable (next) in
theorem node_references (hread : read heap b = some c) (hnext : next c = some a) : 0 < incoming next heap a :=
  List.countP_pos_iff.mpr ⟨some c, List.mem_of_getElem? (getElem?_of_read hread), by simpa using hnext⟩

theorem two_roots {x y : ℕ} (hxy : x ≠ y) (hx : roots[x]? = some (some a)) (hy : roots[y]? = some (some a)) :
    2 ≤ roots.count (some a) := by
  have hset := count_set hx none a
  have hleft : (roots.set x none)[y]? = some (some a) := by rw [List.getElem?_set_ne hxy, hy]
  have hpos := root_references hleft
  simp at hset
  omega

theorem two_nodes {b' : ℕ} (hbb : b ≠ b') (hread : read heap b = some c) (hnext : next c = some a)
    (hread' : read heap b' = some c') (hnext' : next c' = some a) : 2 ≤ incoming next heap a := by
  have hset := incoming_set next hread none a
  have hleft : read (heap.set b none) b' = some c' := by
    rw [read_set (read_lt hread), if_neg hbb.symm, hread']
  have hpos := node_references next hleft hnext'
  simp [hnext] at hset
  omega

theorem Walk.lone_disjoint {x y : ℕ} {p' : Option ℕ} (hxy : x ≠ y) (hx : roots[x]? = some p)
    (hpre : Walk next heap p l q) (hlone : ∀ a ∈ l, references next roots heap a = 1) (hy : roots[y]? = some p')
    (hother : Walk next heap p' l' r) : ∀ a ∈ l, a ∉ l' := by
  -- by induction from the front: the only pointer to a node is the one of its predecessor here
  induction l using List.reverseRecOn generalizing q with
  | nil => simp
  | append_singleton l b ih =>
    obtain ⟨q', hfirst, hlast⟩ := hpre.split
    obtain ⟨rfl, _⟩ := hlast
    have hbefore := ih hfirst fun a ha => hlone a (by simp [ha])
    intro a ha
    rcases List.mem_append.mp ha with ha | ha
    · exact hbefore a ha
    obtain rfl := List.mem_singleton.mp ha
    intro hmem
    have hone := hlone a (by simp)
    rw [references] at hone
    -- the pointer to `a` from this list
    have hmine : roots[x]? = some (some a) ∨ ∃ b ∈ l, ∃ c, read heap b = some c ∧ next c = some a := by
      cases hl : l using List.reverseRecOn with
      | nil =>
        subst hl
        obtain rfl : p = some a := hfirst
        exact .inl hx
      | append_singleton l₁ d =>
        subst hl
        obtain ⟨q', _, hd⟩ := hfirst.split
        obtain ⟨_, c, hread, hnext⟩ := hd
        exact .inr ⟨d, by simp, c, hread, hnext⟩
    -- and the one from the other list
    rcases hother.predecessor hmem with hroot | ⟨d, hd, c, hread, hnext⟩
    · rw [hroot] at hy
      rcases hmine with hx' | ⟨b, hb, c, hread, hnext⟩
      · have htwo := two_roots hxy hx' hy
        omega
      · have hcount := root_references hy
        have hcount' := node_references next hread hnext
        omega
    · rcases hmine with hx' | ⟨b, hb, c', hread', hnext'⟩
      · have hcount := root_references hx'
        have hcount' := node_references next hread hnext
        omega
      · by_cases hbd : b = d
        · exact hbefore b hb (hbd ▸ hd)
        · have htwo := two_nodes hbd hread' hnext' hread hnext
          omega

end SharedList
