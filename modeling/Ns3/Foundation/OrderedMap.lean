import Mathlib

/-- A map whose entries are kept in the order of their keys, each key once. -/
structure OrderedMap (κ α : Type*) [LT κ] where
  entries : List (κ × α)
  sorted : entries.Pairwise fun x y => x.1 < y.1

namespace OrderedMap

variable {κ α β : Type*} [LT κ]

instance [DecidableEq κ] [DecidableEq α] : DecidableEq (OrderedMap κ α) := fun m m' =>
  decidable_of_iff (m.entries = m'.entries) (by cases m; cases m'; simp)

instance : EmptyCollection (OrderedMap κ α) := ⟨⟨[], .nil⟩⟩

/-- The new values of the entries that are there. -/
def map (f : κ → α → β) (m : OrderedMap κ α) : OrderedMap κ β :=
  ⟨m.entries.map fun x => (x.1, f x.1 x.2), List.pairwise_map.mpr m.sorted⟩

def filter (p : κ → α → Bool) (m : OrderedMap κ α) : OrderedMap κ α :=
  ⟨m.entries.filter fun x => p x.1 x.2, m.sorted.filter _⟩

def keys (m : OrderedMap κ α) : List κ := m.entries.map Prod.fst

@[simp] theorem length_keys (m : OrderedMap κ α) : m.keys.length = m.entries.length := List.length_map _

theorem nodup_keys [IsStrictTotalOrder κ (· < ·)] (m : OrderedMap κ α) : m.keys.Nodup := by
  have hne : ∀ {x y : κ × α}, x.1 < y.1 → x.1 ≠ y.1 := fun hlt => ne_of_irrefl hlt
  exact List.pairwise_map.mpr (m.sorted.imp hne)

variable [DecidableEq κ]

def find (m : OrderedMap κ α) (k : κ) : Option α := (m.entries.find? (·.1 = k)).map (·.2)

def erase (m : OrderedMap κ α) (k : κ) : OrderedMap κ α := m.filter fun k' _ => k' ≠ k

section

variable [IsStrictTotalOrder κ (· < ·)] {m : OrderedMap κ α} {k k' : κ} {v : α}

theorem find_eq_some_iff : m.find k = some v ↔ (k, v) ∈ m.entries := by
  have hunique := List.inj_on_of_nodup_map (nodup_keys m)
  constructor
  · intro h
    obtain ⟨x, hx, rfl⟩ := Option.map_eq_some_iff.mp h
    have hkey : x.1 = k := by simpa using List.find?_some hx
    rw [← hkey]
    exact List.mem_of_find?_eq_some hx
  · intro h
    have hfound : (m.entries.find? (·.1 = k)).isSome := List.find?_isSome.mpr ⟨(k, v), h, decide_eq_true rfl⟩
    obtain ⟨x, hx⟩ := Option.isSome_iff_exists.mp hfound
    have hkey : x.1 = k := by simpa using List.find?_some hx
    rw [find, hx, hunique (List.mem_of_find?_eq_some hx) h hkey]
    rfl

theorem mem_keys : k ∈ m.keys ↔ (m.find k).isSome := by
  rw [keys, List.mem_map, Option.isSome_iff_exists]
  constructor
  · rintro ⟨x, hx, rfl⟩
    exact ⟨x.2, find_eq_some_iff.mpr hx⟩
  · rintro ⟨v, hv⟩
    exact ⟨(k, v), find_eq_some_iff.mp hv, rfl⟩

@[simp] theorem find_map (f : κ → α → β) (m : OrderedMap κ α) (k : κ) : (m.map f).find k = (m.find k).map (f k) := by
  refine Option.ext fun b => ?_
  rw [find_eq_some_iff, Option.map_eq_some_iff, map, List.mem_map]
  constructor
  · rintro ⟨x, hx, heq⟩
    cases heq
    exact ⟨x.2, find_eq_some_iff.mpr hx, rfl⟩
  · rintro ⟨a, ha, rfl⟩
    exact ⟨(k, a), find_eq_some_iff.mp ha, rfl⟩

theorem find_filter_eq_some_iff {p : κ → α → Bool} : (m.filter p).find k = some v ↔ m.find k = some v ∧ p k v = true := by
  rw [find_eq_some_iff, find_eq_some_iff]
  exact List.mem_filter

theorem find_erase_eq_some_iff : (m.erase k').find k = some v ↔ m.find k = some v ∧ k ≠ k' := by
  rw [erase, find_filter_eq_some_iff, decide_eq_true_iff]

end

variable [DecidableLT κ]

/-- An entry is put in its place, where it replaces one with the same key. -/
def insertEntry (k : κ) (v : α) : List (κ × α) → List (κ × α)
  | [] => [(k, v)]
  | x :: rest =>
    if k < x.1 then (k, v) :: x :: rest
    else if k = x.1 then (k, v) :: rest
    else x :: insertEntry k v rest

theorem mem_insertEntry {k : κ} {v : α} {l : List (κ × α)} {x : κ × α} (h : x ∈ insertEntry k v l) :
    x = (k, v) ∨ x ∈ l := by
  induction l with
  | nil => exact .inl (List.mem_singleton.mp h)
  | cons y rest ih =>
    rw [insertEntry] at h
    split_ifs at h
    · exact List.mem_cons.mp h
    · exact (List.mem_cons.mp h).imp_right (List.mem_cons_of_mem y)
    · rcases List.mem_cons.mp h with rfl | hrest
      · exact .inr (List.mem_cons_self ..)
      · exact (ih hrest).imp_right (List.mem_cons_of_mem y)

variable [IsStrictTotalOrder κ (· < ·)]

theorem insertEntry_sorted (k : κ) (v : α) {l : List (κ × α)} (h : l.Pairwise fun x y => x.1 < y.1) :
    (insertEntry k v l).Pairwise fun x y => x.1 < y.1 := by
  induction l with
  | nil => exact List.pairwise_singleton _ _
  | cons y rest ih =>
    obtain ⟨hfirst, hrest⟩ := List.pairwise_cons.mp h
    rw [insertEntry]
    split_ifs with hlt heq
    · refine List.pairwise_cons.mpr ⟨fun z hz => ?_, h⟩
      rcases List.mem_cons.mp hz with rfl | hz
      · exact hlt
      · exact trans_of (· < ·) hlt (hfirst z hz)
    · subst heq
      exact List.pairwise_cons.mpr ⟨hfirst, hrest⟩
    · refine List.pairwise_cons.mpr ⟨fun z hz => ?_, ih hrest⟩
      rcases mem_insertEntry hz with rfl | hz
      · rcases trichotomous_of (· < ·) k y.1 with hless | hsame | hmore
        · exact absurd hless hlt
        · exact absurd hsame heq
        · exact hmore
      · exact hfirst z hz

def set (m : OrderedMap κ α) (k : κ) (v : α) : OrderedMap κ α :=
  ⟨insertEntry k v m.entries, insertEntry_sorted k v m.sorted⟩

variable {k k' : κ}

theorem find_set (m : OrderedMap κ α) (k k' : κ) (v : α) :
    (m.set k v).find k' = if k' = k then some v else m.find k' := by
  obtain ⟨l, hl⟩ := m
  simp only [find, set]
  clear hl
  induction l with
  | nil => by_cases h : k = k' <;> simp [insertEntry, h, eq_comm]
  | cons x rest ih =>
    rw [insertEntry]
    by_cases h : k' = k
    · subst h
      rw [if_pos rfl] at ih ⊢
      split
      · simp
      · split
        · simp
        next heq => rw [List.find?_cons_of_neg (by simpa using Ne.symm heq), ih]
    · rw [if_neg h] at ih ⊢
      split
      · rw [List.find?_cons_of_neg (by simpa using Ne.symm h)]
      · split
        next heq =>
          have hx : x.1 ≠ k' := fun hx => h (by rw [heq, hx])
          rw [List.find?_cons_of_neg (by simpa using Ne.symm h), List.find?_cons_of_neg (by simpa using hx)]
        · rw [List.find?_cons, List.find?_cons]
          split
          · rfl
          · exact ih

@[simp] theorem find_set_self (m : OrderedMap κ α) (k : κ) (v : α) : (m.set k v).find k = some v := by
  rw [find_set, if_pos rfl]

theorem find_set_of_ne (m : OrderedMap κ α) (v : α) (h : k' ≠ k) : (m.set k v).find k' = m.find k' := by
  rw [find_set, if_neg h]

end OrderedMap
