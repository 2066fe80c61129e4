import Ns3.Network.PacketTagList

/-! What the steps of the tag lists do to the nodes and to the pointers. -/

namespace Ns3.PacketTagList

open SharedList (Walk incoming)

namespace TagLists

/-- The pointers to a node, from lists and from nodes. -/
def references (s : TagLists) (a : ℕ) : ℕ := SharedList.references TagData.next (s.lists.map Option.join) s.heap a

def pointer (s : TagLists) : Slot → Option (Option ℕ)
  | .head x => (s.lists[x]?).join
  | .next a => (s.read a).map TagData.next

/-- The tags in the nodes at some addresses. -/
def entries (s : TagLists) (l : List ℕ) : List (TypeId × TagBytes) :=
  l.filterMap fun a => (s.read a).map fun node => (node.tid, node.data)

variable {s s' : TagLists} {a b x : ℕ} {node : TagData} {p q : Option ℕ} {slot : Slot} {l l' : List ℕ}

theorem read_lt (h : s.read a = some node) : a < s.heap.length := SharedList.read_lt h

theorem write_read (h : s.read b = some node) (node' : TagData) (a : ℕ) :
    (s.write b node').read a = if a = b then some node' else s.read a :=
  SharedList.read_set (read_lt h) _

theorem free_read (h : s.read b = some node) (a : ℕ) : (s.free b).read a = if a = b then none else s.read a :=
  SharedList.read_set (read_lt h) _

theorem write_references (h : s.read b = some node) (node' : TagData) (a : ℕ) :
    (s.write b node').references a + (if node.next = some a then 1 else 0) =
      s.references a + if node'.next = some a then 1 else 0 := by
  have hset := SharedList.incoming_set TagData.next h (some node') a
  simp only [references, SharedList.references, write, Option.bind_some] at hset ⊢
  omega

theorem free_references (h : s.read b = some node) (a : ℕ) :
    (s.free b).references a + (if node.next = some a then 1 else 0) = s.references a := by
  have hset := SharedList.incoming_set TagData.next h none a
  simp only [references, SharedList.references, free, Option.bind_none, reduceCtorEq, if_false] at hset ⊢
  omega

theorem write_references_of_next (h : s.read b = some node) {node' : TagData} (hnext : node'.next = node.next)
    (a : ℕ) : (s.write b node').references a = s.references a := by
  have hset := write_references h node' a
  rw [hnext] at hset
  omega

theorem increment_spec (h : s.read b = some node) :
    ∃ s', s.increment b = some s' ∧ s'.lists = s.lists ∧ s'.heap.length = s.heap.length ∧
      (∀ a, s'.references a = s.references a) ∧
      ∀ a, s'.read a = if a = b then some { node with count := node.count + 1 } else s.read a := by
  refine ⟨s.write b { node with count := node.count + 1 }, by rw [increment, h]; rfl, rfl, List.length_set,
    fun a => ?_, fun a => write_read h _ a⟩
  apply write_references_of_next h
  rfl

theorem decrement_spec (h : s.read b = some node) :
    ∃ s', s.decrement b = some s' ∧ s'.lists = s.lists ∧ s'.heap.length = s.heap.length ∧
      (∀ a, s'.references a = s.references a) ∧
      ∀ a, s'.read a = if a = b then some { node with count := node.count - 1 } else s.read a := by
  refine ⟨s.write b { node with count := node.count - 1 }, by rw [decrement, h]; rfl, rfl, List.length_set,
    fun a => ?_, fun a => write_read h _ a⟩
  apply write_references_of_next h
  rfl

theorem increment_if_spec (h : ∀ b, p = some b → ∃ node, s.read b = some node) :
    ∃ s', s.increment_if p = some s' ∧ s'.lists = s.lists ∧ s'.heap.length = s.heap.length ∧
      (∀ a, s'.references a = s.references a) ∧
      ∀ a, s'.read a = if p = some a then (s.read a).map fun node => { node with count := node.count + 1 }
        else s.read a := by
  cases p with
  | none => exact ⟨s, rfl, rfl, rfl, fun _ => rfl, fun a => by simp⟩
  | some b =>
    obtain ⟨node, hnode⟩ := h b rfl
    obtain ⟨s', hs', hlists, hlength, hrefs, hread⟩ := increment_spec hnode
    refine ⟨s', hs', hlists, hlength, hrefs, fun a => ?_⟩
    rw [hread]
    by_cases heq : a = b
    · subst heq
      simp [hnode]
    · rw [if_neg heq, if_neg fun hb => heq (Option.some.inj hb).symm]

theorem create_tag_data_spec (node : TagData) (hsize : node.data.length < 2 ^ 32 - 1) :
    ∃ s', s.create_tag_data node = some s' ∧ s'.lists = s.lists ∧ s'.heap.length = s.heap.length + 1 ∧
      (∀ a, s'.references a = s.references a + if node.next = some a then 1 else 0) ∧
      ∀ a, s'.read a = if a = s.heap.length then some node else s.read a := by
  refine ⟨{ s with heap := s.heap ++ [some node] }, by rw [create_tag_data, if_pos hsize], rfl, by simp,
    fun a => ?_, fun a => SharedList.read_append node⟩
  simp only [references, SharedList.references, SharedList.incoming_append]
  omega

theorem assign_spec (h : s.pointer slot = some p) (q : Option ℕ) :
    ∃ s', s.assign q slot = some s' ∧ s'.heap.length = s.heap.length ∧ s'.lists.length = s.lists.length ∧
      (∀ y, s'.lists[y]? = if slot = .head y then some (some q) else s.lists[y]?) ∧
      (∀ a, s'.references a + (if p = some a then 1 else 0) = s.references a + if q = some a then 1 else 0) ∧
      ∀ a, s'.read a = if slot = .next a then (s.read a).map fun node => { node with next := q } else s.read a := by
  cases slot with
  | head x =>
    have hx : s.lists[x]? = some (some p) := by
      cases hcell : s.lists[x]? with
      | none => simp [pointer, hcell] at h
      | some cell => simp [pointer, hcell] at h; rw [h]
    refine ⟨_, rfl, rfl, List.length_set, fun y => ?_, fun a => ?_, fun a => by simp [read]⟩
    · by_cases heq : x = y
      · subst heq
        rw [if_pos rfl, List.getElem?_set_self (List.getElem?_eq_some_iff.mp hx).1]
      · rw [if_neg (by simpa using heq), List.getElem?_set_ne heq]
    · have hroot : (s.lists.map Option.join)[x]? = some p := by rw [List.getElem?_map, hx]; rfl
      have hset := SharedList.count_set hroot q a
      simp only [references, SharedList.references, List.map_set, Option.join_some] at hset ⊢
      omega
  | next b =>
    obtain ⟨node, hnode, rfl⟩ := Option.map_eq_some_iff.mp h
    refine ⟨s.write b { node with next := q }, by rw [assign, hnode]; rfl, List.length_set, rfl,
      fun y => by simp [write], fun a => write_references hnode _ a, fun a => ?_⟩
    rw [write_read hnode]
    by_cases heq : a = b
    · subst heq
      simp [hnode]
    · rw [if_neg heq, if_neg (by simpa using Ne.symm heq)]

theorem assign_pointer (h : s.pointer slot = some p) (hassign : s.assign q slot = some s') :
    s'.pointer slot = some q := by
  cases slot with
  | head x =>
    cases hassign
    cases hcell : s.lists[x]? with
    | none => simp [pointer, hcell] at h
    | some cell =>
      rw [pointer, List.getElem?_set_self (List.getElem?_eq_some_iff.mp hcell).1]
      rfl
  | next b =>
    obtain ⟨node, hnode, rfl⟩ := Option.map_eq_some_iff.mp h
    rw [assign, hnode] at hassign
    cases hassign
    rw [pointer, write_read hnode, if_pos rfl]
    rfl

theorem entries_append : s.entries (l ++ l') = s.entries l ++ s.entries l' := List.filterMap_append

theorem entries_cons (h : s.read a = some node) : s.entries (a :: l) = (node.tid, node.data) :: s.entries l := by
  rw [entries, List.filterMap_cons, h]
  rfl

theorem entries_congr (h : ∀ a ∈ l, ∀ node, s.read a = some node →
    ∃ node', s'.read a = some node' ∧ node'.tid = node.tid ∧ node'.data = node.data)
    (hlive : ∀ a ∈ l, ∃ node, s.read a = some node) : s'.entries l = s.entries l := by
  induction l with
  | nil => rfl
  | cons a l ih =>
    obtain ⟨node, hnode⟩ := hlive a (by simp)
    obtain ⟨node', hnode', htid, hdata⟩ := h a (by simp) node hnode
    rw [entries_cons hnode, entries_cons hnode', htid, hdata,
      ih (fun b hb => h b (by simp [hb])) fun b hb => hlive b (by simp [hb])]

end TagLists

end Ns3.PacketTagList
