import Ns3.Network.PacketTagList.Transitions

/-! The beginning and the end of lists: new tags, copies and the release of the nodes. -/

namespace Ns3.PacketTagList.TagLists

open SharedList (Walk)

variable {s s' : TagLists} {a x y turns : ℕ} {node : TagData} {p : Option ℕ} {l : List ℕ}
  {tags : List (TypeId × TagBytes)}

theorem at_head (hx : s.lists[x]? = some (some p)) (hwalk : Walk TagData.next s.heap p l none) :
    At s x [] (.head x) p l := ⟨⟨p, hx, rfl⟩, by simp, rfl, hwalk⟩

theorem head_ne_next : Slot.head x ≠ .next a := by simp

theorem head_eq (hx : s.lists[x]? = some (some p)) : s.head x = p := by rw [head, hx]; rfl

theorem push_spec (hcounted : Counted s) (hx : s.lists[x]? = some (some p))
    (hwalk : Walk TagData.next s.heap p l none) (tid : TypeId) {tag : TagBytes} (hsize : tag.length < 2 ^ 32 - 1) :
    ∃ s₁ s', s.create_tag_data ⟨p, 1, tid, tag⟩ = some s₁ ∧ s₁.assign (some s.heap.length) (.head x) = some s' ∧
      Counted s' ∧ Frame x s s' ∧ Owns s' x ((tid, tag) :: s.entries l) := by
  obtain ⟨s₁, hs₁, hlists₁, hlength₁, hrefs₁, hread₁⟩ := create_tag_data_spec (s := s) ⟨p, 1, tid, tag⟩ hsize
  have hplace := at_head hx hwalk
  have hpointer₁ : s₁.pointer (.head x) = some p := by rw [pointer, hlists₁, hx]; rfl
  obtain ⟨s', hs', hlength', hlistslength', hlists', hrefs', hread'⟩ := assign_spec hpointer₁ (some s.heap.length)
  have hadjusts : ∀ a, a ≠ s.heap.length → Adjusts s s' (.head x) (some s.heap.length) none none a := by
    intro a ha
    rw [Adjusts, hread', hread₁, if_neg ha]
    cases s.read a <;> simp [adjusted, moved]
  have hrefs : ∀ a, s'.references a = s.references a + if a = s.heap.length then 1 else 0 := by
    intro a
    have h₁ := hrefs₁ a
    have h₂ := hrefs' a
    simp only [Option.some.injEq, eq_comm (a := s.heap.length)] at h₁ h₂
    omega
  have hnew : s'.read s.heap.length = some ⟨p, 1, tid, tag⟩ := by
    rw [hread', if_neg (by simp), hread₁, if_pos rfl]
  have hnew_refs : s'.references s.heap.length = 1 := by rw [hrefs, hcounted.fresh, if_pos rfl]
  obtain ⟨hframe, ⟨h', hh', rfl⟩, _, hkept⟩ := hplace.adjust (assign_pointer hpointer₁ hs') (by rw [hlistslength', hlists₁])
    (by simpa only [hlists₁] using hlists') fun a n hn => hadjusts a (read_lt hn).ne
  refine ⟨s₁, s', hs₁, hs', ?_, hframe, _, s.heap.length :: l, hh', ⟨rfl, _, hnew, kept_walk hwalk hkept⟩, ?_⟩
  · apply hcounted.adjust (c := s.heap.length) _ _ _ hadjusts
    · simp
    · simp
    · simp
    · intro n hn
      obtain rfl := Option.some.inj (hnew.symm.trans hn)
      rw [hnew_refs]
      exact ⟨rfl, one_pos⟩
    · exact fun _ => ⟨_, hnew⟩
    · intro a ha
      rw [hrefs, if_neg ha]
      simp
  · rw [entries_cons hnew, kept_entries hwalk hkept]

theorem share_spec (hcounted : Counted s) (hxy : x ≠ y) (hx : s.lists[x]? = some (some none))
    (hy : s.lists[y]? = some (some p)) (howns : Owns s y tags)
    (hroom : ∀ a, p = some a → s.references a + 1 < 2 ^ 32) :
    ∃ s₁ s', s.assign p (.head x) = some s₁ ∧ s₁.increment_if p = some s' ∧ s₁.head y = p ∧ Counted s' ∧
      Frame x s s' ∧ Owns s' x tags := by
  have hplace := at_head hx (l := []) rfl
  obtain ⟨s₁, hs₁, hlength₁, hlistslength₁, hlists₁, hrefs₁, hread₁⟩ := assign_spec hplace.pointer p
  have hlive : ∀ a, p = some a → ∃ n, s.read a = some n := by
    rintro a rfl
    exact hcounted.live a (references_root hy)
  have hlive₁ : ∀ a, p = some a → ∃ n, s₁.read a = some n := by
    intro a ha
    rw [hread₁, if_neg (by simp)]
    exact hlive a ha
  obtain ⟨s', hs', hlists', hlength', hrefs', hread'⟩ := increment_if_spec hlive₁
  have hadjusts : ∀ a, Adjusts s s' (.head x) p none p a := by
    intro a
    rw [Adjusts, hread', hread₁, if_neg (head_ne_next (a := a))]
    by_cases hpa : p = some a
    · cases s.read a <;> simp [hpa, adjusted, moved]
    · cases s.read a <;> simp [hpa, adjusted, moved]
  have hrefs : ∀ a, s'.references a = s.references a + if p = some a then 1 else 0 := by
    intro a
    have h₁ := hrefs₁ a
    have h₂ := hrefs' a
    simp only [reduceCtorEq, if_false] at h₁
    omega
  have hpointer : s'.pointer (.head x) = some p := by
    have hassigned := assign_pointer hplace.pointer hs₁
    rwa [pointer, ← hlists'] at hassigned
  obtain ⟨hframe, ⟨h', hh', rfl⟩, _⟩ := hplace.adjust hpointer (by rw [hlists', hlistslength₁])
    (by simpa only [hlists'] using hlists₁) fun a _ _ => hadjusts a
  obtain ⟨p', l, hp', hwalk, htags⟩ := howns
  obtain rfl : h' = p' := by
    rw [hy] at hp'
    exact Option.some.inj (Option.some.inj hp')
  have hkept : ∀ a ∈ l, Kept s s' a := fun a _ => (hadjusts a).kept (by simp)
  refine ⟨s₁, s', hs₁, hs', ?_, ?_, hframe, h', l, hh', kept_walk hwalk hkept, (kept_entries hwalk hkept).trans htags⟩
  · apply head_eq
    rw [hlists₁, if_neg (by simpa using hxy), hy]
  · apply hcounted.adjust (c := s.heap.length) _ _ _ fun a _ => hadjusts a
    · simp
    · rintro a rfl
      exact ⟨references_root hy, hroom a rfl⟩
    · simp
    · intro n hn
      have hlt := read_lt hn
      omega
    · have hfresh := hcounted.fresh
      have hp : h' ≠ some s.heap.length := by
        intro heq
        obtain ⟨_, hlt⟩ := hlive _ heq
        exact (read_lt hlt).false
      rw [hrefs, hfresh, if_neg hp]
      simp
    · intro a _
      rw [hrefs]
      simp

theorem remove_all_loop_lists (lists : List (Option (Option ℕ))) :
    remove_all_loop turns { s with lists } p = (remove_all_loop turns s p).map fun s' => { s' with lists } := by
  induction turns generalizing s p with
  | zero => rfl
  | succ turns ih =>
    cases p with
    | none => rfl
    | some cur =>
      have hread : ({ s with lists } : TagLists).read cur = s.read cur := rfl
      rw [remove_all_loop, remove_all_loop, hread]
      cases s.read cur with
      | none => rfl
      | some node =>
        simp only [Option.bind_eq_bind, Option.bind_some]
        split
        · rfl
        · exact ih (s := s.free cur)

theorem leave_spec {b : ℕ} (hcounted : Counted s) (hx : s.lists[x]? = some (some (some b)))
    (hwalk : Walk TagData.next s.heap (some b) l none) (hnode : s.read b = some node) (hshared : 2 ≤ s.references b) :
    Counted { s.write b { node with count := node.count - 1 } with lists := s.lists.set x (some none) } ∧
      Frame x s { s.write b { node with count := node.count - 1 } with lists := s.lists.set x (some none) } ∧
      ∀ a, ({ s.write b { node with count := node.count - 1 } with
        lists := s.lists.set x (some none) } : TagLists).references a ≤ s.references a := by
  have hplace := at_head hx hwalk
  obtain ⟨s₁, hs₁, hlength₁, hlistslength₁, hlists₁, hrefs₁, hread₁⟩ := assign_spec hplace.pointer none
  have hnode₁ : s₁.read b = some node := by rw [hread₁, if_neg head_ne_next, hnode]
  obtain ⟨s', hs', hlists', hlength', hrefs', hread'⟩ := decrement_spec hnode₁
  have heq : s' = { s.write b { node with count := node.count - 1 } with lists := s.lists.set x (some none) } := by
    rw [decrement, hnode₁] at hs'
    cases hs₁
    cases hs'
    rfl
  have hadjusts : ∀ a, Adjusts s s' (.head x) none (some b) none a := by
    intro a
    rw [Adjusts, hread', hread₁, if_neg (head_ne_next (a := a))]
    by_cases hab : a = b
    · subst hab
      simp [hnode, adjusted, moved]
    · cases s.read a <;> simp [hab, Ne.symm hab, adjusted, moved]
  have hrefs : ∀ a, s'.references a + (if some b = some a then 1 else 0) = s.references a := by
    intro a
    have h₁ := hrefs₁ a
    have h₂ := hrefs' a
    simp only [reduceCtorEq, if_false] at h₁
    omega
  have hpointer : s'.pointer (.head x) = some none := by
    have hassigned := assign_pointer hplace.pointer hs₁
    rwa [pointer, ← hlists'] at hassigned
  obtain ⟨hframe, _⟩ := hplace.adjust hpointer (by rw [hlists', hlistslength₁])
    (by simpa only [hlists'] using hlists₁) fun a _ _ => hadjusts a
  rw [← heq]
  refine ⟨?_, hframe, fun a => Nat.le.intro (hrefs a)⟩
  apply hcounted.adjust (c := s.heap.length) _ _ (fun a _ => by simpa using hrefs a) fun a _ => hadjusts a
  · intro a ha
    exact Option.some.inj ha ▸ hshared
  · simp
  · simp
  · intro n hn
    have hlt := read_lt hn
    omega
  · have href := hrefs s.heap.length
    have hfresh := hcounted.fresh
    omega

theorem release_spec (hcounted : Counted s) (hx : s.lists[x]? = some (some p))
    (hwalk : Walk TagData.next s.heap p l none) (hturns : l.length < turns) :
    ∃ s', remove_all_loop turns s p = some s' ∧ s'.lists = s.lists ∧
      Counted { s' with lists := s.lists.set x (some none) } ∧
      Frame x s { s' with lists := s.lists.set x (some none) } ∧
      ∀ a, ({ s' with lists := s.lists.set x (some none) } : TagLists).references a ≤ s.references a := by
  induction l generalizing s p turns with
  | nil =>
    obtain rfl : p = none := hwalk
    obtain ⟨turns, rfl⟩ := Nat.exists_eq_add_of_lt hturns
    have hsame : s.lists.set x (some none) = s.lists := by
      obtain ⟨hlt, hget⟩ := List.getElem?_eq_some_iff.mp hx
      rw [← hget, List.set_getElem_self]
    rw [hsame]
    exact ⟨s, rfl, rfl, hcounted, Frame.refl, fun _ => le_rfl⟩
  | cons b l ih =>
    have hwhole := hwalk
    obtain ⟨rfl, node, hnode, hrest⟩ := hwalk
    obtain ⟨turns, rfl⟩ : ∃ t, turns = t + 1 := ⟨turns - 1, by simp at hturns; omega⟩
    obtain ⟨hcount, hpos⟩ := hcounted.count b node hnode
    have hnode' : s.read b = some node := hnode
    rw [remove_all_loop, hnode']
    simp only [Option.bind_eq_bind, Option.bind_some]
    have hpred : (node.count - 1).toNat = s.references b - 1 := by rw [count_pred (by omega), hcount]
    by_cases hlast : node.count - 1 > 0
    · rw [if_pos hlast]
      have hshared : 2 ≤ s.references b := by
        rw [gt_iff_lt, UInt32.lt_iff_toNat_lt, hpred, UInt32.toNat_zero] at hlast
        omega
      exact ⟨_, rfl, rfl, leave_spec hcounted hx hwhole hnode' hshared⟩
    · rw [if_neg hlast]
      have hlone : s.references b = 1 := by
        rw [gt_iff_lt, UInt32.lt_iff_toNat_lt, hpred, UInt32.toNat_zero] at hlast
        omega
      obtain ⟨s₁, hs₁, _, hcounted₁, hplace₁, hframe₁, _, _, hle₁⟩ :=
        (at_head hx hwhole).unlink_spec hnode' hcounted hlone
      cases hs₁
      obtain ⟨h, hh, rfl⟩ := hplace₁.head
      obtain ⟨s', hs', hlists', hcounted', hframe', hle'⟩ := ih hcounted₁ hh hplace₁.rest (by simpa using hturns)
      have hfree : s.free b =
          { ({ s with lists := s.lists.set x (some node.next) } : TagLists).free b with lists := s.lists } := rfl
      refine ⟨{ s' with lists := s.lists }, ?_, rfl, ?_, ?_, fun a => ?_⟩
      · rw [hfree, remove_all_loop_lists, hs']
        rfl
      · simpa [free] using hcounted'
      · have htrans := hframe₁.trans hframe'
        simpa [free] using htrans
      · have htrans := (hle' a).trans (hle₁ a)
        simpa [free] using htrans

theorem remove_all_spec (hcounted : Counted s) (hx : Owns s x tags) :
    ∃ s', s.remove_all x = some s' ∧ Counted s' ∧ Frame x s s' ∧ s'.lists[x]? = some (some none) ∧
      ∀ a, s'.references a ≤ s.references a := by
  obtain ⟨p, l, hp, hwalk, _⟩ := hx
  obtain ⟨s', hs', hlists', hcounted', hframe', hle⟩ :=
    release_spec hcounted hp hwalk (Nat.lt_succ_of_le hwalk.length_le)
  refine ⟨_, ?_, hcounted', hframe', ?_, hle⟩
  · rw [remove_all, head_eq hp, hs']
    simp only [Option.bind_eq_bind, Option.bind_some, assign, hlists']
  · exact List.getElem?_set_self (List.getElem?_eq_some_iff.mp hp).1

theorem construct_spec (hcounted : Counted s) : Counted s.construct ∧ Owns s.construct s.lists.length [] := by
  have hrefs : ∀ a, s.construct.references a = s.references a := by
    intro a
    simp [references, SharedList.references, construct]
  refine ⟨⟨fun a n hn => ?_, fun a ha => ?_⟩, none, [], by simp [construct], rfl, rfl⟩
  · rw [hrefs]
    exact hcounted.count a n hn
  · rw [hrefs] at ha
    exact hcounted.live a ha

theorem construct_owns (h : Owns s y tags) : Owns s.construct y tags := by
  obtain ⟨p, l, hp, hwalk, htags⟩ := h
  refine ⟨p, l, ?_, hwalk, htags⟩
  rw [construct, List.getElem?_append_left (List.getElem?_eq_some_iff.mp hp).1, hp]

theorem dead_spec (hcounted : Counted s) (hx : s.lists[x]? = some (some none)) :
    Counted { s with lists := s.lists.set x none } ∧ Frame x s { s with lists := s.lists.set x none } := by
  have hrefs : ∀ a, ({ s with lists := s.lists.set x none } : TagLists).references a = s.references a := by
    intro a
    have hroot : (s.lists.map Option.join)[x]? = some none := by rw [List.getElem?_map, hx]; rfl
    have hset := SharedList.count_set hroot none a
    simp only [references, SharedList.references, List.map_set, Option.join_none] at hset ⊢
    omega
  have hother : ∀ y, y ≠ x → (s.lists.set x none)[y]? = s.lists[y]? := fun y hy =>
    List.getElem?_set_ne hy.symm
  refine ⟨⟨fun a n hn => ?_, fun a ha => ?_⟩, by simp, hother, ?_⟩
  · rw [hrefs]
    exact hcounted.count a n hn
  · rw [hrefs] at ha
    exact hcounted.live a ha
  · rintro y hy tags ⟨p, l, hp, hwalk, htags⟩
    exact ⟨p, l, (hother y hy).trans hp, hwalk, htags⟩

end Ns3.PacketTagList.TagLists
