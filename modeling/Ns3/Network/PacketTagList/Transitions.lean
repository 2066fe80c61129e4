import Ns3.Network.PacketTagList.Nodes

/-! The changes that one list makes to the nodes, and what the other lists see of them. -/

namespace Ns3.PacketTagList.TagLists

open SharedList (Walk)

/-- The counts are those of the pointers, and a node is there as long as something points to it. -/
structure Counted (s : TagLists) : Prop where
  count : ∀ a node, s.read a = some node → node.count.toNat = s.references a ∧ 0 < s.references a
  live : ∀ a, 0 < s.references a → ∃ node, s.read a = some node

def Owns (s : TagLists) (x : ℕ) (tags : List (TypeId × TagBytes)) : Prop :=
  ∃ p l, s.lists[x]? = some (some p) ∧ Walk TagData.next s.heap p l none ∧ s.entries l = tags

/-- A change to one list. -/
structure Frame (x : ℕ) (s s' : TagLists) : Prop where
  length : s'.lists.length = s.lists.length
  lists : ∀ y, y ≠ x → s'.lists[y]? = s.lists[y]?
  owns : ∀ y, y ≠ x → ∀ tags, Owns s y tags → Owns s' y tags

def Kept (s s' : TagLists) (a : ℕ) : Prop :=
  ∀ node, s.read a = some node →
    ∃ node', s'.read a = some node' ∧ node'.next = node.next ∧ node'.tid = node.tid ∧ node'.data = node.data

/-- Where the pointer after some nodes of a list stands. -/
def slot_after (x : ℕ) (pre : List ℕ) : Slot := pre.getLast?.elim (.head x) .next

/-- A place in a list. The nodes before it are in no other list. -/
structure At (s : TagLists) (x : ℕ) (pre : List ℕ) (slot : Slot) (p : Option ℕ) (suf : List ℕ) : Prop where
  head : ∃ h, s.lists[x]? = some (some h) ∧ Walk TagData.next s.heap h pre p
  lone : ∀ a ∈ pre, s.references a = 1
  slot : slot = slot_after x pre
  rest : Walk TagData.next s.heap p suf none

variable {s s' s₁ : TagLists} {a b c x y : ℕ} {node : TagData} {p q r out inn : Option ℕ} {slot : Slot} {l pre suf : List ℕ}
  {tags : List (TypeId × TagBytes)}

theorem Frame.refl : Frame x s s := ⟨rfl, fun _ _ => rfl, fun _ _ _ h => h⟩

theorem Frame.trans (h : Frame x s s₁) (h' : Frame x s₁ s') : Frame x s s' :=
  ⟨h'.length.trans h.length, fun y hy => (h'.lists y hy).trans (h.lists y hy),
    fun y hy tags howns => h'.owns y hy tags (h.owns y hy tags howns)⟩

theorem Counted.fresh (h : Counted s) : s.references s.heap.length = 0 := by
  by_contra hpos
  obtain ⟨node, hnode⟩ := h.live _ (Nat.pos_of_ne_zero hpos)
  exact (read_lt hnode).false

theorem Counted.lt (h : Counted s) (ha : 0 < s.references a) : a < s.heap.length := by
  obtain ⟨node, hnode⟩ := h.live a ha
  exact read_lt hnode

theorem kept_entries (hwalk : Walk TagData.next s.heap p l q) (h : ∀ a ∈ l, Kept s s' a) :
    s'.entries l = s.entries l := by
  apply entries_congr
  · intro a ha node hnode
    obtain ⟨node', hnode', _, htid, hdata⟩ := h a ha node hnode
    exact ⟨node', hnode', htid, hdata⟩
  · exact fun a ha => hwalk.live ha

theorem kept_walk (hwalk : Walk TagData.next s.heap p l q) (h : ∀ a ∈ l, Kept s s' a) :
    Walk TagData.next s'.heap p l q := by
  apply hwalk.congr
  intro a ha node hnode
  obtain ⟨node', hnode', hnext, _⟩ := h a ha node hnode
  exact ⟨node', hnode', hnext⟩

theorem slot_after_append : slot_after x (pre ++ [a]) = .next a := by simp [slot_after]

namespace At

theorem path (h : At s x pre slot p suf) : ∃ q, s.lists[x]? = some (some q) ∧
    Walk TagData.next s.heap q (pre ++ suf) none := by
  obtain ⟨q, hq, hpre⟩ := h.head
  exact ⟨q, hq, hpre.append h.rest⟩

theorem nodup (h : At s x pre slot p suf) : (pre ++ suf).Nodup := by
  obtain ⟨q, _, hwalk⟩ := h.path
  exact hwalk.nodup

theorem not_mem (h : At s x pre slot p suf) (ha : a ∈ suf) : a ∉ pre := fun hpre =>
  (List.disjoint_of_nodup_append h.nodup) hpre ha

theorem owns (h : At s x pre slot p suf) : Owns s x (s.entries pre ++ s.entries suf) := by
  obtain ⟨q, hq, hwalk⟩ := h.path
  exact ⟨q, pre ++ suf, hq, hwalk, entries_append⟩

theorem cur (h : At s x pre slot (some b) suf) : ∃ node rest, suf = b :: rest ∧ s.read b = some node ∧
    Walk TagData.next s.heap node.next rest none := by
  cases suf with
  | nil => cases h.rest
  | cons a rest =>
    obtain ⟨heq, node, hnode, hrest⟩ := h.rest
    cases heq
    exact ⟨node, rest, rfl, hnode, hrest⟩

/-- A node on the way to the slot is not the one that the slot is in, except the last. -/
theorem pointer (h : At s x pre slot p suf) : s.pointer slot = some p := by
  obtain ⟨q, hq, hwalk⟩ := h.head
  rw [h.slot]
  cases hpre : pre using List.reverseRecOn with
  | nil =>
    subst hpre
    obtain rfl : q = p := hwalk
    simp [slot_after, TagLists.pointer, hq]
  | append_singleton pre₁ d =>
    subst hpre
    obtain ⟨_, _, hlast⟩ := hwalk.split
    obtain ⟨_, node, hnode, hnext⟩ := hlast
    obtain rfl : node.next = p := hnext
    rw [slot_after_append]
    simp [TagLists.pointer, read, hnode]

theorem slot_ne (h : At s x pre slot p suf) (ha : a ∉ pre) : slot ≠ .next a := by
  rw [h.slot]
  cases hpre : pre using List.reverseRecOn with
  | nil => simp [slot_after]
  | append_singleton pre₁ d =>
    subst hpre
    rw [slot_after_append]
    simp at ha ⊢
    exact Ne.symm ha.2

theorem head_ne (h : At s x pre slot p suf) (hy : y ≠ x) : slot ≠ .head y := by
  rw [h.slot]
  cases hpre : pre using List.reverseRecOn with
  | nil => simpa [slot_after] using hy.symm
  | append_singleton pre₁ d => simp [slot_after]

/-- The place after one more node of the list, when it is in no other. -/
theorem advance (h : At s x pre slot (some b) (b :: suf)) (hnode : s.read b = some node)
    (hlone : s.references b = 1) : At s x (pre ++ [b]) (.next b) node.next suf := by
  obtain ⟨q, hq, hwalk⟩ := h.head
  obtain ⟨_, node', hnode', hrest⟩ := h.rest
  obtain rfl : node' = node := Option.some.inj (hnode'.symm.trans hnode)
  refine ⟨⟨q, hq, hwalk.append ⟨rfl, node', hnode', rfl⟩⟩, ?_, slot_after_append.symm, hrest⟩
  intro a ha
  rcases List.mem_append.mp ha with ha | ha
  · exact h.lone a ha
  · rw [List.mem_singleton.mp ha, hlone]

theorem frame (h : At s x pre slot p suf) (hlength : s'.lists.length = s.lists.length)
    (hlists : ∀ y, y ≠ x → s'.lists[y]? = s.lists[y]?) (hkept : ∀ a ∉ pre, Kept s s' a) : Frame x s s' := by
  refine ⟨hlength, hlists, ?_⟩
  rintro y hy tags ⟨p', l, hp', hwalk, htags⟩
  obtain ⟨q, hq, hpre⟩ := h.head
  have hroot : (s.lists.map Option.join)[x]? = some q := by rw [List.getElem?_map, hq]; rfl
  have hroot' : (s.lists.map Option.join)[y]? = some p' := by rw [List.getElem?_map, hp']; rfl
  have hdisjoint := Walk.lone_disjoint hy.symm hroot hpre h.lone hroot' hwalk
  have hkept' : ∀ a ∈ l, Kept s s' a := fun a ha => hkept a fun hmem => hdisjoint a hmem ha
  exact ⟨p', l, (hlists y hy).trans hp', kept_walk hwalk hkept', (kept_entries hwalk hkept').trans htags⟩

theorem redirect (h : At s x pre slot p suf) (hpointer : s'.pointer slot = some q)
    (hlists : slot ≠ .head x → s'.lists[x]? = s.lists[x]?) (hkept : ∀ a ∈ pre, slot ≠ .next a → Kept s s' a) :
    ∃ h', s'.lists[x]? = some (some h') ∧ Walk TagData.next s'.heap h' pre q := by
  obtain ⟨p', hp', hwalk⟩ := h.head
  have hnodup := h.nodup
  rw [h.slot] at hpointer hlists hkept
  cases hpre : pre using List.reverseRecOn with
  | nil =>
    subst hpre
    cases hcell : s'.lists[x]? with
    | none => simp [slot_after, TagLists.pointer, hcell] at hpointer
    | some cell =>
      simp [slot_after, TagLists.pointer, hcell] at hpointer
      exact ⟨q, by rw [hpointer], rfl⟩
  | append_singleton pre₁ d =>
    subst hpre
    rw [slot_after_append] at hpointer hlists hkept
    obtain ⟨_, hfirst, hlast⟩ := hwalk.split
    obtain ⟨rfl, _⟩ := hlast
    obtain ⟨node, hnode, rfl⟩ := Option.map_eq_some_iff.mp hpointer
    have hne : ∀ a ∈ pre₁, a ≠ d := by
      rintro a ha rfl
      simp [List.nodup_append] at hnodup
      exact (hnodup.2.2 a ha).1 rfl
    have hfirst' := kept_walk hfirst fun a ha => hkept a (by simp [ha]) (by simpa using (hne a ha).symm)
    exact ⟨p', (hlists (by simp)).trans hp', hfirst'.append ⟨rfl, node, hnode, rfl⟩⟩

end At

theorem references_next (hnode : s.read b = some node) (hnext : node.next = some a) : 0 < s.references a := by
  have hpos := SharedList.node_references TagData.next hnode hnext
  rw [references, SharedList.references]
  omega

theorem references_root (hx : s.lists[x]? = some (some (some a))) : 0 < s.references a := by
  have hroot : (s.lists.map Option.join)[x]? = some (some a) := by rw [List.getElem?_map, hx]; rfl
  have hpos := SharedList.root_references hroot
  rw [references, SharedList.references]
  omega

theorem count_succ {k : UInt32} (h : k.toNat + 1 < 2 ^ 32) : (k + 1).toNat = k.toNat + 1 := by
  rw [UInt32.toNat_add]
  exact Nat.mod_eq_of_lt h

theorem count_pred {k : UInt32} (h : 0 < k.toNat) : (k - 1).toNat = k.toNat - 1 := by
  apply UInt32.toNat_sub_of_le
  rw [UInt32.le_iff_toNat_le]
  exact h

/-- A node after a change to its count or to its pointer. -/
def adjusted (node : TagData) (count : UInt32) (next : Option ℕ) : TagData := { node with count, next }

/-- A count after one pointer to a node less, or one more. -/
def moved (out inn : Option ℕ) (a : ℕ) (k : UInt32) : UInt32 :=
  if out = some a then k - 1 else if inn = some a then k + 1 else k

/-- The nodes that were there change in their counts, and in the pointer of one slot. -/
def Adjusts (s s' : TagLists) (slot : Slot) (q out inn : Option ℕ) (a : ℕ) : Prop :=
  s'.read a = (s.read a).map fun node =>
    adjusted node (moved out inn a node.count) (if slot = .next a then q else node.next)

theorem Adjusts.kept (h : Adjusts s s' slot q out inn a) (hslot : slot ≠ .next a) : Kept s s' a := by
  intro node hnode
  rw [Adjusts, hnode] at h
  exact ⟨_, h, if_neg hslot, rfl, rfl⟩

theorem Adjusts.entries (hwalk : Walk TagData.next s.heap p l r) (h : ∀ a ∈ l, Adjusts s s' slot q out inn a) :
    s'.entries l = s.entries l := by
  apply entries_congr
  · intro a ha node hnode
    have hread := h a ha
    rw [Adjusts, hnode] at hread
    exact ⟨_, hread, rfl, rfl⟩
  · exact fun a ha => hwalk.live ha

/-- The counts follow the pointers when both change at the same nodes, and at one other node that is
right by itself. -/
theorem Counted.adjust (hcounted : Counted s)
    (hcount : ∀ node, s'.read c = some node → node.count.toNat = s'.references c ∧ 0 < s'.references c)
    (hlive : 0 < s'.references c → ∃ node, s'.read c = some node)
    (hrefs : ∀ a, a ≠ c → s'.references a + (if out = some a then 1 else 0) =
      s.references a + if inn = some a then 1 else 0)
    (hread : ∀ a, a ≠ c → Adjusts s s' slot q out inn a) (hshared : ∀ a, out = some a → 2 ≤ s.references a)
    (hroom : ∀ a, inn = some a → 0 < s.references a ∧ s.references a + 1 < 2 ^ 32) (hne : ∀ a, out = some a → inn ≠ some a) :
    Counted s' := by
  refine ⟨fun a node hnode => ?_, fun a ha => ?_⟩
  · by_cases hac : a = c
    · subst hac
      exact hcount node hnode
    rw [hread a hac] at hnode
    obtain ⟨node₀, hnode₀, rfl⟩ := Option.map_eq_some_iff.mp hnode
    obtain ⟨hcount₀, hpos⟩ := hcounted.count a node₀ hnode₀
    have href := hrefs a hac
    show (moved out inn a node₀.count).toNat = _ ∧ _
    by_cases hout : out = some a
    · have htwo := hshared a hout
      rw [moved, if_pos hout, count_pred (by omega), hcount₀]
      rw [if_pos hout, if_neg (hne a hout)] at href
      omega
    · rw [moved, if_neg hout]
      rw [if_neg hout] at href
      by_cases hinn : inn = some a
      · obtain ⟨_, hfits⟩ := hroom a hinn
        rw [if_pos hinn, count_succ (by rw [hcount₀]; exact hfits), hcount₀]
        rw [if_pos hinn] at href
        omega
      · rw [if_neg hinn, hcount₀]
        rw [if_neg hinn] at href
        omega
  · by_cases hac : a = c
    · subst hac
      exact hlive ha
    have href := hrefs a hac
    have hold : 0 < s.references a := by
      by_cases hinn : inn = some a
      · exact (hroom a hinn).1
      · rw [if_neg hinn] at href
        omega
    obtain ⟨node, hnode⟩ := hcounted.live a hold
    rw [hread a hac, hnode]
    exact ⟨_, rfl⟩

/-- What a change at one place leaves: the other lists, the way to the place and the tags on it. -/
theorem At.adjust (h : At s x pre slot p suf) (hpointer : s'.pointer slot = some q)
    (hlength : s'.lists.length = s.lists.length)
    (hlists : ∀ y, s'.lists[y]? = if slot = .head y then some (some q) else s.lists[y]?)
    (hread : ∀ a node, s.read a = some node → Adjusts s s' slot q out inn a) :
    Frame x s s' ∧ (∃ h', s'.lists[x]? = some (some h') ∧ Walk TagData.next s'.heap h' pre q) ∧
      s'.entries pre = s.entries pre ∧ ∀ a ∈ suf, Kept s s' a := by
  have hkept : ∀ a ∉ pre, Kept s s' a := fun a ha node hnode =>
    (hread a node hnode).kept (h.slot_ne ha) node hnode
  obtain ⟨h', hh', hpre⟩ := h.head
  have hadj : ∀ a ∈ pre, Adjusts s s' slot q out inn a := by
    intro a ha
    obtain ⟨node, hnode⟩ := hpre.live ha
    exact hread a node hnode
  refine ⟨h.frame hlength ?_ hkept, ?_, Adjusts.entries hpre hadj, fun a ha => hkept a (h.not_mem ha)⟩
  · intro y hy
    rw [hlists, if_neg (h.head_ne hy)]
  · exact h.redirect hpointer (fun hne => by rw [hlists, if_neg hne]) fun a ha hne => (hadj a ha).kept hne

theorem pointer_kept (h : s.pointer slot = some p) (hlists : s'.lists = s.lists)
    (hkept : ∀ a, slot = .next a → Kept s s' a) : s'.pointer slot = some p := by
  cases slot with
  | head x => rw [pointer, hlists]; exact h
  | next a =>
    obtain ⟨node, hnode, rfl⟩ := Option.map_eq_some_iff.mp h
    obtain ⟨node', hnode', hnext, _⟩ := hkept a rfl node hnode
    rw [pointer, hnode', Option.map_some, hnext]

theorem At.fresh_not_mem (h : At s x pre slot p suf) (hcounted : Counted s) : s.heap.length ∉ pre := fun ha =>
  (hcounted.lt (h.lone _ ha ▸ one_pos)).false

section Cursor

variable (h : At s x pre slot (some b) (b :: suf)) (hnode : s.read b = some node)
include h hnode

theorem At.next_walk : Walk TagData.next s.heap node.next suf none := by
  obtain ⟨_, node', hnode', hrest⟩ := h.rest
  obtain rfl : node' = node := Option.some.inj (hnode'.symm.trans hnode)
  exact hrest

theorem At.next_mem (ha : node.next = some a) : a ∈ suf := by
  have hwalk := h.next_walk hnode
  rw [ha] at hwalk
  cases suf with
  | nil => cases hwalk
  | cons d suf =>
    obtain ⟨heq, _⟩ := hwalk
    cases heq
    exact List.mem_cons_self

theorem At.next_ne (ha : node.next = some a) : a ≠ b := by
  have hmem := h.next_mem hnode ha
  have hnodup := (List.nodup_append.mp h.nodup).2.1
  rintro rfl
  exact (List.nodup_cons.mp hnodup).1 hmem

/-- A node that several pointers lead to is left to the others, and a new one that goes on to the same
rest takes its place. -/
theorem At.fork_reads {node' : TagData} (hcounted : Counted s) (hnext : node'.next = node.next)
    (hsize : node'.data.length < 2 ^ 32 - 1) :
    ∃ s₁ s₂ s₃ s', s.decrement b = some s₁ ∧ s₁.create_tag_data node' = some s₂ ∧
      s₂.increment_if node.next = some s₃ ∧ s₃.assign (some s.heap.length) slot = some s' ∧
      s'.heap.length = s.heap.length + 1 ∧ s'.pointer slot = some (some s.heap.length) ∧
      s'.lists.length = s.lists.length ∧
      (∀ y, s'.lists[y]? = if slot = .head y then some (some (some s.heap.length)) else s.lists[y]?) ∧
      (∀ a, s'.references a + (if some b = some a then 1 else 0) =
        s.references a + (if node.next = some a then 1 else 0) + if a = s.heap.length then 1 else 0) ∧
      s'.read s.heap.length = some node' ∧
      ∀ a, a ≠ s.heap.length → Adjusts s s' slot (some s.heap.length) (some b) node.next a := by
  obtain ⟨s₁, hs₁, hlists₁, hlength₁, hrefs₁, hread₁⟩ := decrement_spec hnode
  obtain ⟨s₂, hs₂, hlists₂, hlength₂, hrefs₂, hread₂⟩ := create_tag_data_spec (s := s₁) node' hsize
  rw [hlength₁] at hlength₂ hread₂
  have hlive : ∀ a, node.next = some a → ∃ node', s.read a = some node' := fun a ha =>
    hcounted.live a (references_next hnode ha)
  have hlive₂ : ∀ a, node.next = some a → ∃ node', s₂.read a = some node' := by
    intro a ha
    obtain ⟨node', hnode'⟩ := hlive a ha
    rw [hread₂, if_neg (read_lt hnode').ne, hread₁, if_neg (h.next_ne hnode ha)]
    exact ⟨node', hnode'⟩
  obtain ⟨s₃, hs₃, hlists₃, hlength₃, hrefs₃, hread₃⟩ := increment_if_spec hlive₂
  have hslot := h.slot_ne (h.fresh_not_mem hcounted)
  have hread : ∀ a, a ≠ s.heap.length → s₃.read a = (s.read a).map fun n =>
      adjusted n (moved (some b) node.next a n.count) n.next := by
    intro a ha
    rw [hread₃, hread₂, if_neg ha, hread₁]
    by_cases hab : a = b
    · subst hab
      rw [if_neg fun heq => h.next_ne hnode heq rfl, if_pos rfl, hnode]
      simp [adjusted, moved]
    · by_cases hnexta : node.next = some a
      · simp [hab, Ne.symm hab, hnexta, adjusted, moved]
      · cases s.read a <;> simp [hab, Ne.symm hab, hnexta, adjusted, moved]
  have hpointer : s₃.pointer slot = some (some b) := by
    apply pointer_kept h.pointer (by rw [hlists₃, hlists₂, hlists₁])
    intro a ha n hn
    rw [hread a fun heq => hslot (heq ▸ ha), hn]
    exact ⟨_, rfl, rfl, rfl, rfl⟩
  obtain ⟨s', hs', hlength', hlistslength', hlists', hrefs', hread'⟩ := assign_spec hpointer (some s.heap.length)
  refine ⟨s₁, s₂, s₃, s', hs₁, hs₂, hs₃, hs', by omega, assign_pointer hpointer hs', ?_, ?_, fun a => ?_, ?_, fun a ha => ?_⟩
  · rw [hlistslength', hlists₃, hlists₂, hlists₁]
  · simpa only [hlists₃, hlists₂, hlists₁] using hlists'
  · have h₁ := hrefs₁ a
    have h₂ := hrefs₂ a
    have h₃ := hrefs₃ a
    have h₄ := hrefs' a
    rw [hnext] at h₂
    simp only [Option.some.injEq, eq_comm (a := s.heap.length)] at h₄ ⊢
    omega
  · rw [hread', if_neg hslot, hread₃, if_neg, hread₂, if_pos rfl]
    intro heq
    obtain ⟨_, hlt⟩ := hlive _ heq
    exact (read_lt hlt).false
  · rw [Adjusts, hread', hread a ha, Option.map_map]
    by_cases hslota : slot = .next a
    · simp [hslota, adjusted, Function.comp_def]
    · simp [hslota, adjusted]

theorem At.fork_spec (node' : TagData) (hcounted : Counted s) (hshared : 2 ≤ s.references b) (hcount : node'.count = 1)
    (hnext : node'.next = node.next) (hsize : node'.data.length < 2 ^ 32 - 1)
    (hroom : ∀ a, node.next = some a → s.references a + 1 < 2 ^ 32) :
    ∃ s₁ s₂ s₃ s', s.decrement b = some s₁ ∧ s₁.create_tag_data node' = some s₂ ∧
      s₂.increment_if node.next = some s₃ ∧ s₃.assign (some s.heap.length) slot = some s' ∧ Counted s' ∧
      At s' x (pre ++ [s.heap.length]) (.next s.heap.length) node.next suf ∧ Frame x s s' ∧
      s'.entries (pre ++ [s.heap.length]) = s.entries pre ++ [(node'.tid, node'.data)] ∧
      (∀ a ∈ suf, Kept s s' a) ∧ s'.heap.length = s.heap.length + 1 ∧
      ∀ a, s'.references a + (if some b = some a then 1 else 0) =
        s.references a + (if node.next = some a then 1 else 0) + if a = s.heap.length then 1 else 0 := by
  obtain ⟨s₁, s₂, s₃, s', hs₁, hs₂, hs₃, hs', hlength, hpointer, hlistslength, hlists, hrefs, hnew, hadjusts⟩ :=
    h.fork_reads hnode hcounted hnext hsize
  have hfresh := hcounted.fresh
  have hfresh_pre := h.fresh_not_mem hcounted
  have hb := read_lt hnode
  have hnext_fresh : node.next ≠ some s.heap.length := fun heq => (hcounted.lt (references_next hnode heq)).false
  have hnew_refs : s'.references s.heap.length = 1 := by
    have href := hrefs s.heap.length
    rw [hfresh, if_neg fun heq => hb.ne (Option.some.inj heq), if_pos rfl, if_neg hnext_fresh] at href
    exact href
  obtain ⟨hframe, ⟨h', hh', hwalk⟩, hentries, hkept⟩ := h.adjust hpointer hlistslength hlists
    fun a n hn => hadjusts a (read_lt hn).ne
  have hrest := fun a ha => hkept a (List.mem_cons_of_mem b ha)
  refine ⟨s₁, s₂, s₃, s', hs₁, hs₂, hs₃, hs', ?_, ⟨⟨h', hh', hwalk.append ⟨rfl, node', hnew, hnext⟩⟩, ?_,
    slot_after_append.symm, kept_walk (h.next_walk hnode) hrest⟩, hframe, ?_, hrest, hlength, hrefs⟩
  · apply hcounted.adjust (c := s.heap.length) _ _ _ hadjusts
    · intro a ha
      exact Option.some.inj ha ▸ hshared
    · exact fun a ha => ⟨references_next hnode ha, hroom a ha⟩
    · intro a ha hnexta
      exact h.next_ne hnode hnexta (Option.some.inj ha).symm
    · intro n hn
      obtain rfl : node' = n := Option.some.inj (hnew.symm.trans hn)
      rw [hnew_refs, hcount]
      exact ⟨rfl, one_pos⟩
    · exact fun _ => ⟨node', hnew⟩
    · intro a ha
      have href := hrefs a
      rwa [if_neg ha] at href
  · intro a ha
    rcases List.mem_append.mp ha with ha | ha
    · have href := hrefs a
      have hab : some b ≠ some a := fun heq => h.not_mem (by simp) (Option.some.inj heq ▸ ha)
      have hac : a ≠ s.heap.length := fun heq => hfresh_pre (heq ▸ ha)
      have hnexta : node.next ≠ some a := fun heq => h.not_mem (List.mem_cons_of_mem b (h.next_mem hnode heq)) ha
      rw [if_neg hab, if_neg hac, if_neg hnexta, h.lone a ha] at href
      exact href
    · rw [List.mem_singleton.mp ha, hnew_refs]
  · rw [entries_append, hentries, entries_cons hnew]
    rfl

theorem At.bypass_reads (hcounted : Counted s) :
    ∃ s₁ s₂ s', s.assign node.next slot = some s₁ ∧ s₁.decrement b = some s₂ ∧ s₂.increment_if node.next = some s' ∧
      s'.heap.length = s.heap.length ∧ s'.pointer slot = some node.next ∧ s'.lists.length = s.lists.length ∧
      (∀ y, s'.lists[y]? = if slot = .head y then some (some node.next) else s.lists[y]?) ∧
      (∀ a, s'.references a + (if some b = some a then 1 else 0) =
        s.references a + if node.next = some a then 1 else 0) ∧
      ∀ a, Adjusts s s' slot node.next (some b) node.next a := by
  have hslotb := h.slot_ne (h.not_mem (List.mem_cons_self (a := b)))
  obtain ⟨s₁, hs₁, hlength₁, hlistslength₁, hlists₁, hrefs₁, hread₁⟩ := assign_spec h.pointer node.next
  have hnode₁ : s₁.read b = some node := by rw [hread₁, if_neg hslotb, hnode]
  obtain ⟨s₂, hs₂, hlists₂, hlength₂, hrefs₂, hread₂⟩ := decrement_spec hnode₁
  have hlive₂ : ∀ a, node.next = some a → ∃ n, s₂.read a = some n := by
    intro a ha
    obtain ⟨n, hn⟩ := hcounted.live a (references_next hnode ha)
    rw [hread₂, if_neg (h.next_ne hnode ha), hread₁, hn]
    split
    · exact ⟨_, rfl⟩
    · exact ⟨_, rfl⟩
  obtain ⟨s', hs', hlists', hlength', hrefs', hread'⟩ := increment_if_spec hlive₂
  have hreads : ∀ a, Adjusts s s' slot node.next (some b) node.next a := by
    intro a
    rw [Adjusts, hread', hread₂, hread₁]
    by_cases hab : a = b
    · subst hab
      rw [if_neg fun heq => h.next_ne hnode heq rfl, if_pos rfl, hnode]
      simp [adjusted, moved, hslotb]
    · rw [if_neg hab]
      cases s.read a with
      | none => simp
      | some n =>
        by_cases hnexta : node.next = some a
        · by_cases hslot : slot = .next a <;> simp [hslot, hnexta, adjusted, moved, Ne.symm hab]
        · by_cases hslot : slot = .next a <;> simp [hslot, hnexta, adjusted, moved, Ne.symm hab]
  refine ⟨s₁, s₂, s', hs₁, hs₂, hs', by omega, ?_, ?_, ?_, fun a => ?_, hreads⟩
  · apply pointer_kept (assign_pointer h.pointer hs₁) (by rw [hlists', hlists₂])
    intro a ha n hn
    have hab : a ≠ b := fun heq => hslotb (heq ▸ ha)
    rw [hread', hread₂, if_neg hab, hn]
    split
    · exact ⟨_, rfl, rfl, rfl, rfl⟩
    · exact ⟨_, rfl, rfl, rfl, rfl⟩
  · rw [hlists', hlists₂, hlistslength₁]
  · intro y
    rw [hlists', hlists₂, hlists₁]
  · have h₁ := hrefs₁ a
    have h₂ := hrefs₂ a
    have h₃ := hrefs' a
    omega

theorem At.bypass_spec (hcounted : Counted s) (hshared : 2 ≤ s.references b)
    (hroom : ∀ a, node.next = some a → s.references a + 1 < 2 ^ 32) :
    ∃ s₁ s₂ s', s.assign node.next slot = some s₁ ∧ s₁.decrement b = some s₂ ∧ s₂.increment_if node.next = some s' ∧
      Counted s' ∧ At s' x pre slot node.next suf ∧ Frame x s s' ∧ s'.entries pre = s.entries pre ∧
      s'.entries suf = s.entries suf := by
  obtain ⟨s₁, s₂, s', hs₁, hs₂, hs', hlength, hpointer, hlistslength, hlists, hrefs, hreads⟩ :=
    h.bypass_reads hnode hcounted
  obtain ⟨hframe, hwalk, hentries, hkept⟩ := h.adjust hpointer hlistslength hlists fun a n _ => hreads a
  have hrest := fun a ha => hkept a (List.mem_cons_of_mem b ha)
  have hfresh : s'.references s.heap.length = 0 := by
    have href := hrefs s.heap.length
    have hnext : node.next ≠ some s.heap.length := fun heq => (hcounted.lt (references_next hnode heq)).false
    rw [hcounted.fresh, if_neg hnext] at href
    omega
  refine ⟨s₁, s₂, s', hs₁, hs₂, hs', ?_, ⟨hwalk, ?_, h.slot, kept_walk (h.next_walk hnode) hrest⟩, hframe, hentries,
    kept_entries (h.next_walk hnode) hrest⟩
  · apply hcounted.adjust (c := s.heap.length) _ _ (fun a _ => hrefs a) fun a _ => hreads a
    · intro a ha
      exact Option.some.inj ha ▸ hshared
    · exact fun a ha => ⟨references_next hnode ha, hroom a ha⟩
    · intro a ha hnexta
      exact h.next_ne hnode hnexta (Option.some.inj ha).symm
    · intro n hn
      have hlt := read_lt hn
      omega
    · omega
  · intro a ha
    have href := hrefs a
    have hab : some b ≠ some a := fun heq => h.not_mem (by simp) (Option.some.inj heq ▸ ha)
    have hnexta : node.next ≠ some a := fun heq => h.not_mem (List.mem_cons_of_mem b (h.next_mem hnode heq)) ha
    rw [if_neg hab, if_neg hnexta, h.lone a ha] at href
    exact href

theorem At.unlink_spec (hcounted : Counted s) (hlone : s.references b = 1) :
    ∃ s₁, s.assign node.next slot = some s₁ ∧ s₁.heap.length = s.heap.length ∧ Counted (s₁.free b) ∧
      At (s₁.free b) x pre slot node.next suf ∧ Frame x s (s₁.free b) ∧ (s₁.free b).entries pre = s.entries pre ∧
      (s₁.free b).entries suf = s.entries suf ∧ ∀ a, (s₁.free b).references a ≤ s.references a := by
  have hmem := h.not_mem (List.mem_cons_self (a := b))
  have hslotb := h.slot_ne hmem
  obtain ⟨s₁, hs₁, hlength₁, hlistslength₁, hlists₁, hrefs₁, hread₁⟩ := assign_spec h.pointer node.next
  have hnode₁ : s₁.read b = some node := by rw [hread₁, if_neg hslotb, hnode]
  have hfree := free_read hnode₁
  have hrefs : ∀ a, (s₁.free b).references a + (if some b = some a then 1 else 0) = s.references a := by
    intro a
    have h₁ := hrefs₁ a
    have h₂ := free_references hnode₁ a
    omega
  have hadjusts : ∀ a, a ≠ b → Adjusts s (s₁.free b) slot node.next none none a := by
    intro a ha
    rw [Adjusts, hfree, if_neg ha, hread₁]
    cases s.read a <;> by_cases hslot : slot = .next a <;> simp [hslot, adjusted, moved]
  have hkept : ∀ a, a ∉ pre → a ≠ b → Kept s (s₁.free b) a := fun a ha hab =>
    (hadjusts a hab).kept (h.slot_ne ha)
  have hne : ∀ a ∈ pre, a ≠ b := fun a ha heq => hmem (heq ▸ ha)
  have hrest : ∀ a ∈ suf, Kept s (s₁.free b) a := by
    intro a ha
    apply hkept a (h.not_mem (List.mem_cons_of_mem b ha))
    rintro rfl
    exact (List.nodup_cons.mp (List.nodup_append.mp h.nodup).2.1).1 ha
  have hpointer : (s₁.free b).pointer slot = some node.next := by
    have hlists : (s₁.free b).lists = s₁.lists := rfl
    apply pointer_kept (assign_pointer h.pointer hs₁) hlists
    rintro a rfl n hn
    rw [hfree, if_neg fun heq => hslotb (congrArg Slot.next heq)]
    exact ⟨n, hn, rfl, rfl, rfl⟩
  obtain ⟨q, hq, hpre⟩ := h.head
  refine ⟨s₁, hs₁, hlength₁, ?_, ⟨?_, ?_, h.slot, kept_walk (h.next_walk hnode) hrest⟩, ?_,
    Adjusts.entries hpre fun a ha => hadjusts a (hne a ha), kept_entries (h.next_walk hnode) hrest,
    fun a => Nat.le.intro (hrefs a)⟩
  · apply hcounted.adjust (c := b) _ _ _ hadjusts
    · simp
    · simp
    · simp
    · intro n hn
      rw [hfree, if_pos rfl] at hn
      cases hn
    · have href := hrefs b
      rw [if_pos rfl, hlone] at href
      omega
    · intro a ha
      have href := hrefs a
      rw [if_neg fun heq => ha (Option.some.inj heq).symm] at href
      simpa using href
  · exact h.redirect hpointer (fun hx => (hlists₁ x).trans (if_neg hx)) fun a ha hx => (hadjusts a (hne a ha)).kept hx
  · intro a ha
    have href := hrefs a
    rw [if_neg fun heq => hne a ha (Option.some.inj heq).symm, h.lone a ha] at href
    exact href
  · have hlists : ∀ y, y ≠ x → (s₁.free b).lists[y]? = s.lists[y]? := fun y hy =>
      (hlists₁ y).trans (if_neg (h.head_ne hy))
    refine (h.advance hnode hlone).frame hlistslength₁ hlists fun a ha => ?_
    simp only [List.mem_append, List.mem_singleton, not_or] at ha
    exact hkept a ha.1 ha.2

theorem At.rewrite_spec (hcounted : Counted s) (hlone : s.references b = 1) (data : TagBytes) :
    Counted (s.write b { node with data }) ∧ Frame x s (s.write b { node with data }) ∧
      Owns (s.write b { node with data }) x (s.entries pre ++ (node.tid, data) :: s.entries suf) := by
  have hread := write_read hnode { node with data }
  have hrefs : ∀ a, (s.write b { node with data }).references a = s.references a :=
    write_references_of_next hnode rfl
  have hkept : ∀ a, a ≠ b → Kept s (s.write b { node with data }) a := by
    intro a ha n hn
    rw [hread, if_neg ha]
    exact ⟨n, hn, rfl, rfl, rfl⟩
  have hpre : ∀ a ∈ pre, Kept s (s.write b { node with data }) a := by
    intro a ha
    apply hkept a
    rintro rfl
    exact h.not_mem (by simp) ha
  have hsuf : ∀ a ∈ suf, Kept s (s.write b { node with data }) a := by
    intro a ha
    apply hkept a
    rintro rfl
    exact (List.nodup_cons.mp (List.nodup_append.mp h.nodup).2.1).1 ha
  have hb : (s.write b { node with data }).read b = some { node with data } := by rw [hread, if_pos rfl]
  obtain ⟨q, hq, hwalk⟩ := h.head
  refine ⟨⟨?_, ?_⟩, ?_, q, pre ++ b :: suf, hq, ?_, ?_⟩
  · intro a n hn
    rw [hrefs]
    by_cases hab : a = b
    · subst hab
      rw [hb] at hn
      cases hn
      exact hcounted.count a node hnode
    · rw [hread, if_neg hab] at hn
      exact hcounted.count a n hn
  · intro a ha
    rw [hrefs] at ha
    obtain ⟨n, hn⟩ := hcounted.live a ha
    rw [hread]
    split
    · exact ⟨_, rfl⟩
    · exact ⟨n, hn⟩
  · have hlists : ∀ y, y ≠ x → (s.write b { node with data }).lists[y]? = s.lists[y]? := fun y _ => rfl
    refine (h.advance hnode hlone).frame rfl hlists fun a ha => ?_
    simp only [List.mem_append, List.mem_singleton, not_or] at ha
    exact hkept a ha.2
  · have hrest := kept_walk (h.next_walk hnode) hsuf
    exact (kept_walk hwalk hpre).append ⟨rfl, _, hb, hrest⟩
  · rw [entries_append, entries_cons hb, kept_entries hwalk hpre, kept_entries (h.next_walk hnode) hsuf]

end Cursor

end Ns3.PacketTagList.TagLists
