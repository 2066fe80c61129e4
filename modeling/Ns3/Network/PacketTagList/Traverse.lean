import Ns3.Network.PacketTagList.Sharing

/-! Where a traversal stops, and what its writer does to the tags of the list. -/

namespace Ns3.PacketTagList.TagLists

open SharedList (Walk)

variable {s s' : TagLists} {a b t x turns : ℕ} {node : TagData} {p : Option ℕ} {slot slot' : Slot} {l pre suf mid rest : List ℕ}
  {tid : TypeId} {tags : List (TypeId × TagBytes)} {writer : COWWriter}

theorem count_gt_one (hcounted : Counted s) (hnode : s.read b = some node) : node.count > 1 ↔ 2 ≤ s.references b := by
  rw [gt_iff_lt, UInt32.lt_iff_toNat_lt, (hcounted.count b node hnode).1]
  exact Iff.rfl

/-- What the first part of a list tells about the node where the search stops. -/
def StopsAt (s : TagLists) (x : ℕ) (tid : TypeId) (pre suf : List ℕ) : Search → Prop
  | .empty => (s.entries suf).lookup tid = none
  | .found prev_next cur => ∃ mid rest node, suf = mid ++ cur :: rest ∧ (s.entries mid).lookup tid = none ∧
      At s x (pre ++ mid) prev_next (some cur) (cur :: rest) ∧ s.read cur = some node ∧ node.tid = tid ∧
      s.references cur = 1
  | .merge prev_next cur => ∃ mid rest, suf = mid ++ cur :: rest ∧ (s.entries mid).lookup tid = none ∧
      At s x (pre ++ mid) prev_next (some cur) (cur :: rest) ∧ 2 ≤ s.references cur

theorem lookup_skip (hnode : s.read b = some node) (htid : node.tid ≠ tid) (l : List ℕ) :
    (s.entries (b :: l)).lookup tid = (s.entries l).lookup tid := by
  rw [entries_cons hnode, List.lookup_cons, show (tid == node.tid) = false by simpa using htid.symm]

variable (tid) in
theorem search_spec (hcounted : Counted s) (h : At s x pre slot p suf) (hturns : suf.length < turns) :
    ∃ found, s.search tid turns slot p = some found ∧ StopsAt s x tid pre suf found := by
  induction suf generalizing pre slot p turns with
  | nil =>
    obtain rfl : p = none := h.rest
    obtain ⟨turns, rfl⟩ := Nat.exists_eq_add_of_lt hturns
    exact ⟨.empty, rfl, rfl⟩
  | cons b suf ih =>
    obtain ⟨rfl, node, hnode, hrest⟩ := h.rest
    obtain ⟨turns, rfl⟩ : ∃ t, turns = t + 1 := ⟨turns - 1, by simp at hturns; omega⟩
    have hnode' : s.read b = some node := hnode
    rw [search, hnode']
    simp only [Option.bind_eq_bind, Option.bind_some]
    by_cases hshared : node.count > 1
    · rw [if_pos hshared]
      exact ⟨.merge slot b, rfl, [], suf, rfl, rfl, by simpa using h, (count_gt_one hcounted hnode').mp hshared⟩
    rw [if_neg hshared]
    have hlone : s.references b = 1 := by
      have hpos := (hcounted.count b node hnode').2
      rw [count_gt_one hcounted hnode'] at hshared
      omega
    by_cases htid : node.tid = tid
    · rw [if_pos htid]
      exact ⟨.found slot b, rfl, [], suf, node, rfl, rfl, by simpa using h, hnode', htid, hlone⟩
    rw [if_neg htid]
    obtain ⟨found, hfound, hstops⟩ := ih (h.advance hnode' hlone) (by simpa using hturns)
    refine ⟨found, hfound, ?_⟩
    cases found with
    | empty => exact (lookup_skip hnode' htid suf).trans hstops
    | found prev_next cur =>
      obtain ⟨mid, rest, node', rfl, hmid, hplace, hrest'⟩ := hstops
      refine ⟨b :: mid, rest, node', rfl, (lookup_skip hnode' htid mid).trans hmid, ?_, hrest'⟩
      simpa using hplace
    | merge prev_next cur =>
      obtain ⟨mid, rest, rfl, hmid, hplace, htwo⟩ := hstops
      refine ⟨b :: mid, rest, rfl, (lookup_skip hnode' htid mid).trans hmid, ?_, htwo⟩
      simpa using hplace

variable (tid) in
theorem find_spec (hwalk : Walk TagData.next s.heap p l none) (hturns : l.length < turns) :
    s.find tid turns p = some ((s.entries l).lookup tid) := by
  induction l generalizing p turns with
  | nil =>
    obtain rfl : p = none := hwalk
    obtain ⟨turns, rfl⟩ := Nat.exists_eq_add_of_lt hturns
    rfl
  | cons b l ih =>
    obtain ⟨rfl, node, hnode, hrest⟩ := hwalk
    obtain ⟨turns, rfl⟩ : ∃ t, turns = t + 1 := ⟨turns - 1, by simp at hturns; omega⟩
    have hnode' : s.read b = some node := hnode
    rw [find, hnode']
    simp only [Option.bind_eq_bind, Option.bind_some]
    by_cases htid : node.tid = tid
    · rw [if_pos htid, entries_cons hnode', htid, List.lookup_cons_self]
    · rw [if_neg htid, ih hrest (by simpa using hturns), lookup_skip hnode' htid]

theorem copy_until_spec (hcounted : Counted s) (h : At s x pre slot (some b) (mid ++ t :: rest))
    (hshared : 2 ≤ s.references b) (hnode : s.read t = some node) (htid : node.tid = tid)
    (hmid : (s.entries mid).lookup tid = none) (hsizes : ∀ tag ∈ s.entries mid, tag.2.length < 2 ^ 32 - 1)
    (hroom : ∀ a ∈ mid ++ t :: rest, a ≠ b → s.references a + 1 < 2 ^ 32) (hturns : mid.length < turns) :
    ∃ s' slot' pre', copy_until tid turns s slot b = some (s', slot', t) ∧ Counted s' ∧
      At s' x pre' slot' (some t) (t :: rest) ∧ 2 ≤ s'.references t ∧ Frame x s s' ∧
      s'.entries pre' = s.entries pre ++ s.entries mid ∧ s'.entries (t :: rest) = s.entries (t :: rest) ∧
      ∀ a ∈ rest, s'.references a = s.references a := by
  -- every turn moves the cursor to the next node and leaves one copy behind it
  induction mid generalizing s pre slot b turns node with
  | nil =>
    obtain ⟨turns, rfl⟩ := Nat.exists_eq_add_of_lt hturns
    obtain ⟨heq, _⟩ := h.rest
    obtain rfl := Option.some.inj heq
    refine ⟨s, slot, pre, ?_, hcounted, h, hshared, Frame.refl, by simp [entries], rfl, fun _ _ => rfl⟩
    rw [copy_until, hnode]
    simp [htid]
  | cons d mid ih =>
    obtain ⟨turns, rfl⟩ : ∃ t, turns = t + 1 := ⟨turns - 1, by simp at hturns; omega⟩
    obtain ⟨heq, noded, hnoded, hrest⟩ := h.rest
    obtain rfl := Option.some.inj heq
    have hnoded' : s.read b = some noded := hnoded
    have htidd : noded.tid ≠ tid := by
      intro htid
      rw [entries_cons hnoded', htid, List.lookup_cons_self] at hmid
      cases hmid
    have hnodup := (List.nodup_cons.mp (List.nodup_append.mp h.nodup).2.1).2
    obtain ⟨n, hnext, hnrest⟩ : ∃ n, noded.next = some n ∧ n ∉ rest := by
      cases mid with
      | nil => exact ⟨t, hrest.1, (List.nodup_cons.mp hnodup).1⟩
      | cons n mid =>
        refine ⟨n, hrest.1, fun hmem => (List.nodup_cons.mp hnodup).1 ?_⟩
        exact List.mem_append_right mid (List.mem_cons_of_mem t hmem)
    have hn := h.next_mem hnoded' hnext
    have hsized : noded.data.length < 2 ^ 32 - 1 := hsizes (noded.tid, noded.data) (by simp [entries_cons hnoded'])
    obtain ⟨s₁, s₂, s₃, s₄, hs₁, hs₂, hs₃, hs₄, hcounted₄, hplace₄, hframe₄, hpre₄, hsuf₄, _, hrefs₄⟩ :=
      h.fork_spec hnoded' { noded with count := 1 } hcounted hshared rfl rfl hsized
        fun a ha => hroom a (List.mem_cons_of_mem b (h.next_mem hnoded' ha)) (h.next_ne hnoded' ha)
    have hne : ∀ a ∈ mid ++ t :: rest, a ≠ b := by
      rintro a ha rfl
      exact (List.nodup_cons.mp (List.nodup_append.mp h.nodup).2.1).1 ha
    have hlt : ∀ a ∈ mid ++ t :: rest, a ≠ s.heap.length := by
      intro a ha
      obtain ⟨_, hlive⟩ := h.rest.live (List.mem_cons_of_mem b ha)
      exact (read_lt hlive).ne
    have hrefs : ∀ a ∈ mid ++ t :: rest, s₄.references a = s.references a + if noded.next = some a then 1 else 0 := by
      intro a ha
      have href := hrefs₄ a
      rwa [if_neg fun heq => hne a ha (Option.some.inj heq).symm, if_neg (hlt a ha)] at href
    obtain ⟨q, hwalkmid, hwalkrest⟩ := Walk.split (h.next_walk hnoded')
    have hmid₄ : s₄.entries mid = s.entries mid := kept_entries hwalkmid fun a ha => hsuf₄ a (by simp [ha])
    have hrest₄ : s₄.entries (t :: rest) = s.entries (t :: rest) :=
      kept_entries hwalkrest fun a ha => hsuf₄ a (List.mem_append_right mid ha)
    obtain ⟨node₄, hnode₄, _, htid₄, _⟩ := hsuf₄ t (by simp) node hnode
    have htwo : 2 ≤ s₄.references n := by
      have hpos := references_next hnoded' hnext
      rw [hrefs n hn, if_pos hnext]
      omega
    have hmid' : (s.entries mid).lookup tid = none := by rwa [← lookup_skip hnoded' htidd]
    obtain ⟨s', slot', pre', hs', hcounted', hplace', htwo', hframe', hpre', hrest', hrefs'⟩ :=
      ih hcounted₄ (hnext ▸ hplace₄) htwo hnode₄ (htid₄.trans htid) (hmid₄ ▸ hmid')
        (fun tag htag => hsizes tag (by
          rw [hmid₄] at htag
          simp [entries_cons hnoded', htag]))
        (fun a ha hna => by
          rw [hrefs a ha, hnext, if_neg fun heq => hna (Option.some.inj heq).symm]
          exact hroom a (List.mem_cons_of_mem b ha) (hne a ha))
        (by simpa using hturns)
    refine ⟨s', slot', pre', ?_, hcounted', hplace', htwo', hframe₄.trans hframe', ?_, hrest'.trans hrest₄, ?_⟩
    · rw [copy_until, hnoded']
      simp only [Option.bind_eq_bind, Option.bind_some, if_neg htidd, if_pos ((count_gt_one hcounted hnoded').mpr hshared),
        hnext, hs₁]
      rw [hnext] at hs₂ hs₃
      have hs₃' : s₂.increment n = some s₃ := hs₃
      simp only [hs₂, hs₃', hs₄, Option.bind_some, hs']
    · rw [hpre', hpre₄, hmid₄, entries_cons hnoded', List.append_assoc]
      rfl
    · intro a ha
      have hmem : a ∈ mid ++ t :: rest := by simp [ha]
      rw [hrefs' a ha, hrefs a hmem, hnext, if_neg, Nat.add_zero]
      intro heq
      exact hnrest (Option.some.inj heq ▸ ha)

/-- The place that the writer works at, in a state that the other lists do not tell from the first one. -/
structure Located (s : TagLists) (x : ℕ) (tid : TypeId) (tags : List (TypeId × TagBytes)) (pre_merge : Bool)
    (s₁ : TagLists) (pre rest : List ℕ) (slot : Slot) (cur : ℕ) (node : TagData) : Prop where
  counted : Counted s₁
  frame : Frame x s s₁
  place : At s₁ x pre slot (some cur) (cur :: rest)
  cell : s₁.read cur = some node
  of_type : node.tid = tid
  split : tags = s₁.entries pre ++ (tid, node.data) :: s₁.entries rest
  before : (s₁.entries pre).lookup tid = none
  lone : pre_merge = true → s₁.references cur = 1 ∧ s₁ = s ∧
    s.search tid (s.heap.length + 1) (.head x) (s.head x) = some (.found slot cur)
  shared : pre_merge = false → 2 ≤ s₁.references cur
  room : ∀ a ∈ rest, s₁.references a + 1 < 2 ^ 32

theorem lookup_split {data : TagBytes} (hwalk : Walk TagData.next s.heap p l none)
    (h : (s.entries l).lookup tid = some data) : ∃ mid t rest node, l = mid ++ t :: rest ∧
      (s.entries mid).lookup tid = none ∧ s.read t = some node ∧ node.tid = tid ∧ node.data = data := by
  induction l generalizing p with
  | nil => cases h
  | cons b l ih =>
    obtain ⟨rfl, node, hnode, hrest⟩ := hwalk
    have hnode' : s.read b = some node := hnode
    by_cases htid : node.tid = tid
    · rw [entries_cons hnode', htid, List.lookup_cons_self] at h
      exact ⟨[], b, l, node, rfl, rfl, hnode', htid, Option.some.inj h⟩
    · rw [lookup_skip hnode' htid] at h
      obtain ⟨mid, t, rest, node', rfl, hmid, hfound⟩ := ih hrest h
      exact ⟨b :: mid, t, rest, node', rfl, (lookup_skip hnode' htid mid).trans hmid, hfound⟩

variable (tid writer) in
theorem cow_traverse_spec (hcounted : Counted s) (howns : Owns s x tags)
    (hsizes : ∀ tag ∈ tags, tag.2.length < 2 ^ 32 - 1) (hroom : ∀ a, s.references a + 1 < 2 ^ 32) :
    (tags.lookup tid = none ∧ s.cow_traverse x tid writer = some (none, s)) ∨
      ∃ pre_merge s₁ pre rest slot cur node, Located s x tid tags pre_merge s₁ pre rest slot cur node ∧
        s.cow_traverse x tid writer =
          (s₁.write_node writer pre_merge cur slot).map fun result => (some result.1, result.2) := by
  obtain ⟨p, l, hp, hwalk, rfl⟩ := howns
  have hturns : l.length < s.heap.length + 1 := Nat.lt_succ_of_le hwalk.length_le
  obtain ⟨found, hfound, hstops⟩ := search_spec tid hcounted (at_head hp hwalk) hturns
  rw [← head_eq hp] at hfound
  cases found with
  | empty =>
    refine .inl ⟨hstops, ?_⟩
    rw [cow_traverse, hfound]
    rfl
  | found slot cur =>
    obtain ⟨mid, rest, node, rfl, hmid, hplace, hnode, htid, hlone⟩ := hstops
    refine .inr ⟨true, s, mid, rest, slot, cur, node, ⟨hcounted, Frame.refl, by simpa using hplace, hnode, htid, ?_, hmid,
      fun _ => ⟨hlone, rfl, hfound⟩, by simp, fun a _ => hroom a⟩, ?_⟩
    · rw [entries_append, entries_cons hnode, htid]
    · rw [cow_traverse, hfound]
      simp only [Option.bind_eq_bind, Option.bind_some]
      cases s.write_node writer true cur slot <;> rfl
  | merge slot cur =>
    obtain ⟨mid, rest, rfl, hmid, hplace, hshared⟩ := hstops
    have hlength : (cur :: rest).length < s.heap.length + 1 := by
      rw [List.length_append] at hturns
      omega
    have hfind := find_spec tid hplace.rest hlength
    have hlookup : (s.entries (mid ++ cur :: rest)).lookup tid = (s.entries (cur :: rest)).lookup tid := by
      rw [entries_append, List.lookup_append, hmid, Option.none_or]
    cases hresult : (s.entries (cur :: rest)).lookup tid with
    | none =>
      refine .inl ⟨hlookup.trans hresult, ?_⟩
      rw [cow_traverse, hfound]
      simp only [Option.bind_eq_bind, Option.bind_some]
      rw [hfind, hresult]
      rfl
    | some data =>
      obtain ⟨mid₂, t, rest₂, node, hsplit, hmid₂, hnode, htid, rfl⟩ := lookup_split hplace.rest hresult
      have hmid₂_length : mid₂.length < s.heap.length + 1 := by
        have hlen := congrArg List.length hsplit
        rw [List.length_append] at hlen
        omega
      have hplace' : At s x ([] ++ mid) slot (some cur) (mid₂ ++ t :: rest₂) := hsplit ▸ hplace
      obtain ⟨s', slot', pre', hs', hcounted', hplace'', htwo, hframe, hpre', hrest', hrefs⟩ :=
        copy_until_spec hcounted hplace' hshared hnode htid hmid₂
          (fun tag htag => hsizes tag (by
            rw [hsplit, entries_append, entries_append]
            simp [htag]))
          (fun a _ _ => hroom a) hmid₂_length
      obtain ⟨node', _, heq, hnode', _⟩ := hplace''.cur
      refine .inr ⟨false, s', pre', rest₂, slot', t, node', ⟨hcounted', hframe, hplace'', hnode', ?_, ?_, ?_, by simp,
        fun _ => htwo, fun a ha => hrefs a ha ▸ hroom a⟩, ?_⟩
      · rw [entries_cons hnode', entries_cons hnode] at hrest'
        exact (Prod.mk.inj (List.cons.inj hrest').1).1.trans htid
      · rw [entries_cons hnode', entries_cons hnode] at hrest'
        obtain ⟨hhead, htail⟩ := List.cons.inj hrest'
        rw [hpre', htail, (Prod.mk.inj hhead).2, hsplit, entries_append, entries_append, entries_cons hnode, htid]
        simp [List.append_assoc]
      · rw [hpre', List.lookup_append, List.nil_append, hmid, hmid₂]
        rfl
      · have hcount : node'.count > 1 := (count_gt_one hcounted' hnode').mpr htwo
        rw [cow_traverse, hfound]
        simp only [Option.bind_eq_bind, Option.bind_some]
        rw [hfind, hresult]
        simp only [Option.bind_some, hs', hnode', if_pos hcount]
        cases s'.write_node writer false t slot' <;> rfl

variable (tid) in
theorem remove_spec (hcounted : Counted s) (howns : Owns s x tags) (hsizes : ∀ tag ∈ tags, tag.2.length < 2 ^ 32 - 1)
    (hroom : ∀ a, s.references a + 1 < 2 ^ 32) : (tags.lookup tid = none ∧ s.remove x tid = some (none, s)) ∨
      ∃ before data after s', tags = before ++ (tid, data) :: after ∧ before.lookup tid = none ∧
        s.remove x tid = some (some data, s') ∧ Counted s' ∧ Frame x s s' ∧ Owns s' x (before ++ after) := by
  rcases cow_traverse_spec tid .remove hcounted howns hsizes hroom with hnone | hfound
  · exact .inl hnone
  obtain ⟨pre_merge, s₁, pre, rest, slot, cur, node, h, hresult⟩ := hfound
  have hremove : s.remove x tid = s.cow_traverse x tid .remove := rfl
  rw [hremove, hresult, write_node, remove_writer, h.cell]
  refine .inr ⟨s₁.entries pre, node.data, s₁.entries rest, ?_⟩
  cases pre_merge with
  | true =>
    obtain ⟨s₂, hs₂, _, hcounted', hplace', hframe', hpre', hrest', _⟩ :=
      h.place.unlink_spec h.cell h.counted (h.lone rfl).1
    refine ⟨s₂.free cur, h.split, h.before, ?_, hcounted', h.frame.trans hframe', ?_⟩
    · simp only [Option.bind_eq_bind, Option.bind_some, hs₂, if_true]
      rfl
    · rw [← hpre', ← hrest']
      exact hplace'.owns
  | false =>
    obtain ⟨s₂, s₃, s₄, hs₂, hs₃, hs₄, hcounted', hplace', hframe', hpre', hrest'⟩ :=
      h.place.bypass_spec h.cell h.counted (h.shared rfl) fun a ha => h.room a (h.place.next_mem h.cell ha)
    refine ⟨s₄, h.split, h.before, ?_, hcounted', h.frame.trans hframe', ?_⟩
    · simp only [Option.bind_eq_bind, Option.bind_some, hs₂, hs₃, hs₄]
      rfl
    · rw [← hpre', ← hrest']
      exact hplace'.owns

/-- The nodes of a list before the first one that something else points to. -/
def own_nodes (s : TagLists) : ℕ → Option ℕ → List TagData
  | 0, _ => []
  | _ + 1, none => []
  | turns + 1, some cur =>
    match s.read cur with
    | none => []
    | some node => if node.count > 1 then [] else node :: own_nodes s turns node.next

theorem search_own {cur : ℕ} (h : s.search tid turns slot p = some (.found slot' cur)) (hnode : s.read cur = some node) :
    node ∈ s.own_nodes turns p := by
  induction turns generalizing slot p with
  | zero => cases h
  | succ turns ih =>
    cases p with
    | none => cases h
    | some b =>
      rw [search] at h
      cases hread : s.read b with
      | none => simp [hread] at h
      | some node' =>
        simp only [own_nodes, hread]
        simp only [hread, Option.bind_eq_bind, Option.bind_some] at h
        by_cases hshared : node'.count > 1
        · simp [hshared] at h
        rw [if_neg hshared] at h ⊢
        by_cases htid : node'.tid = tid
        · rw [if_pos htid] at h
          simp only [Option.some.injEq, Search.found.injEq] at h
          obtain ⟨_, rfl⟩ := h
          rw [hnode] at hread
          simp [Option.some.inj hread]
        · rw [if_neg htid] at h
          exact List.mem_cons_of_mem _ (ih h)

variable (tid) in
/-- `ReplaceWriter` leaves data that start with the new tag, unless that is larger than the data of
a node that only this list has. -/
theorem replace_spec {tag : TagBytes} (hcounted : Counted s) (howns : Owns s x tags)
    (hsizes : ∀ tag ∈ tags, tag.2.length < 2 ^ 32 - 1) (hroom : ∀ a, s.references a + 1 < 2 ^ 32)
    (hsize : tag.length < 2 ^ 32 - 1)
    (hfits : ∀ node ∈ s.own_nodes (s.heap.length + 1) (s.head x), node.tid = tid → tag.length ≤ node.data.length) :
    (tags.lookup tid = none ∧ s.cow_traverse x tid (.replace tag) = some (none, s)) ∨
      ∃ before old data after s', tags = before ++ (tid, old) :: after ∧ before.lookup tid = none ∧
        s.cow_traverse x tid (.replace tag) = some (some old, s') ∧ Counted s' ∧ Frame x s s' ∧
        Owns s' x (before ++ (tid, data) :: after) ∧ tag <+: data ∧ data.length < 2 ^ 32 - 1 := by
  rcases cow_traverse_spec tid (.replace tag) hcounted howns hsizes hroom with hnone | hfound
  · exact .inl hnone
  obtain ⟨pre_merge, s₁, pre, rest, slot, cur, node, h, hresult⟩ := hfound
  rw [hresult, write_node, replace_writer, h.cell]
  cases pre_merge with
  | true =>
    obtain ⟨hlone, rfl, hsearch⟩ := h.lone rfl
    have hle := hfits node (search_own hsearch h.cell) h.of_type
    obtain ⟨hcounted', hframe', howns'⟩ :=
      h.place.rewrite_spec h.cell h.counted hlone (tag ++ node.data.drop tag.length)
    refine .inr ⟨s₁.entries pre, node.data, tag ++ node.data.drop tag.length, s₁.entries rest, _, h.split, h.before, ?_,
      hcounted', hframe', h.of_type ▸ howns', List.prefix_append _ _, ?_⟩
    · simp only [Option.bind_eq_bind, Option.bind_some, if_true, serialize, if_pos hle]
      rfl
    · have hold := hsizes (tid, node.data) (by rw [h.split]; simp)
      simp only [List.length_append, List.length_drop] at hold ⊢
      omega
  | false =>
    obtain ⟨s₂, s₃, s₄, s', hs₂, hs₃, hs₄, hs', hcounted', hplace', hframe', hpre', hrest', _⟩ :=
      h.place.fork_spec h.cell { node with count := 1, data := tag } h.counted (h.shared rfl) rfl rfl hsize
        fun a ha => h.room a (h.place.next_mem h.cell ha)
    refine .inr ⟨s₁.entries pre, node.data, tag, s₁.entries rest, s', h.split, h.before, ?_, hcounted',
      h.frame.trans hframe', ?_, List.prefix_rfl, hsize⟩
    · simp only [Option.bind_eq_bind, Option.bind_some, hs₂, hs₃, hs₄, hs']
      rfl
    · have howns' := hplace'.owns
      rw [hpre', kept_entries (h.place.next_walk h.cell) hrest', List.append_assoc] at howns'
      exact h.of_type ▸ howns'

end Ns3.PacketTagList.TagLists
