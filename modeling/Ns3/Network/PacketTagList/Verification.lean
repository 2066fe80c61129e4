import Ns3.Foundation.Reachable
import Ns3.Network.PacketTagList.Traverse

/-! The tag lists as maps that do not depend on each other. -/

namespace Ns3.PacketTagList

open Transition (Reachable)

/-- The map of each list from the types to the values stored last, or nothing once it is destroyed. -/
abbrev TagMaps := List (Option (TypeId → Option TagBytes))

/-- The operations on a family of lists. The result of `construct` and `copy` is the next list. -/
inductive Operation
  | construct
  | copy (y : ℕ)
  | assign (x y : ℕ)
  | add (x : ℕ) (tid : TypeId) (tag : TagBytes)
  | remove (x : ℕ) (tid : TypeId)
  | replace (x : ℕ) (tid : TypeId) (tag : TagBytes)
  | remove_all (x : ℕ)
  | destroy (x : ℕ)
  | peek (x : ℕ) (tid : TypeId)
deriving DecidableEq, Repr

inductive Response
  | done
  | found (b : Bool)
  | data (area : Option TagBytes)
deriving DecidableEq, Repr

/-- A tag reads the bytes that it wrote from the start of its data area: a `TagBuffer` does not
tell it where the area ends. -/
def Reads : Option TagBytes → Option TagBytes → Prop
  | some area, some tag => tag <+: area
  | none, none => True
  | _, _ => False

def Agrees : Response → Response → Prop
  | .done, .done => True
  | .found b, .found b' => b = b'
  | .data area, .data tag => Reads area tag
  | _, _ => False

namespace TagLists

/-- One operation of the program; `none` is a failing assertion or the use of a freed node. -/
def step (s : TagLists) : Operation → Option (Response × TagLists)
  | .construct => some (.done, s.construct)
  | .copy y => (s.copy y).map (.done, ·)
  | .assign x y => (s.assign_list x y).map (.done, ·)
  | .add x tid tag => (s.add x tid tag).map (.done, ·)
  | .remove x tid => (s.remove x tid).map fun result => (.data result.1, result.2)
  | .replace x tid tag => (s.replace x tid tag).map fun result => (.found result.1, result.2)
  | .remove_all x => (s.remove_all x).map (.done, ·)
  | .destroy x => (s.destroy x).map (.done, ·)
  | .peek x tid => (s.peek x tid).map fun data => (.data data, s)

end TagLists

namespace TagMaps

def empty : TypeId → Option TagBytes := fun _ => none

def get (m : TagMaps) (x : ℕ) (tid : TypeId) : Option TagBytes :=
  (m[x]?).join.bind fun map : TypeId → Option TagBytes => map tid

def put (m : TagMaps) (x : ℕ) (tid : TypeId) (value : Option TagBytes) : TagMaps :=
  m.modify x (Option.map fun map : TypeId → Option TagBytes => Function.update map tid value)

/-- The operations as they change the maps. -/
def step (m : TagMaps) : Operation → Response × TagMaps
  | .construct => (.done, m ++ [some empty])
  | .copy y => (.done, m ++ [(m[y]?).join])
  | .assign x y => (.done, m.set x (m[y]?).join)
  | .add x tid tag => (.done, put m x tid (some tag))
  | .remove x tid => (.data (get m x tid), put m x tid none)
  | .replace x tid tag => (.found (get m x tid).isSome, put m x tid (some tag))
  | .remove_all x => (.done, m.set x (some empty))
  | .destroy x => (.done, m.set x none)
  | .peek x tid => (.data (get m x tid), m)

end TagMaps

/-- A family of lists beside the maps they stand for. -/
structure Family where
  lists : TagLists
  maps : TagMaps

namespace Family

def step (f : Family) (op : Operation) : Option Family :=
  (f.lists.step op).map fun result => ⟨result.2, (TagMaps.step f.maps op).2⟩

def Empty (f : Family) : Prop := f = ⟨{}, []⟩

/-- A list that has been made and not been destroyed. -/
def Alive (f : Family) (x : ℕ) : Prop := (f.maps[x]?).join.isSome = true

/-- The operations of a program: on lists that there are, without a second tag of one type. -/
def Allowed (f : Family) : Operation → Prop
  | .construct => True
  | .copy y => f.Alive y
  | .assign x y => f.Alive x ∧ f.Alive y
  | .add x tid _ => f.Alive x ∧ TagMaps.get f.maps x tid = none
  | .remove x _ | .replace x _ _ | .remove_all x | .destroy x | .peek x _ => f.Alive x

/-- One more pointer to a node fits its count. -/
def Roomy (s : TagLists) : Prop := ∀ a < s.heap.length, s.references a + 1 < 2 ^ 32

/-- The serialized size fits a data area. -/
def Sized (tag : TagBytes) : Prop := tag.length < 2 ^ 32 - 1

/-- Among the nodes that a list shares with nothing, those of the type have room for the tag. -/
def FitsOwn (s : TagLists) (x : ℕ) (tid : TypeId) (tag : TagBytes) : Prop :=
  ∀ node ∈ s.own_nodes (s.heap.length + 1) (s.head x), node.tid = tid → tag.length ≤ node.data.length

def Fits (f : Family) : Operation → Prop
  | .copy _ | .assign _ _ | .remove _ _ => Roomy f.lists
  | .add _ _ tag => Sized tag
  | .replace x tid tag => Roomy f.lists ∧ Sized tag ∧ FitsOwn f.lists x tid tag
  | .construct | .remove_all _ | .destroy _ | .peek _ _ => True

def Admits (f : Family) (op : Operation) : Prop := f.Allowed op ∧ f.Fits op

/-- Each list is the map it stands for, the counts are those of the pointers, and the nodes that are
there are those with a pointer to them. -/
structure Independent (f : Family) : Prop where
  peek : ∀ x tid, f.Alive x → ∃ data, f.lists.peek x tid = some data ∧ Reads data (TagMaps.get f.maps x tid)
  count : ∀ a node, f.lists.read a = some node → node.count.toNat = f.lists.references a
  freed : ∀ a, (∃ node, f.lists.read a = some node) ↔ 0 < f.lists.references a

instance (f : Family) (x : ℕ) : Decidable (f.Alive x) := inferInstanceAs (Decidable (_ = true))

instance (f : Family) (op : Operation) : Decidable (f.Allowed op) :=
  match op with
  | .construct => inferInstanceAs (Decidable True)
  | .copy y => inferInstanceAs (Decidable (f.Alive y))
  | .assign x y => inferInstanceAs (Decidable (f.Alive x ∧ f.Alive y))
  | .add x tid _ => inferInstanceAs (Decidable (f.Alive x ∧ TagMaps.get f.maps x tid = none))
  | .remove x _ | .replace x _ _ | .remove_all x | .destroy x | .peek x _ => inferInstanceAs (Decidable (f.Alive x))

instance (s : TagLists) : Decidable (Roomy s) :=
  inferInstanceAs (Decidable (∀ a < s.heap.length, s.references a + 1 < 2 ^ 32))

instance (tag : TagBytes) : Decidable (Sized tag) := inferInstanceAs (Decidable (tag.length < 2 ^ 32 - 1))

instance (s : TagLists) (x : ℕ) (tid : TypeId) (tag : TagBytes) : Decidable (FitsOwn s x tid tag) :=
  inferInstanceAs (Decidable (∀ node ∈ s.own_nodes (s.heap.length + 1) (s.head x),
    node.tid = tid → tag.length ≤ node.data.length))

instance (f : Family) (op : Operation) : Decidable (f.Fits op) :=
  match op with
  | .copy _ | .assign _ _ | .remove _ _ => inferInstanceAs (Decidable (Roomy f.lists))
  | .add _ _ tag => inferInstanceAs (Decidable (Sized tag))
  | .replace x tid tag =>
    inferInstanceAs (Decidable (Roomy f.lists ∧ Sized tag ∧ FitsOwn f.lists x tid tag))
  | .construct | .remove_all _ | .destroy _ | .peek _ _ => inferInstanceAs (Decidable True)

instance (f : Family) (op : Operation) : Decidable (f.Admits op) :=
  inferInstanceAs (Decidable (f.Allowed op ∧ f.Fits op))

end Family

end Ns3.PacketTagList

/-! Every run keeps the lists apart and equal to their maps. -/

namespace Ns3.PacketTagList

open Transition (Reachable)
open TagLists (Counted Owns Frame)

/-- The tags of a list stand for a map. -/
structure Represents (tags : List (TypeId × TagBytes)) (map : TypeId → Option TagBytes) : Prop where
  nodup : (tags.map Prod.fst).Nodup
  sizes : ∀ tag ∈ tags, tag.2.length < 2 ^ 32 - 1
  reads : ∀ tid, Reads (tags.lookup tid) (map tid)

structure Holds (f : Family) : Prop where
  counted : Counted f.lists
  length : f.lists.lists.length = f.maps.length
  tags : ∀ x map, f.maps[x]? = some (some map) → ∃ tags, Owns f.lists x tags ∧ Represents tags map

variable {f : Family} {s s' : TagLists} {x y : ℕ} {tid : TypeId} {tags before after : List (TypeId × TagBytes)}
  {tag data old : TagBytes} {map map' : TypeId → Option TagBytes}

theorem represents_nil : Represents [] TagMaps.empty := ⟨List.nodup_nil, by simp, fun _ => trivial⟩

theorem reads_none {value : Option TagBytes} (h : Reads none value) : value = none := by
  cases value with
  | none => rfl
  | some => cases h

theorem none_reads {area : Option TagBytes} (h : Reads area none) : area = none := by
  cases area with
  | none => rfl
  | some => cases h

theorem lookup_middle {value : TagBytes} (hbefore : before.lookup tid = none) :
    (before ++ (tid, value) :: after).lookup tid = some value := by
  rw [List.lookup_append, hbefore, List.lookup_cons_self]
  rfl

theorem lookup_other {tid' : TypeId} (value : TagBytes) (hne : tid' ≠ tid) :
    (before ++ (tid, value) :: after).lookup tid' = (before ++ after).lookup tid' := by
  rw [List.lookup_append, List.lookup_append, List.lookup_cons, show (tid' == tid) = false by simpa using hne]

theorem Represents.push (h : Represents tags map) (habsent : map tid = none) (hsize : tag.length < 2 ^ 32 - 1) :
    Represents ((tid, tag) :: tags) (Function.update map tid (some tag)) := by
  have hlookup : tags.lookup tid = none := none_reads (habsent ▸ h.reads tid)
  refine ⟨?_, ?_, fun tid' => ?_⟩
  · refine List.nodup_cons.mpr ⟨fun hmem => ?_, h.nodup⟩
    obtain ⟨entry, hentry, rfl⟩ := List.mem_map.mp hmem
    have hnone := List.lookup_eq_none_iff.mp hlookup entry hentry
    simp at hnone
  · rintro entry (_ | ⟨_, hentry⟩)
    · exact hsize
    · exact h.sizes entry hentry
  · by_cases htid : tid' = tid
    · subst htid
      rw [List.lookup_cons_self, Function.update_self]
      exact List.prefix_rfl
    · rw [List.lookup_cons, show (tid' == tid) = false by simpa using htid, Function.update_of_ne htid]
      exact h.reads tid'

theorem Represents.erase (h : Represents (before ++ (tid, old) :: after) map) :
    Represents (before ++ after) (Function.update map tid none) := by
  have hsub : List.Sublist (before ++ after) (before ++ (tid, old) :: after) := by simp
  refine ⟨h.nodup.sublist (hsub.map _), fun entry hentry => h.sizes entry (hsub.subset hentry), fun tid' => ?_⟩
  by_cases htid : tid' = tid
  · subst htid
    have hnone : (before ++ after).lookup tid' = none := by
      apply List.lookup_eq_none_iff.mpr
      intro entry hentry
      have hnodup := h.nodup
      simp only [List.map_append, List.map_cons, List.nodup_middle, List.nodup_cons] at hnodup
      apply bne_iff_ne.mpr
      rintro rfl
      apply hnodup.1
      rw [← List.map_append]
      exact List.mem_map_of_mem hentry
    rw [hnone, Function.update_self]
    trivial
  · rw [Function.update_of_ne htid, ← lookup_other old htid]
    exact h.reads tid'

theorem Represents.replace (h : Represents (before ++ (tid, old) :: after) map) (hbefore : before.lookup tid = none)
    (hstart : tag <+: data) (hsize : data.length < 2 ^ 32 - 1) :
    Represents (before ++ (tid, data) :: after) (Function.update map tid (some tag)) := by
  refine ⟨by simpa using h.nodup, fun entry hentry => ?_, fun tid' => ?_⟩
  · rcases List.mem_append.mp hentry with hentry | hentry
    · exact h.sizes entry (by simp [hentry])
    · rcases List.mem_cons.mp hentry with rfl | hentry
      · exact hsize
      · exact h.sizes entry (by simp [hentry])
  · by_cases htid : tid' = tid
    · subst htid
      rw [lookup_middle hbefore, Function.update_self]
      exact hstart
    · rw [lookup_other data htid, Function.update_of_ne htid, ← lookup_other old htid]
      exact h.reads tid'

theorem TagMaps.get_eq {m : TagMaps} (hx : m[x]? = some (some map)) (tid : TypeId) : TagMaps.get m x tid = map tid := by
  rw [get, hx]
  rfl

theorem TagMaps.put_eq {m : TagMaps} (hx : m[x]? = some (some map)) (tid : TypeId) (value : Option TagBytes) :
    TagMaps.put m x tid value = m.set x (some (Function.update map tid value)) := by
  obtain ⟨hlt, hget⟩ := List.getElem?_eq_some_iff.mp hx
  rw [put, List.modify_eq_set_getElem?, hx]
  rfl

theorem alive_map (h : f.Alive x) : ∃ map, f.maps[x]? = some (some map) := by
  rw [Family.Alive] at h
  cases hcell : f.maps[x]? with
  | none => simp [hcell] at h
  | some cell =>
    cases cell with
    | none => simp [hcell] at h
    | some map => exact ⟨map, rfl⟩

theorem Family.Roomy.all (hcounted : Counted s) (h : Family.Roomy s) (a : ℕ) : s.references a + 1 < 2 ^ 32 := by
  by_cases hlt : a < s.heap.length
  · exact h a hlt
  · by_contra hge
    exact hlt (hcounted.lt (by omega))

section Step

variable (h : Holds f)
include h

theorem Holds.update (hx : f.maps[x]? = some (some map)) (hcounted : Counted s') (hframe : Frame x f.lists s')
    (howns : Owns s' x tags) (hrep : Represents tags map') : Holds ⟨s', f.maps.set x (some map')⟩ := by
  refine ⟨hcounted, by rw [hframe.length, h.length, List.length_set], fun y map₁ hy => ?_⟩
  by_cases hyx : y = x
  · subst hyx
    rw [List.getElem?_set_self (List.getElem?_eq_some_iff.mp hx).1] at hy
    obtain rfl := Option.some.inj (Option.some.inj hy)
    exact ⟨tags, howns, hrep⟩
  · rw [List.getElem?_set_ne (Ne.symm hyx)] at hy
    obtain ⟨tags', howns', hrep'⟩ := h.tags y map₁ hy
    exact ⟨tags', hframe.owns y hyx tags' howns', hrep'⟩

theorem Holds.peek_reads (hx : f.maps[x]? = some (some map)) (tid : TypeId) :
    ∃ data, f.lists.peek x tid = some data ∧ Reads data (map tid) := by
  obtain ⟨tags, ⟨p, l, hp, hwalk, rfl⟩, hrep⟩ := h.tags x map hx
  refine ⟨_, ?_, hrep.reads tid⟩
  rw [TagLists.peek, TagLists.head_eq hp]
  exact TagLists.find_spec tid hwalk (Nat.lt_succ_of_le hwalk.length_le)

theorem Holds.add (hx : f.maps[x]? = some (some map)) (habsent : map tid = none) (hsize : Family.Sized tag) :
    ∃ s', f.lists.add x tid tag = some s' ∧ Holds ⟨s', f.maps.set x (some (Function.update map tid (some tag)))⟩ := by
  obtain ⟨tags, ⟨p, l, hp, hwalk, rfl⟩, hrep⟩ := h.tags x map hx
  obtain ⟨data, hpeek, hreads⟩ := h.peek_reads hx tid
  rw [habsent] at hreads
  obtain rfl := none_reads hreads
  obtain ⟨s₁, s', hs₁, hs', hcounted', hframe', howns'⟩ := TagLists.push_spec h.counted hp hwalk tid hsize
  refine ⟨s', ?_, h.update hx hcounted' hframe' howns' (hrep.push habsent hsize)⟩
  rw [TagLists.add, hpeek]
  simp only [Option.bind_eq_bind, Option.bind_some, TagLists.head_eq hp, hs₁, hs']

variable (tid) in
theorem Holds.remove (hx : f.maps[x]? = some (some map)) (hroom : Family.Roomy f.lists) :
    ∃ data s', f.lists.remove x tid = some (data, s') ∧ Reads data (map tid) ∧
      Holds ⟨s', f.maps.set x (some (Function.update map tid none))⟩ := by
  obtain ⟨tags, howns, hrep⟩ := h.tags x map hx
  have hreads := hrep.reads tid
  rcases TagLists.remove_spec tid h.counted howns hrep.sizes (hroom.all h.counted) with hnone | hfound
  · obtain ⟨hlookup, hremove⟩ := hnone
    rw [hlookup] at hreads
    refine ⟨none, f.lists, hremove, hreads, ?_⟩
    rw [Function.update_eq_self_iff.mpr (reads_none hreads).symm]
    exact h.update hx h.counted Frame.refl howns hrep
  · obtain ⟨before, data, after, s', rfl, hbefore, hremove, hcounted', hframe', howns'⟩ := hfound
    rw [lookup_middle hbefore] at hreads
    exact ⟨some data, s', hremove, hreads, h.update hx hcounted' hframe' howns' hrep.erase⟩

theorem Holds.replace (hx : f.maps[x]? = some (some map)) (hroom : Family.Roomy f.lists) (hsize : Family.Sized tag)
    (hfits : Family.FitsOwn f.lists x tid tag) :
    ∃ s', f.lists.replace x tid tag = some ((map tid).isSome, s') ∧
      Holds ⟨s', f.maps.set x (some (Function.update map tid (some tag)))⟩ := by
  obtain ⟨tags, howns, hrep⟩ := h.tags x map hx
  have hreads := hrep.reads tid
  rcases TagLists.replace_spec tid h.counted howns hrep.sizes (hroom.all h.counted) hsize hfits with
    hnone | hfound
  · obtain ⟨hlookup, htraverse⟩ := hnone
    rw [hlookup] at hreads
    have habsent := reads_none hreads
    obtain ⟨s', hadd, hholds⟩ := h.add hx habsent hsize
    refine ⟨s', ?_, hholds⟩
    rw [TagLists.replace, htraverse, habsent]
    simp only [Option.bind_eq_bind, Option.bind_some, hadd]
    rfl
  · obtain ⟨before, old, data, after, s', rfl, hbefore, htraverse, hcounted', hframe', howns', hstart, hlen⟩ := hfound
    rw [lookup_middle hbefore] at hreads
    refine ⟨s', ?_, h.update hx hcounted' hframe' howns' (hrep.replace hbefore hstart hlen)⟩
    rw [TagLists.replace, htraverse]
    cases hmap : map tid with
    | none => rw [hmap] at hreads; cases hreads
    | some => rfl

theorem Holds.remove_all (hx : f.maps[x]? = some (some map)) :
    ∃ s', f.lists.remove_all x = some s' ∧ s'.lists[x]? = some (some none) ∧
      (∀ a, s'.references a ≤ f.lists.references a) ∧ Frame x f.lists s' ∧
      Holds ⟨s', f.maps.set x (some TagMaps.empty)⟩ := by
  obtain ⟨tags, howns, hrep⟩ := h.tags x map hx
  obtain ⟨s', hs', hcounted', hframe', hempty, hle⟩ := TagLists.remove_all_spec h.counted howns
  exact ⟨s', hs', hempty, hle, hframe',
    h.update hx hcounted' hframe' ⟨none, [], hempty, rfl, rfl⟩ represents_nil⟩

theorem Holds.construct : Holds ⟨f.lists.construct, f.maps ++ [some TagMaps.empty]⟩ := by
  obtain ⟨hcounted', howns'⟩ := TagLists.construct_spec h.counted
  refine ⟨hcounted', by simp [TagLists.construct, h.length], fun y map hy => ?_⟩
  by_cases hlt : y < f.maps.length
  · rw [List.getElem?_append_left hlt] at hy
    obtain ⟨tags, howns, hrep⟩ := h.tags y map hy
    exact ⟨tags, TagLists.construct_owns howns, hrep⟩
  · have hlen := (List.getElem?_eq_some_iff.mp hy).1
    simp only [List.length_append, List.length_singleton] at hlen
    obtain rfl : y = f.maps.length := by omega
    simp only [List.getElem?_concat_length, Option.some.injEq] at hy
    subst hy
    exact ⟨[], h.length ▸ howns', represents_nil⟩

theorem Holds.share (hxy : x ≠ y) (hx : f.maps[x]? = some (some map)) (hempty : f.lists.lists[x]? = some (some none))
    (hy : f.maps[y]? = some (some map')) (hroom : ∀ a, f.lists.references a + 1 < 2 ^ 32) :
    ∃ p s₁ s', f.lists.lists[y]? = some (some p) ∧ f.lists.assign p (.head x) = some s₁ ∧
      s₁.increment_if p = some s' ∧ s₁.head y = p ∧ Holds ⟨s', f.maps.set x (some map')⟩ := by
  obtain ⟨tags, howns, hrep⟩ := h.tags y map' hy
  have hplace := howns
  obtain ⟨p, l, hp, _⟩ := hplace
  obtain ⟨s₁, s', hs₁, hs', hhead, hcounted', hframe', howns'⟩ :=
    TagLists.share_spec h.counted hxy hempty hp howns fun a _ => hroom a
  exact ⟨p, s₁, s', hp, hs₁, hs', hhead, h.update hx hcounted' hframe' howns' hrep⟩

theorem Holds.copy (hy : f.maps[y]? = some (some map)) (hroom : Family.Roomy f.lists) :
    ∃ s', f.lists.copy y = some s' ∧ Holds ⟨s', f.maps ++ [some map]⟩ := by
  -- the copy is a new list that gets the tags
  have hnew := h.construct
  have hlt := (List.getElem?_eq_some_iff.mp hy).1
  have hx : (f.maps ++ [some TagMaps.empty])[f.maps.length]? = some (some TagMaps.empty) := by simp
  have hy' : (f.maps ++ [some TagMaps.empty])[y]? = some (some map) := by rw [List.getElem?_append_left hlt, hy]
  have hempty : f.lists.construct.lists[f.maps.length]? = some (some none) := by
    simp [TagLists.construct, ← h.length]
  have hroom' : ∀ a, f.lists.construct.references a + 1 < 2 ^ 32 := by
    intro a
    have hold := hroom.all h.counted a
    simpa [TagLists.references, SharedList.references, TagLists.construct] using hold
  obtain ⟨p, s₁, s', hp, hs₁, hs', _, hholds⟩ := hnew.share (by omega) hx hempty hy' hroom'
  have hylists : f.lists.lists[y]? = some (some p) := by
    rw [TagLists.construct, List.getElem?_append_left (h.length ▸ hlt)] at hp
    exact hp
  refine ⟨s', ?_, ?_⟩
  · cases hs₁
    rw [TagLists.copy, TagLists.head_eq hylists, ← hs', TagLists.construct, ← h.length]
    simp
  · simpa using hholds

theorem Holds.assign (hx : f.maps[x]? = some (some map)) (hy : f.maps[y]? = some (some map'))
    (hroom : Family.Roomy f.lists) :
    ∃ s', f.lists.assign_list x y = some s' ∧ Holds ⟨s', f.maps.set x (some map')⟩ := by
  obtain ⟨tags, ⟨p, l, hp, hwalk, rfl⟩, hrep⟩ := h.tags x map hx
  obtain ⟨tags', ⟨p', l', hp', hwalk', rfl⟩, hrep'⟩ := h.tags y map' hy
  rw [TagLists.assign_list, TagLists.head_eq hp, TagLists.head_eq hp']
  by_cases hsame : p = p'
  · subst hsame
    obtain rfl := hwalk.unique hwalk'
    rw [if_pos rfl]
    exact ⟨f.lists, rfl, h.update hx h.counted Frame.refl ⟨p, l, hp, hwalk, rfl⟩ hrep'⟩
  · rw [if_neg hsame]
    have hxy : x ≠ y := by
      rintro rfl
      rw [hp] at hp'
      exact hsame (Option.some.inj (Option.some.inj hp'))
    obtain ⟨s₁, hs₁, hempty, hle, hframe, hholds₁⟩ := h.remove_all hx
    have hlt := (List.getElem?_eq_some_iff.mp hx).1
    have hx₁ : (f.maps.set x (some TagMaps.empty))[x]? = some (some TagMaps.empty) := List.getElem?_set_self hlt
    have hy₁ : (f.maps.set x (some TagMaps.empty))[y]? = some (some map') := by rw [List.getElem?_set_ne hxy, hy]
    have hroom₁ : ∀ a, s₁.references a + 1 < 2 ^ 32 := fun a =>
      lt_of_le_of_lt (Nat.succ_le_succ (hle a)) (hroom.all h.counted a)
    obtain ⟨q, s₂, s', hq, hs₂, hs', hhead, hholds'⟩ := hholds₁.share hxy hx₁ hempty hy₁ hroom₁
    refine ⟨s', ?_, by simpa using hholds'⟩
    simp only [Option.bind_eq_bind, Option.bind_some, hs₁, TagLists.head_eq hq, hs₂, hhead, hs']

theorem Holds.destroy (hx : f.maps[x]? = some (some map)) :
    ∃ s', f.lists.destroy x = some s' ∧ Holds ⟨s', f.maps.set x none⟩ := by
  obtain ⟨s₁, hs₁, hempty, _, _, hholds₁⟩ := h.remove_all hx
  obtain ⟨hcounted', hframe'⟩ := TagLists.dead_spec hholds₁.counted hempty
  refine ⟨{ s₁ with lists := s₁.lists.set x none }, by rw [TagLists.destroy, hs₁]; rfl, hcounted', ?_,
    fun y map' hy => ?_⟩
  · have hlength := hholds₁.length
    simpa using hlength
  · have hyx : y ≠ x := by
      rintro rfl
      rw [List.getElem?_set_self (List.getElem?_eq_some_iff.mp hx).1] at hy
      cases hy
    rw [List.getElem?_set_ne hyx.symm] at hy
    have hy₁ : (f.maps.set x (some TagMaps.empty))[y]? = some (some map') := by rw [List.getElem?_set_ne hyx.symm, hy]
    obtain ⟨tags, howns, hrep⟩ := hholds₁.tags y map' hy₁
    exact ⟨tags, hframe'.owns y hyx tags howns, hrep⟩

theorem Holds.step {op : Operation} (hop : f.Admits op) :
    ∃ response s', f.lists.step op = some (response, s') ∧ Agrees response (TagMaps.step f.maps op).1 ∧
      Holds ⟨s', (TagMaps.step f.maps op).2⟩ := by
  obtain ⟨hallowed, hfits⟩ := hop
  cases op with
  | construct => exact ⟨.done, _, rfl, trivial, h.construct⟩
  | copy y =>
    obtain ⟨map, hy⟩ := alive_map hallowed
    obtain ⟨s', hs', hholds⟩ := h.copy hy hfits
    refine ⟨.done, s', by rw [TagLists.step, hs']; rfl, trivial, ?_⟩
    rw [TagMaps.step, hy]
    exact hholds
  | assign x y =>
    obtain ⟨map, hx⟩ := alive_map hallowed.1
    obtain ⟨map', hy⟩ := alive_map hallowed.2
    obtain ⟨s', hs', hholds⟩ := h.assign hx hy hfits
    refine ⟨.done, s', by rw [TagLists.step, hs']; rfl, trivial, ?_⟩
    rw [TagMaps.step, hy]
    exact hholds
  | add x tid tag =>
    obtain ⟨map, hx⟩ := alive_map hallowed.1
    have habsent := hallowed.2
    rw [TagMaps.get_eq hx] at habsent
    obtain ⟨s', hs', hholds⟩ := h.add hx habsent hfits
    refine ⟨.done, s', by rw [TagLists.step, hs']; rfl, trivial, ?_⟩
    rw [TagMaps.step, TagMaps.put_eq hx]
    exact hholds
  | remove x tid =>
    obtain ⟨map, hx⟩ := alive_map hallowed
    obtain ⟨data, s', hs', hreads, hholds⟩ := h.remove tid hx hfits
    refine ⟨.data data, s', by rw [TagLists.step, hs']; rfl, ?_, ?_⟩
    · rw [TagMaps.step, TagMaps.get_eq hx]
      exact hreads
    · rw [TagMaps.step, TagMaps.put_eq hx]
      exact hholds
  | replace x tid tag =>
    obtain ⟨map, hx⟩ := alive_map hallowed
    obtain ⟨s', hs', hholds⟩ := h.replace hx hfits.1 hfits.2.1 hfits.2.2
    refine ⟨.found (map tid).isSome, s', by rw [TagLists.step, hs']; rfl, ?_, ?_⟩
    · rw [TagMaps.step, TagMaps.get_eq hx]
      rfl
    · rw [TagMaps.step, TagMaps.put_eq hx]
      exact hholds
  | remove_all x =>
    obtain ⟨map, hx⟩ := alive_map hallowed
    obtain ⟨s', hs', _, _, _, hholds⟩ := h.remove_all hx
    exact ⟨.done, s', by rw [TagLists.step, hs']; rfl, trivial, hholds⟩
  | destroy x =>
    obtain ⟨map, hx⟩ := alive_map hallowed
    obtain ⟨s', hs', hholds⟩ := h.destroy hx
    exact ⟨.done, s', by rw [TagLists.step, hs']; rfl, trivial, hholds⟩
  | peek x tid =>
    obtain ⟨map, hx⟩ := alive_map hallowed
    obtain ⟨data, hdata, hreads⟩ := h.peek_reads hx tid
    refine ⟨.data data, f.lists, by rw [TagLists.step, hdata]; rfl, ?_, h⟩
    rw [TagMaps.step, TagMaps.get_eq hx]
    exact hreads

theorem Holds.independent : f.Independent := by
  refine ⟨fun x tid hx => ?_, fun a node hnode => (h.counted.count a node hnode).1, fun a => ⟨?_, h.counted.live a⟩⟩
  · obtain ⟨map, hmap⟩ := alive_map hx
    rw [TagMaps.get_eq hmap]
    exact h.peek_reads hmap tid
  · rintro ⟨node, hnode⟩
    exact (h.counted.count a node hnode).2

end Step

theorem empty_holds : Holds ⟨{}, []⟩ := by
  refine ⟨⟨fun a node hnode => ?_, fun a ha => ?_⟩, rfl, by simp⟩
  · simp [TagLists.read, SharedList.read] at hnode
  · simp [TagLists.references, SharedList.references, SharedList.incoming] at ha

/-- In every program whose replacements fit the nodes of their list, each list is its own map, no
operation fails, and the counts and the nodes are those of the pointers. -/
theorem tag_lists_are_maps (hreach : Reachable Family.Empty Family.step Family.Admits f) : f.Independent ∧
    ∀ op, f.Admits op → ∃ response s', f.lists.step op = some (response, s') ∧
      Agrees response (TagMaps.step f.maps op).1 ∧ Family.Independent ⟨s', (TagMaps.step f.maps op).2⟩ := by
  have hholds : Holds f := by
    apply hreach.invariant
    · rintro f rfl
      exact empty_holds
    · intro f op f' h hop hstep
      obtain ⟨response, s', hs', _, h'⟩ := h.step hop
      rw [Family.step, hs'] at hstep
      cases hstep
      exact h'
  refine ⟨hholds.independent, fun op hop => ?_⟩
  obtain ⟨response, s', hs', hagrees, h'⟩ := hholds.step hop
  exact ⟨response, s', hs', hagrees, h'.independent⟩

namespace Sample

/-- Two lists that share a node, a replacement in each, and the end of one. -/
def operations : List Operation :=
  [.construct, .add 0 1 [7], .add 0 2 [8, 9], .copy 0, .replace 0 1 [5, 6, 7], .replace 1 1 [4], .remove 0 2,
    .destroy 0]

end Sample

theorem tag_lists_are_maps_sample : ∃ f, Reachable Family.Empty Family.step Family.Admits f ∧
    f.lists.heap.length = 4 ∧ f.Independent ∧ ∀ op, f.Admits op → ∃ response s', f.lists.step op = some (response, s') ∧
      Agrees response (TagMaps.step f.maps op).1 ∧ Family.Independent ⟨s', (TagMaps.step f.maps op).2⟩ := by
  have hrun : (Transition.execute Family.step Family.Admits ⟨{}, []⟩ Sample.operations).map
      (fun f => f.lists.heap.length) = some 4 := by decide +kernel
  obtain ⟨f, hf, hlength⟩ := Option.map_eq_some_iff.mp hrun
  have hreach := (Reachable.init (show Family.Empty ⟨{}, []⟩ from rfl)).execute hf
  exact ⟨f, hreach, hlength, tag_lists_are_maps hreach⟩

/-- A larger tag is written over the data of a node that only its list has. -/
theorem replace_writes_past_the_data : ∃ f tid tag,
    Reachable Family.Empty Family.step Family.Admits f ∧ f.Allowed (.replace 0 tid tag) ∧ tag.length = 2 ∧
      f.lists.step (.replace 0 tid tag) = none := by
  have hrun : (Transition.execute Family.step Family.Admits ⟨{}, []⟩ [.construct, .add 0 1 [7]]).map
      (fun f => (decide (f.Allowed (.replace 0 1 [1, 2])), f.lists.step (.replace 0 1 [1, 2]))) = some (true, none) := by
    decide +kernel
  obtain ⟨f, hf, hfacts⟩ := Option.map_eq_some_iff.mp hrun
  simp only [Prod.mk.injEq, decide_eq_true_eq] at hfacts
  exact ⟨f, 1, [1, 2], (Reachable.init (show Family.Empty ⟨{}, []⟩ from rfl)).execute hf, hfacts.1, rfl, hfacts.2⟩

end Ns3.PacketTagList
