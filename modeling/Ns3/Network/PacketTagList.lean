import Ns3.Foundation.SharedList

namespace Ns3

/-- The identifier of a `TypeId`. -/
abbrev TypeId := UInt16

/-- The bytes that a tag serializes itself into. -/
abbrev TagBytes := List UInt8

namespace PacketTagList

open SharedList (Heap)

/-- A node. `size` is the length of its data area. -/
structure TagData where
  next : Option ℕ
  count : UInt32
  tid : TypeId
  data : TagBytes
deriving DecidableEq, Repr

/-- The nodes and the lists that share them. `lists` holds the pointer `m_next` of each list, or
nothing once the list is destroyed. -/
structure TagLists where
  heap : Heap TagData := []
  lists : List (Option (Option ℕ)) := []
deriving DecidableEq, Repr

/-- Where a pointer stands: in a list object or in a node. -/
inductive Slot
  | head (x : ℕ)
  | next (a : ℕ)
deriving DecidableEq, Repr

/-- The action of `COWTraverse` on the node it finds. -/
inductive COWWriter
  | remove
  | replace (tag : TagBytes)
deriving DecidableEq, Repr

/-- `Tag::Serialize` into a data area; `none` is the failing assertion of `TagBuffer`. -/
def serialize (tag area : TagBytes) : Option TagBytes :=
  if tag.length ≤ area.length then some (tag ++ area.drop tag.length) else none

namespace TagLists

def read (s : TagLists) (a : ℕ) : Option TagData := SharedList.read s.heap a

def write (s : TagLists) (a : ℕ) (node : TagData) : TagLists := { s with heap := s.heap.set a (some node) }

def free (s : TagLists) (a : ℕ) : TagLists := { s with heap := s.heap.set a none }

/-- `CreateTagData` and the initialization of the node, which is at the end of the heap;
`none` is the failing assertion on the size. -/
def create_tag_data (s : TagLists) (node : TagData) : Option TagLists :=
  if node.data.length < 2 ^ 32 - 1 then some { s with heap := s.heap ++ [some node] } else none

/-- The pointer of a list. A destroyed one has none. -/
def head (s : TagLists) (x : ℕ) : Option ℕ := (s.lists[x]?).join.join

/-- The assignment of a pointer; `none` is the use of a freed node. -/
def assign (s : TagLists) (p : Option ℕ) : Slot → Option TagLists
  | .head x => some { s with lists := s.lists.set x (some p) }
  | .next a => (s.read a).map fun node => s.write a { node with next := p }

/-- `count++` and `count--` of a node. -/
def increment (s : TagLists) (a : ℕ) : Option TagLists :=
  (s.read a).map fun node => s.write a { node with count := node.count + 1 }

def decrement (s : TagLists) (a : ℕ) : Option TagLists :=
  (s.read a).map fun node => s.write a { node with count := node.count - 1 }

/-- `count++` of a node that there may not be. -/
def increment_if (s : TagLists) : Option ℕ → Option TagLists
  | none => some s
  | some a => s.increment a

/-- Where the search from the head of a list stops. -/
inductive Search
  | empty
  | found (prev_next : Slot) (cur : ℕ)
  | merge (prev_next : Slot) (cur : ℕ)
deriving DecidableEq, Repr

/-- The search for `tid` or a shared node. The heap bounds the number of turns. -/
def search (s : TagLists) (tid : TypeId) : ℕ → Slot → Option ℕ → Option Search
  | 0, _, _ => none
  | _ + 1, _, none => some .empty
  | turns + 1, prev_next, some cur => do
    let node ← s.read cur
    if node.count > 1 then some (.merge prev_next cur)
    else if node.tid = tid then some (.found prev_next cur)
    else search s tid turns (.next cur) node.next

/-- The data of the first node with `tid`; the inner `none` is the end of the list. -/
def find (s : TagLists) (tid : TypeId) : ℕ → Option ℕ → Option (Option TagBytes)
  | 0, _ => none
  | _ + 1, none => some none
  | turns + 1, some cur => do
    let node ← s.read cur
    if node.tid = tid then some (some node.data) else find s tid turns node.next

/-- The loop that copies shared nodes until it reaches `tid`. -/
def copy_until (tid : TypeId) : ℕ → TagLists → Slot → ℕ → Option (TagLists × Slot × ℕ)
  | 0, _, _, _ => none
  | turns + 1, s, prev_next, cur => do
    let node ← s.read cur
    if node.tid = tid then some (s, prev_next, cur)
    else if node.count > 1 then
      let next ← node.next
      let copy := s.heap.length
      let s ← s.decrement cur
      let s ← s.create_tag_data { node with count := 1 }
      let s ← s.increment next
      let s ← s.assign (some copy) prev_next
      copy_until tid turns s (.next copy) next
    else none

def remove_writer (s : TagLists) (pre_merge : Bool) (cur : ℕ) (prev_next : Slot) : Option (TagBytes × TagLists) := do
  let node ← s.read cur
  let s ← s.assign node.next prev_next
  if pre_merge then some (node.data, s.free cur)
  else
    let s ← s.decrement cur
    let s ← s.increment_if node.next
    some (node.data, s)

def replace_writer (s : TagLists) (tag : TagBytes) (pre_merge : Bool) (cur : ℕ) (prev_next : Slot) :
    Option (TagBytes × TagLists) := do
  let node ← s.read cur
  if pre_merge then
    let data ← serialize tag node.data
    some (node.data, s.write cur { node with data })
  else
    let copy := s.heap.length
    let s ← s.decrement cur
    let s ← s.create_tag_data { node with count := 1, data := tag }
    let s ← s.increment_if node.next
    let s ← s.assign (some copy) prev_next
    some (node.data, s)

def write_node (writer : COWWriter) (s : TagLists) (pre_merge : Bool) (cur : ℕ) (prev_next : Slot) :
    Option (TagBytes × TagLists) :=
  match writer with
  | .remove => s.remove_writer pre_merge cur prev_next
  | .replace tag => s.replace_writer tag pre_merge cur prev_next

/-- `COWTraverse`. The result is the data of the node found, if there is one. -/
def cow_traverse (s : TagLists) (x : ℕ) (tid : TypeId) (writer : COWWriter) : Option (Option TagBytes × TagLists) := do
  match ← s.search tid (s.heap.length + 1) (.head x) (s.head x) with
  | .empty => some (none, s)
  | .found prev_next cur =>
    let (data, s) ← s.write_node writer true cur prev_next
    some (some data, s)
  | .merge prev_next cur =>
    match ← s.find tid (s.heap.length + 1) (some cur) with
    | none => some (none, s)
    | some _ =>
      let (s, prev_next, cur) ← copy_until tid (s.heap.length + 1) s prev_next cur
      let node ← s.read cur
      if node.count > 1 then
        let (data, s) ← s.write_node writer false cur prev_next
        some (some data, s)
      else none

/-- `Remove`, with the data the tag is read from. -/
def remove (s : TagLists) (x : ℕ) (tid : TypeId) : Option (Option TagBytes × TagLists) :=
  s.cow_traverse x tid .remove

/-- `Peek`, with the data the tag is read from. -/
def peek (s : TagLists) (x : ℕ) (tid : TypeId) : Option (Option TagBytes) :=
  s.find tid (s.heap.length + 1) (s.head x)

/-- `Add`; it is an assertion that the list has no tag of the type. -/
def add (s : TagLists) (x : ℕ) (tid : TypeId) (tag : TagBytes) : Option TagLists := do
  match ← s.peek x tid with
  | some _ => none
  | none =>
    let head := s.heap.length
    let s ← s.create_tag_data ⟨s.head x, 1, tid, tag⟩
    s.assign (some head) (.head x)

def replace (s : TagLists) (x : ℕ) (tid : TypeId) (tag : TagBytes) : Option (Bool × TagLists) := do
  match ← s.cow_traverse x tid (.replace tag) with
  | (some _, s) => some (true, s)
  | (none, s) => (s.add x tid tag).map fun s => (false, s)

/-- The loop of `RemoveAll`. A node is freed after the pointer to the next one is read. -/
def remove_all_loop : ℕ → TagLists → Option ℕ → Option TagLists
  | 0, _, _ => none
  | _ + 1, s, none => some s
  | turns + 1, s, some cur => do
    let node ← s.read cur
    if node.count - 1 > 0 then some (s.write cur { node with count := node.count - 1 })
    else remove_all_loop turns (s.free cur) node.next

def remove_all (s : TagLists) (x : ℕ) : Option TagLists := do
  let s ← remove_all_loop (s.heap.length + 1) s (s.head x)
  s.assign none (.head x)

/-- The default constructor of a list. -/
def construct (s : TagLists) : TagLists := { s with lists := s.lists ++ [some none] }

/-- The copy constructor. -/
def copy (s : TagLists) (y : ℕ) : Option TagLists :=
  ({ s with lists := s.lists ++ [some (s.head y)] } : TagLists).increment_if (s.head y)

/-- `operator=`. -/
def assign_list (s : TagLists) (x y : ℕ) : Option TagLists :=
  if s.head x = s.head y then some s
  else do
    let s ← s.remove_all x
    let s ← s.assign (s.head y) (.head x)
    s.increment_if (s.head y)

/-- The destructor. -/
def destroy (s : TagLists) (x : ℕ) : Option TagLists :=
  (s.remove_all x).map fun s => { s with lists := s.lists.set x none }

end TagLists

end PacketTagList

end Ns3
