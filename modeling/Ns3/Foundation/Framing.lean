import Mathlib

/-! Messages that are sent in pieces, each of which says whether it starts and whether it ends a message. -/

namespace Framing

structure Piece (α : Type*) where
  content : List α
  starts : Bool
  ends : Bool
deriving DecidableEq

/-- What a receiver makes of the pieces: the messages that are complete, and what there is of the next one. -/
structure Reassembly (α : Type*) where
  messages : List (List α) := []
  rest : List α := []
deriving DecidableEq

/-- A sender: what is sent of its first message, and what each message still has to send. -/
structure Sender (α : Type*) where
  sent : List α := []
  queue : List (List α) := []

variable {α : Type*}

def Reassembly.add (r : Reassembly α) (p : Piece α) : Reassembly α :=
  let content := if p.starts then p.content else r.rest ++ p.content
  if p.ends then { messages := r.messages ++ [content] } else { r with rest := content }

def join (pieces : List (Piece α)) : Reassembly α := pieces.foldl Reassembly.add {}

/-- A list cut at some sizes; the last part takes what is left. -/
def cut : List ℕ → List α → List (List α)
  | [], l => [l]
  | n :: sizes, l => l.take n :: cut sizes (l.drop n)

/-- Contents in a row: only the first one may continue a message, and only the last one may be continued. -/
def mark (starts ends : Bool) : List (List α) → List (Piece α)
  | [] => []
  | [content] => [⟨content, starts, ends⟩]
  | content :: next :: contents => ⟨content, starts, true⟩ :: mark true ends (next :: contents)

/-- The messages that a sender has not sent to the end. -/
def Sender.messages : Sender α → List (List α)
  | ⟨_, []⟩ => []
  | ⟨sent, first :: queue⟩ => (sent ++ first) :: queue

/-- Pieces that a sender sends one after another. -/
inductive Sends : Sender α → List (Piece α) → Sender α → Prop
  | nil {s : Sender α} : Sends s [] s
  | whole {sent first : List α} {queue : List (List α)} {pieces : List (Piece α)} {s : Sender α} : first ≠ [] →
    Sends ⟨[], queue⟩ pieces s → Sends ⟨sent, first :: queue⟩ (⟨first, sent.isEmpty, true⟩ :: pieces) s
  | part {sent content left : List α} {queue : List (List α)} {pieces : List (Piece α)} {s : Sender α} : content ≠ [] →
    left ≠ [] → Sends ⟨sent ++ content, left :: queue⟩ pieces s →
    Sends ⟨sent, (content ++ left) :: queue⟩ (⟨content, sent.isEmpty, false⟩ :: pieces) s

def Reassembly.size (r : Reassembly α) : ℕ := (r.messages.map List.length).sum + r.rest.length

variable {s s' s'' : Sender α} {pieces pieces' : List (Piece α)} {contents : List (List α)} {starts ends : Bool}

/-- A piece continues what is there, whether it says so or there is nothing. -/
theorem Reassembly.add_eq (messages : List (List α)) (sent content : List α) (ends : Bool) :
    Reassembly.add ⟨messages, sent⟩ ⟨content, sent.isEmpty, ends⟩ =
      if ends then ⟨messages ++ [sent ++ content], []⟩ else ⟨messages, sent ++ content⟩ := by
  cases sent with
  | nil => simp [Reassembly.add]
  | cons a sent => simp [Reassembly.add]

theorem Sender.messages_append (sent : List α) {queue : List (List α)} (hidle : queue = [] → sent = [])
    (more : List (List α)) :
    Sender.messages ⟨sent, queue ++ more⟩ = Sender.messages ⟨sent, queue⟩ ++ more := by
  cases queue with
  | nil =>
    cases hidle rfl
    cases more with
    | nil => rfl
    | cons next more => rfl
  | cons first queue => rfl

theorem Sender.length_messages {sent : List α} {queue : List (List α)} (hidle : queue = [] → sent = []) :
    ((Sender.messages ⟨sent, queue⟩).map List.length).sum = sent.length + (queue.map List.length).sum := by
  cases queue with
  | nil => simp [Sender.messages, hidle rfl]
  | cons first queue => simp [Sender.messages, add_assoc]

theorem Sends.foldl_add (h : Sends s pieces s') (messages : List (List α)) :
    ∃ complete, pieces.foldl Reassembly.add ⟨messages, s.sent⟩ = ⟨messages ++ complete, s'.sent⟩ ∧
      complete ++ s'.messages = s.messages := by
  induction h generalizing messages with
  | nil => exact ⟨[], by simp, rfl⟩
  | @whole sent first queue pieces s hfirst _ ih =>
    obtain ⟨complete, hjoin, hmessages⟩ := ih (messages ++ [sent ++ first])
    refine ⟨(sent ++ first) :: complete, ?_, ?_⟩
    · rw [List.foldl_cons, Reassembly.add_eq, if_pos rfl, hjoin, List.append_assoc, List.singleton_append]
    · rw [List.cons_append, hmessages]
      cases queue with
      | nil => rfl
      | cons next queue => rfl
  | @part sent content left queue pieces s hcontent hleft _ ih =>
    obtain ⟨complete, hjoin, hmessages⟩ := ih messages
    refine ⟨complete, ?_, ?_⟩
    · rw [List.foldl_cons, Reassembly.add_eq, if_neg Bool.false_ne_true, hjoin]
    · rw [hmessages, Sender.messages, Sender.messages, List.append_assoc]

theorem Sends.size_foldl_add (h : Sends s pieces s') (messages : List (List α)) :
    (pieces.foldl Reassembly.add ⟨messages, s.sent⟩).size =
      Reassembly.size ⟨messages, s.sent⟩ + (pieces.map fun p => p.content.length).sum := by
  induction h generalizing messages with
  | nil => rfl
  | whole _ _ ih =>
    rw [List.foldl_cons, Reassembly.add_eq, if_pos rfl, ih]
    simp [Reassembly.size]
    omega
  | part _ _ _ ih =>
    rw [List.foldl_cons, Reassembly.add_eq, if_neg Bool.false_ne_true, ih]
    simp [Reassembly.size]
    omega

theorem Sends.content_ne_nil (h : Sends s pieces s') : ∀ p ∈ pieces, p.content ≠ [] := by
  induction h with
  | nil => simp
  | whole hfirst _ ih => exact List.forall_mem_cons.mpr ⟨hfirst, ih⟩
  | part hcontent _ _ ih => exact List.forall_mem_cons.mpr ⟨hcontent, ih⟩

theorem Sends.length_queue (h : Sends s pieces s') :
    (pieces.map fun p => p.content.length).sum + (s'.queue.map List.length).sum = (s.queue.map List.length).sum := by
  induction h with
  | nil => simp
  | whole _ _ ih =>
    simp only [List.map_cons, List.sum_cons] at ih ⊢
    omega
  | part _ _ _ ih =>
    simp only [List.map_cons, List.sum_cons, List.length_append] at ih ⊢
    omega

theorem join_append (pieces pieces' : List (Piece α)) :
    join (pieces ++ pieces') = pieces'.foldl Reassembly.add (join pieces) := List.foldl_append ..

theorem cut_flatten (hcontents : contents ≠ []) : cut (contents.dropLast.map List.length) contents.flatten = contents := by
  induction contents with
  | nil => exact absurd rfl hcontents
  | cons content contents ih =>
    cases contents with
    | nil => simp [cut]
    | cons next contents =>
      rw [List.dropLast_cons_cons, List.map_cons, List.flatten_cons, cut, List.take_left, List.drop_left,
        ih (List.cons_ne_nil _ _)]

theorem map_content_mark (contents : List (List α)) : (mark starts ends contents).map Piece.content = contents := by
  induction contents generalizing starts with
  | nil => rfl
  | cons content contents ih =>
    cases contents with
    | nil => rfl
    | cons next contents => rw [mark, List.map_cons, ih]

end Framing
