import Ns3.Internet.TcpRxBuffer.Loops
import Ns3.Foundation.Reachable

namespace Ns3.TcpRxBuffer

open Segments (Ordered Tiles Part Covered total content place)
open Transition (Reachable)

/-- A receive buffer and the bytes that have been extracted from it. -/
structure Exchange where
  buffer : TcpRxBuffer
  delivered : PacketBytes
deriving DecidableEq, Repr

/-- The operations on the buffer. `add` is given the bytes of the stream from an offset. -/
inductive Operation
  | add (offset length : ℕ)
  | extract (max_size : UInt32)
  | set_fin_sequence
  | set_max_buffer_size (s : UInt32)
deriving DecidableEq, Repr

def segment (stream : PacketBytes) (offset length : ℕ) : PacketBytes := (stream.drop offset).take length

/-- One operation, when the stream starts at `isn`. -/
def step (stream : PacketBytes) (isn : SequenceNumber32) (x : Exchange) : Operation → Option Exchange
  | .add offset length =>
    (x.buffer.add (segment stream offset length) (isn.plus offset)).map fun r => { x with buffer := r.2 }
  | .extract max_size => (x.buffer.extract max_size).map fun r => ⟨r.2, x.delivered ++ r.1.getD []⟩
  | .set_fin_sequence => some { x with buffer := x.buffer.set_fin_sequence (isn.plus stream.length) }
  | .set_max_buffer_size s => some { x with buffer := x.buffer.set_max_buffer_size s }

def Fresh (isn : SequenceNumber32) (x : Exchange) : Prop := x = ⟨init isn, []⟩

namespace Exchange

/-- The position in the stream of a sequence number that is not before the first byte held. -/
def position (isn : SequenceNumber32) (x : Exchange) (seq : SequenceNumber32) : ℕ :=
  x.delivered.length + (seq.value - (isn.plus x.delivered.length).value).toNat

/-- The bytes in sequence that the buffer holds. -/
def in_order (x : Exchange) : PacketBytes :=
  (x.buffer.data.filter fun e => e.1.less x.buffer.next_rx_seq).flatMap Prod.snd

/-- The number of bytes received in sequence. -/
def received (x : Exchange) : ℕ := x.delivered.length + x.buffer.avail_bytes.toNat

end Exchange

/-- The segment of an operation, the stored packets and the byte expected next span less than
half the range of sequence numbers. -/
def Spans (stream : PacketBytes) (isn : SequenceNumber32) (x : Exchange) : Operation → Prop
  | .add offset length =>
    offset + (segment stream offset length).length < min offset x.delivered.length + 2 ^ 31 ∧
      x.position isn x.buffer.next_rx_seq < min offset x.delivered.length + 2 ^ 31 ∧
        ∀ e ∈ x.buffer.data, x.position isn e.1 + e.2.length < min offset x.delivered.length + 2 ^ 31
  | .set_fin_sequence => stream.length + 1 < x.delivered.length + 2 ^ 31
  | _ => True

/-- So do they with the right edge of the window, which counts from the first stored packet. -/
def SpansWindow (stream : PacketBytes) (isn : SequenceNumber32) (x : Exchange) : Operation → Prop
  | .add offset length =>
    Spans stream isn x (.add offset length) ∧
      ∀ e ∈ x.buffer.data.head?,
        x.position isn e.1 + x.buffer.max_buffer.toNat < min offset x.delivered.length + 2 ^ 31
  | op => Spans stream isn x op

instance (stream : PacketBytes) (isn : SequenceNumber32) (x : Exchange) (op : Operation) :
    Decidable (Spans stream isn x op) :=
  match op with
  | .add _ _ => inferInstanceAs (Decidable (_ ∧ _ ∧ _))
  | .set_fin_sequence => inferInstanceAs (Decidable (_ < _))
  | .extract _ => inferInstanceAs (Decidable True)
  | .set_max_buffer_size _ => inferInstanceAs (Decidable True)

instance (stream : PacketBytes) (isn : SequenceNumber32) (x : Exchange) (op : Operation) :
    Decidable (SpansWindow stream isn x op) :=
  match op with
  | .add offset length => inferInstanceAs (Decidable (Spans stream isn x (.add offset length) ∧ _))
  | .set_fin_sequence => inferInstanceAs (Decidable (Spans stream isn x .set_fin_sequence))
  | .extract max_size => inferInstanceAs (Decidable (Spans stream isn x (.extract max_size)))
  | .set_max_buffer_size s => inferInstanceAs (Decidable (Spans stream isn x (.set_max_buffer_size s)))

/-- The buffer reassembles the stream: what it has delivered and what it holds in sequence is
the stream up to the first byte that it has not accepted. -/
structure Reassembles (stream : PacketBytes) (isn : SequenceNumber32) (x : Exchange) : Prop where
  bytes : x.delivered ++ x.in_order = stream.take x.received
  /-- The FIN takes the sequence number after the last byte. -/
  next : x.buffer.next_rx_seq =
    isn.plus (x.received + if x.buffer.got_fin = true ∧ x.received = stream.length then 1 else 0)
  missing : ∀ e ∈ x.buffer.data, ∀ i < e.2.length, e.1.plus i ≠ isn.plus x.received
  available : x.buffer.avail_bytes.toNat = x.in_order.length
  size : x.buffer.size.toNat = (x.buffer.data.map fun e => e.2.length).sum
  disjoint : x.buffer.data.Pairwise fun e f => ∀ i < e.2.length, ∀ j < f.2.length, e.1.plus i ≠ f.1.plus j
  stored : ∀ e ∈ x.buffer.data, ∃ a, e.1 = isn.plus a ∧ Part stream (a, e.2)

variable {stream : PacketBytes} {isn : SequenceNumber32} {x x' : Exchange} {held later : List (ℕ × PacketBytes)}
  {n lo : ℕ}

/-- One if the FIN has been reached at a position of the stream. -/
def finished_by (b : TcpRxBuffer) (stream : PacketBytes) (n : ℕ) : ℕ :=
  if b.got_fin = true ∧ n = stream.length then 1 else 0

/-- A block after position `n`, all of whose bytes are stored. -/
def Reports (later : List (ℕ × PacketBytes)) (n : ℕ) (y : ℕ × ℕ) : Prop :=
  n < y.1 ∧ y.1 < y.2 ∧ ∀ i, y.1 ≤ i → i < y.2 → Covered later i

/-- The state at positions of the stream: `held` are the packets in sequence, up to `n`, and
`later` are those after a gap. -/
structure Holds (stream : PacketBytes) (isn : SequenceNumber32) (x : Exchange) (held later : List (ℕ × PacketBytes))
    (n : ℕ) : Prop where
  data : x.buffer.data = packets isn (held ++ later)
  tiles : Tiles x.delivered.length held n
  ordered : Ordered later
  gap : ∀ s ∈ later, n < s.1
  parts : ∀ s ∈ held ++ later, Part stream s
  near : ∀ s ∈ held ++ later, s.1 + s.2.length < x.delivered.length + 2 ^ 31
  delivered : x.delivered = stream.take x.delivered.length
  bound : n ≤ stream.length
  next : x.buffer.next_rx_seq = isn.plus (n + finished_by x.buffer stream n)
  next_near : n + finished_by x.buffer stream n < x.delivered.length + 2 ^ 31
  fin : x.buffer.got_fin = true →
    x.buffer.fin_seq = isn.plus stream.length ∧ stream.length + 1 < x.delivered.length + 2 ^ 31
  size : x.buffer.size = UInt32.ofNat (total (held ++ later))
  avail : x.buffer.avail_bytes = UInt32.ofNat (n - x.delivered.length)
  blocks : ∃ blocks, x.buffer.sack_list = sacks isn blocks ∧ ∀ y ∈ blocks, Reports later n y

theorem position_plus {k : ℕ} (hle : x.delivered.length ≤ k) (hlt : k < x.delivered.length + 2 ^ 32) :
    x.position isn (isn.plus k) = k := by
  have hdiff := SequenceNumber32.plus_sub (b := isn) hle hlt
  rw [SequenceNumber32.sub_toUInt32] at hdiff
  rw [Exchange.position, hdiff, UInt32.toNat_ofNat_of_lt' (by rw [UInt32.size]; omega)]
  omega

theorem finished_by_le (b : TcpRxBuffer) (stream : PacketBytes) (n : ℕ) : finished_by b stream n ≤ 1 := by
  unfold finished_by
  split <;> omega

namespace Holds

variable (h : Holds stream isn x held later n)

include h in
theorem delivered_le : x.delivered.length ≤ n := by
  rw [h.tiles.end_eq]
  exact Nat.le_add_right _ _

include h in
theorem from_delivered {s : ℕ × PacketBytes} (hs : s ∈ held ++ later) : x.delivered.length ≤ s.1 := by
  rcases List.mem_append.mp hs with hs | hs
  · exact (h.tiles.mem hs).1
  · exact h.delivered_le.trans (h.gap s hs).le

include h in
theorem all_ordered : Ordered (held ++ later) :=
  h.tiles.ordered.append h.ordered fun _ hs t ht => (h.tiles.mem hs).2.trans (h.gap t ht).le

include h in
theorem near_all (hlo : lo ≤ x.delivered.length) (hhi : ∀ s ∈ held ++ later, s.1 + s.2.length < lo + 2 ^ 31)
    (s : ℕ × PacketBytes) (hs : s ∈ held ++ later) : Near lo s :=
  ⟨(h.parts s hs).length_pos, hlo.trans (h.from_delivered hs), hhi s hs⟩

include h in
theorem in_order : x.in_order = content held := by
  have hheld : ∀ s ∈ held, (isn.plus s.1).less x.buffer.next_rx_seq = true := by
    intro s hs
    have hpos := (h.parts s (by simp [hs])).length_pos
    have hmem := h.tiles.mem hs
    have hnear := h.next_near
    rw [h.next, SequenceNumber32.less_plus (by omega) (by omega), decide_eq_true_eq]
    omega
  have hlater : ∀ s ∈ later, ¬ (isn.plus s.1).less x.buffer.next_rx_seq = true := by
    intro s hs
    have hgap := h.gap s hs
    have hpos := (h.parts s (by simp [hs])).length_pos
    have hnear := h.near s (by simp [hs])
    have hle := h.delivered_le
    have hfin := finished_by_le x.buffer stream n
    rw [h.next, SequenceNumber32.less_plus (by omega) (by omega), decide_eq_true_eq]
    omega
  have hfilter : x.buffer.data.filter (fun e => e.1.less x.buffer.next_rx_seq) = packets isn held := by
    rw [h.data, packets_append, List.filter_append, List.filter_eq_self.mpr, List.filter_eq_nil_iff.mpr, List.append_nil]
    · intro e he
      obtain ⟨s, hs, rfl⟩ := List.mem_map.mp he
      exact hlater s hs
    · intro e he
      obtain ⟨s, hs, rfl⟩ := List.mem_map.mp he
      exact hheld s hs
  rw [Exchange.in_order, hfilter, packets, List.flatMap_map]
  rfl

include h in
theorem avail_toNat : x.buffer.avail_bytes.toNat = n - x.delivered.length := by
  have hnear := h.next_near
  rw [h.avail, UInt32.toNat_ofNat_of_lt' (by rw [UInt32.size]; omega)]

include h in
theorem received : x.received = n := by
  rw [Exchange.received, h.avail_toNat, Nat.add_sub_cancel' h.delivered_le]

include h in
theorem reassembles : Reassembles stream isn x := by
  have hle := h.delivered_le
  have hheld : ∀ s ∈ held, Part stream s := fun s hs => h.parts s (by simp [hs])
  have hcontent := h.tiles.content hheld
  have hsizes : ∀ e ∈ x.buffer.data, ∃ s ∈ held ++ later, e = (isn.plus s.1, s.2) := by
    intro e he
    rw [h.data] at he
    obtain ⟨s, hs, rfl⟩ := List.mem_map.mp he
    exact ⟨s, hs, rfl⟩
  have hplus : ∀ (s : ℕ × PacketBytes) (i : ℕ), (isn.plus s.1).plus i = isn.plus (s.1 + i) := by
    intro s i
    simp only [SequenceNumber32.plus, UInt32.ofNat_add, add_assoc]
  refine ⟨?_, ?_, ?_, ?_, ?_, ?_, ?_⟩
  · rw [h.received, h.in_order, hcontent]
    calc x.delivered ++ (stream.drop x.delivered.length).take (n - x.delivered.length)
        = stream.take x.delivered.length ++ (stream.drop x.delivered.length).take (n - x.delivered.length) := by
          rw [← h.delivered]
      _ = stream.take n := by rw [← List.take_add, Nat.add_sub_cancel' hle]
  · rw [h.received, h.next]
    rfl
  · intro e he i hi
    obtain ⟨s, hs, rfl⟩ := hsizes e he
    have hnear := h.near s hs
    have hfrom := h.from_delivered hs
    have hnext := h.next_near
    simp only at hi
    rw [h.received, hplus, ne_eq, SequenceNumber32.plus_inj (by omega) (by omega)]
    rcases List.mem_append.mp hs with hs | hs
    · have hmem := h.tiles.mem hs
      omega
    · have hgap := h.gap s hs
      omega
  · rw [h.avail_toNat, h.in_order, hcontent, List.length_take, List.length_drop]
    have hbound := h.bound
    omega
  · have htotal : (x.buffer.data.map fun e => e.2.length).sum = total (held ++ later) := by
      rw [h.data, packets, List.map_map]
      rfl
    rw [htotal, h.size, UInt32.toNat_ofNat_of_lt']
    have hspan := h.all_ordered.total_le (c := x.delivered.length + 2 ^ 31) (fun s hs => h.from_delivered hs)
      fun s hs => (h.near s hs).le
    rw [UInt32.size]
    omega
  · rw [h.data, packets, List.pairwise_map]
    refine h.all_ordered.imp_of_mem fun {s t} hs ht hst i hi j hj => ?_
    have hnear := h.near t ht
    have hfrom := h.from_delivered hs
    simp only at hi hj
    rw [hplus, hplus, ne_eq, SequenceNumber32.plus_inj (by omega) (by omega)]
    omega
  · intro e he
    obtain ⟨s, hs, rfl⟩ := hsizes e he
    exact ⟨s.1, rfl, h.parts s hs⟩

end Holds

theorem trim_to_window_spec {b : TcpRxBuffer} {l : List (ℕ × PacketBytes)} {a t m : ℕ} (hdata : b.data = packets isn l)
    (hnext : b.next_rx_seq = isn.plus m) (hm : lo ≤ m ∧ m < lo + 2 ^ 31) (ha : lo ≤ a ∧ a < lo + 2 ^ 31)
    (ht : lo ≤ t ∧ t < lo + 2 ^ 31)
    (hedge : ∀ s ∈ l.head?, lo ≤ s.1 ∧ s.1 + b.max_buffer.toNat < lo + 2 ^ 31) :
    ∃ h' t', b.trim_to_window (isn.plus a) (isn.plus t) = (isn.plus h', isn.plus t') ∧
      (lo ≤ h' ∧ h' < lo + 2 ^ 31) ∧ (lo ≤ t' ∧ t' < lo + 2 ^ 31) ∧ t' ≤ t ∧ (h' < t' → a ≤ h' ∧ m ≤ h') ∧
      ∀ s ∈ l.head?, t' ≤ s.1 + b.max_buffer.toNat := by
  have hhead : (if (isn.plus a).less (isn.plus m) = true then isn.plus m else isn.plus a) = isn.plus (max a m) := by
    rw [SequenceNumber32.less_plus (by omega) (by omega)]
    simp only [decide_eq_true_eq]
    split
    · rw [max_eq_right (by omega)]
    · rw [max_eq_left (by omega)]
  unfold trim_to_window
  simp only [hnext, hhead, hdata]
  cases l with
  | nil => exact ⟨max a m, t, rfl, by omega, ht, le_rfl, fun _ => by omega, by simp⟩
  | cons s l =>
    obtain ⟨hs, hedge⟩ := hedge s rfl
    have htail : (if ((isn.plus s.1).add b.max_buffer).less (isn.plus t) = true then (isn.plus s.1).add b.max_buffer
        else isn.plus t) = isn.plus (min (s.1 + b.max_buffer.toNat) t) := by
      rw [SequenceNumber32.plus_add, SequenceNumber32.less_plus (by omega) (by omega)]
      simp only [decide_eq_true_eq]
      split
      · rw [min_eq_left (by omega)]
      · rw [min_eq_right (by omega)]
    have hcons : packets isn (s :: l) = (isn.plus s.1, s.2) :: packets isn l := rfl
    simp only [hcons, htail]
    rw [SequenceNumber32.less_plus (by omega) (by omega)]
    by_cases hlt : min (s.1 + b.max_buffer.toNat) t < max a m
    · rw [if_pos (by simpa using hlt)]
      exact ⟨_, _, rfl, by omega, by omega, by omega, fun hcontra => by omega, by simp⟩
    · rw [if_neg (by simpa using hlt)]
      exact ⟨_, _, rfl, by omega, by omega, by omega, fun _ => by omega, by simp⟩

variable {offset length h' t' : ℕ} {kept : List (ℕ × PacketBytes)} (h : Holds stream isn x held later n)

theorem fragment_part (ha : offset ≤ h') (hlt : h' < t') (ht : t' ≤ offset + (segment stream offset length).length) :
    t' ≤ stream.length ∧
      ((segment stream offset length).drop (h' - offset)).take (t' - h') = (stream.drop h').take (t' - h') := by
  rw [segment, List.length_take, List.length_drop] at ht
  refine ⟨by omega, ?_⟩
  rw [segment, List.drop_take, List.drop_drop, List.take_take, Nat.add_sub_cancel' ha, min_eq_left (by omega)]

/-- The packets after a gap once the new one is among them. -/
structure Stored (later kept : List (ℕ × PacketBytes)) (f : ℕ × PacketBytes) : Prop where
  sublist : kept.Sublist later
  clear : ∀ s ∈ kept, s.1 + s.2.length ≤ f.1 ∨ f.1 + f.2.length ≤ s.1
  erased : ∀ s ∈ later, s ∈ kept ∨ f.1 < s.1 ∧ s.1 + s.2.length ≤ f.1 + f.2.length

theorem Stored.covered {f : ℕ × PacketBytes} (h : Stored later kept f) {i : ℕ} (hi : Covered later i) :
    Covered (place f kept) i := by
  obtain ⟨s, hs, hin⟩ := hi
  rcases h.erased s hs with hs | hs
  · exact ⟨s, Segments.mem_place.mpr (.inr hs), hin⟩
  · exact ⟨f, Segments.mem_place.mpr (.inl rfl), by omega⟩

/-- `UpdateSackList` adds the block of the new packet, if that is after a gap. -/
theorem update_sack_list_spec {b : TcpRxBuffer} {blocks : List (ℕ × ℕ)} {f : ℕ × PacketBytes}
    (hnext : b.next_rx_seq = isn.plus n) (hsacks : b.sack_list = sacks isn blocks) (hlo : lo ≤ n)
    (hf : Near lo f) (hn : n ≤ f.1) (hnear : ∀ s ∈ place f kept, s.1 + s.2.length < lo + 2 ^ 31)
    (hblocks : ∀ y ∈ blocks, Reports (place f kept) n y) :
    ∃ blocks', (if (isn.plus f.1).greater b.next_rx_seq = true then
        b.update_sack_list (isn.plus f.1) (isn.plus (f.1 + f.2.length)) else some b.sack_list) =
        some (sacks isn blocks') ∧
      ∀ y ∈ blocks', Reports (place f kept) n y := by
  obtain ⟨hpos, hflo, hfhi⟩ := hf
  rw [hnext, SequenceNumber32.greater_plus (by omega) (by omega)]
  by_cases hgap : n < f.1
  swap
  · rw [if_neg (by simpa using hgap)]
    exact ⟨blocks, by rw [hsacks], hblocks⟩
  have hbegin : Reports (place f kept) n (f.1, f.1 + f.2.length) :=
    ⟨hgap, by simp only; omega, fun i hle hlt => ⟨f, Segments.mem_place.mpr (.inl rfl), hle, hlt⟩⟩
  have hwindow : ∀ y, Reports (place f kept) n y → NearBlock lo y := by
    rintro y ⟨hy, hlt, hcovered⟩
    obtain ⟨s, hs, hin⟩ := hcovered (y.2 - 1) (by omega) (by omega)
    have hend := hnear s hs
    exact ⟨by omega, hlt, by omega⟩
  have hjoin : ∀ y z, Reports (place f kept) n y → Reports (place f kept) n z → y.2 = z.1 →
      Reports (place f kept) n (y.1, z.2) := by
    rintro y z ⟨hy, hylt, hycovered⟩ ⟨_, hzlt, hzcovered⟩ heq
    refine ⟨hy, by simp only; omega, fun i hle hlt => ?_⟩
    rcases Nat.lt_or_ge i y.2 with hin | hin
    · exact hycovered i hle hin
    · exact hzcovered i (by omega) hlt
  have hmerge := merge_blocks_eq isn blocks.length (hwindow _ hbegin) fun y hy => hwindow y (hblocks y hy)
  have hblocks' := joins_forall hjoin blocks.length hbegin hblocks
  generalize joins blocks.length (f.1, f.1 + f.2.length) blocks = blocks' at hmerge hblocks'
  refine ⟨if 4 < blocks'.length then blocks'.dropLast else blocks', ?_, fun y hy => hblocks' y ?_⟩
  · rw [if_pos (by simpa using hgap), update_sack_list, hnext, SequenceNumber32.greater_plus (by omega) (by omega),
      if_pos (by simpa using hgap), hsacks, sacks, List.length_map, ← sacks, hmerge, Option.map_some, sacks,
      List.length_map]
    split
    · rw [← List.map_dropLast]
      rfl
    · rfl
  · split at hy
    · exact List.mem_of_mem_dropLast hy
    · exact hy

theorem reports_rest {run rest : List (ℕ × PacketBytes)} {y : ℕ × ℕ} {n' : ℕ} (htiles : Tiles n run n')
    (hrest : ∀ s ∈ rest, n' < s.1) (hlate : run ≠ [] → n' < y.2) (h : Reports (run ++ rest) n y) :
    Reports rest n' y := by
  obtain ⟨hy, hlt, hcovered⟩ := h
  have hle : n ≤ n' := by
    rw [htiles.end_eq]
    exact Nat.le_add_right _ _
  have hafter : n' < y.1 := by
    by_contra hbefore
    have hne : run ≠ [] := fun hnil => by
      obtain rfl : n = n' := by simpa [hnil, Tiles] using htiles
      exact hbefore hy
    obtain ⟨s, hs, hin⟩ := hcovered n' (by omega) (hlate hne)
    rcases List.mem_append.mp hs with hs | hs
    · have hend := (htiles.mem hs).2
      omega
    · have hgap := hrest s hs
      omega
  refine ⟨hafter, hlt, fun i hi hi' => ?_⟩
  obtain ⟨s, hs, hin⟩ := hcovered i hi hi'
  rcases List.mem_append.mp hs with hs | hs
  · have hend := (htiles.mem hs).2
    omega
  · exact ⟨s, hs, hin⟩

theorem add_nothing {b : TcpRxBuffer} {p : PacketBytes} {seq head tail : SequenceNumber32} {o : Overlap}
    (htrim : b.trim_to_window seq (seq.add p.get_size) = (head, tail)) (ho : overlap head tail b.size b.data = o)
    (hsize : o.size = b.size) (hdata : o.data = b.data) (hnone : o.head.greater_equal o.tail = true) :
    b.add p seq = some (false, b) := by
  rw [add]
  simp only [htrim, ho, hnone, if_true, hsize, hdata]

include h in
theorem Holds.fin_next {n' : ℕ} (hle : x.delivered.length ≤ n') (hend : n' ≤ stream.length) :
    (if x.buffer.got_fin && isn.plus n' == x.buffer.fin_seq then (isn.plus n').increment else isn.plus n') =
      isn.plus (n' + finished_by x.buffer stream n') := by
  unfold finished_by
  cases hgot : x.buffer.got_fin with
  | false => simp
  | true =>
    obtain ⟨hfin, hnear⟩ := h.fin hgot
    simp only [hfin, Bool.true_and, beq_iff_eq, true_and,
      SequenceNumber32.plus_inj (b := isn) (m := n') (n := stream.length) (by omega) (by omega)]
    split
    · exact SequenceNumber32.plus_increment isn n'
    · rfl

include h in
theorem Holds.fin_near {n' : ℕ} (hnear : n' < x.delivered.length + 2 ^ 31) :
    n' + finished_by x.buffer stream n' < x.delivered.length + 2 ^ 31 := by
  unfold finished_by
  split
  next hboth =>
    have hfin := (h.fin hboth.1).2
    omega
  next => exact hnear

include h in
theorem Holds.add_stored {head tail : SequenceNumber32} (hlo : lo ≤ x.delivered.length) (hnear : ∀ s ∈ held ++ later, s.1 + s.2.length < lo + 2 ^ 31)
    (ha : lo ≤ offset ∧ offset ≤ h') (hlt : h' < t') (ht : t' ≤ offset + (segment stream offset length).length)
    (hspan : offset + (segment stream offset length).length < lo + 2 ^ 31)
    (hn : n + finished_by x.buffer stream n ≤ h')
    (hstored : Stored later kept (h', (stream.drop h').take (t' - h')))
    (htrim : x.buffer.trim_to_window (isn.plus offset)
      ((isn.plus offset).add (PacketBytes.get_size (segment stream offset length))) = (head, tail))
    (ho : overlap head tail x.buffer.size x.buffer.data =
      ⟨isn.plus h', isn.plus t', UInt32.ofNat (total held + total kept), packets isn (held ++ kept)⟩) :
    ∃ x' run rest n', step stream isn x (.add offset length) = some x' ∧ Holds stream isn x' (held ++ run) rest n' ∧
      n ≤ n' := by
  obtain ⟨hfits, hfragment⟩ := fragment_part ha.2 hlt ht
  obtain ⟨blocks, hsacks, hblocks⟩ := h.blocks
  have hdelivered := h.delivered_le
  obtain ⟨p, hp⟩ : ∃ p, p = segment stream offset length := ⟨_, rfl⟩
  obtain ⟨f, hf⟩ : ∃ f : ℕ × PacketBytes, f = (h', (stream.drop h').take (t' - h')) := ⟨_, rfl⟩
  rw [← hf] at hstored
  have hpart : Part stream f := hf ▸ Part.slice hlt hfits
  have hfirst : f.1 = h' := by rw [hf]
  have hflength : f.2.length = t' - h' := by
    rw [hf, List.length_take, List.length_drop]
    omega
  -- the FIN has not been reached, as its position is not before the stored part
  have hfin : finished_by x.buffer stream n = 0 := by
    by_contra hne
    have hle := finished_by_le x.buffer stream n
    have heq : n = stream.length := by
      unfold finished_by at hne
      split at hne
      next hboth => exact hboth.2
      next => exact absurd rfl hne
    omega
  have hnext : x.buffer.next_rx_seq = isn.plus n := by rw [h.next, hfin, Nat.add_zero]
  have hfnear : Near lo f := ⟨hpart.length_pos, by omega, by omega⟩
  have hkept : ∀ s ∈ held ++ kept, s ∈ held ++ later := fun s hs =>
    List.mem_append.mpr ((List.mem_append.mp hs).imp_right fun hs => hstored.sublist.mem hs)
  have hplaced : ∀ s ∈ held ++ place f kept, s = f ∨ s ∈ held ++ later := by
    intro s hs
    rcases List.mem_append.mp hs with hs | hs
    · exact .inr (by simp [hs])
    · exact (Segments.mem_place.mp hs).imp_right fun hs => hkept s (by simp [hs])
  have hnear' : ∀ s ∈ held ++ place f kept, Near lo s := by
    intro s hs
    rcases hplaced s hs with rfl | hs
    · exact hfnear
    · exact h.near_all hlo hnear s hs
  have hparts' : ∀ s ∈ held ++ place f kept, Part stream s := by
    intro s hs
    rcases hplaced s hs with rfl | hs
    · exact hpart
    · exact h.parts s hs
  have hheld : ∀ s ∈ held, Near lo s ∧ s.1 + s.2.length ≤ n := fun s hs =>
    ⟨hnear' s (by simp [hs]), (h.tiles.mem hs).2⟩
  have hapart : ∀ s ∈ held ++ kept, s.1 ≠ h' := by
    intro s hs
    have hpos := (h.parts s (hkept s hs)).length_pos
    rcases List.mem_append.mp hs with hin | hin
    · have hend := (hheld s hin).2
      omega
    · have hclear := hstored.clear s hin
      omega
  have hassign : assign (isn.plus h') f.2 (packets isn (held ++ kept)) = packets isn (held ++ place f kept) := by
    rw [assign_packets (fun s hs => h.near_all hlo hnear s (hkept s hs)) (by omega) hapart,
      Segments.place_append fun s hs => ?_, ← hfirst]
    have hend := (hheld s hs).2
    have hpos := (hheld s hs).1.1
    simp only
    omega
  have horder : Ordered (place f kept) :=
    Segments.Ordered.place (List.Pairwise.sublist hstored.sublist h.ordered)
      (fun s hs => (hnear' s (List.mem_append_right _ (Segments.mem_place.mpr (.inr hs)))).1) hstored.clear
  have hafter : ∀ s ∈ place f kept, n ≤ s.1 := by
    intro s hs
    rcases Segments.mem_place.mp hs with rfl | hs
    · omega
    · exact (h.gap s (hstored.sublist.mem hs)).le
  obtain ⟨blocks₁, hupdate, hblocks₁⟩ := update_sack_list_spec hnext hsacks (by omega) hfnear
    (by omega) (fun s hs => (hnear' s (by simp [hs])).2.2)
    fun y hy => ⟨(hblocks y hy).1, (hblocks y hy).2.1, fun i hi hi' => hstored.covered ((hblocks y hy).2.2 i hi hi')⟩
  have hwindow : ∀ y ∈ blocks₁, lo ≤ y.1 ∧ y.1 < y.2 ∧ y.2 < lo + 2 ^ 31 := by
    intro y hy
    obtain ⟨hy, hylt, hcovered⟩ := hblocks₁ y hy
    obtain ⟨s, hs, hin⟩ := hcovered (y.2 - 1) (by omega) (by omega)
    have hend := (hnear' s (List.mem_append_right _ hs)).2.2
    omega
  obtain ⟨run, rest, n', hsplit, htiles, hgap, hadvance⟩ :=
    advance_spec isn x.buffer.avail_bytes
      (fun s hs => hnear' s (List.mem_append_right _ hs)) horder hafter (by omega) hwindow
  have hcleared : ∀ y ∈ if run = [] then blocks₁ else blocks₁.filter fun y => n' < y.2,
      y ∈ blocks₁ ∧ (run ≠ [] → n' < y.2) := by
    intro y hy
    split_ifs at hy with hrun
    · exact ⟨hy, fun hne => absurd hrun hne⟩
    · exact ⟨List.mem_of_mem_filter hy, fun _ => by simpa using List.of_mem_filter hy⟩
  generalize (if run = [] then blocks₁ else blocks₁.filter fun y => n' < y.2) = blocks' at hadvance hcleared
  have hadvanced : advance (isn.plus n) x.buffer.avail_bytes (sacks isn blocks₁) (packets isn (held ++ place f kept)) =
      some (isn.plus n', x.buffer.avail_bytes + UInt32.ofNat (total run), sacks isn blocks') := by
    rw [packets_append, advance_append hheld (by omega), hadvance]
  have hlength : (t' : ℕ) - h' < 2 ^ 32 := by omega
  have hadd : x.buffer.add p (isn.plus offset) = some (true, { x.buffer with
      sack_list := sacks isn blocks'
      next_rx_seq := if x.buffer.got_fin && isn.plus n' == x.buffer.fin_seq then (isn.plus n').increment else isn.plus n'
      size := UInt32.ofNat (total held + total kept) + PacketBytes.get_size f.2
      avail_bytes := x.buffer.avail_bytes + UInt32.ofNat (total run)
      data := packets isn (held ++ place f kept) }) := by
    have hsub' : ((isn.plus t').sub (isn.plus h')).toUInt32 = UInt32.ofNat (t' - h') :=
      SequenceNumber32.plus_sub hlt.le (by omega)
    have hstart : ((isn.plus h').sub (isn.plus offset)).toUInt32 = UInt32.ofNat (h' - offset) :=
      SequenceNumber32.plus_sub ha.2 (by omega)
    have hcreate : p.create_fragment (UInt32.ofNat (h' - offset)) (UInt32.ofNat (t' - h')) = some f.2 := by
      rw [hp, PacketBytes.create_fragment_spec (by omega) (by omega), hfragment, hf]
    have hguard : UInt32.ofNat (t' - h') = PacketBytes.get_size f.2 ∧ find (isn.plus h') (packets isn (held ++ kept)) = false :=
      ⟨by rw [PacketBytes.get_size, hflength],
        find_packets (fun s hs => h.near_all hlo hnear s (hkept s hs)) (by omega) hapart⟩
    rw [hfirst, hflength, Nat.add_sub_cancel' hlt.le, hnext] at hupdate
    rw [add, hp]
    simp only [htrim, ho, SequenceNumber32.greater_equal_plus (b := isn) (m := h') (n := t') (by omega) (by omega)]
    rw [if_neg (by simpa using hlt), hsub', hstart, ← hp, hcreate]
    simp only [Option.bind_eq_bind, Option.bind_some, hguard, and_self, if_true, hassign, hupdate, hnext, hadvanced]
  have hend : n' ≤ stream.length :=
    htiles.end_le h.bound fun s hs => (hparts' s (by simp [hsplit, hs])).2.1
  have hend' : n' < lo + 2 ^ 31 := by
    have hle := htiles.end_le (c := lo + 2 ^ 31 - 1) (by omega) fun s hs => by
      have hs := (hnear' s (by simp [hsplit, hs])).2.2
      omega
    omega
  have hinit : ∀ s ∈ held ++ (run ++ rest), Part stream s ∧ s.1 + s.2.length < x.delivered.length + 2 ^ 31 := by
    intro s hs
    rw [← hsplit] at hs
    exact ⟨hparts' s hs, by have := (hnear' s hs).2.2; omega⟩
  have hlastle : n ≤ n' := by
    rw [htiles.end_eq]
    exact Nat.le_add_right _ _
  have hstep : step stream isn x (.add offset length) = some { x with buffer := { x.buffer with
      sack_list := sacks isn blocks'
      next_rx_seq := if x.buffer.got_fin && isn.plus n' == x.buffer.fin_seq then (isn.plus n').increment else isn.plus n'
      size := UInt32.ofNat (total held + total kept) + PacketBytes.get_size f.2
      avail_bytes := x.buffer.avail_bytes + UInt32.ofNat (total run)
      data := packets isn (held ++ place f kept) } } := by
    rw [step, ← hp, hadd]
    rfl
  refine ⟨_, run, rest, n', hstep, ⟨?_, Segments.tiles_append h.tiles htiles, ?_, hgap, ?_, ?_, h.delivered, hend,
    h.fin_next (by omega) hend, h.fin_near (by omega), h.fin, ?_, ?_, ?_⟩, hlastle⟩
  · rw [hsplit, List.append_assoc]
  · exact (List.pairwise_append.mp (hsplit ▸ horder)).2.1
  · exact fun s hs => (hinit s (by rwa [← List.append_assoc])).1
  · exact fun s hs => (hinit s (by rwa [← List.append_assoc])).2
  · simp only [PacketBytes.get_size, ← UInt32.ofNat_add]
    rw [List.append_assoc, ← hsplit, Segments.total_append, Segments.total_place]
    congr 1
    omega
  · simp only [h.avail, ← UInt32.ofNat_add]
    rw [htiles.end_eq]
    congr 1
    omega
  · exact ⟨blocks', rfl, fun y hy => reports_rest htiles hgap (hcleared y hy).2 (hsplit ▸ hblocks₁ y (hcleared y hy).1)⟩

include h in
theorem Holds.add_spec (hclose : SpansWindow stream isn x (.add offset length)) :
    ∃ x' held' later' n', step stream isn x (.add offset length) = some x' ∧ Holds stream isn x' held' later' n' ∧
      n ≤ n' := by
  obtain ⟨⟨hspan, hnextspan, hdata⟩, hedge⟩ := hclose
  have hdelivered := h.delivered_le
  have hnear₀ := h.next_near
  obtain ⟨lo, hlo⟩ : ∃ lo, lo = min offset x.delivered.length := ⟨_, rfl⟩
  rw [← hlo] at hspan hnextspan hdata hedge
  have hposition : ∀ s ∈ held ++ later, x.position isn (isn.plus s.1) = s.1 := fun s hs =>
    position_plus (h.from_delivered hs) (by have := h.near s hs; omega)
  have hnear : ∀ s ∈ held ++ later, s.1 + s.2.length < lo + 2 ^ 31 := by
    intro s hs
    have hmem : (isn.plus s.1, s.2) ∈ x.buffer.data := by
      rw [h.data]
      exact List.mem_map_of_mem hs
    have hin := hdata _ hmem
    rw [hposition s hs] at hin
    exact hin
  have hall := h.near_all (show lo ≤ x.delivered.length by omega) hnear
  rw [h.next, position_plus (by omega) (by omega)] at hnextspan
  have hedge' : ∀ s ∈ (held ++ later).head?, lo ≤ s.1 ∧ s.1 + x.buffer.max_buffer.toNat < lo + 2 ^ 31 := by
    intro s hs
    have hmem := List.mem_of_mem_head? hs
    have hhead : (isn.plus s.1, s.2) ∈ x.buffer.data.head? := by
      rw [h.data, packets, List.head?_map]
      exact Option.mem_map_of_mem _ hs
    have hin := hedge _ hhead
    rw [hposition s hmem] at hin
    exact ⟨(hall s hmem).2.1, hin⟩
  obtain ⟨hd, tl, htrim, hhd, htl, htle, htrimmed, -⟩ := trim_to_window_spec (a := offset)
    (t := offset + (segment stream offset length).length) h.data h.next (by omega) (by omega) (by omega) hedge'
  rw [← plus_get_size (by omega)] at htrim
  rcases Nat.lt_or_ge hd tl with hlt | hge
  · -- the packets in sequence come before the range that is left
    obtain ⟨hoffset, hfrom⟩ := htrimmed hlt
    obtain ⟨h', t', kept, heq, hlo', hhi', htrims⟩ := overlap_spec isn
      (fun s hs => hall s (List.mem_append_right _ hs)) h.ordered hhd htl (total held)
    have hover : overlap (isn.plus hd) (isn.plus tl) x.buffer.size x.buffer.data =
        ⟨isn.plus h', isn.plus t', UInt32.ofNat (total held + total kept), packets isn (held ++ kept)⟩ := by
      rw [h.data, h.size, packets_append, overlap_append (fun s hs => ⟨hall s (by simp [hs]), ?_⟩) htl hlt.le,
        Segments.total_append, heq, packets_append]
      have hend := (h.tiles.mem hs).2
      omega
    have hhead := htrims.head
    have htail := htrims.tail
    rcases Nat.lt_or_ge h' t' with hsome | hnone
    · have hflength : ((stream.drop h').take (t' - h')).length = t' - h' := by
        have hfits := (fragment_part (hoffset.trans hhead) hsome (htail.trans htle)).1
        rw [List.length_take, List.length_drop]
        omega
      obtain ⟨x', run, rest, n', hstep, hholds, hle⟩ := h.add_stored (by omega) hnear ⟨by omega, hoffset.trans hhead⟩ hsome
        (htail.trans htle) hspan (hfrom.trans hhead)
        ⟨htrims.sublist, by simpa only [hflength, Nat.add_sub_cancel' hsome.le] using htrims.clear hsome,
          by simpa only [hflength, Nat.add_sub_cancel' hsome.le] using htrims.erased⟩ htrim hover
      exact ⟨x', _, _, _, hstep, hholds, hle⟩
    · refine ⟨x, held, later, n, ?_, h, le_rfl⟩
      obtain rfl := htrims.unchanged hnone
      rw [step, add_nothing htrim hover (by rw [h.size, Segments.total_append]) h.data.symm ?_]
      · rfl
      · rw [SequenceNumber32.greater_equal_plus (by omega) (by omega)]
        exact decide_eq_true hnone
  · obtain ⟨h', t', kept, heq, hlo', hhi', htrims⟩ := overlap_spec isn hall h.all_ordered hhd htl 0
    have hnone : t' ≤ h' := htrims.tail.trans (hge.trans htrims.head)
    obtain rfl := htrims.unchanged hnone
    refine ⟨x, held, later, n, ?_, h, le_rfl⟩
    rw [Nat.zero_add, ← h.size, ← h.data] at heq
    rw [step, add_nothing htrim heq rfl rfl ?_]
    · rfl
    · have hhead := htrims.head
      have htail := htrims.tail
      rw [SequenceNumber32.greater_equal_plus (by omega) (by omega)]
      exact decide_eq_true hnone

include h in
theorem Holds.extract_spec (max_size : UInt32) :
    ∃ x' held', step stream isn x (.extract max_size) = some x' ∧ Holds stream isn x' held' later n := by
  have hle := h.delivered_le
  have hnear := h.next_near
  have havail := h.avail_toNat
  obtain ⟨e, he⟩ : ∃ e, e = min (n - x.delivered.length) max_size.toNat := ⟨_, rfl⟩
  have hsize : (if x.buffer.avail_bytes < max_size then x.buffer.avail_bytes else max_size) = UInt32.ofNat e := by
    split
    next hless =>
      rw [UInt32.lt_iff_toNat_lt, havail] at hless
      rw [he, min_eq_left hless.le, h.avail]
    next hless =>
      rw [UInt32.lt_iff_toNat_lt, havail, not_lt] at hless
      rw [he, min_eq_right hless, UInt32.ofNat_toNat]
  have hetoNat : (UInt32.ofNat e).toNat = e := UInt32.toNat_ofNat_of_lt' (by rw [UInt32.size]; omega)
  rcases Nat.eq_zero_or_pos e with hzero | hpos
  · refine ⟨x, held, ?_, h⟩
    simp only [step, extract, hsize, hzero]
    simp
  · have hne : UInt32.ofNat e ≠ 0 := fun heq => by
      rw [heq] at hetoNat
      exact hpos.ne hetoNat
    have hnonempty : (packets isn (held ++ later)).isEmpty = false := by
      have hend := h.tiles.end_eq
      cases hheld : held with
      | nil =>
        rw [hheld] at hend
        simp only [total, List.map_nil, List.sum_nil] at hend
        omega
      | cons s l => rfl
    have hheld : ∀ s ∈ held, Part stream s := fun s hs => h.parts s (by simp [hs])
    obtain ⟨rest, hloop, htiles, hparts⟩ := extract_loop_spec isn x.buffer.size x.buffer.avail_bytes [] (e := e) h.tiles hheld (h.near_all le_rfl h.near)
      (fun s hs => (h.gap s hs).le) ⟨Nat.le_add_right _ _, hnear⟩ (by omega) le_rfl
    have hout : (content held).take e = (stream.drop x.delivered.length).take e := by
      rw [h.tiles.content hheld, List.take_take, min_eq_left (by omega)]
    have hlength : ((stream.drop x.delivered.length).take e).length = e := by
      have hbound := h.bound
      rw [List.length_take, List.length_drop]
      omega
    rw [List.nil_append, hout] at hloop
    have hstep : step stream isn x (.extract max_size) =
        some ⟨{ x.buffer with
            size := x.buffer.size - UInt32.ofNat e
            avail_bytes := x.buffer.avail_bytes - UInt32.ofNat e
            data := packets isn (rest ++ later) },
          x.delivered ++ (stream.drop x.delivered.length).take e⟩ := by
      have hsome : PacketBytes.get_size ((stream.drop x.delivered.length).take e) ≠ 0 := by
        rw [PacketBytes.get_size, hlength]
        exact hne
      rw [step, extract]
      simp only [hsize, if_neg hne, hnonempty, Bool.false_eq_true, if_false, h.next, h.data, hloop, if_neg hsome,
        Option.bind_eq_bind, Option.bind_some, Option.map_some, Option.getD_some]
    have hmem : ∀ s ∈ rest ++ later, s ∈ rest ∨ s ∈ held ++ later := fun s hs =>
      (List.mem_append.mp hs).imp_right (List.mem_append_right held)
    have hsum : total (rest ++ later) + e = total (held ++ later) := by
      have hend := h.tiles.end_eq
      have hend' := htiles.end_eq
      rw [Segments.total_append, Segments.total_append]
      omega
    have hdelivered : (x.delivered ++ (stream.drop x.delivered.length).take e).length = x.delivered.length + e := by
      rw [List.length_append, hlength]
    refine ⟨_, rest, hstep, ⟨rfl, ?_, h.ordered, h.gap, fun s hs => (hmem s hs).elim (hparts s) (h.parts s), ?_, ?_,
      h.bound, h.next, ?_, fun hgot => ?_, ?_, ?_, h.blocks⟩⟩
    · rw [hdelivered]
      exact htiles
    · intro s hs
      rw [hdelivered]
      rcases hmem s hs with hin | hin
      · have hend := (htiles.mem hin).2
        omega
      · have hend := h.near s hin
        omega
    · rw [hdelivered, List.take_add, ← h.delivered]
    · rw [hdelivered]
      exact lt_of_lt_of_le hnear (by omega)
    · obtain ⟨hfin, hfinnear⟩ := h.fin hgot
      exact ⟨hfin, by rw [hdelivered]; omega⟩
    · simp only [h.size, ← hsum, UInt32.ofNat_add]
      exact UInt32.add_sub_cancel _ _
    · rw [hdelivered]
      simp only [h.avail]
      rw [show n - x.delivered.length = n - (x.delivered.length + e) + e by omega, UInt32.ofNat_add]
      exact UInt32.add_sub_cancel _ _

include h in
theorem Holds.set_fin_sequence_spec (hclose : stream.length + 1 < x.delivered.length + 2 ^ 31) :
    Holds stream isn { x with buffer := x.buffer.set_fin_sequence (isn.plus stream.length) } held later n := by
  have hle := h.delivered_le
  have hbound := h.bound
  have hfin : finished_by (x.buffer.set_fin_sequence (isn.plus stream.length)) stream n =
      if n = stream.length then 1 else 0 := by
    simp [finished_by, set_fin_sequence]
  refine ⟨h.data, h.tiles, h.ordered, h.gap, h.parts, h.near, h.delivered, h.bound, ?_, ?_, fun _ => ⟨rfl, hclose⟩,
    h.size, h.avail, h.blocks⟩
  · rw [hfin, set_fin_sequence]
    have hfin' := finished_by_le x.buffer stream n
    simp only [h.next, SequenceNumber32.plus_inj (b := isn) (m := n + finished_by x.buffer stream n)
      (n := stream.length) (by omega) (by omega)]
    unfold finished_by at hfin' ⊢
    by_cases hend : n = stream.length
    · cases hgot : x.buffer.got_fin <;> simp [hend, SequenceNumber32.plus_increment]
    · simp [hend]
  · have hnear := h.next_near
    rw [hfin]
    show n + (if n = stream.length then 1 else 0) < x.delivered.length + 2 ^ 31
    split <;> omega

theorem fresh_holds (stream : PacketBytes) (isn : SequenceNumber32) : Holds stream isn ⟨init isn, []⟩ [] [] 0 := by
  refine ⟨rfl, rfl, .nil, ?_, ?_, ?_, rfl, Nat.zero_le _, ?_, ?_, ?_, rfl, rfl, [], rfl, ?_⟩
  all_goals simp [init, finished_by, SequenceNumber32.plus_zero]

theorem step_holds {op : Operation} (hholds : ∃ held later n, Holds stream isn x held later n)
    (hclose : SpansWindow stream isn x op) :
    ∃ x', step stream isn x op = some x' ∧ ∃ held later n, Holds stream isn x' held later n := by
  obtain ⟨held, later, n, h⟩ := hholds
  cases op with
  | add offset length =>
    obtain ⟨x', held', later', n', hstep, h', -⟩ := h.add_spec hclose
    exact ⟨x', hstep, held', later', n', h'⟩
  | extract max_size =>
    obtain ⟨x', held', hstep, h'⟩ := h.extract_spec max_size
    exact ⟨x', hstep, held', later, n, h'⟩
  | set_fin_sequence => exact ⟨_, rfl, held, later, n, h.set_fin_sequence_spec hclose⟩
  | set_max_buffer_size s =>
    exact ⟨_, rfl, held, later, n, h.data, h.tiles, h.ordered, h.gap, h.parts, h.near, h.delivered, h.bound, h.next,
      h.next_near, h.fin, h.size, h.avail, h.blocks⟩

/-- In every exchange that spans less than half the range of sequence numbers, with the right
edge of the window, the buffer reassembles the stream, and no operation fails. -/
theorem tcp_rx_buffer_reassembles (hreach : Reachable (Fresh isn) (step stream isn) (SpansWindow stream isn) x) :
    Reassembles stream isn x ∧ ∀ op, SpansWindow stream isn x op → (step stream isn x op).isSome := by
  have hholds : ∃ held later n, Holds stream isn x held later n := by
    refine hreach.invariant (I := fun x => ∃ held later n, Holds stream isn x held later n) ?_ ?_
    · rintro x rfl
      exact ⟨[], [], 0, fresh_holds stream isn⟩
    · intro x op x' hx hclose hstep
      obtain ⟨x'', hstep', hx'⟩ := step_holds hx hclose
      obtain rfl := Option.some.inj (hstep.symm.trans hstep')
      exact hx'
  refine ⟨?_, fun op hclose => ?_⟩
  · obtain ⟨held, later, n, h⟩ := hholds
    exact h.reassembles
  · obtain ⟨x', hstep, _⟩ := step_holds hholds hclose
    rw [hstep]
    rfl

namespace Sample

def bytes : PacketBytes := [10, 11, 12, 13, 14, 15]

/-- Two positions before the sequence numbers wrap. -/
def first : SequenceNumber32 := ⟨0xfffffffe⟩

/-- Segments out of order and overlapping, a partial extraction and an early FIN. -/
def operations : List Operation :=
  [.add 4 2, .add 1 1, .set_fin_sequence, .add 0 5, .extract 3, .add 2 3]

end Sample

theorem tcp_rx_buffer_reassembles_sample : ∃ x,
    Reachable (Fresh Sample.first) (step Sample.bytes Sample.first) (SpansWindow Sample.bytes Sample.first) x ∧
      x.delivered.length = 3 ∧ Reassembles Sample.bytes Sample.first x ∧
        ∀ op, SpansWindow Sample.bytes Sample.first x op → (step Sample.bytes Sample.first x op).isSome := by
  have hrun : (Transition.execute (step Sample.bytes Sample.first) (SpansWindow Sample.bytes Sample.first)
      ⟨init Sample.first, []⟩ Sample.operations).map (fun x => x.delivered.length) = some 3 := by decide +kernel
  obtain ⟨x, hx, hlength⟩ := Option.map_eq_some_iff.mp hrun
  have hreach := (Reachable.init (show Fresh Sample.first ⟨init Sample.first, []⟩ from rfl)).execute hx
  exact ⟨x, hreach, hlength, tcp_rx_buffer_reassembles hreach⟩

/-- A duplicate far behind a large window is taken for one ahead of it, and the assertion on the
size of its fragment fails. -/
theorem old_segment_passes_window_edge : ∃ stream isn x op,
    Reachable (Fresh isn) (step stream isn) (Spans stream isn) x ∧ Spans stream isn x op ∧ stream.length = 4 ∧
      step stream isn x op = none := by
  have hrun : (Transition.execute (step [1, 2, 3, 4] ⟨0⟩) (Spans [1, 2, 3, 4] ⟨0⟩) ⟨init ⟨0⟩, []⟩
      [.set_max_buffer_size 0x7fffffff, .add 0 4, .extract 3]).map (fun x =>
        (decide (Spans [1, 2, 3, 4] ⟨0⟩ x (.add 0 1)), step [1, 2, 3, 4] ⟨0⟩ x (.add 0 1))) = some (true, none) := by
    decide +kernel
  obtain ⟨x, hx, hfacts⟩ := Option.map_eq_some_iff.mp hrun
  simp only [Prod.mk.injEq, decide_eq_true_eq] at hfacts
  exact ⟨[1, 2, 3, 4], ⟨0⟩, x, .add 0 1, (Reachable.init (show Fresh ⟨0⟩ ⟨init ⟨0⟩, []⟩ from rfl)).execute hx, hfacts.1, rfl, hfacts.2⟩

end Ns3.TcpRxBuffer
