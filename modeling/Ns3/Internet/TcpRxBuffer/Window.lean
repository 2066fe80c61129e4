import Ns3.Internet.TcpRxBuffer.Placed
import Ns3.Foundation.Reachable

namespace Ns3

/-- `TcpSocket::TcpStates_t`. -/
inductive TcpState
  | closed
  | listen
  | syn_sent
  | syn_rcvd
  | established
  | close_wait
  | last_ack
  | fin_wait_1
  | fin_wait_2
  | closing
  | time_wait
deriving DecidableEq, Repr

namespace TcpRxBuffer

open Transition
open Segments (Ordered total place)

def max_rx_sequence (b : TcpRxBuffer) : SequenceNumber32 :=
  if b.got_fin then b.fin_seq
  else match b.data with
    | [] => b.next_rx_seq.add b.max_buffer
    | (first, _) :: _ =>
      if b.next_rx_seq.greater first then first.add b.max_buffer else b.next_rx_seq.add b.max_buffer

def out_of_range (state : TcpState) (b : TcpRxBuffer) (head tail : SequenceNumber32) : Bool :=
  match state with
  | .listen | .syn_sent | .syn_rcvd => false
  | .last_ack | .closing | .close_wait => b.next_rx_seq != head
  | _ => tail.less b.next_rx_seq || b.max_rx_sequence.less_equal head

/-- A call to the buffer. -/
inductive Received
  | add (state : TcpState) (p : PacketBytes) (seq : SequenceNumber32)
  | extract (max_size : UInt32)
  | set_fin_sequence (s : SequenceNumber32)

def receive (b : TcpRxBuffer) : Received → Option TcpRxBuffer
  | .add _ p seq => (b.add p seq).map Prod.snd
  | .extract max_size => (b.extract max_size).map Prod.snd
  | .set_fin_sequence s => some (b.set_fin_sequence s)

/-- The segment is one that the socket gives to the buffer. -/
def Accepted (b : TcpRxBuffer) : Received → Prop
  | .add state p seq => out_of_range state b seq (seq.add p.get_size) = false
  | _ => True

def Empty (b : TcpRxBuffer) : Prop := ∃ n max, b = { next_rx_seq := n, max_buffer := max }

/-- Every byte of the packets that are new is before a number. -/
def StoresBefore (b b' : TcpRxBuffer) (limit : SequenceNumber32) : Prop :=
  ∀ e ∈ b'.data, e ∉ b.data → ∀ i < e.2.length, (e.1.plus i).less limit = true

/-- The right edge of the window when no FIN is known. -/
def window_edge (b : TcpRxBuffer) : SequenceNumber32 := { b with got_fin := false }.max_rx_sequence

/-- Nothing of the segment is at or after the limit, nothing of it is new, or the cut at the window behind the first
packet comes no later. -/
def EndsBy (b : TcpRxBuffer) (p : PacketBytes) (seq limit : SequenceNumber32) : Prop :=
  (seq.add p.get_size).less_equal limit = true ∨ (seq.add p.get_size).less_equal b.next_rx_seq = true ∨
    ∃ e ∈ b.data.head?, (e.1.add b.max_buffer).less_equal limit = true

/-- The segment ends in the window, and no number that is compared with another one is half the range away. -/
def InWindow (b : TcpRxBuffer) : Received → Prop
  | .add state p seq => Accepted b (.add state p seq) ∧
    Spans31 ((seq, p.length) :: (b.max_rx_sequence, 0) :: (b.window_edge, 0) :: b.ranges) ∧
    EndsBy b p seq b.max_rx_sequence ∧ EndsBy b p seq b.window_edge
  | .extract _ => True
  | .set_fin_sequence _ => Spans31 b.ranges

instance (b : TcpRxBuffer) (p : PacketBytes) (seq limit : SequenceNumber32) : Decidable (EndsBy b p seq limit) :=
  inferInstanceAs (Decidable (_ ∨ _ ∨ ∃ e ∈ b.data.head?, _))

instance (b : TcpRxBuffer) (r : Received) : Decidable (Accepted b r) :=
  match r with
  | .add .. => inferInstanceAs (Decidable (_ = _))
  | .extract _ => inferInstanceAs (Decidable True)
  | .set_fin_sequence _ => inferInstanceAs (Decidable True)

instance (b : TcpRxBuffer) (r : Received) : Decidable (InWindow b r) :=
  match r with
  | .add .. => inferInstanceAs (Decidable (_ ∧ _ ∧ _))
  | .extract _ => inferInstanceAs (Decidable True)
  | .set_fin_sequence _ => inferInstanceAs (Decidable (Spans31 _))

variable {isn : SequenceNumber32} {b b' : TcpRxBuffer} {l l' kept : List (ℕ × PacketBytes)} {n n' lo a m x max : ℕ}
  {p : PacketBytes} {f : ℕ × PacketBytes}

/-- Every packet ends in the window. -/
structure Below (l : List (ℕ × PacketBytes)) (n max : ℕ) : Prop where
  next : ∀ s ∈ l, s.1 + s.2.length ≤ n + max
  first : ∀ t ∈ l, t.1 < n → ∀ s ∈ l, s.1 + s.2.length ≤ t.1 + max

theorem Below.total_le (h : Below l n max) (horder : Ordered l) : total l ≤ max := by
  cases l with
  | nil => exact Nat.zero_le _
  | cons t l =>
    have hstart : ∀ s ∈ t :: l, t.1 ≤ s.1 := by
      intro s hs
      rcases List.mem_cons.mp hs with rfl | hs
      · exact le_rfl
      · exact (Nat.le_add_right _ _).trans (List.rel_of_pairwise_cons horder hs)
    have hend : ∀ s ∈ t :: l, s.1 + s.2.length ≤ t.1 + max := by
      intro s hs
      by_cases hlt : t.1 < n
      · exact h.first t (by simp) hlt s hs
      · have hle := h.next s hs
        omega
    have hle := horder.total_le hstart hend
    omega

theorem Below.mono (h : Below l n max) (hle : n ≤ n') : Below l n' max where
  next s hs := (h.next s hs).trans (by omega)
  first t ht hlt s hs := by
    by_cases hbefore : t.1 < n
    · exact h.first t ht hbefore s hs
    · have hs := h.next s hs
      omega

theorem Below.cut (h : Below l n max) (hcut : Cut l l') : Below l' n max where
  next s' hs' := by
    obtain ⟨s, hs, hle, hend⟩ := hcut s' hs'
    have hs := h.next s hs
    omega
  first t' ht' hlt s' hs' := by
    obtain ⟨t, ht, htle, -⟩ := hcut t' ht'
    obtain ⟨s, hs, hle, hend⟩ := hcut s' hs'
    have hs := h.first t ht (by omega) s hs
    omega

theorem Below.place (h : Below l n max) (hsub : kept.Sublist l) (hn : n ≤ f.1) (hf : f.1 + f.2.length ≤ n + max)
    (hfirst : ∀ t ∈ l, t.1 < n → f.1 + f.2.length ≤ t.1 + max) : Below (place f kept) n max where
  next s hs := by
    rcases Segments.mem_place.mp hs with rfl | hs
    · exact hf
    · exact h.next s (hsub.mem hs)
  first t ht hlt s hs := by
    rcases Segments.mem_place.mp ht with rfl | hold
    · omega
    rcases Segments.mem_place.mp hs with rfl | hs
    · exact hfirst t (hsub.mem hold) hlt
    · exact h.first t (hsub.mem hold) hlt s (hsub.mem hs)

theorem le_of_plus_eq (heq : isn.plus x = isn.plus m) (hlt : x < m + 2 ^ 32) : x ≤ m := by
  simp only [SequenceNumber32.plus, SequenceNumber32.mk.injEq, ← UInt32.toNat_inj, UInt32.toNat_add,
    UInt32.toNat_ofNat'] at heq
  have hisn := isn.value.toNat_lt
  omega

theorem Placed.window_edge_le (h : Placed isn b l n m) (hnear : ∀ s ∈ l, Near lo s) (hn : lo ≤ n ∧ n < lo + 2 ^ 31)
    (hx : b.window_edge = isn.plus x) (hlt : x < lo + 2 ^ 31) :
    x ≤ n + b.max_buffer.toNat ∧ ∀ t ∈ l, t.1 < n → x ≤ t.1 + b.max_buffer.toNat := by
  rw [window_edge, max_rx_sequence] at hx
  simp only [Bool.false_eq_true, if_false, h.data, h.next] at hx
  cases l with
  | nil =>
    rw [packets, List.map_nil, SequenceNumber32.plus_add] at hx
    exact ⟨le_of_plus_eq hx.symm (by omega), by simp⟩
  | cons s l =>
    have hcons : packets isn (s :: l) = (isn.plus s.1, s.2) :: packets isn l := rfl
    obtain ⟨hpos, hslo, hshi⟩ := hnear s (by simp)
    have hstart : ∀ t ∈ s :: l, s.1 ≤ t.1 := by
      intro t ht
      rcases List.mem_cons.mp ht with rfl | ht
      · exact le_rfl
      · exact (Nat.le_add_right _ _).trans (List.rel_of_pairwise_cons h.ordered ht)
    simp only [hcons, SequenceNumber32.greater_plus (b := isn) (m := n) (n := s.1) (by omega) (by omega),
      decide_eq_true_eq, SequenceNumber32.plus_add] at hx
    split_ifs at hx with hbefore
    · have hle := le_of_plus_eq hx.symm (by omega)
      refine ⟨by omega, fun t ht _ => ?_⟩
      have hst := hstart t ht
      omega
    · have hle := le_of_plus_eq hx.symm (by omega)
      refine ⟨hle, fun t ht hlt => ?_⟩
      have hst := hstart t ht
      omega

theorem Placed.stop_le (h : Placed isn b l n m) (hn : lo ≤ n ∧ n < lo + 2 ^ 31)
    (hedge : ∀ s ∈ l.head?, lo ≤ s.1 ∧ s.1 + b.max_buffer.toNat < lo + 2 ^ 31)
    (ha : lo ≤ a ∧ a + p.length < lo + 2 ^ 31) (hx : lo ≤ x ∧ x < lo + 2 ^ 31) (hfits : Fits b p a l n f)
    (hends : EndsBy b p (isn.plus a) (isn.plus x)) : f.1 + f.2.length ≤ x := by
  obtain ⟨hpos, hstart, hnext, hstop, hwindow, -⟩ := hfits
  rw [EndsBy, plus_get_size (by omega), h.next, SequenceNumber32.less_equal_plus (by omega) (by omega),
    SequenceNumber32.less_equal_plus (by omega) (by omega), h.data, packets, List.head?_map] at hends
  rcases hends with hends | hends | ⟨e, he, hends⟩
  · have hle := of_decide_eq_true hends
    omega
  · have hle := of_decide_eq_true hends
    omega
  · obtain ⟨s, hs, rfl⟩ := Option.map_eq_some_iff.mp he
    have hs' := hedge s hs
    have hle := hwindow s hs
    rw [SequenceNumber32.plus_add, SequenceNumber32.less_equal_plus (by omega) (by omega)] at hends
    have hends := of_decide_eq_true hends
    omega

/-- The packets at their positions, all of them in the window. -/
def Inside (b : TcpRxBuffer) : Prop :=
  ∃ isn l n lo, Placed isn b l n lo ∧ Below l n b.max_buffer.toNat

theorem Inside.size_le (h : Inside b) : b.size ≤ b.max_buffer := by
  obtain ⟨isn, l, n, lo, hplaced, hbelow⟩ := h
  have htotal := hbelow.total_le hplaced.ordered
  have hmax := b.max_buffer.toNat_lt
  rw [UInt32.le_iff_toNat_le, hplaced.size, UInt32.toNat_ofNat_of_lt' (by rw [UInt32.size]; omega)]
  exact htotal

theorem Inside.add {state : TcpState} {seq : SequenceNumber32} {stored : Bool} (h : Inside b)
    (hin : InWindow b (.add state p seq)) (hadd : b.add p seq = some (stored, b')) :
    Inside b' ∧ StoresBefore b b' b.max_rx_sequence := by
  obtain ⟨isn, l, n, m, hplaced, hbelow⟩ := h
  obtain ⟨-, hspans, hlimit, hedge⟩ := hin
  obtain ⟨lo, hnear, hn, hfirst, hmarks⟩ := hplaced.base_of_spans hspans (by simp +contextual)
  obtain ⟨a, ha, halo, hahi⟩ := hmarks (seq, p.length) (by simp)
  obtain ⟨x, hx, hxlo, hxhi⟩ := hmarks (b.max_rx_sequence, 0) (by simp)
  obtain ⟨w, hw, hwlo, hwhi⟩ := hmarks (b.window_edge, 0) (by simp)
  simp only at ha hahi hx hxhi hw hwhi
  subst ha
  have hhead : ∀ s ∈ l.head?, lo ≤ s.1 ∧ s.1 + b.max_buffer.toNat < lo + 2 ^ 31 := fun s hs =>
    ⟨(hnear s (List.mem_of_mem_head? hs)).2.1, hfirst s hs⟩
  rcases hplaced.add_cases hnear (by omega) hfirst ⟨halo, hahi⟩ hadd with ⟨-, rfl⟩ | ⟨-, f, kept, hfits, hstored, hsettles, -⟩
  · exact ⟨⟨isn, l, n, m, hplaced, hbelow⟩, fun e he hnew => absurd he hnew⟩
  rw [hx] at hlimit ⊢
  rw [hw] at hedge
  have hbefore := hplaced.stop_le (by omega) hhead ⟨halo, hahi⟩ (by omega) hfits hlimit
  have hwindow := hplaced.stop_le (by omega) hhead ⟨halo, hahi⟩ (by omega) hfits hedge
  obtain ⟨hnext, hothers⟩ := hplaced.window_edge_le hnear (by omega) hw (by omega)
  obtain ⟨n', hplaced', hle⟩ := hplaced.of_settles hnear (by omega) hfits hahi hstored hsettles
  obtain ⟨sacks₁, next, avail, sacks₂, -, -, rfl⟩ := hsettles
  refine ⟨⟨isn, _, n', lo, hplaced', ?_⟩, ?_⟩
  · exact (hbelow.place hstored.sublist hfits.next (by omega) fun t ht hlt => hwindow.trans (hothers t ht hlt)).mono hle
  · intro e he hnew i hi
    obtain ⟨s, hs, rfl⟩ := List.mem_map.mp he
    rcases Segments.mem_place.mp hs with rfl | hs
    · have hplus : (isn.plus s.1).plus i = isn.plus (s.1 + i) := by
        simp only [SequenceNumber32.plus, UInt32.ofNat_add, add_assoc]
      have hstart := hfits.start
      simp only at hi
      rw [hplus, SequenceNumber32.less_plus (by omega) (by omega)]
      exact decide_eq_true (by omega)
    · exact absurd (by rw [hplaced.data]; exact List.mem_map_of_mem (hstored.sublist.mem hs)) hnew

theorem Inside.step {r : Received} (h : Inside b) (hin : InWindow b r) (hstep : receive b r = some b') : Inside b' := by
  cases r with
  | add state p seq =>
    obtain ⟨⟨stored, b₁⟩, hadd, rfl⟩ := Option.map_eq_some_iff.mp hstep
    exact (h.add hin hadd).1
  | extract max_size =>
    obtain ⟨⟨out, b₁⟩, hextract, rfl⟩ := Option.map_eq_some_iff.mp hstep
    obtain ⟨isn, l, n, lo, hplaced, hbelow⟩ := h
    obtain ⟨e, -, -, hplaced', rfl⟩ := hplaced.extract hextract
    exact ⟨isn, _, n, lo, hplaced', hbelow.cut remove_front_cut⟩
  | set_fin_sequence s =>
    obtain ⟨isn, l, n, lo, hplaced, hbelow⟩ := h
    obtain ⟨lo', hnear, hn, -, -⟩ := hplaced.base_of_spans hin fun _ hx => hx
    obtain ⟨n', hplaced', hle, -⟩ := hplaced.set_fin_sequence hnear (by omega) s
    cases hstep
    exact ⟨isn, l, n', lo', hplaced', hbelow.mono hle⟩

theorem inside_of_empty (h : Empty b) : Inside b := by
  obtain ⟨n, max, rfl⟩ := h
  refine ⟨⟨n.value - UInt32.ofNat (2 ^ 31)⟩, [], 2 ^ 31, 2 ^ 31,
    ⟨rfl, ?_, .nil, rfl, by simp, le_rfl, by norm_num, le_rfl⟩, ⟨by simp, by simp⟩⟩
  cases n with
  | mk value => simp [SequenceNumber32.plus]

/-- In every run whose segments end in the window, `Add` stores no byte at or after `MaxRxSequence`, and the buffer
never holds more than its size. -/
theorem receive_window_bound (hreach : Reachable Empty receive InWindow b) :
    b.size ≤ b.max_buffer ∧ ∀ state p seq b', InWindow b (.add state p seq) → receive b (.add state p seq) = some b' →
      StoresBefore b b' b.max_rx_sequence ∧ b'.size ≤ b'.max_buffer := by
  have hinside : Inside b := hreach.invariant (fun _ => inside_of_empty) fun _ _ _ hb hin hstep => hb.step hin hstep
  refine ⟨hinside.size_le, fun state p seq b' hin hstep => ?_⟩
  obtain ⟨⟨stored, b₁⟩, hadd, rfl⟩ := Option.map_eq_some_iff.mp hstep
  obtain ⟨hinside', hbefore⟩ := hinside.add hin hadd
  exact ⟨hbefore, hinside'.size_le⟩

namespace Sample

/-- Two segments out of order, the one that fills the gap, an extraction and the FIN. -/
def received : List Received :=
  [.add .established [4, 5] ⟨4⟩, .add .established [8, 9] ⟨8⟩, .add .established [0, 1, 2, 3] ⟨0⟩, .extract 5,
    .set_fin_sequence ⟨11⟩]

def overfull : TcpRxBuffer where
  next_rx_seq := ⟨20⟩
  max_buffer := 10
  size := 20
  avail_bytes := 20
  data := [(⟨0⟩, List.replicate 20 0)]

end Sample

theorem receive_window_bound_sample : ∃ b, Reachable Empty receive InWindow b ∧ b.size = 3 ∧
    b.size ≤ b.max_buffer ∧ ∀ state p seq b', InWindow b (.add state p seq) → receive b (.add state p seq) = some b' →
      StoresBefore b b' b.max_rx_sequence ∧ b'.size ≤ b'.max_buffer := by
  have hrun : (execute receive InWindow { next_rx_seq := ⟨0⟩, max_buffer := 10 } Sample.received).map (fun b => b.size) =
      some 3 := by decide +kernel
  obtain ⟨b, hb, hsize⟩ := Option.map_eq_some_iff.mp hrun
  have hreach := (Reachable.init (show Empty { next_rx_seq := ⟨0⟩, max_buffer := 10 } from ⟨_, _, rfl⟩)).execute hb
  exact ⟨b, hreach, hsize, receive_window_bound hreach⟩

/-- The first segment is stored whole, however large the window is. -/
theorem segment_past_window : ∃ b b', Empty b ∧
    Accepted b (.add .established (List.replicate 20 0) ⟨0⟩) ∧
      receive b (.add .established (List.replicate 20 0) ⟨0⟩) = some b' ∧
        ¬ StoresBefore b b' b.max_rx_sequence ∧ b'.max_buffer < b'.size := by
  refine ⟨{ next_rx_seq := ⟨0⟩, max_buffer := 10 }, Sample.overfull, ⟨_, _, rfl⟩, by decide +kernel, by decide +kernel,
    fun h => ?_, by decide⟩
  have hbyte := h (⟨0⟩, List.replicate 20 0) (List.mem_singleton_self _) (by simp) 10 (by simp)
  revert hbyte
  decide

end TcpRxBuffer

end Ns3
