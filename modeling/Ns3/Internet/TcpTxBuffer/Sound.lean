import Ns3.Internet.TcpTxBuffer.Shape
import Ns3.Foundation.Reachable

/-! What `DiscardUpTo` takes off the front of a buffer. -/

namespace Ns3.TcpTxBuffer

variable {s s' : TcpTxBuffer} {l l' : List TcpTxItem} {base : SequenceNumber32} {p q turns : ℕ} {seq : SequenceNumber32}
  {item : TcpTxItem} {rest : List TcpTxItem} {now : Time} {n offset : UInt32} {out : Option TcpTxItem}

/-- The buffer without the first item of the sent list. -/
def without (s : TcpTxBuffer) (item : TcpTxItem) (rest : List TcpTxItem) : TcpTxBuffer :=
  { s with
    size := s.size - item.get_size
    sent_size := s.sent_size - item.get_size
    first_byte_seq := s.first_byte_seq.add item.get_size
    sent_list := rest }

def fragment (item : TcpTxItem) (offset : UInt32) : TcpTxItem :=
  { item with packet := item.packet.drop offset.toNat, start_seq := item.start_seq.add offset }

/-- The buffer without the first bytes of the first item of the sent list. -/
def without_part (s : TcpTxBuffer) (item : TcpTxItem) (rest : List TcpTxItem) (offset : UInt32) : TcpTxBuffer :=
  { s with
    sent_list := fragment item offset :: rest
    size := s.size - offset
    sent_size := s.sent_size - offset
    first_byte_seq := s.first_byte_seq.add offset }

/-- What the loop of `DiscardUpTo` keeps, it has kept at its end, where no bytes are left to take. -/
theorem discard_induct {I : UInt32 → TcpTxBuffer → Prop}
    (hpull : ∀ o s item s', I o s → s.sent_list = [] → s.copy_from_sequence now o s.first_byte_seq = some (some item, s') → I o s')
    (hwhole : ∀ o s item rest s', I o s → 0 < o → s.sent_list = item :: rest → item.get_size ≤ o →
      remove_from_counts (s.without item rest) item item.get_size = some s' → I (o - item.get_size) s')
    (hpart : ∀ o s item rest s', I o s → 0 < o → s.sent_list = item :: rest → o < item.get_size →
      remove_from_counts (s.without_part item rest o) item o = some s' → I 0 s')
    (h : I offset s) (hloop : s.discard_loop now turns offset = some s') : ∃ o, I o s' ∧ (s'.size = 0 ∨ o = 0) := by
  induction turns generalizing offset s with
  | zero => cases hloop
  | succ turns ih =>
    rw [discard_loop] at hloop
    split at hloop
    swap
    · next hstop =>
      cases hloop
      refine ⟨offset, h, ?_⟩
      by_contra hnot
      rw [not_or] at hnot
      exact hstop ⟨UInt32.pos_iff_ne_zero.mpr hnot.1, UInt32.pos_iff_ne_zero.mpr hnot.2⟩
    next hgo =>
      obtain ⟨s₁, hs₁, hloop⟩ := Option.bind_eq_some_iff.mp hloop
      have h₁ : I offset s₁ := by
        split at hs₁
        next hnil =>
          obtain ⟨⟨out, s₂⟩, hcopy, hs₁⟩ := Option.bind_eq_some_iff.mp hs₁
          dsimp only at hs₁
          split at hs₁
          next hsome =>
            cases hs₁
            obtain ⟨item, rfl⟩ := Option.isSome_iff_exists.mp hsome
            exact hpull offset s item _ h hnil hcopy
          next => cases hs₁
        next =>
          cases hs₁
          exact h
      split at hloop
      · cases hloop
      next item rest hlist =>
        dsimp only at hloop
        split at hloop
        swap
        · cases hloop
        split at hloop
        next hle =>
          obtain ⟨s₂, hs₂, hloop⟩ := Option.bind_eq_some_iff.mp hloop
          exact ih (hwhole offset s₁ item rest s₂ h₁ hgo.2 hlist hle hs₂) hloop
        next hlt =>
          have hlt' : offset < item.get_size := by
            rw [UInt32.lt_iff_toNat_lt]
            exact not_le.mp fun hle => hlt (UInt32.le_iff_toNat_le.mpr hle)
          exact ⟨0, hpart offset s₁ item rest s' h₁ hgo.2 hlist hlt' hloop, .inr rfl⟩

theorem remove_from_counts_spec (h : remove_from_counts s item n = some s') :
    s' = { s with
      sacked_out := if item.sacked then s.sacked_out - n else s.sacked_out
      retrans := if item.retrans then s.retrans - n else s.retrans
      lost_out := if item.lost then s.lost_out - n else s.lost_out } := by
  rw [remove_from_counts] at h
  split at h
  · cases h
    rfl
  · cases h

theorem Placed.shift {k : ℕ} (h : Placed base (p + k) l) : Placed (base.plus k) p l := by
  induction l generalizing p with
  | nil => trivial
  | cons item l ih =>
    obtain ⟨hstart, hpos, hrest⟩ := h
    refine ⟨?_, hpos, ih ?_⟩
    · rw [hstart]
      simp only [SequenceNumber32.plus, UInt32.ofNat_add, SequenceNumber32.mk.injEq]
      grind
    · rwa [Nat.add_right_comm]

theorem ofNat_sub {m : ℕ} (h : n.toNat ≤ m) : UInt32.ofNat m - n = UInt32.ofNat (m - n.toNat) := by
  obtain ⟨d, rfl⟩ := Nat.exists_eq_add_of_le h
  rw [UInt32.ofNat_add, UInt32.ofNat_toNat, add_sub_cancel_left, Nat.add_sub_cancel_left]

theorem add_eq_plus (base : SequenceNumber32) (n : UInt32) : base.add n = base.plus n.toNat := by
  have hplus := base.plus_add 0 n
  rwa [SequenceNumber32.plus_zero, Nat.zero_add] at hplus

theorem Shape.shorten (h : Shape s) (hle : n.toNat ≤ total s.sent_list)
    (hplaced : Placed (s.first_byte_seq.plus n.toNat) 0 l) (htotal : total l + n.toNat = total s.sent_list)
    (hnodes : (l.map TcpTxItem.node).Sublist (s.sent_list.map TcpTxItem.node)) {s₁ : TcpTxBuffer}
    (hs₁ : s₁ = { s with
      size := s.size - n
      sent_size := s.sent_size - n
      first_byte_seq := s.first_byte_seq.add n
      sent_list := l })
    (hs : remove_from_counts s₁ item offset = some s') : Shape s' := by
  have hroom := h.room
  rw [remove_from_counts_spec hs, hs₁]
  refine ⟨?_, h.app, ?_, ?_, ?_, h.limit, h.distinct.sublist hnodes, fun i hi => ?_⟩
  · rw [← add_eq_plus] at hplaced
    exact hplaced
  · show s.sent_size - n = UInt32.ofNat (total l)
    rw [h.sent_size, ofNat_sub hle]
    congr 1
    omega
  · show s.size - n = UInt32.ofNat (total l + total s.app_list)
    rw [h.size, ofNat_sub (by omega)]
    congr 1
    omega
  · show total l + total s.app_list ≤ s.max_buffer.toNat
    omega
  · obtain ⟨j, hj, hij⟩ := List.mem_map.mp (hnodes.subset (List.mem_map_of_mem hi))
    exact hij ▸ h.nodes j hj

theorem Shape.without (h : Shape s) (hlist : s.sent_list = item :: rest)
    (hs : remove_from_counts (s.without item rest) item item.get_size = some s') : Shape s' := by
  have hplaced := h.placed
  have hlt := h.lt
  rw [hlist] at hplaced hlt
  rw [total_cons] at hlt
  have hsize := get_size_toNat (i := item) (by omega)
  refine h.shorten (n := item.get_size) (l := rest) ?_ ?_ ?_ ?_ rfl hs
  · rw [hlist, total_cons, hsize]
    exact Nat.le_add_right _ _
  · rw [hsize]
    exact Placed.shift hplaced.2.2
  · rw [hlist, total_cons, hsize, Nat.add_comm]
  · rw [hlist]
    exact List.sublist_cons_self _ _

theorem Shape.without_part (h : Shape s) (hlist : s.sent_list = item :: rest) (hless : offset < item.get_size)
    (hs : remove_from_counts (s.without_part item rest offset) item offset = some s') : Shape s' := by
  have hplaced := h.placed
  have hlt := h.lt
  rw [hlist] at hplaced hlt
  rw [total_cons] at hlt
  rw [UInt32.lt_iff_toNat_lt, get_size_toNat (by omega)] at hless
  have hlength : (fragment item offset).packet.length = item.packet.length - offset.toNat := List.length_drop
  obtain ⟨hstart, _, hrest⟩ := hplaced
  refine h.shorten (n := offset) (l := fragment item offset :: rest) ?_ ⟨?_, by omega, ?_⟩ ?_ ?_ rfl hs
  · rw [hlist, total_cons]
    omega
  · show item.start_seq.add offset = _
    rw [hstart, SequenceNumber32.plus_zero, SequenceNumber32.plus_zero, add_eq_plus]
  · apply Placed.shift
    rw [hlength, Nat.zero_add, Nat.sub_add_cancel hless.le]
    exact (Nat.zero_add item.packet.length) ▸ hrest
  · rw [hlist, total_cons, total_cons, hlength]
    omega
  · rw [hlist]
    exact List.Sublist.refl _

end Ns3.TcpTxBuffer

/-! The buffers that runs of the operations reach. -/

namespace Ns3.TcpTxBuffer

open Transition

/-- Neither sacked nor lost nor retransmitted. -/
def Unmarked (item : TcpTxItem) : Prop := item.sacked = false ∧ item.lost = false ∧ item.retrans = false

instance (item : TcpTxItem) : Decidable (Unmarked item) := inferInstanceAs (Decidable (_ ∧ _ ∧ _))

/-- A buffer whose data that is not sent bears no marks. -/
structure Sound (s : TcpTxBuffer) : Prop extends Shape s where
  clean : ∀ item ∈ s.app_list, Unmarked item

/-- A packet has fewer bytes than its size counts to, the buffer stays smaller than half of the sequence space and not
smaller than its data, and a segment is taken back before it has got a mark. -/
def Admitted (s : TcpTxBuffer) : Operation → Prop
  | .add p => p.length < 2 ^ 32
  | .set_max_buffer_size n => s.size ≤ n ∧ n.toNat < 2 ^ 31
  | .reset_last_segment_sent => ∀ item ∈ s.sent_list.getLast?, Unmarked item
  | _ => True

instance (s : TcpTxBuffer) (operation : Operation) : Decidable (Admitted s operation) :=
  match operation with
  | .add p => inferInstanceAs (Decidable (p.length < 2 ^ 32))
  | .set_max_buffer_size n => inferInstanceAs (Decidable (s.size ≤ n ∧ n.toNat < 2 ^ 31))
  | .reset_last_segment_sent => inferInstanceAs (Decidable (∀ item ∈ s.sent_list.getLast?, Unmarked item))
  | .set_head_sequence _ | .set_dup_ack_thresh _ | .set_segment_size _ | .set_sack_enabled _ | .copy_from_sequence ..
  | .discard_up_to .. | .update _ | .set_sent_list_lost _ | .reset_sent_list | .mark_head_as_lost
  | .delete_retransmitted_flag_from_head | .add_reno_sack | .reset_reno_sack => inferInstanceAs (Decidable True)

variable {s s' : TcpTxBuffer} {l l' : List TcpTxItem} {base : SequenceNumber32} {p q turns : ℕ} {seq : SequenceNumber32}
  {item : TcpTxItem} {rest : List TcpTxItem} {now : Time} {n offset numBytes : UInt32} {out : Option TcpTxItem}

theorem Sound.init (n : SequenceNumber32) : Sound (init n) := ⟨Shape.init n, by simp [TcpTxBuffer.init]⟩

theorem Reflag.sound (h : Reflag s s') (hs : Sound s) : Sound s' := by
  refine ⟨h.shape hs.toShape, ?_⟩
  rw [h.rest]
  exact hs.clean

theorem Sound.add (h : Sound s) {p : PacketBytes} (hp : p.length < 2 ^ 32) : Sound (s.add p).2 := by
  refine ⟨h.toShape.add hp, ?_⟩
  rw [TcpTxBuffer.add]
  split
  · split
    · intro i hi
      rcases List.mem_append.mp hi with hi | hi
      · exact h.clean i hi
      · rw [List.mem_singleton.mp hi]
        exact ⟨rfl, rfl, rfl⟩
    · exact h.clean
  · exact h.clean

theorem Sent.unmarked (h : Sent s s' item) (hs : ∀ i ∈ s.app_list, Unmarked i) :
    Unmarked item ∧ ∀ i ∈ s'.app_list, Unmarked i := by
  obtain ⟨hitem, hrest⟩ := h.flags false false fun i hi => ⟨(hs i hi).1, (hs i hi).2.1⟩
  have hclean := (h.clean.2 fun i hi => (hs i hi).2.2).2
  exact ⟨⟨hitem.1, hitem.2, h.clean.1⟩, fun i hi => ⟨(hrest i hi).1, (hrest i hi).2, hclean i hi⟩⟩

theorem Sound.copy_from_sequence (h : Sound s) (hcopy : s.copy_from_sequence now numBytes seq = some (out, s')) :
    Sound s' := by
  refine ⟨h.toShape.copy_from_sequence hcopy, ?_⟩
  rcases h.toShape.copy_spec hcopy with ⟨_, rfl⟩ | ⟨_, _, _, _, _, _, hresent, _⟩ | ⟨_, hsent, _⟩
  · exact h.clean
  · rw [hresent.rest]
    exact h.clean
  · exact (hsent.unmarked h.clean).2

theorem sack_first_key {r : TcpTxItem × List TcpTxItem} (h : sack_first l = some r) : r.2.map key = l.map key := by
  induction l generalizing r with
  | nil => cases h
  | cons item rest ih =>
    rw [sack_first] at h
    split at h
    · obtain ⟨r, hr, rfl⟩ := Option.map_eq_some_iff.mp h
      rw [List.map_cons, List.map_cons, ih hr]
    · cases h
      rfl

theorem reflag_add_reno_sack (h : s.add_reno_sack = some s') : Reflag s s' := by
  rw [add_reno_sack] at h
  split at h
  · cases h
  next head rest hlist =>
    split at h
    · cases h
    split at h
    · cases h
      exact ⟨rfl, rfl⟩
    next r hr =>
      cases h
      refine ⟨?_, rfl⟩
      rw [hlist, List.map_cons, List.map_cons, sack_first_key hr]

theorem reflag_mark_head_as_lost (s : TcpTxBuffer) : Reflag s s.mark_head_as_lost := by
  rw [mark_head_as_lost]
  split
  · exact Reflag.refl s
  next hlist => exact ⟨by rw [hlist]; rfl, rfl⟩

theorem reflag_check_head (h : s.check_head seq = some s') : Reflag s s' := by
  rw [check_head] at h
  split at h
  · cases h
    exact Reflag.refl s
  next head rest hlist =>
    obtain ⟨s₁, hs₁, h⟩ := Option.bind_eq_some_iff.mp h
    have h₁ : Reflag s s₁ := by
      split at hs₁
      swap
      · cases hs₁
        exact Reflag.refl s
      split at hs₁
      · cases hs₁
      obtain ⟨s₂, hs₂, rfl⟩ := Option.map_eq_some_iff.mp hs₁
      have hunsack : Reflag s { s with
          sent_list := { head with sacked := false } :: rest
          sacked_out := s.sacked_out - head.get_size } := ⟨by rw [hlist]; rfl, rfl⟩
      exact hunsack.trans ((reflag_add_reno_sack hs₂).trans (reflag_mark_head_as_lost s₂))
    split at h
    · cases h
      exact h₁
    · cases h

theorem Shape.empty (h : Shape s) (hsize : s.size = 0) : s.sent_list = [] ∧ s.app_list = [] := by
  have hlt := h.lt
  have htotal : total s.sent_list + total s.app_list = 0 := by
    have hnat : s.size.toNat = total s.sent_list + total s.app_list := by
      rw [h.size, UInt32.toNat_ofNat_of_lt' (hlt.trans (by decide))]
    rw [← hnat, hsize]
    rfl
  have hnil : ∀ l : List TcpTxItem, (∀ i ∈ l, 0 < i.packet.length) → total l = 0 → l = [] := by
    intro l hpos hl
    cases l with
    | nil => rfl
    | cons item rest =>
      have hitem := hpos item (by simp)
      rw [total_cons] at hl
      omega
  exact ⟨hnil _ h.placed.pos (by omega), hnil _ h.app (by omega)⟩

theorem Sound.rebase (h : Sound s) (hsize : s.size = 0) (seq : SequenceNumber32) :
    Sound { s with first_byte_seq := seq } := by
  obtain ⟨hsent, _⟩ := h.toShape.empty hsize
  refine ⟨⟨?_, h.app, h.sent_size, h.size, h.room, h.limit, h.distinct, h.nodes⟩, h.clean⟩
  show Placed seq 0 s.sent_list
  rw [hsent]
  trivial

theorem remove_from_counts_app (h : remove_from_counts s item n = some s') : s'.app_list = s.app_list := by
  rw [remove_from_counts_spec h]

theorem Sound.discard_up_to (h : Sound s) (hdiscard : s.discard_up_to now seq = some s') : Sound s' := by
  rw [TcpTxBuffer.discard_up_to] at hdiscard
  split at hdiscard
  · cases hdiscard
    exact h
  obtain ⟨s₁, hloop, hdiscard⟩ := Option.bind_eq_some_iff.mp hdiscard
  obtain ⟨s₂, hhead, hdiscard⟩ := Option.bind_eq_some_iff.mp hdiscard
  have h₁ : Sound s₁ := by
    obtain ⟨_, h₁, _⟩ := discard_induct (I := fun _ s => Sound s)
      (fun _ _ _ _ h _ hcopy => h.copy_from_sequence hcopy)
      (fun _ _ _ _ _ h _ hlist _ hs => ⟨h.toShape.without hlist hs, by rw [remove_from_counts_app hs]; exact h.clean⟩)
      (fun _ _ _ _ _ h _ hlist hlt hs =>
        ⟨h.toShape.without_part hlist hlt hs, by rw [remove_from_counts_app hs]; exact h.clean⟩) h hloop
    exact h₁
  have h₂ : Sound s₂ := by
    refine (reflag_check_head hhead).sound ?_
    split
    next hsize => exact h₁.rebase hsize seq
    next => exact h₁
  obtain ⟨_, hdiscard⟩ := Option.ite_none_right_eq_some.mp hdiscard
  cases hdiscard
  split
  · exact Reflag.sound (s := s₂) ⟨rfl, rfl⟩ h₂
  · exact h₂

theorem update_block_key {block : SackBlock} {begin : SequenceNumber32} {t : Tally} {r : List TcpTxItem × Tally}
    (h : update_block block begin t l = some r) : r.1.map key = l.map key := by
  induction l generalizing begin t r with
  | nil =>
    cases h
    rfl
  | cons item rest ih =>
    rw [update_block] at h
    dsimp only at h
    split at h
    · split at h
      · split at h
        · cases h
        · obtain ⟨r, hr, rfl⟩ := Option.map_eq_some_iff.mp h
          rw [List.map_cons, List.map_cons, ih hr]
      · obtain ⟨r, hr, rfl⟩ := Option.map_eq_some_iff.mp h
        rw [List.map_cons, List.map_cons, ih hr]
        rfl
    · split at h
      · cases h
        rfl
      · obtain ⟨r, hr, rfl⟩ := Option.map_eq_some_iff.mp h
        rw [List.map_cons, List.map_cons, ih hr]

theorem update_blocks_key {first sent_end : SequenceNumber32} {list : List SackBlock} {t : Tally}
    {r : Bool × List TcpTxItem × Tally} (h : update_blocks first sent_end list t l = some r) : r.2.1.map key = l.map key := by
  induction list generalizing t l with
  | nil =>
    cases h
    rfl
  | cons block list ih =>
    rw [update_blocks] at h
    split at h
    · cases h
      rfl
    · obtain ⟨⟨items, t'⟩, hblock, h⟩ := Option.bind_eq_some_iff.mp h
      exact (ih h).trans (update_block_key hblock)

theorem mark_lost_key (thresh : UInt32) (item : TcpTxItem) (r : List TcpTxItem × ℕ × UInt32) :
    (mark_lost thresh item r).1.map key = key item :: r.1.map key := by
  rw [mark_lost]
  split <;> split <;> rfl

theorem mark_lost_from_key {thresh lost_out : UInt32} {node : ℕ} {r : List TcpTxItem × ℕ × UInt32}
    (h : mark_lost_from thresh node lost_out l = some r) : r.1.map key = l.map key := by
  induction l generalizing r with
  | nil => cases h
  | cons item rest ih =>
    rw [mark_lost_from] at h
    split at h
    · cases h
      exact mark_lost_key thresh item _
    · obtain ⟨r, hr, rfl⟩ := Option.map_eq_some_iff.mp h
      rw [mark_lost_key, ih hr, List.map_cons]

theorem reflag_update_lost_count (h : s.update_lost_count = some s') : Reflag s s' := by
  rw [update_lost_count] at h
  split at h
  swap
  · cases h
  next head rest node hlist _ =>
    obtain ⟨⟨rest', sacked, lost_out⟩, hrest, h⟩ := Option.bind_eq_some_iff.mp h
    have hkey : rest'.map key = rest.map key := by
      split at hrest
      · cases hrest
        rfl
      · exact mark_lost_from_key hrest
    dsimp only at h
    split at h
    · cases h
      exact ⟨by rw [hlist, List.map_cons, List.map_cons, hkey]; rfl, rfl⟩
    · cases h
      exact ⟨by rw [hlist, List.map_cons, List.map_cons, hkey], rfl⟩

theorem reflag_update {list : List SackBlock} {bytes : UInt32} (h : s.update list = some (bytes, s')) : Reflag s s' := by
  obtain ⟨⟨complete, items, t⟩, hblocks, h⟩ := Option.bind_eq_some_iff.mp h
  have hfirst : Reflag s { s with
      sent_list := items
      sacked_out := t.sacked_out
      lost_out := t.lost_out
      highest_sack := t.highest_sack } := ⟨update_blocks_key hblocks, rfl⟩
  dsimp only at h
  split at h
  swap
  · cases h
    exact hfirst
  obtain ⟨s₁, hs₁, h⟩ := Option.bind_eq_some_iff.mp h
  have hlast : Reflag s s₁ := by
    split at hs₁
    · exact hfirst.trans (reflag_update_lost_count hs₁)
    · cases hs₁
      exact hfirst
  split at h
  · cases h
  · split at h
    · cases h
      exact hlast
    · cases h

theorem reflag_set_sent_list_lost {resetSack : Bool} (h : s.set_sent_list_lost resetSack = some s') : Reflag s s' := by
  obtain ⟨_, h⟩ := Option.ite_none_right_eq_some.mp h
  cases h
  split
  · exact ⟨by simp [key], rfl⟩
  · exact ⟨by simp [key], rfl⟩

theorem reflag_delete_retransmitted_flag (s : TcpTxBuffer) : Reflag s s.delete_retransmitted_flag_from_head := by
  rw [delete_retransmitted_flag_from_head]
  split
  · exact Reflag.refl s
  next hlist =>
    split
    · exact Reflag.refl s
    · exact ⟨by rw [hlist]; rfl, rfl⟩

theorem reflag_reset_reno_sack (s : TcpTxBuffer) : Reflag s s.reset_reno_sack :=
  ⟨by simp [reset_reno_sack, key], rfl⟩

theorem Sound.reset_sent_list (h : Sound s) : Sound s.reset_sent_list := by
  obtain ⟨cleared, hcleared⟩ : ∃ x, x = s.sent_list.map (fun item => { item with retrans := false, sacked := false, lost := false }) :=
    ⟨_, rfl⟩
  have htotal : total (cleared ++ s.app_list) = total s.sent_list + total s.app_list := by
    rw [total_append, total_of_key (show cleared.map key = s.sent_list.map key by simp [hcleared, key])]
  have happ : s.reset_sent_list.app_list = cleared ++ s.app_list := by rw [hcleared]; rfl
  refine ⟨⟨trivial, fun i hi => ?_, rfl, ?_, ?_, h.limit, List.nodup_nil, ?_⟩, fun i hi => ?_⟩
  · rw [happ] at hi
    rcases List.mem_append.mp hi with hi | hi
    · rw [hcleared] at hi
      obtain ⟨j, hj, rfl⟩ := List.mem_map.mp hi
      exact h.placed.pos j hj
    · exact h.app i hi
  · rw [happ, htotal]
    exact h.size.trans (congrArg UInt32.ofNat (Nat.zero_add _).symm)
  · rw [happ, htotal]
    exact (Nat.zero_add _).trans_le h.room
  · intro i hi
    cases hi
  · rw [happ] at hi
    rcases List.mem_append.mp hi with hi | hi
    · rw [hcleared] at hi
      obtain ⟨j, hj, rfl⟩ := List.mem_map.mp hi
      exact ⟨rfl, rfl, rfl⟩
    · exact h.clean i hi

theorem Sound.reset_last_segment_sent (h : Sound s) (hlast : ∀ item ∈ s.sent_list.getLast?, Unmarked item) :
    Sound s.reset_last_segment_sent := by
  rw [TcpTxBuffer.reset_last_segment_sent]
  split
  · exact h
  next item hitem =>
    obtain ⟨front, hfront⟩ := List.getLast?_eq_some_iff.mp hitem
    have hplaced := h.placed
    have hdistinct := h.distinct
    have hsize := h.size
    have hsent := h.sent_size
    have hroom := h.room
    have hlt := h.lt
    have hnodes := h.nodes
    rw [hfront] at hplaced hdistinct hsize hsent hroom hlt hnodes
    simp only [total_append, total_cons, total_nil, Nat.add_zero] at hsize hsent hroom hlt
    have hdrop : s.sent_list.dropLast = front := by rw [hfront, List.dropLast_concat]
    obtain ⟨hbefore, _, hpos, _⟩ := placed_append.mp hplaced
    rw [hdrop]
    refine ⟨⟨hbefore, fun i hi => ?_, ?_, ?_, ?_, h.limit, ?_, fun i hi => hnodes i (by simp [show i ∈ front from hi])⟩, fun i hi => ?_⟩
    · rcases List.mem_cons.mp hi with rfl | hi
      · exact hpos
      · exact h.app i hi
    · show s.sent_size - item.get_size = UInt32.ofNat (total front)
      rw [hsent, UInt32.ofNat_add, get_size_eq, add_sub_cancel_right]
    · show s.size = UInt32.ofNat (total front + total (item :: s.app_list))
      rw [hsize, total_cons, Nat.add_assoc]
    · show total front + total (item :: s.app_list) ≤ s.max_buffer.toNat
      rw [total_cons]
      omega
    · rw [List.map_append] at hdistinct
      exact hdistinct.of_append_left
    · rcases List.mem_cons.mp hi with rfl | hi
      · exact hlast _ hitem
      · exact h.clean i hi

theorem Sound.step {operation : Operation} (h : Sound s) (hadmitted : Admitted s operation)
    (hstep : s.step operation = some s') : Sound s' := by
  cases operation with
  | add p =>
    cases hstep
    exact h.add hadmitted
  | set_head_sequence seq =>
    refine ⟨h.toShape.set_head_sequence hstep, ?_⟩
    rw [TcpTxBuffer.step, set_head_sequence] at hstep
    split at hstep
    · cases hstep
      exact h.clean
    · cases hstep
  | set_max_buffer_size n =>
    cases hstep
    exact ⟨h.toShape.set_max_buffer_size hadmitted.1 hadmitted.2, h.clean⟩
  | set_dup_ack_thresh n =>
    cases hstep
    exact ⟨{ h with }, h.clean⟩
  | set_segment_size n =>
    cases hstep
    exact ⟨{ h with }, h.clean⟩
  | set_sack_enabled enabled =>
    cases hstep
    exact ⟨{ h with }, h.clean⟩
  | copy_from_sequence now numBytes seq =>
    obtain ⟨⟨out, s₁⟩, hcopy, rfl⟩ := Option.map_eq_some_iff.mp hstep
    exact h.copy_from_sequence hcopy
  | discard_up_to now seq => exact h.discard_up_to hstep
  | update list =>
    obtain ⟨⟨bytes, s₁⟩, hupdate, rfl⟩ := Option.map_eq_some_iff.mp hstep
    exact (reflag_update hupdate).sound h
  | set_sent_list_lost resetSack => exact (reflag_set_sent_list_lost hstep).sound h
  | reset_sent_list =>
    cases hstep
    exact h.reset_sent_list
  | reset_last_segment_sent =>
    cases hstep
    exact h.reset_last_segment_sent hadmitted
  | mark_head_as_lost =>
    cases hstep
    exact (reflag_mark_head_as_lost s).sound h
  | delete_retransmitted_flag_from_head =>
    cases hstep
    exact (reflag_delete_retransmitted_flag s).sound h
  | add_reno_sack => exact (reflag_add_reno_sack hstep).sound h
  | reset_reno_sack =>
    cases hstep
    exact (reflag_reset_reno_sack s).sound h

theorem sound_of_reachable (h : Reachable (fun s => ∃ n, s = TcpTxBuffer.init n) step Admitted s) : Sound s :=
  h.invariant (fun _ ⟨n, hn⟩ => hn ▸ Sound.init n) fun _ _ _ hs hadmitted hstep => hs.step hadmitted hstep

end Ns3.TcpTxBuffer
