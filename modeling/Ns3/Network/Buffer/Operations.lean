import Ns3.Foundation.Reachable
import Ns3.Network.Buffer.Growth

/-! What the operations on one buffer make of its bytes. -/

namespace Ns3.Memory

open Slice Buffer

variable {s s' : Memory} {a n z : ℕ} {d : Data} {b b' o : Buffer} {bs : List Buffer} {making : List ℕ} {x : List UInt8}

theorem Shared.of_read (h : Shared s making bs) (hread : ∀ c, s'.read c = s.read c) (hfree : s'.free_list = s.free_list) :
    Shared s' making bs := by
  refine ⟨fun c d hc => h.count c d (hread c ▸ hc), fun c d hc => h.bytes c d (hread c ▸ hc), fun c hc => ?_,
    fun c d hc => h.within c d (hread c ▸ hc), ?_, h.few⟩
  · rw [hread]
    exact h.live c hc
  · rw [hfree]
    exact ⟨h.free.1, fun c hc => (hread c).symm ▸ h.free.2 c hc⟩

theorem Shared.replace (h : Shared s making (b :: bs)) (hdata : b'.data = b.data)
    (hin : ∀ d z, s.read b.data = some d → (∀ o ∈ b :: bs, o.data = b.data → Within d z o) → Within d z b') :
    Shared s making (b' :: bs) := by
  have howners : owners making (b' :: bs) = owners making (b :: bs) := by simp [owners, hdata]
  refine ⟨fun c d hc => howners ▸ h.count c d hc, h.bytes, fun c hc => h.live c (howners ▸ hc), fun c d hc => ?_, h.free,
    howners ▸ h.few⟩
  obtain ⟨z, hz⟩ := h.within c d hc
  refine ⟨z, fun o ho hoc => ?_⟩
  obtain rfl | ho := List.mem_cons.mp ho
  · obtain rfl : b.data = c := hdata.symm.trans hoc
    exact hin d z hc hz
  · exact hz o (List.mem_cons_of_mem b ho) hoc

theorem Shared.head (h : Shared s making (b :: bs)) :
    ∃ d z, s.read b.data = some d ∧ Within d z b ∧ d.bytes.length = d.size ∧ b.real_end ≤ d.bytes.length := by
  obtain ⟨d, hd⟩ := h.read List.mem_cons_self
  obtain ⟨z, hz⟩ := h.within _ d hd
  have hin := hz b List.mem_cons_self rfl
  obtain ⟨hlength, _⟩ := h.bytes _ d hd
  exact ⟨d, z, hd, hin, hlength, hlength ▸ hin.fits⟩

theorem copy_spec (h : Shared s [] bs) (ho : o ∈ bs) (hfew : bs.length + 1 < 2 ^ 32) :
    ∃ b s', copy s o = some (b, s') ∧ Shared s' [] (b :: bs) ∧ (∀ o ∈ bs, s'.contents o = s.contents o) ∧
      s'.contents b = s.contents o ∧ b = { o with max_zero_area_start := o.zero_area_start } := by
  obtain ⟨s', hs', hshared, hsame, _⟩ := acquire_spec h ho o.zero_area_start (by simpa [owners] using hfew)
  exact ⟨_, s', by rw [copy, hs']; rfl, hshared, fun o _ => hsame o, hsame o, rfl⟩

theorem destroy_spec (h : Shared s [] (b :: bs)) :
    ∃ s', destroy s b = some s' ∧ Shared s' [] bs ∧ ∀ o ∈ bs, s'.contents o = s.contents o := by
  have hrec : Shared (s.recommend b.max_zero_area_start) [] (b :: bs) := h.of_read (fun _ => rfl) rfl
  obtain ⟨s', hs', hshared, hsame, _⟩ := release_spec hrec
  exact ⟨s', hs', hshared, hsame⟩

theorem assign_spec (h : Shared s [] (b :: bs)) (ho : o ∈ b :: bs) :
    ∃ s', assign s b o = some (o, s') ∧ Shared s' [] (o :: bs) ∧ (∀ o ∈ bs, s'.contents o = s.contents o) ∧
      s'.contents o = s.contents o := by
  rw [assign]
  by_cases hdata : b.data = o.data
  · refine ⟨s.recommend b.max_zero_area_start, by rw [if_neg (not_not.mpr hdata)]; rfl, ?_, fun _ _ => rfl, rfl⟩
    have hreplace := h.replace hdata.symm fun d z _ hz => hz o ho hdata.symm
    exact hreplace.of_read (fun _ => rfl) rfl
  · have hmem : o ∈ bs := (List.mem_cons.mp ho).resolve_left fun heq => hdata (heq ▸ rfl)
    obtain ⟨s₁, hs₁, hshared₁, hsame₁, _⟩ := release_spec h
    obtain ⟨s₂, hs₂, hshared₂, hsame₂, _⟩ := acquire_spec hshared₁ hmem o.max_zero_area_start (by
      have hfew := h.few
      simp only [owners, List.nil_append, List.map_cons, List.length_cons] at hfew ⊢
      omega)
    refine ⟨s₂.recommend b.max_zero_area_start, ?_, hshared₂.of_read (fun _ => rfl) rfl,
      fun o ho => (hsame₂ o).trans (hsame₁ o ho), (hsame₂ o).trans (hsame₁ o hmem)⟩
    rw [if_pos hdata]
    simp only [Option.bind_eq_bind, hs₁, Option.bind_some, hs₂]

/-! ## Bytes that are removed -/

theorem drop_contents_in (hord : Ordered b) (hfits : b.real_end ≤ d.bytes.length) (n : ℕ) : (contents_in d b).drop n =
    slice d.bytes (b.start + n) b.zero_area_start ++
      List.replicate (b.zero_area_end - b.zero_area_start - (n - (b.zero_area_start - b.start))) 0 ++
      slice d.bytes (b.zero_area_start + (n - (b.zero_area_start - b.start) - (b.zero_area_end - b.zero_area_start)))
        b.real_end := by
  have hle := zero_area_start_le hord
  rw [contents_in, List.append_assoc, List.drop_append, List.drop_append, List.drop_replicate, drop_slice, drop_slice,
    List.length_replicate, length_slice (by omega), List.append_assoc]

theorem take_contents_in (hord : Ordered b) (hfits : b.real_end ≤ d.bytes.length) (n : ℕ) : (contents_in d b).take n =
    slice d.bytes b.start (min b.zero_area_start (b.start + n)) ++
      List.replicate (min (n - (b.zero_area_start - b.start)) (b.zero_area_end - b.zero_area_start)) 0 ++
      slice d.bytes b.zero_area_start (min b.real_end
        (b.zero_area_start + (n - (b.zero_area_start - b.start) - (b.zero_area_end - b.zero_area_start)))) := by
  have hle := zero_area_start_le hord
  rw [contents_in, List.append_assoc, List.take_append, List.take_append, List.take_replicate, slice_take, slice_take,
    List.length_replicate, length_slice (by omega), List.append_assoc]

theorem parts_congr {p p' q q' : List UInt8} {k k' : ℕ} (hp : p = p') (hk : k = k') (hq : q = q') :
    p ++ List.replicate k 0 ++ q = p' ++ List.replicate k' 0 ++ q' := by rw [hp, hk, hq]

/-- A buffer that has been cut at its ends. -/
structure Part (b b' : Buffer) : Prop where
  data : b'.data = b.data
  start : b.start ≤ b'.start
  order : b'.start ≤ b'.zero_area_start ∧ b'.zero_area_start ≤ b'.zero_area_end ∧ b'.zero_area_end ≤ b'.end_
  stop : b'.end_ ≤ b.end_
  real : b'.real_end ≤ b.real_end
  last : b'.end_ = b.end_ → b'.zero_area_end - b'.zero_area_start = b.zero_area_end - b.zero_area_start

theorem Part.within (h : Part b b') (hin : Within d z b) : Within d z b' := by
  have hlt := hin.lt
  have hend := hin.dirty_end
  have hreal := hin.real
  have hstart := h.start
  have hstop := h.stop
  have hle := h.real
  refine ⟨⟨h.order.1, h.order.2.1, h.order.2.2, by omega⟩, hin.dirty_start.trans hstart, hstop.trans hend, by omega,
    fun hlast => ?_, hle.trans hin.fits⟩
  have hsame : b'.end_ = b.end_ := by omega
  exact (h.last hsame).trans (hin.last (hsame ▸ hlast))

theorem Shared.cut (h : Shared s making (b :: bs)) (hpart : Part b b') {f : List UInt8 → List UInt8}
    (hbytes : ∀ d, b.real_end ≤ d.bytes.length → contents_in d b' = f (contents_in d b)) :
    Shared s making (b' :: bs) ∧ s.contents b' = f (s.contents b) := by
  obtain ⟨d, z, hd, hin, _, hfits⟩ := h.head
  refine ⟨h.replace hpart.data fun d z _ hz => hpart.within (hz b List.mem_cons_self rfl), ?_⟩
  rw [contents_eq hd, contents_eq (hpart.data ▸ hd), hbytes d hfits]

theorem remove_at_start_spec (h : Shared s making (b :: bs)) (hn : b.start + n < 2 ^ 32) :
    ∃ b', b.remove_at_start n = some b' ∧ Shared s making (b' :: bs) ∧ s.contents b' = (s.contents b).drop n := by
  have hord := h.ordered List.mem_cons_self
  have hstart := hord.start
  have hzero := hord.zero
  have hstop := hord.stop
  have hlt := hord.lt
  have hreal : b.real_end = b.end_ - (b.zero_area_end - b.zero_area_start) := rfl
  suffices hcut : ∃ b', b.remove_at_start n = some b' ∧ Part b b' ∧
      ∀ d, b.real_end ≤ d.bytes.length → contents_in d b' = (contents_in d b).drop n by
    obtain ⟨b', hb', hpart, hbytes⟩ := hcut
    exact ⟨b', hb', h.cut hpart hbytes⟩
  have hshort : sub32 b.end_ b.zero_size = b.real_end := by rw [zero_size_eq hord, sub32_eq (by omega) hlt, hreal]
  rw [remove_at_start, u32_eq hn]
  by_cases hfirst : b.start + n ≤ b.zero_area_start
  · rw [if_pos hfirst]
    refine ⟨_, rfl, ⟨rfl, Nat.le_add_right _ _, ⟨hfirst, hzero, hstop⟩, le_rfl, le_rfl, fun _ => rfl⟩, fun d hfits => ?_⟩
    rw [drop_contents_in hord hfits]
    exact parts_congr rfl (by simp only [learn]; omega) (slice_same (by simp only [learn, real_end, and_true]; omega))
  rw [if_neg hfirst]
  by_cases hzeros : b.start + n ≤ b.zero_area_end
  · have hdelta : sub32 (b.start + n) b.zero_area_start = b.start + n - b.zero_area_start := sub32_eq (by omega) hn
    have hzend : sub32 b.zero_area_end (b.start + n - b.zero_area_start) = b.zero_area_end - (b.start + n - b.zero_area_start) :=
      sub32_eq (by omega) (by omega)
    have hend : sub32 b.end_ (b.start + n - b.zero_area_start) = b.end_ - (b.start + n - b.zero_area_start) :=
      sub32_eq (by omega) hlt
    rw [if_pos hzeros]
    simp only [hdelta, hzend, hend]
    refine ⟨_, rfl, ⟨rfl, ?_, ⟨?_, ?_, ?_⟩, ?_, ?_, fun _ => ?_⟩, fun d hfits => ?contents⟩
    case contents =>
      rw [drop_contents_in hord hfits]
      apply parts_congr (slice_same _) _ (slice_same _)
      all_goals simp only [learn, real_end, and_true]
      all_goals omega
    all_goals simp only [learn, real_end] at *
    all_goals omega
  rw [if_neg hzeros]
  by_cases hlast : b.start + n ≤ b.end_
  · have hnew : sub32 (b.start + n) b.zero_size = b.start + n - (b.zero_area_end - b.zero_area_start) := by
      rw [zero_size_eq hord, sub32_eq (by omega) hn]
    rw [if_pos hlast, if_pos (by omega)]
    simp only [hnew, hshort]
    refine ⟨_, rfl, ⟨rfl, ?_, ⟨?_, ?_, ?_⟩, ?_, ?_, fun _ => ?_⟩, fun d hfits => ?contents⟩
    case contents =>
      rw [drop_contents_in hord hfits]
      apply parts_congr (slice_same _) _ (slice_same _)
      all_goals simp only [learn, real_end]
      all_goals omega
    all_goals simp only [learn, real_end] at *
    all_goals omega
  · rw [if_neg hlast]
    simp only [hshort]
    refine ⟨_, rfl, ⟨rfl, ?_, ⟨?_, ?_, ?_⟩, ?_, ?_, fun _ => ?_⟩, fun d hfits => ?contents⟩
    case contents =>
      rw [drop_contents_in hord hfits]
      apply parts_congr (slice_same _) _ (slice_same _)
      all_goals simp only [learn, real_end]
      all_goals omega
    all_goals simp only [learn, real_end] at *
    all_goals omega

theorem remove_at_end_spec (h : Shared s making (b :: bs)) (n : ℕ) :
    Shared s making (b.remove_at_end n :: bs) ∧
      s.contents (b.remove_at_end n) = (s.contents b).take ((s.contents b).length - n) := by
  have hord := h.ordered List.mem_cons_self
  have hstart := hord.start
  have hzero := hord.zero
  have hstop := hord.stop
  have hlt := hord.lt
  have hreal : b.real_end = b.end_ - (b.zero_area_end - b.zero_area_start) := rfl
  suffices hcut : Part b (b.remove_at_end n) ∧ ∀ d, b.real_end ≤ d.bytes.length →
      contents_in d (b.remove_at_end n) = (contents_in d b).take (b.end_ - b.start - n) by
    rw [h.length_contents List.mem_cons_self]
    exact h.cut hcut.1 hcut.2
  obtain ⟨k, hk, hkeep⟩ : ∃ k, k = b.end_ - min n (b.end_ - b.start) ∧ b.end_ - b.start - n = k - b.start :=
    ⟨_, rfl, by omega⟩
  have hend : sub32 b.end_ (min n (sub32 b.end_ b.start)) = k := by
    rw [sub32_eq (b := b.start) (by omega) hlt, sub32_eq (by omega) hlt, hk]
  rw [remove_at_end, hend, hkeep]
  simp only [gt_iff_lt]
  split_ifs
  all_goals
    refine ⟨⟨rfl, ?_, ⟨?_, ?_, ?_⟩, ?_, ?_, fun _ => ?_⟩, fun d hfits => ?contents⟩
    case contents =>
      rw [take_contents_in hord hfits]
      apply parts_congr (slice_same _) _ (slice_same _)
      all_goals simp only [learn, real_end, true_and]
      all_goals omega
    all_goals simp only [learn, real_end] at *
    all_goals omega

theorem create_fragment_spec {start length : ℕ} (h : Shared s [] bs) (hb : b ∈ bs) (hfew : bs.length + 1 < 2 ^ 32)
    (hstart : b.start + start < 2 ^ 32) (hin : start < b.get_size → start + length ≤ b.get_size) :
    ∃ f s', create_fragment s b start length = some (f, s') ∧ Shared s' [] (f :: bs) ∧
      (∀ o ∈ bs, s'.contents o = s.contents o) ∧ s'.contents f = ((s.contents b).drop start).take length := by
  obtain ⟨tmp, s₁, hs₁, hshared₁, hsame₁, hself₁, htmp⟩ := copy_spec h hb hfew
  obtain ⟨f, hf, hshared, hdrop⟩ := remove_at_start_spec hshared₁ (n := start) (by rw [htmp]; exact hstart)
  obtain ⟨hshared', hself⟩ := remove_at_end_spec hshared (sub32 b.get_size (u32 (start + length)))
  refine ⟨_, s₁, ?_, hshared', hsame₁, ?_⟩
  · rw [create_fragment, hs₁]
    simp only [Option.bind_eq_bind, Option.bind_some, hf]
  · have hlength := h.length_contents hb
    have hord := h.ordered hb
    have hlt := hord.lt
    rw [← get_size_eq hord] at hlength
    have hsize : b.get_size < 2 ^ 32 := by rw [get_size_eq hord]; omega
    rw [hself, hdrop, hself₁, List.length_drop, hlength]
    by_cases hlate : start < b.get_size
    · have hle := hin hlate
      rw [u32_eq (by omega), sub32_eq hle hsize]
      congr 1
      omega
    · rw [List.drop_eq_nil_of_le (by omega), List.take_nil, List.take_nil]

/-! ## Bytes that are added -/

theorem initialize_spec {n : ℕ} (h : Shared s [] bs) (hroom : s.recommended_start + n < 2 ^ 32) (hfew : bs.length + 1 < 2 ^ 32) :
    ∃ b s', initialize_ s n = some (b, s') ∧ Shared s' [] (b :: bs) ∧ (∀ o ∈ bs, s'.contents o = s.contents o) ∧
      s'.contents b = List.replicate n 0 ∧ b.zero_area_start = b.start ∧ b.zero_area_end - b.zero_area_start = n ∧ b.end_ = b.zero_area_end ∧
      b.end_ ≤ s.recommended_start + n ∧ b.data ∉ owners [] bs := by
  have hlength : (owners [] bs).length = bs.length := by simp [owners]
  obtain ⟨a, s₁, d, hs₁, hshared, hout, hd, hcount, _, hread, hrec⟩ := create_spec (n := 0) h (by omega) (by omega)
  obtain ⟨start, hstart⟩ : ∃ start, start = min d.size s₁.recommended_start := ⟨_, rfl⟩
  have hle : start ≤ s.recommended_start := by
    rw [hstart, ← hrec]
    exact min_le_right _ _
  have hsize : start ≤ d.size := hstart ▸ min_le_left _ _
  have hstop : u32 (start + n) = start + n := u32_eq (by omega)
  have hread₂ := write_read hd { d with dirty_start := start, dirty_end := start + n }
  refine ⟨⟨a, start, start, start + n, start, start + n⟩,
    s₁.write a { d with dirty_start := start, dirty_end := start + n }, ?_, ?_, fun o ho => ?_, ?_, rfl,
    Nat.add_sub_cancel_left _ _, rfl, by simp only; omega, hout⟩
  · rw [initialize_, hs₁]
    simp only [Option.bind_eq_bind, Option.bind_some, hd, ← hstart, hstop]
  · refine hshared.adopt { d with dirty_start := start, dirty_end := start + n } (z := n) hout hd rfl hcount
      (hshared.bytes a d hd) ⟨⟨le_rfl, ?_, le_rfl, ?_⟩, le_rfl, le_rfl, ?_, fun _ => ?_, ?_⟩
    all_goals simp only [real_end]
    all_goals omega
  · have hmem : o.data ∈ owners [] bs := List.mem_append_right _ (List.mem_map_of_mem ho)
    have hne : o.data ≠ a := fun heq => hout (heq ▸ hmem)
    rw [contents_of_read ((hread₂ _).trans (if_neg hne)), contents_of_read (hread _ hmem)]
  · rw [contents_eq ((hread₂ _).trans (if_pos rfl)), contents_in, real_end, slice_self, List.nil_append,
      Nat.add_sub_cancel_left, Nat.add_sub_cancel, slice_self, List.append_nil]

theorem write_start_spec {g l : List UInt8} (h : Shared s [] (b :: bs)) (hx : x.length ≤ b.zero_area_start - b.start)
    (hothers : ∀ o ∈ bs, o.data = b.data → b.start + x.length ≤ o.start) (hl : s.contents b = g ++ l)
    (hg : g.length = x.length) :
    ∃ s', b.begin_.write s x = some s' ∧ Shared s' [] (b :: bs) ∧ (∀ o ∈ bs, s'.contents o = s.contents o) ∧
      s'.contents b = x ++ l := by
  obtain ⟨d, z, hd, hin, hlength, hfits⟩ := h.head
  have hord := hin.toOrdered
  have hstart := hord.start
  have hle := zero_area_start_le hord
  obtain ⟨s', hs', hshared, hcontents, hself, _, _⟩ := store_spec h b.start x (by omega)
    fun o ho hoa => .inr (hothers o ho hoa)
  refine ⟨s', ?_, hshared, hcontents, ?_⟩
  · have hcheck : b.begin_.check_no_zero b.begin_.current x.length = true := by
      have hzero := hord.zero
      have hstop := hord.stop
      rw [Iterator.check_no_zero_iff]
      simp only [begin_]
      omega
    rw [Iterator.write, if_pos hcheck]
    show s.store b.data (if b.start ≤ b.zero_area_start then b.start else _) x = some s'
    rw [if_pos hstart, hs']
  · have hsplit := slice_append (l := d.bytes) (Nat.le_add_right b.start x.length) (c := b.zero_area_start) (by omega)
    have hsplit' := slice_append (l := splice d.bytes b.start x) (Nat.le_add_right b.start x.length)
      (c := b.zero_area_start) (by omega)
    rw [slice_splice_self (by omega), slice_splice_of_disjoint (by omega) (.inr le_rfl)] at hsplit'
    rw [contents_eq hd, contents_in, ← hsplit, List.append_assoc, List.append_assoc] at hl
    obtain ⟨_, hrest⟩ := List.append_inj hl (by rw [length_slice (by omega), hg, Nat.add_sub_cancel_left])
    rw [hself d hd, contents_in, ← hsplit', slice_splice_of_disjoint (by omega) (.inr (by omega)), ← hrest,
      List.append_assoc, List.append_assoc]

theorem write_end_spec {g l : List UInt8} (h : Shared s [] (b :: bs)) (hx : x.length ≤ b.end_ - b.zero_area_end)
    (hothers : ∀ o ∈ bs, o.data = b.data → o.real_end + x.length ≤ b.real_end) (hl : s.contents b = l ++ g)
    (hg : g.length = x.length) :
    ∃ i s', b.stop.prev x.length = some i ∧ i.write s x = some s' ∧ Shared s' [] (b :: bs) ∧
      (∀ o ∈ bs, s'.contents o = s.contents o) ∧ s'.contents b = l ++ x := by
  obtain ⟨d, z, hd, hin, hlength, hfits⟩ := h.head
  have hord := hin.toOrdered
  have hstart := hord.start
  have hzero := hord.zero
  have hstop := hord.stop
  have hlt := hord.lt
  have hreal : b.real_end = b.end_ - (b.zero_area_end - b.zero_area_start) := rfl
  obtain ⟨s', hs', hshared, hcontents, hself, _, _⟩ := store_spec h (b.real_end - x.length) x (by omega)
    fun o ho hoa => .inl (by have hle := hothers o ho hoa; omega)
  refine ⟨{ b.stop with current := b.end_ - x.length }, s', ?_, ?_, hshared, hcontents, ?_⟩
  · rw [Iterator.prev]
    show (if b.end_ ≥ x.length then some { b.stop with current := b.end_ - x.length } else none) = _
    rw [if_pos (by omega)]
  · have hcheck : ({ b.stop with current := b.end_ - x.length } : Iterator).check_no_zero (b.end_ - x.length) x.length = true := by
      rw [Iterator.check_no_zero_iff]
      simp only [stop]
      omega
    have hoffset : (if b.end_ - x.length ≤ b.zero_area_start then b.end_ - x.length
        else sub32 (b.end_ - x.length) (sub32 b.zero_area_end b.zero_area_start)) = b.real_end - x.length := by
      rw [sub32_eq hzero (by omega), sub32_eq (by omega) (by omega)]
      split <;> omega
    rw [Iterator.write, if_pos hcheck]
    show s.store b.data (if b.end_ - x.length ≤ b.zero_area_start then b.end_ - x.length
      else sub32 (b.end_ - x.length) (sub32 b.zero_area_end b.zero_area_start)) x = some s'
    rw [hoffset, hs']
  · have hback : b.real_end - x.length + x.length = b.real_end := by omega
    have hsplit := slice_append (l := d.bytes) (a := b.zero_area_start) (b := b.real_end - x.length) (c := b.real_end)
      (by omega) (Nat.sub_le _ _)
    have hsplit' := slice_append (l := splice d.bytes (b.real_end - x.length) x) (a := b.zero_area_start)
      (b := b.real_end - x.length) (c := b.real_end) (by omega) (Nat.sub_le _ _)
    have hself' := slice_splice_self (l := d.bytes) (a := b.real_end - x.length) (m := x) (by omega)
    rw [hback] at hself'
    rw [hself', slice_splice_of_disjoint (by omega) (.inl le_rfl)] at hsplit'
    rw [contents_eq hd, contents_in, ← hsplit, ← List.append_assoc] at hl
    obtain ⟨hfirst, _⟩ := List.append_inj' hl (by rw [length_slice hfits, hg]; omega)
    rw [hself d hd, contents_in, ← hsplit', slice_splice_of_disjoint (by omega) (.inl (by omega)), ← hfirst,
      ← List.append_assoc]

theorem prepend_spec (h : Shared s [] (b :: bs)) (hroom : b.end_ - b.start + x.length + 119 < 2 ^ 32)
    (hfew : bs.length + 2 < 2 ^ 32) :
    ∃ b' s₁ s', b.add_at_start s x.length = some (b', s₁) ∧ b'.begin_.write s₁ x = some s' ∧ Shared s' [] (b' :: bs) ∧
      (∀ o ∈ bs, s'.contents o = s.contents o) ∧ s'.contents b' = x ++ s.contents b ∧ Stretched b b' x.length 0 ∧
      b'.end_ ≤ max b.end_ (b.end_ - b.start + x.length) ∧ (b'.data = b.data ∨ b'.data ∉ owners [] bs) := by
  obtain ⟨b', s₁, g, hs₁, hshared₁, hsame₁, hg, hself₁, hstretched, hbefore, hle, _, hdata⟩ :=
    add_at_start_spec h hroom (by simpa [owners] using hfew)
  obtain ⟨s', hs', hshared, hsame, hself⟩ :=
    write_start_spec hshared₁ (by have hfront := hstretched.front; omega) hbefore hself₁ hg
  exact ⟨b', s₁, s', hs₁, hs', hshared, fun o ho => (hsame o ho).trans (hsame₁ o ho), hself, hstretched, hle, hdata⟩

theorem extend_spec (h : Shared s [] (b :: bs)) (hroom : b.end_ + x.length + 119 < 2 ^ 32) (hfew : bs.length + 2 < 2 ^ 32) :
    ∃ b' s₁ i s', b.add_at_end s x.length = some (b', s₁) ∧ b'.stop.prev x.length = some i ∧ i.write s₁ x = some s' ∧
      Shared s' [] (b' :: bs) ∧ (∀ o ∈ bs, s'.contents o = s.contents o) ∧ s'.contents b' = s.contents b ++ x ∧
      Stretched b b' 0 x.length ∧ b'.end_ ≤ b.end_ + x.length ∧ (b'.data = b.data ∨ b'.data ∉ owners [] bs) := by
  obtain ⟨b', s₁, g, hs₁, hshared₁, hsame₁, hg, hself₁, hstretched, hbehind, hle, _, hdata, _⟩ :=
    add_at_end_spec h hroom (by simpa [owners] using hfew)
  obtain ⟨i, s', hi, hs', hshared, hsame, hself⟩ :=
    write_end_spec hshared₁ (by have hback := hstretched.back; omega) hbehind hself₁ hg
  exact ⟨b', s₁, i, s', hs₁, hi, hs', hshared, fun o ho => (hsame o ho).trans (hsame₁ o ho), hself, hstretched, hle, hdata⟩

/-! ## The start -/

/-- The memory at the start of the program. -/
def initial : Memory := ⟨[], [], 0, 0, fun _ _ => 0⟩

theorem shared_initial {f : ℕ → ℕ → UInt8} : Shared { initial with garbage := f } [] [] := by
  refine ⟨fun a d h => ?_, fun a d h => ?_, fun a h => ?_, fun a d h => ?_, ⟨List.nodup_nil, fun a h => ?_⟩, by decide⟩
  all_goals cases h

/-! ## Programs -/

theorem Shared.read_eq (h : Shared s making bs) (hb : b ∈ bs) : Buffer.read s b = some (s.contents b) := by
  obtain ⟨d, hd⟩ := h.read hb
  obtain ⟨z, hz⟩ := h.within b.data d hd
  have hin := hz b hb rfl
  have hord := hin.toOrdered
  have hstart := hord.start
  have hzero := hord.zero
  have hstop := hord.stop
  have hlt := hord.lt
  have hfits : b.real_end ≤ d.bytes.length := (h.bytes _ d hd).1 ▸ hin.fits
  have hlength := length_contents_in hord hfits
  have hpeek : ∀ k < b.end_ - b.start, ({ b.begin_ with current := b.start + k } : Iterator).peek_u8 s = (contents_in d b)[k]? := by
    intro k hk
    have hreal : b.real_end = b.end_ - (b.zero_area_end - b.zero_area_start) := rfl
    show ((s.read b.data).bind fun d => if b.start + k ≥ b.start ∧ b.start + k < b.end_ then
      if b.start + k < b.zero_area_start then d.bytes[b.start + k]?
      else if b.start + k < b.zero_area_end then some 0
      else d.bytes[sub32 (b.start + k) (sub32 b.zero_area_end b.zero_area_start)]?
      else none) = _
    rw [hd, Option.bind_some, if_pos (by omega), sub32_eq hzero (by omega), contents_in, List.append_assoc]
    by_cases hfirst : b.start + k < b.zero_area_start
    · rw [if_pos hfirst, List.getElem?_append_left (by rw [length_slice (by omega)]; omega), getElem?_slice, if_pos hfirst]
    rw [if_neg hfirst, List.getElem?_append_right (by rw [length_slice (by omega)]; omega), length_slice (by omega)]
    by_cases hzeros : b.start + k < b.zero_area_end
    · rw [if_pos hzeros, List.getElem?_append_left (by rw [List.length_replicate]; omega),
        List.getElem?_replicate_of_lt (by omega)]
    · rw [if_neg hzeros, List.getElem?_append_right (by rw [List.length_replicate]; omega), List.length_replicate,
        getElem?_slice, if_pos (by omega), sub32_eq (by omega) (by omega)]
      congr 1
      omega
  have hrest : ∀ m k, k + m = b.end_ - b.start →
      ({ b.begin_ with current := b.start + k } : Iterator).read s m = some ((contents_in d b).drop k) := by
    intro m
    induction m with
    | zero =>
      intro k hk
      rw [Iterator.read, List.drop_eq_nil_of_le (by omega)]
    | succ m ih =>
      intro k hk
      have hrest := ih (k + 1) (by omega)
      rw [Iterator.read, hpeek k (by omega), List.getElem?_eq_getElem (by omega)]
      simp only [Option.bind_eq_bind, Option.bind_some, u32_eq (show b.start + k + 1 < 2 ^ 32 by omega)]
      rw [Nat.add_assoc, hrest, Option.bind_some, ← List.drop_eq_getElem_cons]
  rw [Buffer.read, get_size, sub32_eq (by omega) hlt, contents_eq hd]
  exact hrest (b.end_ - b.start) 0 (Nat.zero_add _)

end Ns3.Memory

namespace Ns3.Buffer

open Memory

/-- What a program does with its variables, the last one declared being number 0. -/
inductive Command where
  | construct (zero_size : ℕ)
  | copy (i : ℕ)
  | assign (i j : ℕ)
  | add_at_start (i : ℕ) (bytes : List UInt8)
  | add_at_end (i : ℕ) (bytes : List UInt8)
  | remove_at_start (i start : ℕ)
  | remove_at_end (i end_ : ℕ)
  | create_fragment (i start length : ℕ)
  | destroy (i : ℕ)

/-- The variables and their storages. -/
structure Program where
  memory : Memory
  buffers : List Buffer

namespace Program

def declare (p : Program) (r : Buffer × Memory) : Program := ⟨r.2, r.1 :: p.buffers⟩

def update (p : Program) (i : ℕ) (r : Buffer × Memory) : Program := ⟨r.2, p.buffers.set i r.1⟩

/-- `none` is a failing assertion. -/
def step (p : Program) : Command → Option Program
  | .construct zero_size => (initialize_ p.memory zero_size).map p.declare
  | .copy i => do (Buffer.copy p.memory (← p.buffers[i]?)).map p.declare
  | .assign i j => do (Buffer.assign p.memory (← p.buffers[i]?) (← p.buffers[j]?)).map (p.update i)
  | .add_at_start i bytes => do
    let (b, s) ← Buffer.add_at_start p.memory (← p.buffers[i]?) bytes.length
    some (p.update i (b, ← b.begin_.write s bytes))
  | .add_at_end i bytes => do
    let (b, s) ← Buffer.add_at_end p.memory (← p.buffers[i]?) bytes.length
    some (p.update i (b, ← (← b.stop.prev bytes.length).write s bytes))
  | .remove_at_start i start => do
    let b ← (← p.buffers[i]?).remove_at_start start
    some (p.update i (b, p.memory))
  | .remove_at_end i end_ => do some (p.update i ((← p.buffers[i]?).remove_at_end end_, p.memory))
  | .create_fragment i start length => do
    (Buffer.create_fragment p.memory (← p.buffers[i]?) start length).map p.declare
  | .destroy i => do some ⟨← Buffer.destroy p.memory (← p.buffers[i]?), p.buffers.eraseIdx i⟩

/-- The same with strings of bytes for variables. -/
def strings_step (l : List (List UInt8)) : Command → Option (List (List UInt8))
  | .construct zero_size => some (List.replicate zero_size 0 :: l)
  | .copy i => do some ((← l[i]?) :: l)
  | .assign i j => do
    let _ ← l[i]?
    some (l.set i (← l[j]?))
  | .add_at_start i bytes => do some (l.set i (bytes ++ (← l[i]?)))
  | .add_at_end i bytes => do some (l.set i ((← l[i]?) ++ bytes))
  | .remove_at_start i start => do some (l.set i ((← l[i]?).drop start))
  | .remove_at_end i end_ => do
    let x ← l[i]?
    some (l.set i (x.take (x.length - end_)))
  | .create_fragment i start length => do some (((← l[i]?).drop start).take length :: l)
  | .destroy i => do
    let _ ← l[i]?
    some (l.eraseIdx i)

/-- The variable exists, the sizes stay within 32 bits, and a fragment ends in its buffer or starts behind it. -/
def fits (p : Program) : Command → Bool
  | .construct zero_size => p.memory.recommended_start + zero_size < 2 ^ 32
  | .copy i | .remove_at_end i _ | .destroy i => i < p.buffers.length
  | .assign i j => i < p.buffers.length ∧ j < p.buffers.length
  | .add_at_start i bytes => p.buffers[i]?.any fun b => b.end_ - b.start + bytes.length + 119 < 2 ^ 32
  | .add_at_end i bytes => p.buffers[i]?.any fun b => b.end_ + bytes.length + 119 < 2 ^ 32
  | .remove_at_start i start => p.buffers[i]?.any fun b => b.start + start < 2 ^ 32
  | .create_fragment i start length => p.buffers[i]?.any fun b =>
    b.start + start < 2 ^ 32 ∧ (start < b.get_size → start + length ≤ b.get_size)

variable {p : Program} {i : ℕ} {b b' : Buffer} {s' : Memory} {c : Command}

def strings (p : Program) : List (List UInt8) := p.buffers.map p.memory.contents

theorem pick (h : Shared p.memory [] p.buffers) (hb : p.buffers[i]? = some b) :
    Shared p.memory [] (b :: p.buffers.eraseIdx i) ∧ p.strings[i]? = some (p.memory.contents b) := by
  obtain ⟨hi, rfl⟩ := List.getElem?_eq_some_iff.mp hb
  refine ⟨h.perm (List.getElem_cons_eraseIdx_perm hi).symm, ?_⟩
  rw [strings, List.getElem?_map, hb, Option.map_some]

theorem declares (hshared : Shared s' [] (b' :: p.buffers)) (hsame : ∀ o ∈ p.buffers, s'.contents o = p.memory.contents o)
    (hstep : p.step c = some (p.declare (b', s'))) (hstrings : strings_step p.strings c = some (s'.contents b' :: p.strings)) :
    ∃ p', p.step c = some p' ∧ Shared p'.memory [] p'.buffers ∧ strings_step p.strings c = some p'.strings := by
  refine ⟨_, hstep, hshared, ?_⟩
  rw [hstrings, declare, strings, strings, List.map_cons, List.map_congr_left hsame]

theorem updates (hb : p.buffers[i]? = some b) (hshared : Shared s' [] (b' :: p.buffers.eraseIdx i))
    (hsame : ∀ o ∈ p.buffers.eraseIdx i, s'.contents o = p.memory.contents o) (hstep : p.step c = some (p.update i (b', s')))
    (hstrings : strings_step p.strings c = some (p.strings.set i (s'.contents b'))) :
    ∃ p', p.step c = some p' ∧ Shared p'.memory [] p'.buffers ∧ strings_step p.strings c = some p'.strings := by
  obtain ⟨hi, -⟩ := List.getElem?_eq_some_iff.mp hb
  refine ⟨_, hstep, hshared.perm (List.set_perm_cons_eraseIdx hi b').symm, ?_⟩
  rw [List.eraseIdx_eq_take_drop_succ] at hsame
  have hmap := List.map_congr_left hsame
  rw [List.map_append, List.map_append] at hmap
  obtain ⟨hfirst, hlast⟩ := List.append_inj hmap (by simp)
  rw [hstrings]
  simp only [strings, update, List.set_eq_take_append_cons_drop, if_pos hi, List.length_map, List.map_append, List.map_cons,
    hfirst, hlast, List.map_take, List.map_drop]

theorem step_spec (h : Shared p.memory [] p.buffers) (hfew : p.buffers.length + 3 < 2 ^ 32) (hfits : p.fits c = true) :
    ∃ p', p.step c = some p' ∧ Shared p'.memory [] p'.buffers ∧ strings_step p.strings c = some p'.strings := by
  have hrest : ∀ {i b}, p.buffers[i]? = some b → (p.buffers.eraseIdx i).length + 1 = p.buffers.length := fun hb => by
    obtain ⟨hi, -⟩ := List.getElem?_eq_some_iff.mp hb
    rw [List.length_eraseIdx_of_lt hi]
    omega
  cases c with
  | construct zero_size =>
    obtain ⟨b, s', hs', hshared, hsame, hself, _⟩ := initialize_spec h (of_decide_eq_true hfits) (by omega)
    exact declares hshared hsame (by rw [step, hs', Option.map_some]) (by rw [strings_step, hself])
  | copy i =>
    have hb := List.getElem?_eq_getElem (of_decide_eq_true hfits)
    obtain ⟨b', s', hs', hshared, hsame, hself, _⟩ := copy_spec h (List.mem_of_getElem? hb) (by omega)
    exact declares hshared hsame (by simp [step, hb, hs']) (by simp [strings_step, (pick h hb).2, hself])
  | assign i j =>
    obtain ⟨hi, hj⟩ := of_decide_eq_true hfits
    have hb := List.getElem?_eq_getElem hi
    have ho := List.getElem?_eq_getElem hj
    obtain ⟨hpick, hget⟩ := pick h hb
    have hmem : p.buffers[j] ∈ p.buffers[i] :: p.buffers.eraseIdx i :=
      (List.getElem_cons_eraseIdx_perm hi).mem_iff.mpr (List.getElem_mem hj)
    obtain ⟨s', hs', hshared, hsame, hself⟩ := assign_spec hpick hmem
    exact updates hb hshared hsame (by simp [step, hb, ho, hs']) (by simp [strings_step, hget, (pick h ho).2, hself])
  | add_at_start i bytes =>
    obtain ⟨b, hb, hroom⟩ := Option.any_eq_true .. |>.mp hfits
    obtain ⟨hpick, hget⟩ := pick h hb
    obtain ⟨b', s₁, s', hs₁, hs', hshared, hsame, hself, _⟩ :=
      prepend_spec hpick (of_decide_eq_true hroom) (by have := hrest hb; omega)
    exact updates hb hshared hsame (by simp [step, hb, hs₁, hs']) (by simp [strings_step, hget, hself])
  | add_at_end i bytes =>
    obtain ⟨b, hb, hroom⟩ := Option.any_eq_true .. |>.mp hfits
    obtain ⟨hpick, hget⟩ := pick h hb
    obtain ⟨b', s₁, at_, s', hs₁, hat, hs', hshared, hsame, hself, _⟩ :=
      extend_spec hpick (of_decide_eq_true hroom) (by have := hrest hb; omega)
    exact updates hb hshared hsame (by simp [step, hb, hs₁, hat, hs']) (by simp [strings_step, hget, hself])
  | remove_at_start i start =>
    obtain ⟨b, hb, hroom⟩ := Option.any_eq_true .. |>.mp hfits
    obtain ⟨hpick, hget⟩ := pick h hb
    obtain ⟨b', hb', hshared, hself⟩ := remove_at_start_spec hpick (of_decide_eq_true hroom)
    exact updates hb hshared (fun _ _ => rfl) (by simp [step, hb, hb']) (by simp [strings_step, hget, hself])
  | remove_at_end i end_ =>
    have hb := List.getElem?_eq_getElem (of_decide_eq_true hfits)
    obtain ⟨hpick, hget⟩ := pick h hb
    obtain ⟨hshared, hself⟩ := remove_at_end_spec hpick end_
    exact updates hb hshared (fun _ _ => rfl) (by simp [step, hb]) (by simp [strings_step, hget, hself])
  | create_fragment i start length =>
    obtain ⟨b, hb, hfits⟩ := Option.any_eq_true .. |>.mp hfits
    obtain ⟨hstart, hin⟩ := of_decide_eq_true hfits
    obtain ⟨b', s', hs', hshared, hsame, hself⟩ := create_fragment_spec h (List.mem_of_getElem? hb) (by omega) hstart hin
    exact declares hshared hsame (by simp [step, hb, hs']) (by simp [strings_step, (pick h hb).2, hself])
  | destroy i =>
    have hi : i < p.buffers.length := of_decide_eq_true hfits
    have hb := List.getElem?_eq_getElem hi
    obtain ⟨hpick, hget⟩ := pick h hb
    obtain ⟨s', hs', hshared, hsame⟩ := destroy_spec hpick
    refine ⟨⟨s', p.buffers.eraseIdx i⟩, by simp [step, hb, hs'], hshared, ?_⟩
    rw [strings_step, hget, Option.bind_eq_bind, Option.bind_some, strings, strings, List.map_congr_left hsame,
      List.eraseIdx_map]

end Program

/-- A program, and the same program over strings. -/
structure Execution where
  program : Program
  strings : List (List UInt8)

namespace Execution

open Transition

def step (x : Execution) (c : Command) : Option Execution := do some ⟨← x.program.step c, ← Program.strings_step x.strings c⟩

/-- No variable yet; `garbage` is what new storages hold. -/
def Starts (garbage : ℕ → ℕ → UInt8) (x : Execution) : Prop := x = ⟨⟨{ Memory.initial with garbage }, []⟩, []⟩

/-- There are fewer variables than `m_count` can tell, and the command fits. -/
def Admits (x : Execution) (c : Command) : Prop := x.program.buffers.length + 3 < 2 ^ 32 ∧ x.program.fits c = true

instance (x : Execution) (c : Command) : Decidable (Admits x c) := inferInstanceAs (Decidable (_ ∧ _))

/-- Every variable reads as its string, its offsets are in order, and no assertion fails. -/
structure Independent (x : Execution) : Prop where
  reads : x.program.buffers.map (Buffer.read x.program.memory) = x.strings.map some
  ordered : ∀ b ∈ x.program.buffers, Ordered b
  runs : ∀ c, Admits x c → (x.step c).isSome

variable {garbage : ℕ → ℕ → UInt8} {x x' : Execution} {c : Command}

theorem step_eq (hshared : Shared x.program.memory [] x.program.buffers) (hstrings : x.strings = x.program.strings)
    (hadmits : Admits x c) :
    ∃ x', x.step c = some x' ∧ Shared x'.program.memory [] x'.program.buffers ∧ x'.strings = x'.program.strings := by
  obtain ⟨p, hp, hshared', hl⟩ := Program.step_spec hshared hadmits.1 hadmits.2
  exact ⟨⟨p, p.strings⟩, by rw [step, hp, hstrings, hl]; rfl, hshared', rfl⟩

/-- Variables that share storages never see each other's operations. -/
theorem copy_on_write (hreach : Reachable (Starts garbage) step Admits x) : Independent x := by
  have hinv : Shared x.program.memory [] x.program.buffers ∧ x.strings = x.program.strings := by
    refine hreach.invariant (I := fun x => Shared x.program.memory [] x.program.buffers ∧ x.strings = x.program.strings) ?_
      fun x c x' h hadmits hstep => ?_
    · rintro x rfl
      exact ⟨shared_initial, rfl⟩
    · obtain ⟨x'', hstep', h'⟩ := step_eq h.1 h.2 hadmits
      rwa [Option.some.inj (hstep.symm.trans hstep')]
  obtain ⟨hshared, hstrings⟩ := hinv
  refine ⟨?_, fun b hb => hshared.ordered hb, fun c hadmits => ?_⟩
  · rw [hstrings, Program.strings, List.map_map]
    apply List.map_congr_left
    intro b hb
    exact hshared.read_eq hb
  · obtain ⟨x', hstep, _⟩ := step_eq hshared hstrings hadmits
    rw [hstep]
    rfl

/-- Copies and fragments of one buffer that all grow. -/
theorem copy_on_write_sample : ∃ x, Reachable (Starts fun _ _ => 255) step Admits x ∧
    x.strings = [[0, 0, 5, 6], [3, 1, 2, 0, 0, 0], [1, 2, 0, 0, 0, 4]] ∧ Independent x := by
  have hrun : (execute step Admits ⟨⟨{ Memory.initial with garbage := fun _ _ => 255 }, []⟩, []⟩
      [.construct 3, .add_at_start 0 [1, 2], .copy 0, .add_at_end 1 [4], .add_at_start 0 [3], .create_fragment 1 3 2,
        .add_at_end 0 [5, 6], .copy 1, .remove_at_start 0 4, .assign 0 1, .destroy 0]).map (·.strings) =
      some [[0, 0, 5, 6], [3, 1, 2, 0, 0, 0], [1, 2, 0, 0, 0, 4]] := by decide +kernel
  obtain ⟨x, hx, hstrings⟩ := Option.map_eq_some_iff.mp hrun
  have hreach := (Reachable.init (show Starts _ _ from rfl)).execute hx
  exact ⟨x, hreach, hstrings, copy_on_write hreach⟩

end Execution

end Ns3.Buffer
