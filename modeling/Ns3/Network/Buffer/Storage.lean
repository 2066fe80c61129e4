import Ns3.Network.Buffer

/-! Which buffers have a storage, and which of its bytes each of them sees. -/

namespace Ns3

open Slice

theorem u32_eq {n : ℕ} (h : n < 2 ^ 32) : u32 n = n := by rw [u32, Nat.mod_eq_of_lt h]

theorem sub32_eq {a b : ℕ} (hle : b ≤ a) (ha : a < 2 ^ 32) : sub32 a b = a - b := by
  rw [sub32, u32]
  omega

namespace Buffer

/-- The end of the bytes of a buffer in its storage. -/
def real_end (b : Buffer) : ℕ := b.end_ - (b.zero_area_end - b.zero_area_start)

/-- The order of the offsets. -/
structure Ordered (b : Buffer) : Prop where
  start : b.start ≤ b.zero_area_start
  zero : b.zero_area_start ≤ b.zero_area_end
  stop : b.zero_area_end ≤ b.end_
  lt : b.end_ < 2 ^ 32

/-- The offsets of a buffer in a storage whose dirty area ends after a zero area of `z` bytes. The buffers
that reach the end of the dirty area have a zero area of that size: each of the others has been cut
and will copy the storage before it grows. -/
structure Within (d : Data) (z : ℕ) (b : Buffer) : Prop extends Ordered b where
  dirty_start : d.dirty_start ≤ b.start
  dirty_end : b.end_ ≤ d.dirty_end
  real : b.real_end + z ≤ d.dirty_end
  last : b.end_ = d.dirty_end → b.zero_area_end - b.zero_area_start = z
  fits : b.real_end ≤ d.size

theorem Iterator.check_no_zero_iff {i : Iterator} {n stop : ℕ} : i.check_no_zero n stop = true ↔
    i.data_start ≤ n ∧ stop ≤ i.data_end ∧
      ¬ (i.zero_start < stop ∧ n < i.zero_end ∧ i.zero_end ≠ i.zero_start ∧ n ≠ stop) := by
  simp only [Iterator.check_no_zero, Bool.not_eq_true', Bool.or_eq_false_iff, decide_eq_false_iff_not, not_lt, gt_iff_lt,
    and_assoc]
  simp

def contents_in (d : Data) (b : Buffer) : List UInt8 :=
  slice d.bytes b.start b.zero_area_start ++ List.replicate (b.zero_area_end - b.zero_area_start) 0 ++
    slice d.bytes b.zero_area_start b.real_end

end Buffer

namespace Memory

open Buffer

def contents (s : Memory) (b : Buffer) : List UInt8 := ((s.read b.data).map fun d => contents_in d b).getD []

/-- The storages that something has: a buffer, or an operation that is making one. -/
def owners (making : List ℕ) (bs : List Buffer) : List ℕ := making ++ bs.map Buffer.data

/-- The buffers that there are, and the storages of those that are being made. -/
structure Shared (s : Memory) (making : List ℕ) (bs : List Buffer) : Prop where
  count : ∀ a d, s.read a = some d → d.count = (owners making bs).count a
  bytes : ∀ a d, s.read a = some d → d.bytes.length = d.size ∧ d.size < 2 ^ 32
  live : ∀ a ∈ owners making bs, ∃ d, s.read a = some d
  within : ∀ a d, s.read a = some d → ∃ z, ∀ b ∈ bs, b.data = a → Within d z b
  free : s.free_list.Nodup ∧ ∀ a ∈ s.free_list, ∃ d, s.read a = some d ∧ d.count = 0
  few : (owners making bs).length < 2 ^ 32

variable {s s' : Memory} {a c n : ℕ} {d d' : Data} {b b' o : Buffer} {bs bs' : List Buffer} {making : List ℕ}

theorem read_lt (h : s.read a = some d) : a < s.heap.length := SharedList.read_lt h

theorem write_read (h : s.read a = some d) (d' : Data) (c : ℕ) :
    (s.write a d').read c = if c = a then some d' else s.read c := SharedList.read_set (read_lt h) _

theorem contents_eq (h : s.read b.data = some d) : s.contents b = contents_in d b := by rw [contents, h]; rfl

theorem contents_in_count (k : ℕ) : contents_in { d with count := k } b = contents_in d b := rfl

theorem contents_in_congr (hord : Ordered b) (h : ∀ i, b.start ≤ i → i < b.real_end → d'.bytes[i]? = d.bytes[i]?) :
    contents_in d' b = contents_in d b := by
  have hstart := hord.start
  have hzero := hord.zero
  have hstop := hord.stop
  rw [contents_in, contents_in, slice_congr (l := d.bytes) fun i hlo hhi => h i hlo ?_,
    slice_congr (l := d.bytes) fun i hlo hhi => h i (by omega) hhi]
  rw [real_end]
  omega

theorem contents_of_read (h : s'.read b.data = s.read b.data) : s'.contents b = s.contents b := by
  rw [contents, contents, h]

theorem length_contents_in (hord : Ordered b) (hfits : b.real_end ≤ d.bytes.length) :
    (contents_in d b).length = b.end_ - b.start := by
  have hstart := hord.start
  have hzero := hord.zero
  have hstop := hord.stop
  rw [real_end] at hfits
  rw [contents_in, List.length_append, List.length_append, List.length_replicate, length_slice (by omega), real_end,
    length_slice (by omega)]
  omega

theorem Shared.perm (h : Shared s making bs) (hperm : bs.Perm bs') : Shared s making bs' := by
  have howners : (owners making bs).Perm (owners making bs') := (hperm.map _).append_left making
  refine ⟨fun a d ha => (h.count a d ha).trans (howners.count_eq a), h.bytes, fun a ha => h.live a (howners.mem_iff.mpr ha),
    fun a d ha => ?_, h.free, howners.length_eq ▸ h.few⟩
  obtain ⟨z, hz⟩ := h.within a d ha
  exact ⟨z, fun b hb => hz b (hperm.mem_iff.mpr hb)⟩

theorem Shared.read (h : Shared s making bs) (hb : b ∈ bs) : ∃ d, s.read b.data = some d :=
  h.live b.data (List.mem_append_right _ (List.mem_map_of_mem hb))

theorem Shared.ordered (h : Shared s making bs) (hb : b ∈ bs) : Ordered b := by
  obtain ⟨d, hd⟩ := h.read hb
  obtain ⟨z, hz⟩ := h.within b.data d hd
  exact (hz b hb rfl).toOrdered

theorem Shared.length_contents (h : Shared s making bs) (hb : b ∈ bs) : (s.contents b).length = b.end_ - b.start := by
  obtain ⟨d, hd⟩ := h.read hb
  obtain ⟨z, hz⟩ := h.within b.data d hd
  have hin := hz b hb rfl
  rw [contents_eq hd]
  exact length_contents_in hin.toOrdered ((h.bytes _ d hd).1 ▸ hin.fits)

theorem Shared.free_not_owned (h : Shared s making bs) (ha : a ∈ s.free_list) : a ∉ owners making bs := by
  obtain ⟨d, hd, hzero⟩ := h.free.2 a ha
  rw [h.count a d hd] at hzero
  exact List.count_eq_zero.mp hzero

theorem Shared.change (h : Shared s making bs) {v : Option Data} {making' : List ℕ}
    (hread : ∀ c, s'.read c = if c = a then v else s.read c)
    (hothers : ∀ c, c ≠ a → (owners making' bs').count c = (owners making bs).count c)
    (hsame : ∀ b ∈ bs', b.data ≠ a → b ∈ bs)
    (hnone : v = none → a ∉ owners making' bs')
    (hsome : ∀ d, v = some d → d.count = (owners making' bs').count a ∧ (d.bytes.length = d.size ∧ d.size < 2 ^ 32) ∧
      ∃ z, ∀ b ∈ bs', b.data = a → Within d z b)
    (hfree : s'.free_list.Nodup ∧ ∀ c ∈ s'.free_list, c ≠ a → c ∈ s.free_list)
    (hfreed : a ∈ s'.free_list → ∃ d, v = some d ∧ d.count = 0)
    (hfew : (owners making' bs').length < 2 ^ 32) : Shared s' making' bs' := by
  refine ⟨fun c d hc => ?_, fun c d hc => ?_, fun c hc => ?_, fun c d hc => ?_, ⟨hfree.1, fun c hc => ?_⟩, hfew⟩
  · rw [hread] at hc
    split at hc
    next heq => exact heq ▸ (hsome d hc).1
    next hne => exact (h.count c d hc).trans (hothers c hne).symm
  · rw [hread] at hc
    split at hc
    next => exact (hsome d hc).2.1
    next => exact h.bytes c d hc
  · rw [hread]
    split
    next heq =>
      subst heq
      cases hv : v with
      | none => exact absurd hc (hnone hv)
      | some d => exact ⟨d, rfl⟩
    next hne =>
      apply h.live c
      rw [← List.count_pos_iff, ← hothers c hne]
      exact List.count_pos_iff.mpr hc
  · rw [hread] at hc
    split at hc
    next heq => exact heq ▸ (hsome d hc).2.2
    next hne =>
      obtain ⟨z, hz⟩ := h.within c d hc
      exact ⟨z, fun b hb hbc => hz b (hsame b hb (hbc ▸ hne)) hbc⟩
  · rw [hread]
    split
    next heq => exact hfreed (heq ▸ hc)
    next hne => exact h.free.2 c (hfree.2 c hc hne)

/-- One buffer of a storage changes with it; the others still fit. -/
theorem Shared.update (h : Shared s making (b :: bs)) (hd : s.read b.data = some d) (hdata : b'.data = b.data)
    (hcount : d'.count = d.count) (hbytes : d'.bytes.length = d'.size ∧ d'.size < 2 ^ 32)
    (hin : ∃ z, Within d' z b' ∧ ∀ o ∈ bs, o.data = b.data → Within d' z o) :
    Shared (s.write b.data d') making (b' :: bs) := by
  have howners : owners making (b' :: bs) = owners making (b :: bs) := by simp [owners, hdata]
  have howned : b.data ∈ owners making (b' :: bs) := by simp [owners, hdata]
  apply h.change (write_read hd d')
  · exact fun c _ => by rw [howners]
  · intro o ho hne
    rcases List.mem_cons.mp ho with rfl | ho
    · exact absurd hdata hne
    · exact List.mem_cons_of_mem b ho
  · simp
  · intro e he
    cases he
    obtain ⟨z, hz, hothers⟩ := hin
    refine ⟨by rw [hcount, howners]; exact h.count _ d hd, hbytes, z, fun o ho hoa => ?_⟩
    rcases List.mem_cons.mp ho with rfl | ho
    · exact hz
    · exact hothers o ho hoa
  · exact ⟨h.free.1, fun c hc _ => hc⟩
  · exact fun hfree => absurd (howners ▸ howned) (h.free_not_owned hfree)
  · exact howners ▸ h.few

theorem Shared.forget {rest : List ℕ} (h : Shared s making bs) (ha : a ∈ s.free_list) (hrest : rest.Nodup ∧ a ∉ rest)
    (hsub : ∀ c ∈ rest, c ∈ s.free_list) : Shared { s.deallocate a with free_list := rest } making bs := by
  obtain ⟨d, hd, _⟩ := h.free.2 a ha
  apply h.change (a := a) (v := none)
  · exact fun c => SharedList.read_set (read_lt hd) none
  · simp
  · exact fun b hb _ => hb
  · exact fun _ => h.free_not_owned ha
  · intro d hd
    cases hd
  · exact ⟨hrest.1, fun c hc _ => hsub c hc⟩
  · exact fun hmem => absurd hmem hrest.2
  · exact h.few

theorem Shared.reuse {rest : List ℕ} (h : Shared s making bs) (ha : a ∈ s.free_list) (hrest : rest.Nodup ∧ a ∉ rest)
    (hsub : ∀ c ∈ rest, c ∈ s.free_list) (hd : s.read a = some d) (hfew : (owners making bs).length + 1 < 2 ^ 32) :
    Shared { s.write a { d with count := 1 } with free_list := rest } (a :: making) bs := by
  have hout := h.free_not_owned ha
  have hcount : (owners (a :: making) bs).count a = 1 := by
    rw [owners, List.cons_append, List.count_cons_self, ← owners, List.count_eq_zero.mpr hout]
  have hread : ∀ c, ({ s.write a { d with count := 1 } with free_list := rest } : Memory).read c =
      if c = a then some { d with count := 1 } else s.read c := write_read hd { d with count := 1 }
  apply h.change hread
  · intro c hc
    rw [owners, List.cons_append, List.count_cons_of_ne hc.symm, owners]
  · exact fun b hb _ => hb
  · simp
  · intro e he
    cases he
    refine ⟨hcount.symm, h.bytes a d hd, 0, fun b hb hba => ?_⟩
    exact absurd (List.mem_append_right making (hba ▸ List.mem_map_of_mem hb)) hout
  · exact ⟨hrest.1, fun c hc _ => hsub c hc⟩
  · exact fun hmem => absurd hmem hrest.2
  · simpa [owners] using hfew

theorem allocate_spec (h : Shared s making bs) (hn : n + 119 < 2 ^ 32) (hfew : (owners making bs).length + 1 < 2 ^ 32) :
    ∃ s' d, s.allocate n = some (s.heap.length, s') ∧ Shared s' (s.heap.length :: making) bs ∧
      s'.read s.heap.length = some d ∧ d.count = 1 ∧ n ≤ d.size ∧
      (∀ c, c ≠ s.heap.length → s'.read c = s.read c) ∧ s'.recommended_start = s.recommended_start := by
  have hout : s.heap.length ∉ owners making bs := by
    intro hmem
    obtain ⟨d, hd⟩ := h.live _ hmem
    exact (read_lt hd).false
  obtain ⟨k, hk, hkn⟩ : ∃ k, (if n = 0 then 1 else n) = k ∧ n ≤ k ∧ 1 ≤ k ∧ k + 119 < 2 ^ 32 := by
    refine ⟨_, rfl, ?_⟩
    split <;> omega
  have hreq : u32 (k + 100) = k + 100 := u32_eq (by omega)
  have hfits : u32 (k + 100 - 1 + 20) = k + 100 - 1 + 20 := u32_eq (by omega)
  let bytes := (List.range (k + 100)).map (s.garbage s.heap.length)
  let s' : Memory := { s with heap := s.heap ++ [some ⟨1, k + 100, 0, 0, bytes⟩] }
  have hread : ∀ c, s'.read c = if c = s.heap.length then some ⟨1, k + 100, 0, 0, bytes⟩ else s.read c := fun c =>
    SharedList.read_append _
  refine ⟨s', ⟨1, k + 100, 0, 0, bytes⟩, ?_, ?_, by rw [hread, if_pos rfl], rfl, by simp only; omega,
    fun c hc => by rw [hread, if_neg hc], rfl⟩
  · simp only [allocate, hk, hreq, hfits, if_true]
    rfl
  · have hcount : (owners (s.heap.length :: making) bs).count s.heap.length = 1 := by
      rw [owners, List.cons_append, List.count_cons_self, ← owners, List.count_eq_zero.mpr hout]
    apply h.change hread
    · intro c hc
      rw [owners, List.cons_append, List.count_cons_of_ne hc.symm, owners]
    · exact fun b hb _ => hb
    · simp
    · intro e he
      cases he
      refine ⟨hcount.symm, ⟨by simp [bytes], by simp only; omega⟩, 0, fun b hb hba => ?_⟩
      exact absurd (List.mem_append_right making (hba ▸ List.mem_map_of_mem hb)) hout
    · exact ⟨h.free.1, fun c hc _ => hc⟩
    · intro hmem
      obtain ⟨d, hd, _⟩ := h.free.2 _ hmem
      exact absurd (read_lt hd) (lt_irrefl _)
    · simpa [owners] using hfew

theorem create_spec (h : Shared s making bs) (hn : n + 119 < 2 ^ 32) (hfew : (owners making bs).length + 1 < 2 ^ 32) :
    ∃ a s' d, s.create n = some (a, s') ∧ Shared s' (a :: making) bs ∧ a ∉ owners making bs ∧ s'.read a = some d ∧
      d.count = 1 ∧ n ≤ d.size ∧ (∀ c ∈ owners making bs, s'.read c = s.read c) ∧
      s'.recommended_start = s.recommended_start := by
  -- the turns of the loop leave the storages that something has alone
  suffices hloop : ∀ (l : List ℕ) (s : Memory), Shared { s with free_list := l } making bs →
      ∃ a s' d, s.take_free n l = some (a, s') ∧ Shared s' (a :: making) bs ∧ a ∉ owners making bs ∧
        s'.read a = some d ∧ d.count = 1 ∧ n ≤ d.size ∧ (∀ c ∈ owners making bs, s'.read c = s.read c) ∧
        s'.recommended_start = s.recommended_start from hloop s.free_list s h
  intro l
  induction l with
  | nil =>
    intro s h
    obtain ⟨s', d, hs', hshared, hd, hcount, hsize, hread, hrec⟩ := allocate_spec h hn hfew
    have hne : ∀ c ∈ owners making bs, c ≠ s.heap.length := by
      rintro c hc rfl
      obtain ⟨d, hd⟩ := h.live _ hc
      exact (read_lt hd).false
    exact ⟨s.heap.length, s', d, hs', hshared, fun hmem => hne _ hmem rfl, hd, hcount, hsize,
      fun c hc => hread c (hne c hc), hrec⟩
  | cons a rest ih =>
    intro s h
    have ha : a ∈ ({ s with free_list := a :: rest } : Memory).free_list := List.mem_cons_self
    have hout := h.free_not_owned ha
    obtain ⟨hnodup, hfree⟩ := h.free
    obtain ⟨hnot, hrest⟩ := List.nodup_cons.mp hnodup
    obtain ⟨d, hd, hzero⟩ := hfree a ha
    have hd' : s.read a = some d := hd
    have hsub : ∀ c ∈ rest, c ∈ ({ s with free_list := a :: rest } : Memory).free_list := fun c hc =>
      List.mem_cons_of_mem a hc
    have hne : ∀ c ∈ owners making bs, c ≠ a := fun c hc heq => hout (heq ▸ hc)
    rw [take_free, hd']
    simp only [Option.bind_eq_bind, Option.bind_some]
    by_cases hlarge : d.size ≥ n
    · rw [if_pos hlarge]
      have hreuse := h.reuse ha ⟨hrest, hnot⟩ hsub hd hfew
      refine ⟨a, _, { d with count := 1 }, rfl, hreuse, hout, ?_, rfl, hlarge, fun c hc => ?_, rfl⟩
      · exact (write_read hd' _ a).trans (if_pos rfl)
      · exact (write_read hd' _ c).trans (if_neg (hne c hc))
    · rw [if_neg hlarge, if_pos hzero]
      obtain ⟨c, s', e, hs', hshared, hc, he, hcount, hsize, hread, hrec⟩ :=
        ih (s.deallocate a) (h.forget ha ⟨hrest, hnot⟩ hsub)
      refine ⟨c, s', e, hs', hshared, hc, he, hcount, hsize, fun c hc => ?_, hrec⟩
      rw [hread c hc]
      exact (SharedList.read_set (read_lt hd') none).trans (if_neg (hne c hc))

variable (d') in
theorem Shared.adopt (h : Shared s (a :: making) bs) (hout : a ∉ owners making bs)
    (hd : s.read a = some d) (hdata : b'.data = a) (hcount : d'.count = 1) (hbytes : d'.bytes.length = d'.size ∧ d'.size < 2 ^ 32) {z : ℕ}
    (hin : Within d' z b') : Shared (s.write a d') making (b' :: bs) := by
  subst hdata
  have hperm : (owners making (b' :: bs)).Perm (owners (b'.data :: making) bs) := by
    simp only [owners, List.map_cons, List.cons_append]
    exact List.perm_middle
  have hcounts : (owners making (b' :: bs)).count b'.data = 1 := by
    rw [hperm.count_eq, owners, List.cons_append, List.count_cons_self, ← owners, List.count_eq_zero.mpr hout]
  apply h.change (write_read hd d')
  · exact fun c _ => hperm.count_eq c
  · intro o ho hne
    rcases List.mem_cons.mp ho with rfl | ho
    · exact absurd rfl hne
    · exact ho
  · simp
  · intro e he
    cases he
    refine ⟨hcount.trans hcounts.symm, hbytes, z, fun o ho hoa => ?_⟩
    rcases List.mem_cons.mp ho with rfl | ho
    · exact hin
    · exact absurd (List.mem_append_right making (hoa ▸ List.mem_map_of_mem ho)) hout
  · exact ⟨h.free.1, fun c hc _ => hc⟩
  · exact fun hfree => absurd (by simp [owners]) (h.free_not_owned hfree)
  · exact hperm.length_eq ▸ h.few

theorem acquire_spec (h : Shared s making bs) (hb : b ∈ bs) (m : ℕ) (hfew : (owners making bs).length + 1 < 2 ^ 32) :
    ∃ s', s.acquire b.data = some s' ∧ Shared s' making ({ b with max_zero_area_start := m } :: bs) ∧
      (∀ o, s'.contents o = s.contents o) ∧ s'.recommended_start = s.recommended_start := by
  obtain ⟨d, hd⟩ := h.read hb
  have hcount := h.count _ d hd
  have hread := write_read hd { d with count := u32 (d.count + 1) }
  have hle : (owners making bs).count b.data ≤ (owners making bs).length := List.count_le_length
  have hcons : ∀ c, (owners making ({ b with max_zero_area_start := m } :: bs)).count c =
      (owners making bs).count c + if b.data = c then 1 else 0 := by
    intro c
    simp only [owners, List.map_cons, List.count_append, List.count_cons, beq_iff_eq]
    omega
  refine ⟨s.write b.data { d with count := u32 (d.count + 1) }, by rw [acquire, hd]; rfl, ?_, fun o => ?_, rfl⟩
  · apply h.change hread
    · intro c hc
      rw [hcons, if_neg hc.symm, Nat.add_zero]
    · intro o ho hne
      rcases List.mem_cons.mp ho with rfl | ho
      · exact absurd rfl hne
      · exact ho
    · simp
    · intro e he
      cases he
      obtain ⟨z, hz⟩ := h.within _ d hd
      refine ⟨?_, h.bytes _ d hd, z, fun o ho hoa => ?_⟩
      · show u32 (d.count + 1) = _
        rw [hcons, if_pos rfl, u32_eq (by omega), hcount]
      · rcases List.mem_cons.mp ho with rfl | ho
        · have hin := hz b hb rfl
          exact ⟨{ hin with }, hin.dirty_start, hin.dirty_end, hin.real, hin.last, hin.fits⟩
        · have hin := hz o ho hoa
          exact { hin with }
    · exact ⟨h.free.1, fun c hc _ => hc⟩
    · intro hfree
      exact absurd (List.mem_append_right making (List.mem_map_of_mem hb)) (h.free_not_owned hfree)
    · simpa [owners, Nat.add_assoc] using hfew
  · rw [contents, contents, hread]
    split
    next heq => rw [heq, hd, Option.map_some, Option.map_some, contents_in_count]
    next => rfl

/-- A buffer less. Its storage goes to the free list or to the system when nothing else has it. -/
theorem release_spec (h : Shared s making (b :: bs)) :
    ∃ s', s.release b.data = some s' ∧ Shared s' making bs ∧ (∀ o ∈ bs, s'.contents o = s.contents o) ∧
      (∀ c, c ≠ b.data → s'.read c = s.read c) ∧ s'.recommended_start = s.recommended_start := by
  obtain ⟨d, hd⟩ := h.read List.mem_cons_self
  have hcount := h.count _ d hd
  have hcons : ∀ c, (owners making (b :: bs)).count c = (owners making bs).count c + if b.data = c then 1 else 0 := by
    intro c
    simp only [owners, List.map_cons, List.count_append, List.count_cons, beq_iff_eq]
    omega
  have hle : (owners making (b :: bs)).count b.data ≤ (owners making (b :: bs)).length := List.count_le_length
  have hfew := h.few
  have hlength : (owners making (b :: bs)).length = (owners making bs).length + 1 := by simp [owners]; omega
  obtain ⟨k, hk, hpred⟩ : ∃ k, sub32 d.count 1 = k ∧ k = (owners making bs).count b.data := by
    have hself := hcons b.data
    rw [if_pos rfl] at hself
    exact ⟨_, sub32_eq (by omega) (by omega), by omega⟩
  have hread := write_read hd { d with count := k }
  have hout : k = 0 → b.data ∉ owners making bs := fun hzero => List.count_eq_zero.mp (hpred ▸ hzero)
  have hnotfree : b.data ∉ s.free_list := fun hmem => h.free_not_owned hmem (by simp [owners])
  -- what the storage is left as: with one owner less, in the free list or not, or gone
  have hleft : ∀ (s' : Memory) (v : Option Data), (∀ c, s'.read c = if c = b.data then v else s.read c) →
      (v = some { d with count := k } ∨ v = none ∧ k = 0) →
      (s'.free_list = s.free_list ∨ s'.free_list = b.data :: s.free_list ∧ v = some { d with count := k } ∧ k = 0) →
      Shared s' making bs ∧ (∀ o ∈ bs, s'.contents o = s.contents o) ∧ ∀ c, c ≠ b.data → s'.read c = s.read c := by
    intro s' v hread' hv hfree
    refine ⟨?_, fun o ho => ?_, fun c hc => (hread' c).trans (if_neg hc)⟩
    · apply h.change hread'
      · intro c hc
        rw [hcons, if_neg hc.symm, Nat.add_zero]
      · exact fun o ho _ => List.mem_cons_of_mem b ho
      · rintro rfl
        exact hout (hv.resolve_left (by simp)).2
      · rintro e rfl
        cases hv.resolve_right (by simp)
        obtain ⟨z, hz⟩ := h.within _ d hd
        exact ⟨hpred, h.bytes _ d hd, z, fun o ho hoa => { hz o (List.mem_cons_of_mem b ho) hoa with }⟩
      · obtain hfree | ⟨hfree, -, -⟩ := hfree
        all_goals rw [hfree]
        · exact ⟨h.free.1, fun c hc _ => hc⟩
        · exact ⟨List.nodup_cons.mpr ⟨hnotfree, h.free.1⟩, fun c hc hne => (List.mem_cons.mp hc).resolve_left hne⟩
      · intro hmem
        obtain hfree | ⟨-, hv, hzero⟩ := hfree
        · exact absurd (hfree ▸ hmem) hnotfree
        · exact ⟨_, hv, hzero⟩
      · omega
    · by_cases heq : o.data = b.data
      · have hmem : b.data ∈ owners making bs := heq ▸ List.mem_append_right making (List.mem_map_of_mem ho)
        have hsome := hv.resolve_right fun hnone => hout hnone.2 hmem
        rw [contents, contents, heq, hd, hread', if_pos rfl, hsome, Option.map_some, Option.map_some, contents_in_count]
      · exact contents_of_read ((hread' _).trans (if_neg heq))
  rw [release, hd, Option.bind_eq_bind, Option.bind_some]
  simp only [hk]
  by_cases hzero : k = 0
  · have hzero' : (s.write b.data { d with count := k }).read b.data = some { d with count := k } := by
      rw [hread, if_pos rfl]
    rw [if_pos hzero, recycle, hzero', Option.bind_eq_bind, Option.bind_some, if_pos hzero]
    simp only
    split
    · obtain ⟨hshared, hsame, hothers⟩ := hleft { (s.write b.data { d with count := k }).deallocate b.data with
        max_size := max s.max_size d.size } none (fun c => (SharedList.read_set (read_lt hzero') none).trans (by
          split
          next => rfl
          next hne => exact (hread c).trans (if_neg hne))) (.inr ⟨rfl, hzero⟩) (.inl rfl)
      exact ⟨_, rfl, hshared, hsame, hothers, rfl⟩
    · obtain ⟨hshared, hsame, hothers⟩ := hleft { s.write b.data { d with count := k } with
        max_size := max s.max_size d.size, free_list := b.data :: s.free_list } _ hread (.inl rfl) (.inr ⟨rfl, rfl, hzero⟩)
      exact ⟨_, rfl, hshared, hsame, hothers, rfl⟩
  · rw [if_neg hzero]
    obtain ⟨hshared, hsame, hothers⟩ := hleft _ _ hread (.inl rfl) (.inl rfl)
    exact ⟨_, rfl, hshared, hsame, hothers, rfl⟩

theorem store_spec (h : Shared s making (b :: bs)) (offset : ℕ) (bytes : List UInt8) (hend : offset + bytes.length ≤ b.real_end)
    (hothers : ∀ o ∈ bs, o.data = b.data → o.real_end ≤ offset ∨ offset + bytes.length ≤ o.start) :
    ∃ s', s.store b.data offset bytes = some s' ∧ Shared s' making (b :: bs) ∧ (∀ o ∈ bs, s'.contents o = s.contents o) ∧
      (∀ d, s.read b.data = some d → s'.contents b = contents_in { d with bytes := splice d.bytes offset bytes } b) ∧
      (∀ c, c ≠ b.data → s'.read c = s.read c) ∧ s'.recommended_start = s.recommended_start := by
  obtain ⟨d, hd⟩ := h.read List.mem_cons_self
  obtain ⟨hlength, hsize⟩ := h.bytes _ d hd
  obtain ⟨z, hz⟩ := h.within _ d hd
  have hin := hz b List.mem_cons_self rfl
  have hfits := hin.fits
  by_cases hempty : bytes.length = 0
  · have hnil := List.length_eq_zero_iff.mp hempty
    subst hnil
    refine ⟨s, rfl, h, fun _ _ => rfl, fun e he => ?_, fun _ _ => rfl, rfl⟩
    have hsame : splice e.bytes offset [] = e.bytes := by simp [splice]
    rw [contents_eq he, hsame]
  · have hread := write_read hd { d with bytes := splice d.bytes offset bytes }
    refine ⟨s.write b.data { d with bytes := splice d.bytes offset bytes }, ?_, ?_, fun o ho => ?_, fun e he => ?_,
      fun c hc => (hread c).trans (if_neg hc), rfl⟩
    · rw [store, if_neg hempty, hd]
      simp only [Option.bind_eq_bind, Option.bind_some]
      rw [if_pos (by omega)]
    · have hsplice : (splice d.bytes offset bytes).length = d.size ∧ d.size < 2 ^ 32 :=
        ⟨(length_splice (by omega)).trans hlength, hsize⟩
      refine Shared.update h hd rfl rfl hsplice ?_
      exact ⟨z, { hin with }, fun o ho hoa =>
        have hin' := hz o (List.mem_cons_of_mem b ho) hoa
        { hin' with }⟩
    · by_cases hsame : o.data = b.data
      · have ho' : (s.write b.data { d with bytes := splice d.bytes offset bytes }).read o.data =
            some { d with bytes := splice d.bytes offset bytes } := by rw [hread, if_pos hsame]
        rw [contents_eq ho', contents_eq (hsame ▸ hd)]
        apply contents_in_congr (h.ordered (List.mem_cons_of_mem b ho))
        intro i hlo hhi
        have hapart := hothers o ho hsame
        rw [getElem?_splice (by omega)]
        by_cases hi : i < offset
        · rw [if_pos hi]
        · rw [if_neg hi, if_neg (by omega)]
      · exact contents_of_read ((hread _).trans (if_neg hsame))
    · obtain rfl : e = d := Option.some.inj (he.symm.trans hd)
      exact contents_eq ((hread _).trans (if_pos rfl))

end Memory

end Ns3
