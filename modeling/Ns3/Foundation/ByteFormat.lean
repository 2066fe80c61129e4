import Mathlib

/-! Bytes that are read from a buffer, and what a reader makes of the bytes that a writer put there. -/

namespace ByteFormat

/-- A reader takes bytes off the front of a buffer, and fails at its end. -/
abbrev Reader (α : Type) := StateT (List UInt8) Option α

/-- A reader takes exactly these bytes, whatever follows them, for a value. -/
def Reads {α : Type} (r : Reader α) (bytes : List UInt8) (a : α) : Prop :=
  ∀ rest, r.run (bytes ++ rest) = some (a, rest)

variable {α β : Type} {r : Reader α} {f : α → Reader β} {bytes bytes' : List UInt8} {a : α} {b : β}

theorem Reads.pure (a : α) : Reads (Pure.pure a : Reader α) [] a := fun _ => rfl

theorem Reads.bind (h : Reads r bytes a) (h' : Reads (f a) bytes' b) : Reads (r >>= f) (bytes ++ bytes') b := by
  intro rest
  rw [List.append_assoc, StateT.run_bind, h]
  exact h' rest

theorem Reads.map (h : Reads r bytes a) (g : α → β) : Reads (r >>= fun a => Pure.pure (g a)) bytes (g a) := by
  have hbind := h.bind (f := fun a => Pure.pure (g a)) (Reads.pure (g a))
  rwa [List.append_nil] at hbind

theorem run_bind_of_run {l l' : List UInt8} (h : r.run l = some (a, l')) (f : α → Reader β) :
    (r >>= f).run l = (f a).run l' := by
  rw [StateT.run_bind, h]
  rfl

theorem bind_eq_some {l rest : List UInt8} (h : (r >>= f).run l = some (b, rest)) :
    ∃ a l', r.run l = some (a, l') ∧ (f a).run l' = some (b, rest) := by
  rw [StateT.run_bind, Option.bind_eq_bind] at h
  obtain ⟨⟨a, l'⟩, hfirst, hrest⟩ := Option.bind_eq_some_iff.mp h
  exact ⟨a, l', hfirst, hrest⟩

/-- `NS_ASSERT` in a reader. -/
def check (p : Prop) [Decidable p] : Reader Unit := fun l => if p then some ((), l) else none

/-- A lookup that may fail, in a reader. -/
def lift {γ : Type} (o : Option γ) : Reader γ := fun l => o.map fun g => (g, l)

theorem Reads.check {p : Prop} [Decidable p] (h : p) : Reads (check p) [] () := by
  intro rest
  simp [ByteFormat.check, h, StateT.run]

theorem Reads.lift {γ : Type} {o : Option γ} {g : γ} (h : o = some g) : Reads (lift o) [] g := by
  subst h
  exact fun _ => rfl

def read_u8 : Reader UInt8
  | [] => none
  | b :: rest => some (b, rest)

def read_bytes (n : ℕ) : Reader (List UInt8) := fun l => if n ≤ l.length then some (l.take n, l.drop n) else none

def write_hton_u16 (w : UInt16) : List UInt8 := [(w >>> 8).toUInt8, w.toUInt8]

def read_ntoh_u16 : Reader UInt16 := do
  let b₁ ← read_u8
  let b₀ ← read_u8
  return (b₁.toUInt16 <<< 8) ||| b₀.toUInt16

def write_hton_u32 (w : UInt32) : List UInt8 :=
  [(w >>> 24).toUInt8, (w >>> 16).toUInt8, (w >>> 8).toUInt8, w.toUInt8]

def read_ntoh_u32 : Reader UInt32 := do
  let b₃ ← read_u8
  let b₂ ← read_u8
  let b₁ ← read_u8
  let b₀ ← read_u8
  return (((b₃.toUInt32 <<< 8 ||| b₂.toUInt32) <<< 8) ||| b₁.toUInt32) <<< 8 ||| b₀.toUInt32

theorem reads_u8 (b : UInt8) : Reads read_u8 [b] b := fun _ => rfl

theorem reads_bytes {x : List UInt8} {n : ℕ} (h : x.length = n) : Reads (read_bytes n) x x := by
  intro rest
  subst h
  simp [read_bytes, StateT.run]

theorem shiftLeft_or {a b n : ℕ} (hb : b < 2 ^ n) : a <<< n ||| b = a * 2 ^ n + b := by
  rw [← Nat.shiftLeft_add_eq_or_of_lt hb, Nat.shiftLeft_eq]

theorem toNat_push_u16 {x : UInt16} {b : UInt8} (hx : x.toNat < 2 ^ 8) :
    (x <<< 8 ||| b.toUInt16).toNat = x.toNat * 2 ^ 8 + b.toNat := by
  have hb := b.toNat_lt
  rw [UInt16.toNat_or, UInt16.toNat_shiftLeft, UInt8.toNat_toUInt16, show (8 : UInt16).toNat % 16 = 8 from rfl,
    Nat.mod_eq_of_lt (by rw [Nat.shiftLeft_eq]; omega), shiftLeft_or hb]

theorem toNat_push_u32 {x : UInt32} {b : UInt8} (hx : x.toNat < 2 ^ 24) :
    (x <<< 8 ||| b.toUInt32).toNat = x.toNat * 2 ^ 8 + b.toNat := by
  have hb := b.toNat_lt
  rw [UInt32.toNat_or, UInt32.toNat_shiftLeft, UInt8.toNat_toUInt32, show (8 : UInt32).toNat % 32 = 8 from rfl,
    Nat.mod_eq_of_lt (by rw [Nat.shiftLeft_eq]; omega), shiftLeft_or hb]

theorem toNat_byte_u32 {w : UInt32} {n : UInt32} (hn : n.toNat < 32) :
    (w >>> n).toUInt8.toNat = w.toNat / 2 ^ n.toNat % 2 ^ 8 := by
  rw [UInt32.toNat_toUInt8, UInt32.toNat_shiftRight, Nat.mod_eq_of_lt hn, Nat.shiftRight_eq_div_pow]

theorem u16_of_bytes (w : UInt16) : ((w >>> 8).toUInt8.toUInt16 <<< 8) ||| w.toUInt8.toUInt16 = w := by
  have hlt := w.toNat_lt
  have hhigh : (w >>> 8).toUInt8.toUInt16.toNat = w.toNat / 2 ^ 8 := by
    rw [UInt8.toNat_toUInt16, UInt16.toNat_toUInt8, UInt16.toNat_shiftRight, show (8 : UInt16).toNat % 16 = 8 from rfl,
      Nat.shiftRight_eq_div_pow]
    omega
  apply UInt16.toNat_inj.mp
  rw [toNat_push_u16 (by omega), hhigh, UInt16.toNat_toUInt8]
  omega

theorem reads_u16 (w : UInt16) : Reads read_ntoh_u16 (write_hton_u16 w) w := by
  intro rest
  have hread : read_ntoh_u16.run (write_hton_u16 w ++ rest) =
      some ((w >>> 8).toUInt8.toUInt16 <<< 8 ||| w.toUInt8.toUInt16, rest) := rfl
  rw [hread, u16_of_bytes]

theorem u32_of_bytes (w : UInt32) :
    (((w >>> 24).toUInt8.toUInt32 <<< 8 ||| (w >>> 16).toUInt8.toUInt32) <<< 8 |||
      (w >>> 8).toUInt8.toUInt32) <<< 8 ||| w.toUInt8.toUInt32 = w := by
  have hlt := w.toNat_lt
  have h₃ : (w >>> 24).toUInt8.toUInt32.toNat = w.toNat / 2 ^ 24 := by
    rw [UInt8.toNat_toUInt32, toNat_byte_u32 (by decide), show (24 : UInt32).toNat = 24 from rfl]
    omega
  have h₂ : ((w >>> 24).toUInt8.toUInt32 <<< 8 ||| (w >>> 16).toUInt8.toUInt32).toNat = w.toNat / 2 ^ 16 := by
    rw [toNat_push_u32 (by omega), h₃, toNat_byte_u32 (by decide), show (16 : UInt32).toNat = 16 from rfl]
    omega
  have h₁ : (((w >>> 24).toUInt8.toUInt32 <<< 8 ||| (w >>> 16).toUInt8.toUInt32) <<< 8 |||
      (w >>> 8).toUInt8.toUInt32).toNat = w.toNat / 2 ^ 8 := by
    rw [toNat_push_u32 (by omega), h₂, toNat_byte_u32 (by decide), show (8 : UInt32).toNat = 8 from rfl]
    omega
  apply UInt32.toNat_inj.mp
  rw [toNat_push_u32 (by omega), h₁, UInt32.toNat_toUInt8]
  omega

theorem reads_u32 (w : UInt32) : Reads read_ntoh_u32 (write_hton_u32 w) w := by
  intro rest
  have hread : read_ntoh_u32.run (write_hton_u32 w ++ rest) =
      some ((((w >>> 24).toUInt8.toUInt32 <<< 8 ||| (w >>> 16).toUInt8.toUInt32) <<< 8 |||
        (w >>> 8).toUInt8.toUInt32) <<< 8 ||| w.toUInt8.toUInt32, rest) := rfl
  rw [hread, u32_of_bytes]

/-! ## Readers of a number of bytes -/

/-- A reader takes just this many bytes off a buffer that has them, for a value with a property, and fails on one
that is shorter. -/
structure Takes (r : Reader α) (n : ℕ) (P : α → Prop) : Prop where
  enough : ∀ l, n ≤ l.length → ∃ a, P a ∧ r.run l = some (a, l.drop n)
  short : ∀ l, l.length < n → r.run l = none

variable {P : α → Prop} {Q : β → Prop} {m n : ℕ}

theorem Takes.pure (h : P a) : Takes (Pure.pure a : Reader α) 0 P where
  enough _ _ := ⟨a, h, rfl⟩
  short _ hl := absurd hl (Nat.not_lt_zero _)

theorem Takes.bind (h : Takes r m P) (h' : ∀ a, P a → Takes (f a) n Q) : Takes (r >>= f) (m + n) Q where
  enough l hl := by
    obtain ⟨a, ha, hrun⟩ := h.enough l (by omega)
    obtain ⟨b, hb, hrest⟩ := (h' a ha).enough (l.drop m) (by rw [List.length_drop]; omega)
    refine ⟨b, hb, ?_⟩
    rw [run_bind_of_run hrun, hrest, List.drop_drop]
  short l hl := by
    by_cases hm : l.length < m
    · rw [StateT.run_bind, h.short l hm]
      rfl
    · obtain ⟨a, ha, hrun⟩ := h.enough l (by omega)
      rw [run_bind_of_run hrun]
      apply (h' a ha).short
      rw [List.length_drop]
      omega

theorem Takes.map (h : Takes r n P) {g : α → β} (hg : ∀ a, P a → Q (g a)) :
    Takes (r >>= fun a => Pure.pure (g a)) n Q :=
  h.bind fun a ha => Takes.pure (hg a ha)

theorem takes_u8 : Takes read_u8 1 fun _ => True where
  enough l hl := by
    cases l with
    | nil => simp at hl
    | cons b l => exact ⟨b, trivial, rfl⟩
  short l hl := by
    obtain rfl := List.length_eq_zero_iff.mp (Nat.lt_one_iff.mp hl)
    rfl

theorem takes_bytes (n : ℕ) : Takes (read_bytes n) n fun l => l.length = n where
  enough l hl := ⟨l.take n, List.length_take_of_le hl, if_pos hl⟩
  short _ hl := if_neg (not_le.mpr hl)

theorem takes_ntoh_u16 : Takes read_ntoh_u16 2 fun _ => True :=
  takes_u8.bind fun _ _ => takes_u8.map fun _ _ => trivial

theorem takes_ntoh_u32 : Takes read_ntoh_u32 4 fun _ => True :=
  takes_u8.bind fun _ _ => takes_u8.bind fun _ _ => takes_u8.bind fun _ _ => takes_u8.map fun _ _ => trivial

/-- A reader used a number of times. -/
def read_times (r : Reader α) : ℕ → Reader (List α)
  | 0 => Pure.pure []
  | turns + 1 => do
    let a ← r
    let as ← read_times r turns
    return a :: as

theorem Takes.times (h : Takes r n P) (turns : ℕ) :
    Takes (read_times r turns) (n * turns) fun as => as.length = turns := by
  induction turns with
  | zero => exact Takes.pure rfl
  | succ turns ih =>
    rw [Nat.mul_succ, Nat.add_comm (n * turns)]
    refine h.bind fun a _ => ih.map fun as has => ?_
    rw [List.length_cons, has]

section LowEndFirst

def write_htolsb_u16 (w : UInt16) : List UInt8 := [w.toUInt8, (w >>> 8).toUInt8]

def read_lsbtoh_u16 : Reader UInt16 := do
  let b₀ ← read_u8
  let b₁ ← read_u8
  return (b₁.toUInt16 <<< 8) ||| b₀.toUInt16

theorem reads_lsb_u16 (w : UInt16) : Reads read_lsbtoh_u16 (write_htolsb_u16 w) w := by
  intro rest
  have hread : read_lsbtoh_u16.run (write_htolsb_u16 w ++ rest) =
      some ((w >>> 8).toUInt8.toUInt16 <<< 8 ||| w.toUInt8.toUInt16, rest) := rfl
  rw [hread, u16_of_bytes]

end LowEndFirst

section Words

/-- A word in the order of the host, the low byte first. -/
def write_u32 (w : UInt32) : List UInt8 :=
  [w.toUInt8, (w >>> 8).toUInt8, (w >>> 16).toUInt8, (w >>> 24).toUInt8]

def read_u32 : Reader UInt32 := do
  let b₀ ← read_u8
  let b₁ ← read_u8
  let b₂ ← read_u8
  let b₃ ← read_u8
  return (((b₃.toUInt32 <<< 8 ||| b₂.toUInt32) <<< 8) ||| b₁.toUInt32) <<< 8 ||| b₀.toUInt32

theorem reads_host_u32 (w : UInt32) : Reads read_u32 (write_u32 w) w := by
  intro rest
  have hread : read_u32.run (write_u32 w ++ rest) =
      some ((((w >>> 24).toUInt8.toUInt32 <<< 8 ||| (w >>> 16).toUInt8.toUInt32) <<< 8 |||
        (w >>> 8).toUInt8.toUInt32) <<< 8 ||| w.toUInt8.toUInt32, rest) := rfl
  rw [hread, u32_of_bytes]

/-- The end of the area of a field of `n` bytes that starts on a word. -/
def align (n : ℕ) : ℕ := (n + 3) / 4 * 4

theorem le_align (n : ℕ) : n ≤ align n := by
  rw [align]
  omega

theorem align_of_dvd {n : ℕ} (h : 4 ∣ n) : align n = n := by
  rw [align]
  omega

/-- The same on machine words: `(n + 3) & ~3`. -/
def align_u32 (n : UInt32) : UInt32 := (n + 3) &&& 0xfffffffc

theorem and_mask {m : ℕ} (h : m < 2 ^ 32) : m &&& 0xfffffffc = m / 4 * 4 := by
  rw [show m / 4 * 4 = m >>> 2 <<< 2 by rw [Nat.shiftLeft_eq, Nat.shiftRight_eq_div_pow]]
  apply Nat.eq_of_testBit_eq
  intro i
  rw [Nat.testBit_and, Nat.testBit_shiftLeft, Nat.testBit_shiftRight]
  by_cases hi : i < 32
  · have hmask : Nat.testBit 0xfffffffc i = decide (2 ≤ i) := by
      interval_cases i <;> rfl
    rw [hmask]
    by_cases h2 : 2 ≤ i
    · simp [h2]
    · simp [h2]
  · have hfalse : m.testBit i = false :=
      Nat.testBit_lt_two_pow (h.trans_le (Nat.pow_le_pow_right (by omega) (by omega)))
    rw [hfalse, show 2 + (i - 2) = i by omega, hfalse]
    simp

theorem align_ofNat {n : ℕ} (h : n + 3 < 2 ^ 32) : align_u32 (UInt32.ofNat n) = UInt32.ofNat (align n) := by
  have hsize : UInt32.size = 2 ^ 32 := rfl
  apply UInt32.toNat_inj.mp
  rw [align_u32, align, UInt32.toNat_and, UInt32.toNat_add, UInt32.toNat_ofNat_of_lt' (by omega),
    UInt32.toNat_ofNat_of_lt' (by omega), show (3 : UInt32).toNat = 3 from rfl,
    show (0xfffffffc : UInt32).toNat = 0xfffffffc from rfl, Nat.mod_eq_of_lt (by omega)]
  exact and_mask (by omega)

theorem ofNat_add_sub (a b : ℕ) : UInt32.ofNat (a + b) - UInt32.ofNat a = UInt32.ofNat b := by
  rw [UInt32.ofNat_add, add_sub_cancel_left]

theorem le_toNat_ofNat {a k : ℕ} (h : a + k < 2 ^ 32) : a ≤ (UInt32.ofNat (a + k)).toNat := by
  have hsize : UInt32.size = 2 ^ 32 := rfl
  rw [UInt32.toNat_ofNat_of_lt' (by omega)]
  omega

end Words

/-! ## Records up to the end of the buffer -/

section ToEnd

variable {σ γ : Type}

/-- A loop that goes on as long as bytes remain, for a number of turns at most. -/
def read_to_end (body : σ → Reader σ) : ℕ → σ → Reader σ
  | 0, _ => fun _ => none
  | turns + 1, s => fun l =>
    if l = [] then some (s, []) else (body s >>= read_to_end body turns).run l

/-- The loop over a whole buffer: a turn takes a byte at least. -/
def read_rest (body : σ → Reader σ) (s : σ) : Reader σ := fun l => (read_to_end body (l.length + 1) s).run l

/-- Records that are read in turn are all read when the loop ends. -/
theorem run_read_to_end {body : σ → Reader σ} {write : γ → List UInt8} {add : σ → γ → σ} {P : σ → Prop} {G : List γ}
    {s : σ} {turns : ℕ}
    (hbody : ∀ s, P s → ∀ g ∈ G, Reads (body s) (write g) (add s g) ∧ P (add s g))
    (hwrite : ∀ g ∈ G, write g ≠ []) (hs : P s) (hturns : G.length < turns) :
    (read_to_end body turns s).run (G.flatMap write) = some (G.foldl add s, []) := by
  induction G generalizing s turns with
  | nil =>
    obtain ⟨turns, rfl⟩ := Nat.exists_eq_add_one.mpr hturns
    rfl
  | cons g G ih =>
    obtain ⟨turns, rfl⟩ := Nat.exists_eq_add_one.mpr (Nat.zero_lt_of_lt hturns)
    obtain ⟨hread, hnext⟩ := hbody s hs g List.mem_cons_self
    have hrest := ih (fun s hs g hg => hbody s hs g (List.mem_cons_of_mem _ hg))
      (fun g hg => hwrite g (List.mem_cons_of_mem _ hg)) hnext (by simpa using hturns)
    have hne : (g :: G).flatMap write ≠ [] := by
      rw [List.flatMap_cons]
      exact fun h => hwrite g List.mem_cons_self (List.append_eq_nil_iff.mp h).1
    change (if (g :: G).flatMap write = [] then some (s, [])
      else (body s >>= read_to_end body turns).run ((g :: G).flatMap write)) = _
    rw [if_neg hne, List.flatMap_cons, StateT.run_bind, hread]
    exact hrest

theorem length_le_length_flatMap {write : γ → List UInt8} {G : List γ} (hwrite : ∀ g ∈ G, write g ≠ []) :
    G.length ≤ (G.flatMap write).length := by
  induction G with
  | nil => simp
  | cons g G ih =>
    have hg := List.length_pos_iff.mpr (hwrite g List.mem_cons_self)
    have hG := ih fun g hg => hwrite g (List.mem_cons_of_mem _ hg)
    rw [List.flatMap_cons, List.length_append, List.length_cons]
    omega

theorem run_read_rest {body : σ → Reader σ} (write : γ → List UInt8) {add : σ → γ → σ} {P : σ → Prop} {G : List γ}
    {s : σ} (hbody : ∀ s, P s → ∀ g ∈ G, Reads (body s) (write g) (add s g) ∧ P (add s g))
    (hwrite : ∀ g ∈ G, write g ≠ []) (hs : P s) :
    (read_rest body s).run (G.flatMap write) = some (G.foldl add s, []) :=
  run_read_to_end hbody hwrite hs (Nat.lt_succ_of_le (length_le_length_flatMap hwrite))

end ToEnd

/-! ## Areas that are not written everywhere -/

/-- What a writer leaves in a buffer: the byte it writes at a place, or nothing. -/
abbrev Cell := Option UInt8

/-- The bytes of a buffer after the writer. -/
def Fills (bytes : List UInt8) (cells : List Cell) : Prop :=
  List.Forall₂ (fun byte cell => ∀ b ∈ cell, b = byte) bytes cells

/-- A reader takes a value off what a writer has left, whatever stands at the places it did not write. -/
def ReadsCells (r : Reader α) (cells : List Cell) (a : α) : Prop :=
  ∀ bytes, Fills bytes cells → Reads r bytes a

variable {cells cells' : List Cell}

theorem fills_map_some {bytes' : List UInt8} (h : Fills bytes (bytes'.map some)) : bytes = bytes' := by
  induction bytes' generalizing bytes with
  | nil =>
    cases h
    rfl
  | cons b bytes' ih =>
    cases h with
    | cons hb htail => rw [ih htail, hb b (by simp)]

theorem Fills.append_cells (h : Fills bytes (cells ++ cells')) :
    ∃ b₁ b₂, bytes = b₁ ++ b₂ ∧ Fills b₁ cells ∧ Fills b₂ cells' := by
  refine ⟨bytes.take cells.length, bytes.drop cells.length, (List.take_append_drop _ _).symm, ?_, ?_⟩
  · exact List.forall₂_take_append _ _ _ h
  · exact List.forall₂_drop_append _ _ _ h

theorem Reads.written (h : Reads r bytes a) : ReadsCells r (bytes.map some) a := by
  intro bytes' hfill
  rw [fills_map_some hfill]
  exact h

theorem ReadsCells.pure (a : α) : ReadsCells (Pure.pure a : Reader α) [] a := by
  intro bytes hfill
  cases hfill
  exact Reads.pure a

theorem ReadsCells.bind {c : List Cell} {d : List Cell} (h : ReadsCells r c a) (h' : ReadsCells (f a) d b) :
    ReadsCells (r >>= f) (c ++ d) b := by
  intro bytes hfill
  obtain ⟨b₁, b₂, rfl, h₁, h₂⟩ := hfill.append_cells
  exact (h b₁ h₁).bind (h' b₂ h₂)

theorem reads_check {p : Prop} [Decidable p] (h : p) : ReadsCells (check p) [] () := (Reads.check h).written

theorem reads_lift {γ : Type} {o : Option γ} {g : γ} (h : o = some g) : ReadsCells (lift o) [] g :=
  (Reads.lift h).written

/-- A field of bytes, and the rest of its area unwritten. -/
def write_aligned (bytes : List UInt8) : List Cell :=
  bytes.map some ++ List.replicate (align bytes.length - bytes.length) none

def read_aligned (n : ℕ) : Reader (List UInt8) := do
  let l ← read_bytes (align n)
  return l.take n

@[simp] theorem length_write_aligned (bytes : List UInt8) :
    (write_aligned bytes).length = align bytes.length := by
  have := le_align bytes.length
  simp [write_aligned]
  omega

theorem reads_aligned (bytes : List UInt8) {n : ℕ} (hn : bytes.length = n) :
    ReadsCells (read_aligned n) (write_aligned bytes) bytes := by
  intro bytes' hfill
  have hlength := hfill.length_eq
  obtain ⟨b₁, b₂, rfl, h₁, h₂⟩ := hfill.append_cells
  obtain rfl := fills_map_some h₁
  have hread := (reads_bytes (x := b₁ ++ b₂) (n := align n) (by simpa [hn] using hlength)).map
    fun l => l.take n
  rwa [List.take_left' hn] at hread

/-! ## Writers with a bound -/

/-- What a writer with a bound has written, and the bytes it has counted. -/
structure Output where
  cells : List Cell
  size : ℕ
deriving DecidableEq, Repr

/-- Write a field if the bound admits it; otherwise stop with what stands there. -/
def put (maxSize : ℕ) (field : List Cell) (o : Output) : Except (List Cell) Output :=
  if o.size + field.length ≤ maxSize then .ok ⟨o.cells ++ field, o.size + field.length⟩ else .error o.cells

def put_fields (maxSize : ℕ) : List (List Cell) → Output → Except (List Cell) Output
  | [], o => .ok o
  | field :: fields, o => do
    let o ← put maxSize field o
    put_fields maxSize fields o

def word (w : UInt32) : List Cell := (write_u32 w).map some

@[simp] theorem length_word (w : UInt32) : (word w).length = 4 := rfl

theorem reads_word (w : UInt32) : ReadsCells read_u32 (word w) w := (reads_host_u32 w).written

/-- Write records one after the other, and count those that are complete. -/
def put_records (maxSize : ℕ) : List (List (List Cell)) → ℕ → Output → Except (List Cell × ℕ) (Output × ℕ)
  | [], n, o => .ok (o, n)
  | fields :: records, n, o =>
    match put_fields maxSize fields o with
    | .ok o => put_records maxSize records (n + 1) o
    | .error cells => .error (cells, n)

/-- Records behind their number, which is counted up in place. -/
def write_records (maxSize : ℕ) (records : List (List (List Cell))) : Except (List Cell) (List Cell) :=
  match put maxSize (word 0) ⟨[], 0⟩ with
  | .error cells => .error cells
  | .ok o =>
    match put_records maxSize records 0 o with
    | .ok (o, n) => .ok (word (UInt32.ofNat n) ++ o.cells.drop 4)
    | .error (cells, n) => .error (word (UInt32.ofNat n) ++ cells.drop 4)

theorem put_fields_cons {maxSize : ℕ} {field : List Cell} {fields : List (List Cell)} {o : Output} :
    put_fields maxSize (field :: fields) o =
      if o.size + field.length ≤ maxSize then put_fields maxSize fields ⟨o.cells ++ field, o.size + field.length⟩
      else .error o.cells := by
  rw [put_fields, put]
  split <;> rfl

theorem put_fields_ok {maxSize : ℕ} {fields : List (List Cell)} {o : Output}
    (h : o.size + fields.flatten.length ≤ maxSize) :
    put_fields maxSize fields o =
      .ok ⟨o.cells ++ fields.flatten, o.size + fields.flatten.length⟩ := by
  induction fields generalizing o with
  | nil => simp [put_fields]
  | cons field fields ih =>
    rw [List.flatten_cons, List.length_append] at h
    rw [put_fields_cons, if_pos (by omega), ih (by simpa [Nat.add_assoc] using h)]
    simp [Nat.add_assoc]

theorem put_fields_error (maxSize : ℕ) (fields : List (List Cell)) {o : Output} (hsize : o.size = o.cells.length)
    (hle : o.size ≤ maxSize) (h : maxSize < o.size + fields.flatten.length) :
    ∃ cells, put_fields maxSize fields o = .error cells ∧ cells.length ≤ maxSize ∧
      cells <+: o.cells ++ fields.flatten := by
  induction fields generalizing o with
  | nil =>
    rw [List.flatten_nil, List.length_nil] at h
    omega
  | cons field fields ih =>
    rw [List.flatten_cons, List.length_append] at h
    rw [put_fields_cons]
    split
    next hfits =>
      have hrest := ih (o := ⟨o.cells ++ field, o.size + field.length⟩) (by simp [hsize]) hfits (by simp only; omega)
      simpa using hrest
    next => exact ⟨o.cells, rfl, hsize ▸ hle, List.prefix_append _ _⟩

theorem put_records_ok {maxSize : ℕ} {records : List (List (List Cell))} {n : ℕ} {o : Output}
    (h : o.size + records.flatten.flatten.length ≤ maxSize) :
    put_records maxSize records n o =
      .ok (⟨o.cells ++ records.flatten.flatten, o.size + records.flatten.flatten.length⟩,
        n + records.length) := by
  induction records generalizing n o with
  | nil => simp [put_records]
  | cons fields records ih =>
    rw [List.flatten_cons, List.flatten_append, List.length_append] at h
    rw [put_records, put_fields_ok (by omega)]
    change put_records maxSize records (n + 1) ⟨o.cells ++ fields.flatten, o.size + fields.flatten.length⟩ = _
    rw [ih (by simpa [Nat.add_assoc] using h)]
    simp [Nat.add_assoc, Nat.add_comm 1]

theorem write_records_ok {maxSize : ℕ} {records : List (List (List Cell))}
    (h : 4 + records.flatten.flatten.length ≤ maxSize) :
    write_records maxSize records =
      .ok (word (UInt32.ofNat records.length) ++ records.flatten.flatten) := by
  have hput : put maxSize (word 0) ⟨[], 0⟩ = .ok ⟨word 0, 4⟩ := if_pos (by simp; omega)
  rw [write_records, hput]
  simp only
  rw [put_records_ok (by simpa using h)]
  simp [List.drop_append]

/-- Read a number of records. The bytes that are still to come are counted down. -/
def read_records {γ : Type} (readOne : UInt32 → Reader (γ × UInt32)) :
    ℕ → UInt32 → Reader (List γ × UInt32)
  | 0, sizeCheck => pure ([], sizeCheck)
  | n + 1, sizeCheck => do
    let (g, sizeCheck) ← readOne sizeCheck
    let (gs, sizeCheck) ← read_records readOne n sizeCheck
    return (g :: gs, sizeCheck)

theorem reads_records {γ : Type} {R : UInt32 → Reader (γ × UInt32)} {W : γ → List Cell}
    {N : ℕ} {G : List γ}
    (hone : ∀ g ∈ G, ∀ k, (W g).length + k < N →
      ReadsCells (R (UInt32.ofNat ((W g).length + k))) (W g) (g, UInt32.ofNat k))
    {k : ℕ} (hlimit : (G.flatMap W).length + k < N) :
    ReadsCells (read_records R G.length (UInt32.ofNat ((G.flatMap W).length + k)))
      (G.flatMap W) (G, UInt32.ofNat k) := by
  induction G with
  | nil => simpa [read_records] using ReadsCells.pure (([] : List γ), UInt32.ofNat k)
  | cons g G ih =>
    rw [List.flatMap_cons, List.length_append, Nat.add_assoc] at hlimit ⊢
    have htail := ih (fun g' hg' => hone g' (by simp [hg'])) (by omega)
    have hpure := htail.bind (f := fun x : List γ × UInt32 => (Pure.pure (g :: x.1, x.2) : Reader _))
      (ReadsCells.pure (g :: G, UInt32.ofNat k))
    rw [List.append_nil] at hpure
    exact (hone g (by simp) _ hlimit).bind hpure

/-- Records behind their number, in an area of `size` bytes with the length word before it. -/
def read_counted {γ : Type} (readOne : UInt32 → Reader (γ × UInt32)) (size : UInt32) : Reader (List γ) := do
  let sizeCheck := size - 4
  check (4 ≤ sizeCheck.toNat)
  let number ← read_u32
  let (gs, sizeCheck) ← read_records readOne number.toNat (sizeCheck - 4)
  check (sizeCheck = 0)
  return gs

section Records

variable {γ : Type} {fields : γ → List (List Cell)} {gs : List γ}

def counted_cells (fields : γ → List (List Cell)) (gs : List γ) : List Cell :=
  word (UInt32.ofNat gs.length) ++ gs.flatMap fun g => (fields g).flatten

theorem flatten_map_fields (fields : γ → List (List Cell)) (gs : List γ) :
    (gs.map fields).flatten.flatten = gs.flatMap fun g => (fields g).flatten := by
  rw [List.flatMap_def, List.flatten_flatten, List.map_map]
  rfl

theorem write_counted {maxSize : ℕ} (h : (counted_cells fields gs).length ≤ maxSize) :
    write_records maxSize (gs.map fields) = .ok (counted_cells fields gs) := by
  rw [counted_cells, List.length_append, length_word] at h
  rw [write_records_ok (by rwa [flatten_map_fields]), flatten_map_fields, List.length_map, counted_cells]

theorem length_le_counted (hpos : ∀ g ∈ gs, 0 < (fields g).flatten.length) :
    gs.length ≤ (gs.flatMap fun g => (fields g).flatten).length := by
  induction gs with
  | nil => simp
  | cons g gs ih =>
    have := hpos g (by simp)
    have := ih fun g' hg' => hpos g' (by simp [hg'])
    rw [List.flatMap_cons, List.length_append, List.length_cons]
    omega

theorem reads_counted {F : γ → List (List Cell)} {G : List γ} {R : UInt32 → Reader (γ × UInt32)}
    (hpos : ∀ g ∈ G, 0 < (F g).flatten.length)
    (hone : ∀ g ∈ G, ∀ k, (F g).flatten.length + k < 2 ^ 32 - 3 →
      ReadsCells (R (UInt32.ofNat ((F g).flatten.length + k))) (F g).flatten
        (g, UInt32.ofNat k))
    (hsize : (counted_cells F G).length + 7 < 2 ^ 32) :
    ReadsCells (read_counted R (UInt32.ofNat ((counted_cells F G).length + 4)))
      (counted_cells F G) G := by
  have hsz : UInt32.size = 2 ^ 32 := rfl
  have hlen := length_le_counted hpos
  have heq : (counted_cells F G).length = 4 + (G.flatMap fun g => (F g).flatten).length := by
    rw [counted_cells, List.length_append, length_word]
  have hcount : (UInt32.ofNat G.length).toNat = G.length := UInt32.toNat_ofNat_of_lt' (by omega)
  have hrecords := reads_records (R := R) (N := 2 ^ 32 - 3)
    (W := fun g => (F g).flatten) (G := G) (k := 0) hone (by omega)
  have hend := (reads_check (rfl : UInt32.ofNat 0 = 0)).bind (f := fun _ => (pure G : Reader _)) (.pure G)
  have hbody := hrecords.bind (f := fun x => do
    check (x.2 = 0)
    return x.1) hend
  rw [List.append_nil, List.append_nil] at hbody
  have hsub : UInt32.ofNat ((counted_cells F G).length + 4) - 4 =
      UInt32.ofNat (4 + (G.flatMap fun g => (F g).flatten).length) := by
    rw [Nat.add_comm, heq]
    exact ofNat_add_sub 4 _
  rw [read_counted, hsub, counted_cells]
  refine (reads_check (le_toNat_ofNat (by omega))).bind (c := []) ((reads_word _).bind ?_)
  rw [hcount, show (4 : UInt32) = UInt32.ofNat 4 from rfl, ofNat_add_sub]
  exact hbody

end Records

section Arrays

variable {n : ℕ}

def get (a : Fin n → UInt8) (i : ℕ) : UInt8 := if h : i < n then a ⟨i, h⟩ else 0

/-- `memcpy`: bytes written over an array from a position on. -/
def memcpy (dst : Fin n → UInt8) (start : ℕ) (src : ℕ → UInt8) (count : ℕ) : Fin n → UInt8 :=
  fun i => if start ≤ i.val ∧ i.val < start + count then src (i.val - start) else dst i

/-- `memcmp`: whether two arrays agree on the first bytes from a position on. -/
def memcmp (a b : Fin n → UInt8) (start count : ℕ) : Bool :=
  decide (∀ i : Fin n, start ≤ i.val → i.val < start + count → a i = b i)

def write_array (a : Fin n → UInt8) (count : ℕ) : List UInt8 := (List.ofFn a).take count

def read_array (n count : ℕ) : Reader (Fin n → UInt8) := do
  let l ← read_bytes count
  return fun i => l[i.val]?.getD 0

/-- An array without all but its first bytes. -/
def truncate (a : Fin n → UInt8) (count : ℕ) : Fin n → UInt8 := fun i => if i.val < count then a i else 0

theorem length_write_array {a : Fin n → UInt8} {count : ℕ} (h : count ≤ n) : (write_array a count).length = count := by
  rw [write_array, List.length_take, List.length_ofFn, min_eq_left h]

theorem reads_array (a : Fin n → UInt8) {count : ℕ} (h : count ≤ n) :
    Reads (read_array n count) (write_array a count) (truncate a count) := by
  have hvalue : (fun i : Fin n => (write_array a count)[i.val]?.getD 0) = truncate a count := by
    funext i
    rw [write_array, List.getElem?_take, truncate]
    split
    · simp
    · rfl
  rw [← hvalue]
  exact (reads_bytes (length_write_array h)).map fun (l : List UInt8) (i : Fin n) => l[i.val]?.getD 0

theorem reads_full_array (a : Fin n → UInt8) : Reads (read_array n n) (write_array a n) a := by
  have hread := reads_array a (le_refl n)
  have hfull : truncate a n = a := funext fun i => if_pos i.isLt
  rwa [hfull] at hread

end Arrays

end ByteFormat
