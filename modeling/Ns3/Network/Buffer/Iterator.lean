import Ns3.Network.Buffer.Storage

namespace Ns3.Buffer

namespace Iterator

/-- The offsets that iterators of a buffer can have. -/
structure WellFormed (i : Iterator) : Prop where
  start : i.data_start ≤ i.zero_start
  zero : i.zero_start ≤ i.zero_end
  stop : i.zero_end ≤ i.data_end
  lt : i.data_end < 2 ^ 32
  current : i.current < 2 ^ 32

def check (i : Iterator) (pos : ℕ) : Bool :=
  pos ≥ i.data_start && !(pos ≥ i.zero_start && pos < i.zero_end) && pos ≤ i.data_end

/-- An offset in the storage that backs a position of the buffer outside of the zero area. -/
def Backs (i : Iterator) (k : ℕ) : Prop :=
  ∃ j, i.data_start ≤ j ∧ j < i.data_end ∧ ¬ (i.zero_start ≤ j ∧ j < i.zero_end) ∧
    k = if j < i.zero_start then j else j - (i.zero_end - i.zero_start)

end Iterator

/-- The `n` bytes of a number, the least significant first. -/
def lsb : ℕ → ℕ → List UInt8
  | 0, _ => []
  | n + 1, value => UInt8.ofNat value :: lsb n (value / 256)

/-- The `n` bytes of a number, the most significant first. -/
def msb (n value : ℕ) : List UInt8 := (lsb n value).reverse

@[simp]
theorem length_lsb (n value : ℕ) : (lsb n value).length = n := by
  induction n generalizing value with
  | zero => rfl
  | succ n ih => rw [lsb, List.length_cons, ih]

@[simp]
theorem length_msb (n value : ℕ) : (msb n value).length = n := by simp [msb]

/-- The number that bytes stand for, the least significant first. -/
def of_lsb : List UInt8 → ℕ
  | [] => 0
  | byte :: bytes => byte.toNat + 256 * of_lsb bytes

def of_msb (bytes : List UInt8) : ℕ := of_lsb bytes.reverse

/-- An iterator over the memory that its storage starts in, with the offsets it has touched. -/
structure Cursor where
  iterator : Iterator
  memory : ℕ → UInt8
  touched : List ℕ := []

namespace Cursor

/-- `m_current += delta`. -/
def advance (c : Cursor) (delta : ℕ) : Cursor :=
  { c with iterator := { c.iterator with current := u32 (c.iterator.current + delta) } }

def poke (c : Cursor) (offset : ℕ) (bytes : List UInt8) : Cursor :=
  { c with
    memory := fun k => if offset ≤ k then (bytes[k - offset]?).getD (c.memory k) else c.memory k
    touched := c.touched ++ List.range' offset bytes.length }

def peek (c : Cursor) (offset size : ℕ) : List UInt8 × Cursor :=
  ((List.range' offset size).map c.memory, { c with touched := c.touched ++ List.range' offset size })

def write_u8 (c : Cursor) (data : UInt8) : Option Cursor :=
  let i := c.iterator
  if i.check i.current then
    some ((c.poke (if i.current < i.zero_start then i.current else i.offset) [data]).advance 1)
  else none

/-- `WriteU8` once for each byte. -/
def write_bytes (c : Cursor) : List UInt8 → Option Cursor
  | [] => some c
  | byte :: bytes => do
    let c ← c.write_u8 byte
    c.write_bytes bytes

def write_u16 (c : Cursor) (data : UInt16) : Option Cursor := c.write_bytes (lsb 2 data.toNat)

def write_u32 (c : Cursor) (data : UInt32) : Option Cursor := c.write_bytes (lsb 4 data.toNat)

def write_u64 (c : Cursor) (data : UInt64) : Option Cursor := c.write_bytes (lsb 8 data.toNat)

def write_htolsb_u16 (c : Cursor) (data : UInt16) : Option Cursor := c.write_bytes (lsb 2 data.toNat)

def write_htolsb_u32 (c : Cursor) (data : UInt32) : Option Cursor := c.write_bytes (lsb 4 data.toNat)

def write_htolsb_u64 (c : Cursor) (data : UInt64) : Option Cursor := c.write_bytes (lsb 8 data.toNat)

def write_hton_u64 (c : Cursor) (data : UInt64) : Option Cursor := c.write_bytes (msb 8 data.toNat)

/-- A write of a whole number, with the check of its range. -/
def write_word (c : Cursor) (bytes : List UInt8) : Option Cursor :=
  let i := c.iterator
  let stop := u32 (i.current + bytes.length)
  if i.check_no_zero i.current stop then
    some ((c.poke (if stop ≤ i.zero_start then i.current else i.offset) bytes).advance bytes.length)
  else none

def write_hton_u16 (c : Cursor) (data : UInt16) : Option Cursor := c.write_word (msb 2 data.toNat)

def write_hton_u32 (c : Cursor) (data : UInt32) : Option Cursor := c.write_word (msb 4 data.toNat)

/-- `WriteU8(uint8_t, uint32_t)`. -/
def write_u8_len (c : Cursor) (data : UInt8) (len : ℕ) : Option Cursor :=
  let i := c.iterator
  if i.check_no_zero i.current (u32 (i.current + len)) then
    some ((c.poke (if i.current ≤ i.zero_start then i.current else i.offset) (List.replicate len data)).advance len)
  else none

/-- `Write(const uint8_t*, uint32_t)`, whose check takes the size for the end of the range. -/
def write (c : Cursor) (buffer : List UInt8) : Option Cursor :=
  let i := c.iterator
  if i.check_no_zero i.current buffer.length then
    some ((c.poke (if i.current ≤ i.zero_start then i.current else i.offset) buffer).advance buffer.length)
  else none

def peek_u8 (c : Cursor) : Option (List UInt8 × Cursor) :=
  let i := c.iterator
  if i.current ≥ i.data_start ∧ i.current < i.data_end then
    if i.current < i.zero_start then some (c.peek i.current 1)
    else if i.current < i.zero_end then some ([0], c)
    else some (c.peek i.offset 1)
  else none

/-- `ReadU8` a number of times. -/
def read_bytes (c : Cursor) : ℕ → Option (List UInt8 × Cursor)
  | 0 => some ([], c)
  | size + 1 => do
    let (byte, c) ← c.peek_u8
    let (bytes, c) ← (c.advance 1).read_bytes size
    return (byte ++ bytes, c)

/-- A read of a whole number. Only the slow path has a check. -/
def read_word (c : Cursor) (size : ℕ) : Option (List UInt8 × Cursor) :=
  let i := c.iterator
  if u32 (i.current + size) ≤ i.zero_start then
    let r := c.peek i.current size
    some (r.1, r.2.advance size)
  else if i.current ≥ i.zero_end then
    let r := c.peek i.offset size
    some (r.1, r.2.advance size)
  else c.read_bytes size

/-- The number that a read gives, with the cursor after it. -/
def value (of_bytes : List UInt8 → ℕ) (r : Option (List UInt8 × Cursor)) : Option (ℕ × Cursor) :=
  r.map fun r => (of_bytes r.1, r.2)

def read_u8 (c : Cursor) : Option (ℕ × Cursor) := value of_lsb (c.read_bytes 1)

def read_u16 (c : Cursor) : Option (ℕ × Cursor) := value of_lsb (c.read_bytes 2)

def read_u32 (c : Cursor) : Option (ℕ × Cursor) := value of_lsb (c.read_bytes 4)

def read_u64 (c : Cursor) : Option (ℕ × Cursor) := value of_lsb (c.read_bytes 8)

def read_ntoh_u16 (c : Cursor) : Option (ℕ × Cursor) := value of_msb (c.read_word 2)

def read_ntoh_u32 (c : Cursor) : Option (ℕ × Cursor) := value of_msb (c.read_word 4)

def read_ntoh_u64 (c : Cursor) : Option (ℕ × Cursor) := value of_msb (c.read_bytes 8)

def read_lsbtoh_u16 (c : Cursor) : Option (ℕ × Cursor) := value of_lsb (c.read_bytes 2)

def read_lsbtoh_u32 (c : Cursor) : Option (ℕ × Cursor) := value of_lsb (c.read_bytes 4)

def read_lsbtoh_u64 (c : Cursor) : Option (ℕ × Cursor) := value of_lsb (c.read_bytes 8)

end Cursor

/-- The operations of an iterator on numbers and on arrays. -/
inductive Operation
  | write_u8 (data : UInt8)
  | write_u16 (data : UInt16)
  | write_u32 (data : UInt32)
  | write_u64 (data : UInt64)
  | write_htolsb_u16 (data : UInt16)
  | write_htolsb_u32 (data : UInt32)
  | write_htolsb_u64 (data : UInt64)
  | write_hton_u16 (data : UInt16)
  | write_hton_u32 (data : UInt32)
  | write_hton_u64 (data : UInt64)
  | write (buffer : List UInt8)
  | write_u8_len (data : UInt8) (len : ℕ)
  | read_u8
  | read_u16
  | read_u32
  | read_u64
  | read_ntoh_u16
  | read_ntoh_u32
  | read_ntoh_u64
  | read_lsbtoh_u16
  | read_lsbtoh_u32
  | read_lsbtoh_u64
  | read (size : ℕ)

namespace Operation

/-- The bytes that an operation reads, in the order of their positions, and the cursor after it.
There is no result when an assertion fails. -/
def run (c : Cursor) : Operation → Option (List UInt8 × Cursor)
  | .write_u8 data => (c.write_u8 data).map ([], ·)
  | .write_u16 data => (c.write_u16 data).map ([], ·)
  | .write_u32 data => (c.write_u32 data).map ([], ·)
  | .write_u64 data => (c.write_u64 data).map ([], ·)
  | .write_htolsb_u16 data => (c.write_htolsb_u16 data).map ([], ·)
  | .write_htolsb_u32 data => (c.write_htolsb_u32 data).map ([], ·)
  | .write_htolsb_u64 data => (c.write_htolsb_u64 data).map ([], ·)
  | .write_hton_u16 data => (c.write_hton_u16 data).map ([], ·)
  | .write_hton_u32 data => (c.write_hton_u32 data).map ([], ·)
  | .write_hton_u64 data => (c.write_hton_u64 data).map ([], ·)
  | .write buffer => (c.write buffer).map ([], ·)
  | .write_u8_len data len => (c.write_u8_len data len).map ([], ·)
  | .read_u8 => c.read_bytes 1
  | .read_u16 | .read_lsbtoh_u16 => c.read_bytes 2
  | .read_u32 | .read_lsbtoh_u32 => c.read_bytes 4
  | .read_u64 | .read_lsbtoh_u64 | .read_ntoh_u64 => c.read_bytes 8
  | .read_ntoh_u16 => c.read_word 2
  | .read_ntoh_u32 => c.read_word 4
  | .read size => c.read_bytes size

/-- The bytes that an operation writes one by one. -/
def bytes_written : Operation → ℕ
  | .write_u8 _ => 1
  | .write_u16 _ | .write_htolsb_u16 _ => 2
  | .write_u32 _ | .write_htolsb_u32 _ => 4
  | .write_u64 _ | .write_htolsb_u64 _ | .write_hton_u64 _ => 8
  | _ => 0

/-- When an operation whose assertions pass stays inside the buffer. -/
def InBounds (i : Iterator) : Operation → Prop
  | .write_hton_u16 _ => i.current + 2 < 2 ^ 32
  | .write_hton_u32 _ => i.current + 4 < 2 ^ 32
  | .write_u8_len _ len => i.current + len < 2 ^ 32
  | .write buffer =>
    buffer.length = 0 ∨
      if i.current ≤ i.zero_start then i.current + buffer.length ≤ i.data_end - (i.zero_end - i.zero_start)
      else i.data_start + (i.zero_end - i.zero_start) ≤ i.current ∧ i.current + buffer.length ≤ i.data_end
  | .read_ntoh_u16 => i.data_start ≤ i.current ∧ i.current + 2 ≤ i.data_end
  | .read_ntoh_u32 => i.data_start ≤ i.current ∧ i.current + 4 ≤ i.data_end
  | op => op.bytes_written = 0 ∨ i.current + op.bytes_written ≤ i.data_end

/-- The array and the length of an operation fit their 32 bits. -/
def Sized : Operation → Prop
  | .write buffer => buffer.length < 2 ^ 32
  | .write_u8_len _ len => len < 2 ^ 32
  | _ => True

end Operation

/-- An operation touches only bytes of the buffer outside of the zero area, where it reads zeroes. -/
structure Bounded (i : Iterator) (r : List UInt8 × Cursor) : Prop where
  touched : ∀ k ∈ r.2.touched, i.Backs k
  zero : ∀ n < r.1.length, i.zero_start ≤ i.current + n → i.current + n < i.zero_end → r.1[n]? = some 0

variable {i : Iterator} {c c' : Cursor} {r : List UInt8 × Cursor} {k n : ℕ}

namespace Iterator

theorem WellFormed.backs_iff (h : i.WellFormed) : i.Backs k ↔ i.data_start ≤ k ∧ k < i.data_end - (i.zero_end - i.zero_start) := by
  obtain ⟨hstart, hzero, hstop, hlt, hcurrent⟩ := h
  constructor
  · rintro ⟨j, hle, hj, hout, rfl⟩
    split_ifs <;> omega
  · rintro ⟨hle, hk⟩
    by_cases hin : k < i.zero_start
    · exact ⟨k, hle, by omega, by omega, by rw [if_pos hin]⟩
    · exact ⟨k + (i.zero_end - i.zero_start), by omega, by omega, by omega, by rw [if_neg (by omega)]; omega⟩

/-- The storage offset of a position behind the zero area; for one before its size the difference wraps. -/
theorem WellFormed.offset_eq (h : i.WellFormed) :
    i.offset = if i.zero_end - i.zero_start ≤ i.current then i.current - (i.zero_end - i.zero_start)
      else 2 ^ 32 + i.current - (i.zero_end - i.zero_start) := by
  obtain ⟨hstart, hzero, hstop, hlt, hcurrent⟩ := h
  rw [offset]
  unfold sub32 u32
  split_ifs <;> omega

theorem check_iff : i.check n = true ↔ i.data_start ≤ n ∧ ¬ (i.zero_start ≤ n ∧ n < i.zero_end) ∧ n ≤ i.data_end := by
  simp only [check, ge_iff_le, Bool.and_eq_true, Bool.not_eq_true', Bool.and_eq_false_iff, decide_eq_true_eq,
    decide_eq_false_iff_not]
  omega

end Iterator

namespace Cursor

/-- Every byte of a range is one of the buffer's if the range lies among them. -/
theorem range_backs_iff (h : i.WellFormed) {offset : ℕ} :
    (∀ k ∈ List.range' offset n, i.Backs k) ↔
      n = 0 ∨ i.data_start ≤ offset ∧ offset + n ≤ i.data_end - (i.zero_end - i.zero_start) := by
  simp only [List.mem_range'_1, h.backs_iff]
  constructor
  · intro hall
    by_cases hn : n = 0
    · exact .inl hn
    · have hfirst := hall offset ⟨le_rfl, by omega⟩
      have hlast := hall (offset + n - 1) ⟨by omega, by omega⟩
      omega
  · rintro (rfl | hrange) k hk
    · omega
    · omega

theorem write_u8_spec (h : c.iterator.WellFormed) {data : UInt8} (hrun : c.write_u8 data = some c') :
    ∃ k, c'.touched = c.touched ++ [k] ∧ (c.iterator.Backs k ↔ c.iterator.current < c.iterator.data_end) ∧
      c'.iterator = { c.iterator with current := u32 (c.iterator.current + 1) } ∧
      c.iterator.current ≤ c.iterator.data_end := by
  rw [write_u8] at hrun
  obtain ⟨hcheck, heq⟩ := Option.ite_none_right_eq_some.mp hrun
  obtain rfl := Option.some.inj heq
  rw [Iterator.check_iff] at hcheck
  refine ⟨_, rfl, ?_, rfl, hcheck.2.2⟩
  have hoffset := h.offset_eq
  obtain ⟨hstart, hzero, hstop, hlt, hcurrent⟩ := id h
  rw [h.backs_iff, hoffset]
  split_ifs <;> omega

theorem write_bytes_touched {bytes : List UInt8} (hrun : c.write_bytes bytes = some c') :
    ∃ l, c'.touched = c.touched ++ l := by
  induction bytes generalizing c with
  | nil =>
    cases hrun
    exact ⟨[], by simp⟩
  | cons byte bytes ih =>
    obtain ⟨c₁, hfirst, hrest⟩ := Option.bind_eq_some_iff.mp hrun
    obtain ⟨l, hl⟩ := ih hrest
    rw [write_u8] at hfirst
    obtain ⟨-, heq⟩ := Option.ite_none_right_eq_some.mp hfirst
    obtain rfl := Option.some.inj heq
    exact ⟨_, hl.trans (List.append_assoc ..)⟩

theorem write_bytes_spec {bytes : List UInt8} (h : c.iterator.WellFormed) (hrun : c.write_bytes bytes = some c') :
    ∃ l, c'.touched = c.touched ++ l ∧ ((∀ k ∈ l, c.iterator.Backs k) ↔
      bytes.length = 0 ∨ c.iterator.current + bytes.length ≤ c.iterator.data_end) := by
  induction bytes generalizing c with
  | nil =>
    cases hrun
    exact ⟨[], by simp, by simp⟩
  | cons byte bytes ih =>
    obtain ⟨c₁, hfirst, hrest⟩ := Option.bind_eq_some_iff.mp hrun
    obtain ⟨k, htouched, hbacks, hnext, hle⟩ := write_u8_spec h hfirst
    have hlt := h.lt
    by_cases hin : c.iterator.current < c.iterator.data_end
    · have hcurrent : c₁.iterator.current = c.iterator.current + 1 := by
        rw [hnext]
        simp only
        unfold u32
        omega
      have hwf : c₁.iterator.WellFormed := by
        rw [hnext] at hcurrent ⊢
        exact ⟨h.start, h.zero, h.stop, h.lt, by simp only at hcurrent ⊢; omega⟩
      obtain ⟨l, hl, hall⟩ := ih hwf hrest
      have hsame : ∀ k, c₁.iterator.Backs k ↔ c.iterator.Backs k := fun k => by
        rw [hnext]
        exact Iff.rfl
      have hend : c₁.iterator.data_end = c.iterator.data_end := by rw [hnext]
      refine ⟨k :: l, by rw [hl, htouched, List.append_assoc, List.singleton_append], ?_⟩
      simp only [hsame, hcurrent, hend] at hall
      rw [List.forall_mem_cons, hall, hbacks, List.length_cons]
      omega
    · obtain ⟨l, hl⟩ := write_bytes_touched hrest
      refine ⟨k :: l, by rw [hl, htouched, List.append_assoc, List.singleton_append], ?_⟩
      refine iff_of_false (fun hall => hin (hbacks.mp (hall k (by simp)))) ?_
      rw [List.length_cons]
      omega

theorem write_word_spec {bytes : List UInt8} (h : c.iterator.WellFormed) (hsize : 0 < bytes.length ∧ bytes.length ≤ 8)
    (hrun : c.write_word bytes = some c') :
    ∃ l, c'.touched = c.touched ++ l ∧
      ((∀ k ∈ l, c.iterator.Backs k) ↔ c.iterator.current + bytes.length < 2 ^ 32) := by
  rw [write_word] at hrun
  obtain ⟨hcheck, heq⟩ := Option.ite_none_right_eq_some.mp hrun
  obtain rfl := Option.some.inj heq
  refine ⟨_, rfl, ?_⟩
  rw [Iterator.check_no_zero_iff] at hcheck
  have hoffset := h.offset_eq
  rw [range_backs_iff h, hoffset]
  obtain ⟨hstart, hzero, hstop, hlt, hcurrent⟩ := h
  unfold u32 at hcheck ⊢
  split_ifs <;> omega

theorem write_u8_len_spec {data : UInt8} (h : c.iterator.WellFormed) (hn : n < 2 ^ 32)
    (hrun : c.write_u8_len data n = some c') :
    ∃ l, c'.touched = c.touched ++ l ∧ ((∀ k ∈ l, c.iterator.Backs k) ↔ c.iterator.current + n < 2 ^ 32) := by
  rw [write_u8_len] at hrun
  obtain ⟨hcheck, heq⟩ := Option.ite_none_right_eq_some.mp hrun
  obtain rfl := Option.some.inj heq
  refine ⟨_, rfl, ?_⟩
  rw [Iterator.check_no_zero_iff] at hcheck
  have hoffset := h.offset_eq
  rw [range_backs_iff h, hoffset, List.length_replicate]
  obtain ⟨hstart, hzero, hstop, hlt, hcurrent⟩ := h
  unfold u32 at hcheck
  split_ifs <;> omega

theorem write_spec {buffer : List UInt8} (h : c.iterator.WellFormed) (hrun : c.write buffer = some c') :
    ∃ l, c'.touched = c.touched ++ l ∧
      ((∀ k ∈ l, c.iterator.Backs k) ↔ Operation.InBounds c.iterator (.write buffer)) := by
  rw [write] at hrun
  obtain ⟨hcheck, heq⟩ := Option.ite_none_right_eq_some.mp hrun
  obtain rfl := Option.some.inj heq
  refine ⟨_, rfl, ?_⟩
  rw [Iterator.check_no_zero_iff] at hcheck
  have hoffset := h.offset_eq
  rw [range_backs_iff h, hoffset, Operation.InBounds]
  obtain ⟨hstart, hzero, hstop, hlt, hcurrent⟩ := h
  split_ifs <;> omega

theorem read_bytes_spec (h : c.iterator.WellFormed) (hrun : c.read_bytes n = some r) :
    ∃ l, r.2.touched = c.touched ++ l ∧ (∀ k ∈ l, c.iterator.Backs k) ∧ r.1.length = n ∧
      (n = 0 ∨ c.iterator.data_start ≤ c.iterator.current ∧ c.iterator.current + n ≤ c.iterator.data_end) ∧
      ∀ m < n, c.iterator.zero_start ≤ c.iterator.current + m → c.iterator.current + m < c.iterator.zero_end →
        r.1[m]? = some 0 := by
  induction n generalizing c r with
  | zero =>
    cases hrun
    exact ⟨[], by simp, by simp, rfl, .inl rfl, by simp⟩
  | succ n ih =>
    obtain ⟨⟨byte, c₁⟩, hfirst, hrest⟩ := Option.bind_eq_some_iff.mp hrun
    obtain ⟨⟨bytes, c₂⟩, hread, heq⟩ := Option.bind_eq_some_iff.mp hrest
    obtain rfl := Option.some.inj heq
    have hpeek : ∃ l, c₁.touched = c.touched ++ l ∧ (∀ k ∈ l, c.iterator.Backs k) ∧ byte.length = 1 ∧
        c₁.iterator = c.iterator ∧ (c.iterator.data_start ≤ c.iterator.current ∧ c.iterator.current < c.iterator.data_end) ∧
        (c.iterator.zero_start ≤ c.iterator.current → c.iterator.current < c.iterator.zero_end → byte = [0]) := by
      rw [peek_u8] at hfirst
      obtain ⟨hin, hfirst⟩ := Option.ite_none_right_eq_some.mp hfirst
      have hoffset := h.offset_eq
      have hbacks := fun k => h.backs_iff (k := k)
      obtain ⟨hstart, hzero, hstop, hlt, hcurrent⟩ := h
      split_ifs at hfirst
      · cases hfirst
        refine ⟨_, rfl, ?_, rfl, rfl, hin, by omega⟩
        intro k hk
        rw [List.mem_range'_1] at hk
        rw [hbacks]
        omega
      · cases hfirst
        exact ⟨[], by simp, by simp, rfl, rfl, hin, fun _ _ => rfl⟩
      · cases hfirst
        refine ⟨_, rfl, ?_, rfl, rfl, hin, by omega⟩
        intro k hk
        rw [List.mem_range'_1, hoffset] at hk
        rw [hbacks]
        split_ifs at hk <;> omega
    obtain ⟨l, hl, hall, hlength, hsame, hin, hbyte⟩ := hpeek
    have hlt := h.lt
    have hcurrent : (c₁.advance 1).iterator.current = c.iterator.current + 1 := by
      rw [advance, hsame]
      exact u32_eq (by omega)
    have hnext : (c₁.advance 1).iterator = { c.iterator with current := c.iterator.current + 1 } := by
      rw [← hcurrent, advance, hsame]
    have hwf : (c₁.advance 1).iterator.WellFormed := by
      rw [hnext]
      exact ⟨h.start, h.zero, h.stop, h.lt, by simp only; omega⟩
    obtain ⟨l', hl', hall', hlength', hin', hzero'⟩ := ih hwf hread
    rw [hnext] at hall' hin' hzero'
    simp only at hin' hzero'
    refine ⟨l ++ l', ?_, ?_, ?_, .inr ⟨hin.1, by omega⟩, ?_⟩
    · rw [hl', ← List.append_assoc, ← hl]
      rfl
    · intro k hk
      rcases List.mem_append.mp hk with hk | hk
      · exact hall k hk
      · exact hall' k hk
    · rw [List.length_append, hlength, hlength', Nat.add_comm]
    · intro m hm hfrom hto
      cases m with
      | zero =>
        rw [hbyte hfrom hto]
        rfl
      | succ m =>
        rw [List.getElem?_append_right (by omega), hlength]
        exact hzero' m (by omega) (by omega) (by omega)

theorem read_word_spec (h : c.iterator.WellFormed) (hn : 0 < n ∧ n ≤ 8) (hrun : c.read_word n = some r) :
    ∃ l, r.2.touched = c.touched ++ l ∧
      ((∀ k ∈ l, c.iterator.Backs k) ↔
        c.iterator.data_start ≤ c.iterator.current ∧ c.iterator.current + n ≤ c.iterator.data_end) ∧
      (c.iterator.current + n ≤ c.iterator.data_end → ∀ m < r.1.length, c.iterator.zero_start ≤ c.iterator.current + m →
        c.iterator.current + m < c.iterator.zero_end → r.1[m]? = some 0) := by
  have hrange : ∀ offset, ((c.peek offset n).2.advance n).touched = c.touched ++ List.range' offset n := fun _ => rfl
  have hsize : ∀ offset, (c.peek offset n).1.length = n := fun offset => by simp [peek]
  have hoffset := h.offset_eq
  have hbacks := fun offset => @range_backs_iff c.iterator n h offset
  have hslow := fun hr => @read_bytes_spec c r n h hr
  obtain ⟨hstart, hzero, hstop, hlt, hcurrent⟩ := h
  rw [read_word] at hrun
  split_ifs at hrun with hfront hback
  · cases hrun
    refine ⟨_, hrange _, ?_, ?_⟩
    · rw [hbacks]
      unfold u32 at hfront
      omega
    · unfold u32 at hfront
      intro _ m hm
      rw [hsize] at hm
      omega
  · cases hrun
    refine ⟨_, hrange _, ?_, ?_⟩
    · rw [hbacks, hoffset]
      split_ifs <;> omega
    · intro _ m hm
      rw [hsize] at hm
      omega
  · obtain ⟨l, hl, hall, hlength, hin, hzeros⟩ := hslow hrun
    refine ⟨l, hl, iff_of_true hall (by omega), fun _ => ?_⟩
    rw [hlength]
    exact hzeros

end Cursor

end Ns3.Buffer
