import Ns3.Internet.TcpOption

namespace Ns3

open ByteFormat

/-- The header, without the checksum, which is only verified where checksums are enabled. -/
structure TcpHeader where
  m_sourcePort : UInt16
  m_destinationPort : UInt16
  m_sequenceNumber : SequenceNumber32
  m_ackNumber : SequenceNumber32
  m_length : UInt8
  m_flags : UInt8
  m_windowSize : UInt16
  m_urgentPointer : UInt16
  m_options : List TcpOption
  m_optionsLen : UInt8
deriving DecidableEq, Repr

namespace TcpHeader

def m_maxOptionsLen : UInt32 := 40

def optionsSize (m_options : List TcpOption) : ℕ := (m_options.map TcpOption.get_serialized_size).sum

/-- `CalculateHeaderLength`, in words of 32 bits, as a number of 8 bits. -/
def calculate_header_length (header : TcpHeader) : UInt8 :=
  let len := 20 + optionsSize header.m_options
  let len := if len % 4 ≠ 0 then len + (4 - len % 4) else len
  UInt8.ofNat (len >>> 2)

def get_serialized_size (header : TcpHeader) : ℕ := header.calculate_header_length.toNat * 4

def deserialize_fields : Reader TcpHeader := do
  let m_sourcePort ← read_ntoh_u16
  let m_destinationPort ← read_ntoh_u16
  let m_sequenceNumber ← read_ntoh_u32
  let m_ackNumber ← read_ntoh_u32
  let field ← read_ntoh_u16
  let m_windowSize ← read_ntoh_u16
  -- the checksum
  let _ ← read_bytes 2
  let m_urgentPointer ← read_ntoh_u16
  return {
    m_sourcePort
    m_destinationPort
    m_sequenceNumber := ⟨m_sequenceNumber⟩
    m_ackNumber := ⟨m_ackNumber⟩
    m_length := (field >>> 12).toUInt8
    m_flags := (field &&& 0xff).toUInt8
    m_windowSize
    m_urgentPointer
    m_options := []
    m_optionsLen := 0 }

/-- The loop over the options: the position of its iterator, what is left of the option space, the options that are
stored, and how many bytes have been read from the start of the buffer on. -/
structure Options where
  i : ℕ
  optionLen : ℕ
  m_options : List TcpOption
  m_optionsLen : UInt8
  extent : ℕ
deriving DecidableEq, Repr

/-- Where a turn of the loop leads. -/
inductive Turn
  | next (s : Options)
  | leave (s : Options)
  | abort (s : Options)
  /-- A read behind the end of the buffer. -/
  | overrun
deriving DecidableEq, Repr

def read_to (s : Options) (position : ℕ) : Options := { s with extent := max s.extent position }

/-- Behind the end of the options the rest of the option space is skipped. -/
def discard_padding (s : Options) : Options :=
  { s with i := s.i + s.optionLen, optionLen := 0, m_optionsLen := s.m_optionsLen + UInt8.ofNat s.optionLen }

def advance (s : Options) (op : TcpOption) (optionSize : ℕ) : Options :=
  { s with
    optionLen := s.optionLen - optionSize
    i := s.i + optionSize
    m_options := s.m_options ++ [op]
    m_optionsLen := s.m_optionsLen + UInt8.ofNat optionSize }

/-- What a turn does with an option and the size that its `Deserialize` has returned. -/
def store_option (s : Options) (op : TcpOption) (optionSize : ℕ) : Turn :=
  if optionSize ≠ op.get_serialized_size then
    .leave s
  else if s.optionLen ≥ optionSize then
    .next (if op.get_kind = TcpOption.END then discard_padding (advance s op optionSize)
      else advance s op optionSize)
  else
    .leave s

def deserialize_option (bytes : List UInt8) (s : Options) : Turn :=
  match read_u8.run (bytes.drop s.i) with
  | none => .overrun
  | some (kind, _) =>
    match (TcpOption.create_known kind).deserialize.run (bytes.drop s.i) with
    | none => .overrun
    | some (result, rest) =>
      let s := read_to s (bytes.length - rest.length)
      match result with
      | none => .abort s
      | some (op, optionSize) => store_option s op optionSize

/-- The loop, for a number of turns at most; there is a next one where they are not enough. -/
def deserialize_options (bytes : List UInt8) : ℕ → Options → Turn
  | 0, s => if s.optionLen = 0 then .leave s else .next s
  | turns + 1, s =>
    if s.optionLen = 0 then
      .leave s
    else
      match deserialize_option bytes s with
      | .next s => deserialize_options bytes turns s
      | turn => turn

/-- What `Deserialize` comes to, with the number of bytes read from the start of the buffer on. -/
inductive Outcome
  /-- The turns are not enough. -/
  | running
  | overrun
  | abort (extent : ℕ)
  | returned (header : TcpHeader) (size extent : ℕ)
deriving DecidableEq, Repr

/-- `Deserialize`, with a number of turns for its loop over the options. -/
def deserialize (turns : ℕ) (bytes : List UInt8) : Outcome :=
  match deserialize_fields.run bytes with
  | none => .overrun
  | some (header, rest) =>
    let extent := bytes.length - rest.length
    let optionLen : UInt32 := (header.m_length.toUInt32 - 5) * 4
    if optionLen > m_maxOptionsLen then
      .returned header 20 extent
    else
      match deserialize_options bytes turns ⟨extent, optionLen.toNat, [], 0, extent⟩ with
      | .next _ => .running
      | .overrun => .overrun
      | .abort s => .abort s.extent
      | .leave s =>
        let header := { header with m_options := s.m_options, m_optionsLen := s.m_optionsLen }
        .returned header header.get_serialized_size s.extent

open TcpOption (END NOP Length length_of create_known Behaves)

/-- The data offset that a header states, in words. -/
def dataOffset (bytes : List UInt8) : ℕ := (bytes.getD 12 0).toNat / 16

def optionSpace (bytes : List UInt8) : List UInt8 := (bytes.drop 20).take (4 * (dataOffset bytes - 5))

/-- Option spaces that are taken as they should be. Options follow one another, each inside of the space. What is not
stored is shorter than a word: padding behind the end, or an option with a length that is refused. A length at which
the parsing aborts may stand anywhere. -/
inductive Parsable : List UInt8 → Prop
  | nil : Parsable []
  | end_ {padding : List UInt8} : padding.length ≤ 3 → Parsable (END :: padding)
  | nop {rest : List UInt8} : Parsable rest → Parsable (NOP :: rest)
  | whole {kind length : UInt8} {size : ℕ} {rest : List UInt8} : kind ≠ END → kind ≠ NOP →
    length_of kind length = .whole size → size ≤ rest.length + 2 → Parsable (rest.drop (size - 2)) →
    Parsable (kind :: length :: rest)
  | wrong {kind length : UInt8} {rest : List UInt8} : kind ≠ END → kind ≠ NOP → length_of kind length = .wrong →
    rest.length ≤ 1 → Parsable (kind :: length :: rest)
  | abort {kind length : UInt8} {rest : List UInt8} : kind ≠ END → kind ≠ NOP → length_of kind length = .abort →
    Parsable (kind :: length :: rest)

/-- What a parse may come to: nothing is read behind the header, the options lie in their space, and the size is the
one that the header states. -/
def Fits (offset : ℕ) : Outcome → Prop
  | .running => False
  | .overrun => False
  | .abort extent => extent ≤ max 20 (4 * offset)
  | .returned header size extent => extent ≤ max 20 (4 * offset) ∧
    optionsSize header.m_options ≤ 4 * (offset - 5) ∧ (5 ≤ offset → size = 4 * offset)

def Parses (bytes : List UInt8) : Prop := ∃ turns, Fits (dataOffset bytes) (deserialize turns bytes)

section Options

variable {bytes bs rest beyond : List UInt8} {space : ℕ} {s : Options} {kind length : UInt8}

theorem parsable_end : Parsable (END :: rest) ↔ rest.length ≤ 3 := by
  constructor
  · intro h
    cases h with
    | end_ h => exact h
    | whole h => exact absurd rfl h
    | wrong h => exact absurd rfl h
    | abort h => exact absurd rfl h
  · exact .end_

theorem parsable_nop : Parsable (NOP :: rest) ↔ Parsable rest := by
  constructor
  · intro h
    cases h with
    | nop h => exact h
    | whole _ h => exact absurd rfl h
    | wrong _ h => exact absurd rfl h
    | abort _ h => exact absurd rfl h
  · exact .nop

theorem not_parsable_alone (hend : kind ≠ END) (hnop : kind ≠ NOP) : ¬ Parsable [kind] := by
  intro h
  cases h with
  | end_ => exact hend rfl
  | nop => exact hnop rfl

/-- An option space is judged by the length byte of its first option. -/
def JudgedBy (rest : List UInt8) : Length → Prop
  | .whole size => size ≤ rest.length + 2 ∧ Parsable (rest.drop (size - 2))
  | .wrong => rest.length ≤ 1
  | .abort => True
  | .zero => False

theorem parsable_cons (hend : kind ≠ END) (hnop : kind ≠ NOP) :
    Parsable (kind :: length :: rest) ↔ JudgedBy rest (length_of kind length) := by
  constructor
  · intro h
    cases h with
    | end_ => exact absurd rfl hend
    | nop => exact absurd rfl hnop
    | whole _ _ hlength hsize hrest => exact hlength ▸ ⟨hsize, hrest⟩
    | wrong _ _ hlength hrest => exact hlength ▸ hrest
    | abort _ _ hlength => exact hlength ▸ trivial
  · intro h
    cases hlength : length_of kind length with
    | whole size =>
      rw [hlength] at h
      exact .whole hend hnop hlength h.1 h.2
    | wrong =>
      rw [hlength] at h
      exact .wrong hend hnop hlength h
    | abort => exact .abort hend hnop hlength
    | zero =>
      rw [hlength] at h
      exact h.elim

def Accepts (space : ℕ) : Turn → Prop
  | .next _ => False
  | .leave s => s.extent ≤ 20 + space ∧ optionsSize s.m_options ≤ space ∧ space ≤ optionsSize s.m_options + 3
  | .abort s => s.extent ≤ 20 + space
  | .overrun => False

def Completes (bytes : List UInt8) (space : ℕ) (s : Options) : Prop :=
  ∃ turns, Accepts space (deserialize_options bytes turns s)

def Continues (bytes : List UInt8) (space : ℕ) : Turn → Prop
  | .next s => Completes bytes space s
  | turn => Accepts space turn

theorem completes_of_empty (h : s.optionLen = 0) : Completes bytes space s ↔ Accepts space (.leave s) := by
  have hleave : ∀ turns, deserialize_options bytes turns s = .leave s := by
    intro turns
    cases turns <;> exact if_pos h
  simp [Completes, hleave]

theorem completes_iff_continues (h : s.optionLen ≠ 0) :
    Completes bytes space s ↔ Continues bytes space (deserialize_option bytes s) := by
  constructor
  · rintro ⟨turns, hturns⟩
    cases turns with
    | zero =>
      rw [deserialize_options, if_neg h] at hturns
      exact hturns.elim
    | succ turns =>
      rw [deserialize_options, if_neg h] at hturns
      cases hturn : deserialize_option bytes s with
      | next s' =>
        rw [hturn] at hturns
        exact ⟨turns, hturns⟩
      | leave s' =>
        rw [hturn] at hturns
        exact hturns
      | abort s' =>
        rw [hturn] at hturns
        exact hturns
      | overrun =>
        rw [hturn] at hturns
        exact hturns
  · intro hcont
    cases hturn : deserialize_option bytes s with
    | next s' =>
      rw [hturn] at hcont
      obtain ⟨turns, hturns⟩ := hcont
      refine ⟨turns + 1, ?_⟩
      rwa [deserialize_options, if_neg h, hturn]
    | leave s' =>
      refine ⟨1, ?_⟩
      rw [hturn] at hcont
      rwa [deserialize_options, if_neg h, hturn]
    | abort s' =>
      refine ⟨1, ?_⟩
      rw [hturn] at hcont
      rwa [deserialize_options, if_neg h, hturn]
    | overrun =>
      rw [hturn] at hcont
      exact hcont.elim

theorem deserialize_option_of_run {op : TcpOption} {optionSize : ℕ} (hdrop : bytes.drop s.i = kind :: rest)
    (hrun : (create_known kind).deserialize.run (kind :: rest) = some (some (op, optionSize), beyond)) :
    deserialize_option bytes s =
      store_option (read_to s (bytes.length - beyond.length)) op optionSize := by
  have hpeek : read_u8.run (kind :: rest) = some (kind, rest) := rfl
  simp only [deserialize_option, hdrop, hpeek, hrun]

theorem deserialize_option_of_abort (hdrop : bytes.drop s.i = kind :: rest)
    (hrun : (create_known kind).deserialize.run (kind :: rest) = some (none, beyond)) :
    deserialize_option bytes s = .abort (read_to s (bytes.length - beyond.length)) := by
  have hpeek : read_u8.run (kind :: rest) = some (kind, rest) := rfl
  simp only [deserialize_option, hdrop, hpeek, hrun]

theorem deserialize_option_of_none (hdrop : bytes.drop s.i = kind :: rest)
    (hrun : (create_known kind).deserialize.run (kind :: rest) = none) : deserialize_option bytes s = .overrun := by
  have hpeek : read_u8.run (kind :: rest) = some (kind, rest) := rfl
  simp only [deserialize_option, hdrop, hpeek, hrun]

/-- The state that a turn ends in, if it reads no byte that is not there. -/
def Turn.state? : Turn → Option Options
  | .next s => some s
  | .leave s => some s
  | .abort s => some s
  | .overrun => none

theorem store_option_next {op : TcpOption} (hkind : op.get_kind ≠ END) (h : op.get_serialized_size ≤ s.optionLen) :
    store_option s op op.get_serialized_size = .next (advance s op op.get_serialized_size) := by
  rw [store_option, if_neg (not_not.mpr rfl), if_pos h, if_neg hkind]

theorem store_option_end (h : 1 ≤ s.optionLen) :
    store_option s .end_ 1 = .next (discard_padding (advance s .end_ 1)) := by
  have hsize : TcpOption.end_.get_serialized_size = 1 := rfl
  have hkind : TcpOption.end_.get_kind = END := rfl
  rw [store_option, hsize, if_neg (not_not.mpr rfl), if_pos h, if_pos hkind]

theorem store_option_extent (s : Options) (op : TcpOption) (optionSize : ℕ) :
    ∃ s', (store_option s op optionSize).state? = some s' ∧ s'.extent = s.extent := by
  unfold store_option
  split
  · exact ⟨s, rfl, rfl⟩
  · split
    · refine ⟨_, rfl, ?_⟩
      split <;> rfl
    · exact ⟨s, rfl, rfl⟩

theorem deserialize_option_extent {s' : Options} (h : (deserialize_option bytes s).state? = some s') :
    s.extent ≤ s'.extent := by
  cases hdrop : bytes.drop s.i with
  | nil =>
    simp only [deserialize_option, hdrop, show read_u8.run [] = none from rfl] at h
    cases h
  | cons kind rest =>
    cases hrun : (create_known kind).deserialize.run (kind :: rest) with
    | none =>
      rw [deserialize_option_of_none hdrop hrun] at h
      cases h
    | some r =>
      obtain ⟨_ | ⟨op, optionSize⟩, beyond⟩ := r
      · rw [deserialize_option_of_abort hdrop hrun] at h
        cases h
        exact le_max_left _ _
      · rw [deserialize_option_of_run hdrop hrun] at h
        obtain ⟨s₁, hs₁, hextent⟩ := store_option_extent (read_to s (bytes.length - beyond.length)) op optionSize
        obtain rfl : s₁ = s' := Option.some.inj (hs₁.symm.trans h)
        rw [hextent]
        exact le_max_left _ _

theorem Completes.extent_le (h : Completes bytes space s) : s.extent ≤ 20 + space := by
  obtain ⟨turns, hturns⟩ := h
  induction turns generalizing s with
  | zero =>
    rw [deserialize_options] at hturns
    split at hturns
    · exact hturns.1
    · exact hturns.elim
  | succ turns ih =>
    rw [deserialize_options] at hturns
    split at hturns
    · exact hturns.1
    · cases hturn : deserialize_option bytes s with
      | next s' =>
        rw [hturn] at hturns
        exact (deserialize_option_extent (by rw [hturn]; rfl)).trans (ih hturns)
      | leave s' =>
        rw [hturn] at hturns
        exact (deserialize_option_extent (by rw [hturn]; rfl)).trans hturns.1
      | abort s' =>
        rw [hturn] at hturns
        exact (deserialize_option_extent (by rw [hturn]; rfl)).trans hturns
      | overrun =>
        rw [hturn] at hturns
        exact hturns.elim

theorem Continues.extent_le {turn : Turn} {s' : Options} (h : Continues bytes space turn)
    (hs : turn.state? = some s') : s'.extent ≤ 20 + space := by
  cases turn with
  | next s =>
    cases hs
    exact Completes.extent_le h
  | leave s =>
    cases hs
    exact h.1
  | abort s =>
    cases hs
    exact h
  | overrun => cases hs

theorem not_completes_of_far (hopt : s.optionLen ≠ 0) (hdrop : bytes.drop s.i = kind :: rest)
    (hfar : ∀ result beyond, (create_known kind).deserialize.run (kind :: rest) = some (result, beyond) →
      20 + space < bytes.length - beyond.length) : ¬ Completes bytes space s := by
  rw [completes_iff_continues hopt]
  intro hcont
  cases hrun : (create_known kind).deserialize.run (kind :: rest) with
  | none =>
    rw [deserialize_option_of_none hdrop hrun] at hcont
    exact hcont
  | some r =>
    obtain ⟨_ | ⟨op, optionSize⟩, beyond⟩ := r
    · have hlt := hfar _ _ hrun
      rw [deserialize_option_of_abort hdrop hrun] at hcont
      have hle := hcont.extent_le rfl
      exact absurd ((le_max_right _ _).trans hle) (not_le.mpr hlt)
    · have hlt := hfar _ _ hrun
      rw [deserialize_option_of_run hdrop hrun] at hcont
      obtain ⟨s', hs', hextent⟩ := store_option_extent (read_to s (bytes.length - beyond.length)) op optionSize
      have hle := hcont.extent_le hs'
      rw [hextent] at hle
      exact absurd ((le_max_right _ _).trans hle) (not_le.mpr hlt)

theorem not_completes_of_zero (hend : kind ≠ END) (hnop : kind ≠ NOP) (hlength : length_of kind length = .zero)
    (hopt : s.optionLen ≠ 0) (hdrop : bytes.drop s.i = kind :: length :: rest) : ¬ Completes bytes space s := by
  rintro ⟨turns, hturns⟩
  induction turns generalizing s with
  | zero =>
    rw [deserialize_options, if_neg hopt] at hturns
    exact hturns
  | succ turns ih =>
    have hbehaves := TcpOption.deserialize_behaves hend hnop length rest
    rw [hlength] at hbehaves
    obtain ⟨op, hsize, hkind, hrun⟩ := hbehaves
    rw [← hsize] at hrun
    rw [deserialize_options, if_neg hopt, deserialize_option_of_run hdrop hrun,
      store_option_next hkind (by rw [hsize]; exact Nat.zero_le _)] at hturns
    refine ih ?_ ?_ hturns
    · rwa [advance, hsize]
    · rwa [advance, hsize]

/-- Where the loop is in a buffer with a whole header. -/
structure At (bytes : List UInt8) (space : ℕ) (s : Options) : Prop where
  place : s.i + s.optionLen = 20 + space
  stored : optionsSize s.m_options + s.optionLen = space
  extent : s.extent ≤ s.i
  room : 20 + space ≤ bytes.length

theorem optionsSize_append (m_options : List TcpOption) (op : TcpOption) :
    optionsSize (m_options ++ [op]) = optionsSize m_options + op.get_serialized_size := by
  simp [optionsSize]

theorem At.length_drop (h : At bytes space s) : s.i + (bytes.drop s.i).length = bytes.length := by
  have hplace := h.place
  have hroom := h.room
  rw [List.length_drop]
  omega

/-- The bytes of the option space that the loop has not come to. -/
def remaining (bytes : List UInt8) (s : Options) : List UInt8 := (bytes.drop s.i).take s.optionLen

theorem At.length_remaining (h : At bytes space s) : (remaining bytes s).length = s.optionLen := by
  have hplace := h.place
  have hroom := h.room
  rw [remaining, List.length_take, List.length_drop]
  omega

theorem drop_eq_remaining (bytes : List UInt8) (s : Options) :
    bytes.drop s.i = remaining bytes s ++ bytes.drop (s.i + s.optionLen) := by
  rw [remaining, ← List.drop_drop, List.take_append_drop]

theorem remaining_advance (op : TcpOption) (n : ℕ) :
    remaining bytes (advance s op n) = (remaining bytes s).drop n := by
  rw [remaining, remaining, List.drop_take, List.drop_drop]
  rfl

theorem completes_end (hat : At bytes space s) (h : remaining bytes s = END :: rest) :
    Completes bytes space s ↔ rest.length ≤ 3 := by
  have hlength := hat.length_remaining
  have hdrop := hat.length_drop
  have hfront := drop_eq_remaining bytes s
  rw [h, List.length_cons] at hlength
  rw [h, List.cons_append] at hfront
  rw [hfront, List.length_cons] at hdrop
  have hplace := hat.place
  have hstored := hat.stored
  have hextent := hat.extent
  rw [completes_iff_continues (by omega), deserialize_option_of_run hfront TcpOption.create_known_end,
    store_option_end (by rw [read_to, ← hlength]; exact Nat.le_add_left 1 _), Continues, completes_of_empty rfl]
  simp only [Accepts, discard_padding, advance, read_to, optionsSize_append, TcpOption.get_serialized_size]
  omega

theorem completes_whole (op : TcpOption) (hat : At bytes space s) (hfront : bytes.drop s.i = kind :: rest)
    (hkind : op.get_kind ≠ END) (hfit : op.get_serialized_size ≤ s.optionLen) (hopt : s.optionLen ≠ 0)
    (hrun : (create_known kind).deserialize.run (kind :: rest) =
      some (some (op, op.get_serialized_size), (kind :: rest).drop op.get_serialized_size)) :
    ∃ s', At bytes space s' ∧ remaining bytes s' = (remaining bytes s).drop op.get_serialized_size ∧
      (Completes bytes space s ↔ Completes bytes space s') := by
  have hplace := hat.place
  have hstored := hat.stored
  have hextent := hat.extent
  have hroom := hat.room
  have hread : bytes.length - ((kind :: rest).drop op.get_serialized_size).length = s.i + op.get_serialized_size := by
    rw [← hfront, List.drop_drop, List.length_drop]
    omega
  refine ⟨advance (read_to s (s.i + op.get_serialized_size)) op op.get_serialized_size, ⟨?_, ?_, ?_, hroom⟩,
    remaining_advance op _, ?_⟩
  · simp only [advance, read_to]
    omega
  · simp only [advance, read_to, optionsSize_append]
    omega
  · simp only [advance, read_to]
    omega
  · rw [completes_iff_continues hopt, deserialize_option_of_run hfront hrun, hread,
      store_option_next hkind (by exact hfit), Continues]

theorem not_completes_alone (hat : At bytes space s) (hend : kind ≠ END) (hnop : kind ≠ NOP)
    (h : remaining bytes s = [kind]) : ¬ Completes bytes space s := by
  have hlength := hat.length_remaining
  have hdrop := hat.length_drop
  have hfront := drop_eq_remaining bytes s
  rw [h, List.length_singleton] at hlength
  rw [h, List.singleton_append] at hfront
  rw [hfront, List.length_cons] at hdrop
  have hplace := hat.place
  apply not_completes_of_far (by omega) hfront
  intro result beyond hrun
  cases hrest : bytes.drop (s.i + s.optionLen) with
  | nil =>
    rw [hrest, TcpOption.deserialize_alone hend hnop] at hrun
    cases hrun
  | cons length rest =>
    have hbehaves := TcpOption.deserialize_behaves hend hnop length rest
    rw [hrest] at hrun hdrop
    rw [hrun] at hbehaves
    rw [List.length_cons] at hdrop
    obtain ⟨size, _, _, rfl⟩ | rfl := hbehaves.taken
    · rw [List.length_drop]
      omega
    · omega

theorem completes_sized (hat : At bytes space s) (hend : kind ≠ END) (hnop : kind ≠ NOP)
    (h : remaining bytes s = kind :: length :: rest) :
    (∃ size s', length_of kind length = .whole size ∧ size ≤ rest.length + 2 ∧ At bytes space s' ∧
        remaining bytes s' = rest.drop (size - 2) ∧ (Completes bytes space s ↔ Completes bytes space s')) ∨
      ((∀ size, length_of kind length = .whole size → rest.length + 2 < size) ∧
        (Completes bytes space s ↔ JudgedBy rest (length_of kind length))) := by
  have hlength := hat.length_remaining
  have hdrop := hat.length_drop
  have hfront := drop_eq_remaining bytes s
  rw [h, List.length_cons, List.length_cons] at hlength
  rw [h, List.cons_append, List.cons_append] at hfront
  rw [hfront, List.length_cons, List.length_cons] at hdrop
  have hplace := hat.place
  have hstored := hat.stored
  have hextent := hat.extent
  have hopt : s.optionLen ≠ 0 := by omega
  have hbehaves := TcpOption.deserialize_behaves hend hnop length (rest ++ bytes.drop (s.i + s.optionLen))
  cases hl : length_of kind length with
  | whole size =>
    rw [hl, Behaves] at hbehaves
    by_cases hfit : size ≤ rest.length + 2
    · rw [if_pos (by rw [List.length_append]; omega)] at hbehaves
      obtain ⟨op, rfl, hkind, hrun⟩ := hbehaves
      have htwo := TcpOption.two_le_of_whole hl
      have hskip : ∀ l : List UInt8, l.drop (op.get_serialized_size - 2) =
          (kind :: length :: l).drop op.get_serialized_size := by
        intro l
        obtain ⟨n, hn⟩ := Nat.exists_eq_add_of_le' htwo
        rw [hn]
        rfl
      rw [hskip] at hrun
      obtain ⟨s', hat', hrest, hiff⟩ := completes_whole op hat hfront hkind (by omega) hopt hrun
      refine Or.inl ⟨_, s', rfl, hfit, hat', ?_, hiff⟩
      rw [hrest, h, hskip]
    · refine Or.inr ⟨fun _ hsize => ?_, iff_of_false ?_ fun hjudged => hfit hjudged.1⟩
      · cases hsize
        omega
      · apply not_completes_of_far hopt hfront
        intro result beyond hrun
        rw [hrun] at hbehaves
        split at hbehaves
        · obtain ⟨_, _, _, htaken⟩ := hbehaves
          cases htaken
          rw [List.length_drop]
          omega
        · cases hbehaves
  | wrong =>
    rw [hl] at hbehaves
    obtain ⟨op, optionSize, hsize, hrun⟩ := hbehaves
    refine Or.inr ⟨fun _ hwhole => (by cases hwhole), ?_⟩
    rw [completes_iff_continues hopt, deserialize_option_of_run hfront hrun, store_option, if_pos hsize]
    simp only [Continues, Accepts, read_to, JudgedBy]
    omega
  | abort =>
    rw [hl] at hbehaves
    refine Or.inr ⟨fun _ hwhole => (by cases hwhole), iff_of_true ?_ trivial⟩
    rw [completes_iff_continues hopt, deserialize_option_of_abort hfront hbehaves]
    simp only [Continues, Accepts, read_to]
    omega
  | zero =>
    refine Or.inr ⟨fun _ hwhole => (by cases hwhole), iff_of_false ?_ id⟩
    exact not_completes_of_zero hend hnop hl hopt hfront

/-- The loop over the options comes to a good end exactly on the option spaces that are parsable. -/
theorem completes_iff_parsable (hat : At bytes space s) (h : remaining bytes s = bs) :
    Completes bytes space s ↔ Parsable bs := by
  induction hn : bs.length using Nat.strong_induction_on generalizing bs s with
  | h n ih =>
    cases bs with
    | nil =>
      have hlength := hat.length_remaining
      have hstored := hat.stored
      have hextent := hat.extent
      have hplace := hat.place
      rw [h, List.length_nil] at hlength
      refine iff_of_true ?_ .nil
      rw [completes_of_empty hlength.symm]
      refine ⟨?_, ?_, ?_⟩ <;> omega
    | cons kind rest =>
      rw [List.length_cons] at hn
      by_cases hend : kind = END
      · subst hend
        rw [completes_end hat h, parsable_end]
      by_cases hnop : kind = NOP
      · subst hnop
        have hlength := hat.length_remaining
        rw [h, List.length_cons] at hlength
        have hfront := drop_eq_remaining bytes s
        rw [h, List.cons_append] at hfront
        obtain ⟨s', hat', hrest, hiff⟩ := completes_whole .nop hat hfront (by decide)
          (by rw [← hlength]; exact Nat.le_add_left 1 _) (by omega) TcpOption.create_known_nop
        rw [hiff, parsable_nop]
        exact ih rest.length (by omega) hat' (by rw [hrest, h]; rfl) rfl
      cases rest with
      | nil => exact iff_of_false (not_completes_alone hat hend hnop h) (not_parsable_alone hend hnop)
      | cons length rest =>
        rw [parsable_cons hend hnop]
        obtain ⟨size, s', hl, hfit, hat', hrest, hiff⟩ | ⟨hlong, hiff⟩ := completes_sized hat hend hnop h
        · have hshorter : (rest.drop (size - 2)).length < n := by
            rw [List.length_drop, ← hn, List.length_cons]
            omega
          rw [hiff, hl, JudgedBy, ih _ hshorter hat' hrest rfl, and_iff_right hfit]
        · exact hiff

end Options

variable {bytes : List UInt8}

theorem toNat_length_field (high low : UInt8) :
    ((high.toUInt16 <<< 8 ||| low.toUInt16) >>> 12).toUInt8.toNat = high.toNat / 16 := by
  have hhigh := high.toNat_lt
  have hlow := low.toNat_lt
  have hshift : (12 : UInt16).toNat % 16 = 12 := rfl
  have hword : high.toUInt16.toNat = high.toNat := UInt8.toNat_toUInt16 high
  rw [UInt16.toNat_toUInt8, UInt16.toNat_shiftRight, hshift, toNat_push_u16 (by omega), hword,
    Nat.shiftRight_eq_div_pow]
  omega

theorem deserialize_fields_spec (bytes : List UInt8) (h : 20 ≤ bytes.length) :
    ∃ header, deserialize_fields.run bytes = some (header, bytes.drop 20) ∧
      header.m_length.toNat = dataOffset bytes ∧ header.m_options = [] := by
  have hdrop : ∀ n, (bytes.drop n).length = bytes.length - n := fun n => List.length_drop
  obtain ⟨_, _, hsource⟩ := takes_ntoh_u16.enough bytes (by omega)
  obtain ⟨_, _, hdestination⟩ := takes_ntoh_u16.enough (bytes.drop 2) (by rw [hdrop]; omega)
  obtain ⟨_, _, hsequence⟩ := takes_ntoh_u32.enough (bytes.drop 4) (by rw [hdrop]; omega)
  obtain ⟨_, _, hack⟩ := takes_ntoh_u32.enough (bytes.drop 8) (by rw [hdrop]; omega)
  obtain ⟨_, _, hwindow⟩ := takes_ntoh_u16.enough (bytes.drop 14) (by rw [hdrop]; omega)
  obtain ⟨_, _, hchecksum⟩ := (takes_bytes 2).enough (bytes.drop 16) (by rw [hdrop]; omega)
  obtain ⟨_, _, hurgent⟩ := takes_ntoh_u16.enough (bytes.drop 18) (by rw [hdrop]; omega)
  have hfront : bytes.drop 12 = bytes[12] :: bytes[13] :: bytes.drop 14 := by
    rw [List.drop_eq_getElem_cons (by omega), List.drop_eq_getElem_cons (by omega)]
  have hfield : read_ntoh_u16.run (bytes.drop 12) =
      some (bytes[12].toUInt16 <<< 8 ||| bytes[13].toUInt16, bytes.drop 14) := by
    rw [hfront]
    rfl
  simp only [List.drop_drop] at hdestination hsequence hack hwindow hchecksum hurgent
  have hoffset : dataOffset bytes = bytes[12].toNat / 16 := by
    rw [dataOffset, List.getD_eq_getElem _ _ (by omega)]
  rw [deserialize_fields, run_bind_of_run hsource, run_bind_of_run hdestination, run_bind_of_run hsequence,
    run_bind_of_run hack, run_bind_of_run hfield, run_bind_of_run hwindow, run_bind_of_run hchecksum,
    run_bind_of_run hurgent, hoffset]
  exact ⟨_, rfl, toNat_length_field _ _, rfl⟩

theorem get_serialized_size_eq {header : TcpHeader} (h : optionsSize header.m_options ≤ 40) :
    header.get_serialized_size = (20 + optionsSize header.m_options + 3) / 4 * 4 := by
  rw [get_serialized_size, calculate_header_length]
  simp only [UInt8.toNat_ofNat', Nat.shiftRight_eq_div_pow]
  split <;> omega

theorem optionLen_eq {m_length : UInt8} {offset : ℕ} (h : m_length.toNat = offset) (hoffset : offset ≤ 15) :
    ((m_length.toUInt32 - 5) * 4 > m_maxOptionsLen ↔ offset < 5) ∧
      (5 ≤ offset → ((m_length.toUInt32 - 5) * 4).toNat = 4 * (offset - 5)) := by
  have hword : m_length.toUInt32.toNat = offset := by rw [UInt8.toNat_toUInt32, h]
  have hmax : m_maxOptionsLen.toNat = 40 := rfl
  have hfive : (5 : UInt32).toNat = 5 := rfl
  have hfour : (4 : UInt32).toNat = 4 := rfl
  have hvalue : ((m_length.toUInt32 - 5) * 4).toNat = (2 ^ 32 - 5 + offset) % 2 ^ 32 * 4 % 2 ^ 32 := by
    rw [UInt32.toNat_mul, UInt32.toNat_sub, hword, hfive, hfour]
  rw [gt_iff_lt, UInt32.lt_iff_toNat_lt, hvalue, hmax]
  omega

theorem dataOffset_le (bytes : List UInt8) : dataOffset bytes ≤ 15 := by
  have hlt := (bytes.getD 12 0).toNat_lt
  rw [dataOffset]
  omega

theorem at_start {space : ℕ} (h : 20 + space ≤ bytes.length) : At bytes space ⟨20, space, [], 0, 20⟩ :=
  ⟨rfl, Nat.zero_add space, le_rfl, h⟩

theorem fits_iff_accepts {header : TcpHeader} {offset space : ℕ} {turn : Turn} (hoffset : 5 ≤ offset)
    (hle : offset ≤ 15) (hspace : space = 4 * (offset - 5)) :
    Fits offset (match turn with
      | .next _ => .running
      | .overrun => .overrun
      | .abort s => .abort s.extent
      | .leave s =>
        let header := { header with m_options := s.m_options, m_optionsLen := s.m_optionsLen }
        .returned header header.get_serialized_size s.extent) ↔ Accepts space turn := by
  have hmax : max 20 (4 * offset) = 20 + space := by omega
  cases turn with
  | next s => exact Iff.rfl
  | overrun => exact Iff.rfl
  | abort s =>
    rw [Accepts, ← hmax]
    rfl
  | leave s =>
    simp only [Fits, Accepts, hmax, ← hspace]
    constructor
    · rintro ⟨hextent, hsize, hlength⟩
      rw [get_serialized_size_eq (by exact hsize.trans (by omega))] at hlength
      have hlength := hlength hoffset
      simp only at hlength
      exact ⟨hextent, hsize, by omega⟩
    · rintro ⟨hextent, hsize, hlength⟩
      refine ⟨hextent, hsize, fun _ => ?_⟩
      rw [get_serialized_size_eq (by exact hsize.trans (by omega))]
      simp only
      omega

/-- The state that the loop over the options starts in. -/
def start (bytes : List UInt8) : Options := ⟨20, 4 * (dataOffset bytes - 5), [], 0, 20⟩

theorem parses_iff_completes (h : 60 ≤ bytes.length) (hoffset : 5 ≤ dataOffset bytes) :
    Parses bytes ↔ Completes bytes (4 * (dataOffset bytes - 5)) (start bytes) := by
  obtain ⟨header, hfields, hlength, _⟩ := deserialize_fields_spec bytes (by omega)
  have hle := dataOffset_le bytes
  obtain ⟨hillegal, hspace⟩ := optionLen_eq hlength hle
  have hspace := hspace hoffset
  have hread : bytes.length - (bytes.drop 20).length = 20 := by
    rw [List.length_drop]
    omega
  refine exists_congr fun turns => ?_
  rw [deserialize, hfields]
  simp only [hread, if_neg (mt hillegal.mp (not_lt.mpr hoffset)), hspace]
  exact fits_iff_accepts hoffset hle rfl

theorem parses_of_illegal (h : 60 ≤ bytes.length) (hoffset : dataOffset bytes < 5) : Parses bytes := by
  obtain ⟨header, hfields, hlength, hoptions⟩ := deserialize_fields_spec bytes (by omega)
  obtain ⟨hillegal, _⟩ := optionLen_eq hlength (dataOffset_le bytes)
  have hread : bytes.length - (bytes.drop 20).length = 20 := by
    rw [List.length_drop]
    omega
  refine ⟨0, ?_⟩
  rw [deserialize, hfields]
  simp only [hread, if_pos (hillegal.mpr hoffset), Fits, hoptions]
  exact ⟨le_max_left _ _, Nat.zero_le _, fun hle => absurd hoffset (not_lt.mpr hle)⟩

/-- The parse of a segment with 60 bytes or more ends well exactly where the options are left out or parsable. -/
theorem parses_iff (h : 60 ≤ bytes.length) :
    Parses bytes ↔ dataOffset bytes < 5 ∨ Parsable (optionSpace bytes) := by
  by_cases hoffset : dataOffset bytes < 5
  · exact iff_of_true (parses_of_illegal h hoffset) (Or.inl hoffset)
  · have hat : At bytes (4 * (dataOffset bytes - 5)) (start bytes) := at_start (by have := dataOffset_le bytes; omega)
    rw [or_iff_right hoffset, parses_iff_completes h (not_lt.mp hoffset)]
    exact completes_iff_parsable hat rfl

def zeros (n : ℕ) : List UInt8 := List.replicate n 0

/-- A segment with these options, and zeros in its other fields and behind them. -/
def segment (offset : UInt8) (options : List UInt8) : List UInt8 :=
  zeros 12 ++ [offset <<< 4] ++ zeros 7 ++ options ++ zeros 40

theorem parses_iff_mss : Parses (segment 6 [2, 4, 5, 180]) := by
  apply (parses_iff (by decide)).mpr
  right
  have hspace : optionSpace (segment 6 [2, 4, 5, 180]) = [2, 4, 5, 180] := by decide
  rw [hspace]
  exact .whole (by decide) (by decide) rfl (by decide) .nil

/-- An unknown option with a length byte of 0 keeps the loop going for ever. -/
theorem zero_length_option : ¬ Parses (segment 6 [254, 0, 1, 1]) := by
  rw [parses_iff_completes (by decide) (by decide)]
  have hfront : (segment 6 [254, 0, 1, 1]).drop 20 = 254 :: 0 :: 1 :: 1 :: zeros 40 := by decide
  exact not_completes_of_zero (by decide) (by decide) rfl (by decide) hfront

end TcpHeader

end Ns3
